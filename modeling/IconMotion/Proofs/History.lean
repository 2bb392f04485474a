import IconMotion.Proofs.Parallel
import IconMotion.Proofs.Playing
import IconMotion.Proofs.Sampling

namespace IconMotion.Player

open Live

variable {p p' : Player} {move : Move}

theorem tree_of_samplesOn (h : p.perform move = some p') (hsamples : p.samplesOn move = true) :
    p'.tree = p.tree.update p'.playhead.frame := by
  cases move with
  | advance dt =>
    have hpaused : p.playhead.paused = false := by simpa [samplesOn] using hsamples
    rw [perform, advance, hpaused] at h
    obtain ⟨playhead, -, rfl⟩ := Option.map_eq_some_iff.mp h
    rfl
  | goTo frame =>
    obtain ⟨playhead, -, rfl⟩ := Option.map_eq_some_iff.mp h
    rfl
  | update =>
    cases h
    rfl
  | play | pause | speed | direction | looping => cases hsamples

theorem unsampled_perform (h : p.perform move = some p') : p'.tree.unsampled = p.tree.unsampled := by
  obtain ⟨playhead, tree, rfl, -, ⟨-, rfl⟩ | ⟨-, frame, rfl⟩⟩ := perform_eq_some h
  · rfl
  · exact Tree.unsampled_update p.tree frame

def playback (p : Player) (moves : List Move) : Option Player := moves.foldlM perform p

theorem unsampled_playback {moves : List Move} (h : p.playback moves = some p') :
    p'.tree.unsampled = p.tree.unsampled := by
  induction moves generalizing p with
  | nil =>
    cases h
    rfl
  | cons move moves ih =>
    obtain ⟨p₁, hp₁, h⟩ := Option.bind_eq_some_iff.mp h
    exact (ih h).trans (unsampled_perform hp₁)

/-- Operations of playback of which the last one samples, and takes the player `before` to the player
`after`. -/
def EndsSampled (p : Player) (moves : List Move) (before after : Player) : Prop :=
  ∃ earlier last, moves = earlier ++ [last] ∧ p.playback earlier = some before ∧
    before.samplesOn last = true ∧ before.perform last = some after

/-- Two runs of playback that come to the same frame and sample there leave the same value in every slot
that is not keyframed or whose keyframes decide the value at that frame. In any other slot the value
depends on the past by way of what the slot held just before. -/
theorem sample_forgets_past {before₁ after₁ before₂ after₂ : Player} {moves₁ moves₂ : List Move}
    (h₁ : p.EndsSampled moves₁ before₁ after₁) (h₂ : p.EndsSampled moves₂ before₂ after₂)
    (hframe : after₁.playhead.frame = after₂.playhead.frame) (i j k : Nat) :
    (p.tree.Complete i j k → after₁.tree.slot? i j k = after₂.tree.slot? i j k) ∧
    (p.tree.Decided after₁.playhead.frame i j k →
      after₁.tree.slot? i j k = after₂.tree.slot? i j k) ∧
    (before₁.tree.slot? i j k = before₂.tree.slot? i j k →
      after₁.tree.slot? i j k = after₂.tree.slot? i j k) := by
  obtain ⟨earlier₁, last₁, rfl, hbefore₁, hsamples₁, hafter₁⟩ := h₁
  obtain ⟨earlier₂, last₂, rfl, hbefore₂, hsamples₂, hafter₂⟩ := h₂
  have htree₁ := tree_of_samplesOn hafter₁ hsamples₁
  have htree₂ := tree_of_samplesOn hafter₂ hsamples₂
  have hpast₁ := unsampled_playback hbefore₁
  have hpast₂ := unsampled_playback hbefore₂
  have hsame : before₁.tree.Decided after₁.playhead.frame i j k ∨
      before₁.tree.slot? i j k = before₂.tree.slot? i j k →
      after₁.tree.slot? i j k = after₂.tree.slot? i j k := by
    intro h
    rw [htree₁, htree₂, ← hframe]
    exact Tree.slot?_update_congr (hpast₁.trans hpast₂.symm) h
  refine ⟨fun h => ?_, fun h => ?_, fun h => hsame (.inr h)⟩
  · exact hsame (.inl ((h.decided _).of_unsampled hpast₁))
  · exact hsame (.inl (h.of_unsampled hpast₁))

def ramp (last : List (String × Json)) : Json :=
  .rig [.rigField "Size" "ADBE Slider Control"
    (.arr [.obj [("e", .arr [.num (.int 10)]), ("s", .arr [.num (.int 0)]), ("t", .num (.int 0))],
      .obj (last ++ [("t", .num (.int 10))])])]

theorem complete_ramp (h : Player.load (ramp [("s", .arr [.num (.int 10)])]) = .ok p) :
    p.tree.Complete 0 0 0 := by
  obtain ⟨p', a, b, hp', htrack, ha, hb⟩ :
      ∃ p' a b, Player.load (ramp [("s", .arr [.num (.int 10)])]) = .ok p' ∧
        p'.tree.track? 0 0 0 = some (.keyed [a, b]) ∧ a.start.isSome ∧ b.start.isSome :=
    ⟨_, _, _, rfl, rfl, rfl, rfl⟩
  cases hp'.symm.trans h
  intro ks hks
  cases htrack.symm.trans hks
  exact Track.complete_of_starts (by simp) (by simp [ha, hb])

theorem sample_forgets_past_on_ramp : ∃ p before₁ after₁ before₂ after₂ : Player,
    Player.load (ramp [("s", .arr [.num (.int 10)])]) = .ok p ∧
    p.EndsSampled [.advance 0.5] before₁ after₁ ∧
    p.EndsSampled [.goTo 8.0, .goTo 5.0] before₂ after₂ ∧
    after₁.playhead.frame = after₂.playhead.frame ∧ p.tree.Complete 0 0 0 ∧
    after₁.tree.slot? 0 0 0 = after₂.tree.slot? 0 0 0 := by
  obtain ⟨p, before₁, after₁, before₂, after₂, hp, h₁, h₂, hframe⟩ :
      ∃ p before₁ after₁ before₂ after₂ : Player,
        Player.load (ramp [("s", .arr [.num (.int 10)])]) = .ok p ∧
        p.EndsSampled [.advance 0.5] before₁ after₁ ∧
        p.EndsSampled [.goTo 8.0, .goTo 5.0] before₂ after₂ ∧
        after₁.playhead.frame = after₂.playhead.frame :=
    ⟨_, _, _, _, _, rfl, ⟨[], .advance 0.5, rfl, rfl, rfl, rfl⟩,
      ⟨[.goTo 8.0], .goTo 5.0, rfl, rfl, rfl, rfl⟩, by decide +kernel⟩
  have hcomplete := complete_ramp hp
  obtain ⟨hsame, -, -⟩ := sample_forgets_past h₁ h₂ hframe 0 0 0
  exact ⟨p, before₁, after₁, before₂, after₂, hp, h₁, h₂, hframe, hcomplete, hsame hcomplete⟩

/-- Past an end that has no value of its own, the slider stays at whatever it was sampled as before. -/
theorem open_ramp_remembers_past : ∃ p before₁ after₁ before₂ after₂ : Player,
    Player.load (ramp []) = .ok p ∧
    p.EndsSampled [.goTo 5.0, .goTo 15.0] before₁ after₁ ∧
    p.EndsSampled [.goTo 8.0, .goTo 15.0] before₂ after₂ ∧
    after₁.playhead.frame = after₂.playhead.frame ∧
    after₁.tree.slot? 0 0 0 ≠ after₂.tree.slot? 0 0 0 := by
  refine ⟨_, _, _, _, _, rfl, ⟨[.goTo 5.0], .goTo 15.0, rfl, rfl, rfl, rfl⟩,
    ⟨[.goTo 8.0], .goTo 15.0, rfl, rfl, rfl, rfl⟩, by decide +kernel, fun h => ?_⟩
  have hfive := congrArg (·.any (Json.same (.arr [.num (.float 5.0)]))) h
  revert hfive
  decide +kernel

end IconMotion.Player
