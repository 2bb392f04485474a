import IconMotion.Proofs.History

namespace IconMotion

open Live

namespace Track

theorem sample_of_not_keyed {track : Track Float32 Json} (h : track.isKeyed = false)
    (f g : Float32) (d : Json) : track.sample f id d = track.sample g id d := by
  cases track with
  | keyed ks => cases h
  | empty | fixed => rfl

end Track

namespace Live.Tree

variable {t : Tree} {i j k : Nat} {frame : Float32}

/-- A slot holds what its track has at time zero of the layer. -/
def AtZero (t : Tree) (i j k : Nat) : Prop :=
  ∀ track, t.track? i j k = some track → t.slot? i j k = some (track.sample (0.0 : Float32) id .null)

def Current (t : Tree) (frame : Float32) (i j k : Nat) : Prop :=
  ∀ start track, t.start? i = some start → t.track? i j k = some track →
    t.slot? i j k = some (track.sample (frame - start) id .null)

theorem start?_update (t : Tree) (frame : Float32) (i : Nat) :
    (t.update frame).start? i = t.start? i := by
  rw [← start?_unsampled, unsampled_update, start?_unsampled]

theorem exists_start? {c : Channel} (h : t.channel? i j k = some c) :
    ∃ start, t.start? i = some start := by
  obtain ⟨l, hl, -⟩ := Option.bind_eq_some_iff.mp h
  exact ⟨l.startTime, by simp [start?, hl]⟩

theorem Current.slot?_eq {t' : Tree} (h : t.Current frame i j k) (h' : t'.Current frame i j k)
    (hstart : t'.start? i = t.start? i) (htrack : t'.track? i j k = t.track? i j k) :
    t'.slot? i j k = t.slot? i j k := by
  cases hc : t.channel? i j k with
  | none =>
    have hnone : t.track? i j k = none := by simp [track?, hc]
    have hc' : t'.channel? i j k = none := Option.map_eq_none_iff.mp (htrack.trans hnone)
    simp only [slot?, hc, hc']
  | some c =>
    obtain ⟨start, hs⟩ := exists_start? hc
    have ht : t.track? i j k = some c.source.track := by simp [track?, hc]
    rw [h start _ hs ht, h' start _ (hstart.trans hs) (htrack.trans ht)]

theorem AtZero.current_update (h : t.AtZero i j k) (hdecided : t.Decided frame i j k) :
    (t.update frame).Current frame i j k := by
  intro start track hstart htrack
  rw [start?_update] at hstart
  rw [track?_update] at htrack
  obtain ⟨c, hc, rfl⟩ := Option.map_eq_some_iff.mp htrack
  obtain ⟨l, hl, hupdate⟩ := channel?_update frame hc
  obtain rfl : l.startTime = start := by simpa [start?, hl] using hstart
  have hzero : c.value = c.source.track.sample (0.0 : Float32) id .null := by
    simpa [slot?, hc] using h _ htrack
  rw [slot?, hupdate, Option.map_some]
  cases hkeyed : c.isKeyed with
  | true =>
    rw [Channel.update_of_keyed hkeyed]
    exact congrArg some (Track.sample_congr hkeyed (hdecided _ _ hstart htrack) _ _)
  | false =>
    rw [Channel.update_of_not_keyed hkeyed, hzero]
    exact congrArg some (Track.sample_of_not_keyed hkeyed _ _ _)

theorem AtZero.current (h : t.AtZero i j k)
    (hzero : ∀ start, t.start? i = some start → frame - start = 0.0) : t.Current frame i j k := by
  intro start track hstart htrack
  rw [hzero start hstart]
  exact h track htrack

theorem atZero_ofAnimation (a : Animation) (i j k : Nat) : (ofAnimation a).AtZero i j k := by
  intro track htrack
  obtain ⟨c, hc, rfl⟩ := Option.map_eq_some_iff.mp htrack
  obtain ⟨l, hl, he⟩ := Option.bind_eq_some_iff.mp hc
  obtain ⟨e, he, hk⟩ := Option.bind_eq_some_iff.mp he
  -- Every channel of the tree comes from a value of the animation.
  obtain ⟨l', -, rfl⟩ := List.mem_map.mp (List.mem_of_getElem? hl)
  obtain ⟨e', -, rfl⟩ := List.mem_map.mp (List.mem_of_getElem? he)
  obtain ⟨v, -, rfl⟩ := List.mem_map.mp (List.mem_of_getElem? hk)
  rw [slot?, hc]
  rfl

end Live.Tree

namespace Player

variable {p : Player}

/-- The slots of a loaded player hold the samples at time zero of their layers. Where the keyframes
decide the value at the playhead, a new sample leaves a slot as it is exactly if that is its sample at
the playhead too; so it does in a layer that starts there. -/
theorem loaded_slot_is_current_iff {document : Json} (h : Player.load document = .ok p)
    (i j k : Nat) :
    p.playhead.frame = p.playhead.inPoint ∧ p.tree.AtZero i j k ∧
    (p.tree.Decided p.playhead.frame i j k →
      p.update.tree.Current p.playhead.frame i j k ∧
      (p.update.tree.slot? i j k = p.tree.slot? i j k ↔ p.tree.Current p.playhead.frame i j k) ∧
      ((∀ start, p.tree.start? i = some start → p.playhead.frame - start = 0.0) →
        p.update.tree.slot? i j k = p.tree.slot? i j k)) := by
  obtain ⟨a, -, -, rfl⟩ := load_eq_ok.mp h
  have hzero := Tree.atZero_ofAnimation a i j k
  refine ⟨rfl, hzero, fun hdecided => ?_⟩
  have hupdate := hzero.current_update hdecided
  have hstart := Tree.start?_update (Tree.ofAnimation a) a.inPoint i
  have htrack := Tree.track?_update (Tree.ofAnimation a) a.inPoint i j k
  refine ⟨hupdate, ⟨fun hsame => ?_, fun hcurrent => ?_⟩, fun hstarts => ?_⟩
  · intro start track hs ht
    exact hsame.symm.trans (hupdate start track (hstart.trans hs) (htrack.trans ht))
  · exact hcurrent.slot?_eq hupdate hstart htrack
  · exact (hzero.current hstarts).slot?_eq hupdate hstart htrack

theorem loaded_slot_is_current_on_ramp : ∃ p : Player,
    Player.load (ramp [("s", .arr [.num (.int 10)])]) = .ok p ∧
    p.tree.Decided p.playhead.frame 0 0 0 ∧
    (∀ start, p.tree.start? 0 = some start → p.playhead.frame - start = 0.0) ∧
    p.update.tree.slot? 0 0 0 = p.tree.slot? 0 0 0 := by
  obtain ⟨p, start, hp, hstart, hzero⟩ : ∃ (p : Player) (start : Float32),
      Player.load (ramp [("s", .arr [.num (.int 10)])]) = .ok p ∧
      p.tree.start? 0 = some start ∧ p.playhead.frame - start = 0.0 :=
    ⟨_, _, rfl, rfl, by decide +kernel⟩
  have hdecided := (complete_ramp hp).decided p.playhead.frame
  have hstarts : ∀ s, p.tree.start? 0 = some s → p.playhead.frame - s = 0.0 := by
    intro s hs
    cases hstart.symm.trans hs
    exact hzero
  obtain ⟨-, -, hloaded⟩ := loaded_slot_is_current_iff hp 0 0 0
  obtain ⟨-, -, hsame⟩ := hloaded hdecided
  exact ⟨p, hp, hdecided, hstarts, hsame hstarts⟩

/-- An icon that starts at frame five shows what the slider had at frame zero, up to the first sample. -/
theorem late_ramp_is_not_current : ∃ p : Player,
    Player.load ((ramp [("s", .arr [.num (.int 10)])]).replace [.key "ip"] (.num (.int 5))) = .ok p ∧
    p.update.tree.slot? 0 0 0 ≠ p.tree.slot? 0 0 0 := by
  refine ⟨_, rfl, fun h => ?_⟩
  have hzero := congrArg (·.any (Json.same (.arr [.num (.float 0.0)]))) h
  revert hzero
  decide +kernel

end Player

end IconMotion
