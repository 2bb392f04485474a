import IconMotion.Proofs.Channels

namespace IconMotion

namespace Playhead

variable {α : Type} [Scalar α] {p q : Playhead α} {x : α}

def SameEnds (p q : Playhead α) : Prop := q.inPoint = p.inPoint ∧ q.outPoint = p.outPoint

theorem sameEnds_goTo (h : p.goTo x = some q) : p.SameEnds q := by
  obtain ⟨frame, -, rfl⟩ := Option.map_eq_some_iff.mp h
  exact ⟨rfl, rfl⟩

theorem exists_goTo (h : p.inPoint ≤ p.outPoint) (x : α) : ∃ q, p.goTo x = some q := by
  simp only [goTo, Scalar.clamp?, if_pos h]
  exact ⟨_, rfl⟩

theorem sameEnds_move (h : p.move x = some q) : p.SameEnds q := by
  unfold move at h
  split at h
  · cases h
    exact ⟨rfl, rfl⟩
  · split at h
    · cases h
      exact ⟨rfl, rfl⟩
    · obtain ⟨r, hr, rfl⟩ := Option.map_eq_some_iff.mp h
      have hends : p.SameEnds r := sameEnds_goTo hr
      exact hends

theorem exists_move (h : p.inPoint ≤ p.outPoint) (x : α) : ∃ q, p.move x = some q := by
  obtain ⟨q, hq⟩ := exists_goTo h (p.unbounded x)
  simp only [move, hq, Option.map_some]
  split
  · exact ⟨_, rfl⟩
  · split <;> exact ⟨_, rfl⟩

theorem sameEnds_advance (h : p.advance x = some q) : p.SameEnds q := by
  unfold advance at h
  split at h
  · cases h
    exact ⟨rfl, rfl⟩
  · exact sameEnds_move h

theorem exists_advance (h : p.inPoint ≤ p.outPoint) (x : α) : ∃ q, p.advance x = some q := by
  unfold advance
  split
  · exact ⟨p, rfl⟩
  · exact exists_move h x

end Playhead

namespace Player

inductive Move where
  | advance (dt : Float32)
  | goTo (frame : Float32)
  | update
  | play
  | pause
  | speed (speed : Float32)
  | direction (direction : Direction)
  | looping (looping : Bool)

/-- The player after an operation; none if it panics. -/
def perform (p : Player) : Move → Option Player
  | .advance dt => p.advance dt
  | .goTo frame => p.goTo frame
  | .update => some p.update
  | .play => some p.play
  | .pause => some p.pause
  | .speed speed => some (p.setSpeed speed)
  | .direction direction => some (p.setDirection direction)
  | .looping looping => some (p.setLooping looping)

def samplesOn (p : Player) : Move → Bool
  | .advance _ => !p.playhead.paused
  | .goTo _ | .update => true
  | _ => false

variable {p p' : Player} {move : Move}

/-- All that an operation can do. -/
theorem perform_eq_some (h : p.perform move = some p') :
    ∃ playhead tree, p' = { p with playhead, tree } ∧ p.playhead.SameEnds playhead ∧
      (p.samplesOn move = false ∧ tree = p.tree ∨
        p.samplesOn move = true ∧ ∃ frame, tree = p.tree.update frame) := by
  cases move with
  | advance dt =>
    simp only [perform, advance] at h
    split at h
    next hpaused =>
      cases h
      exact ⟨p.playhead, p.tree, rfl, ⟨rfl, rfl⟩, .inl ⟨by simp [samplesOn, hpaused], rfl⟩⟩
    next hpaused =>
      obtain ⟨playhead, hmove, rfl⟩ := Option.map_eq_some_iff.mp h
      exact ⟨playhead, _, rfl, Playhead.sameEnds_advance hmove,
        .inr ⟨by simp [samplesOn, hpaused], _, rfl⟩⟩
  | goTo frame =>
    obtain ⟨playhead, hmove, rfl⟩ := Option.map_eq_some_iff.mp h
    exact ⟨playhead, _, rfl, Playhead.sameEnds_goTo hmove, .inr ⟨rfl, _, rfl⟩⟩
  | update =>
    cases h
    exact ⟨p.playhead, _, rfl, ⟨rfl, rfl⟩, .inr ⟨rfl, _, rfl⟩⟩
  | play | pause | speed | direction | looping =>
    cases h
    exact ⟨_, p.tree, rfl, ⟨rfl, rfl⟩, .inl ⟨rfl, rfl⟩⟩

theorem exists_perform (h : p.playhead.inPoint ≤ p.playhead.outPoint) (move : Move) :
    ∃ p', p.perform move = some p' := by
  cases move with
  | advance dt =>
    obtain ⟨q, hq⟩ := Playhead.exists_advance h dt
    simp only [perform, advance]
    split
    · exact ⟨p, rfl⟩
    · exact ⟨_, by rw [hq]; rfl⟩
  | goTo frame =>
    obtain ⟨q, hq⟩ := Playhead.exists_goTo h frame
    simp only [perform, goTo]
    exact ⟨_, by rw [hq]; rfl⟩
  | update | play | pause | speed | direction | looping => exact ⟨_, rfl⟩

theorem slot?_perform {i j k : Nat} (h : p.perform move = some p')
    (hstays : p.samplesOn move = false ∨ p.tree.Unkeyed i j k) :
    p'.tree.slot? i j k = p.tree.slot? i j k := by
  obtain ⟨playhead, tree, rfl, -, ⟨-, rfl⟩ | ⟨hsamples, frame, rfl⟩⟩ := perform_eq_some h
  · rfl
  · refine Live.Tree.slot?_update_of_unkeyed frame (hstays.resolve_left fun hno => ?_)
    rw [hsamples] at hno
    cases hno

theorem track?_perform (h : p.perform move = some p') (i j k : Nat) :
    p'.tree.track? i j k = p.tree.track? i j k := by
  obtain ⟨playhead, tree, rfl, -, ⟨-, rfl⟩ | ⟨-, frame, rfl⟩⟩ := perform_eq_some h
  · rfl
  · exact Live.Tree.track?_update p.tree frame i j k

end Player

end IconMotion
