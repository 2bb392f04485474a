import IconMotion.Proofs.Rounds

namespace IconMotion

namespace Direction

theorem sign_forward : (forward.sign : Rat) = 1 := by norm_num [sign]

theorem sign_reverse : (reverse.sign : Rat) = -1 := by norm_num [sign]

end Direction

namespace Playhead

variable {p : Playhead Rat} {dt : Rat}

structure PlaysOnce (p : Playhead Rat) : Prop where
  unpaused : p.paused = false
  once : p.looping = false
  ends : p.inPoint < p.outPoint
  within : p.frame ∈ Set.Icc p.inPoint p.outPoint

theorem PlaysOnce.advance (h : p.PlaysOnce) (dt : Rat) :
    p.advance dt = some { p with
      frame := Scalar.hold p.inPoint p.outPoint (p.unbounded dt)
      paused := p.finishes (p.unbounded dt) } := by
  simp [Playhead.advance, move, goTo, Scalar.clamp?, h.unpaused, h.once, h.ends.le,
    not_duration_le_zero h.ends]

theorem PlaysOnce.finishes_iff (h : p.PlaysOnce)
    (hoff : p.unbounded dt ∉ Set.Icc p.inPoint p.outPoint) :
    p.finishes (p.unbounded dt) = true ↔ 0 < dt * p.frameRate * p.speed := by
  obtain ⟨hin, hout⟩ := h.within
  have hends := h.ends
  have hpassed : p.unbounded dt < p.inPoint ∨ p.outPoint < p.unbounded dt := by
    by_contra hnot
    obtain ⟨hlow, hhigh⟩ := not_or.mp hnot
    exact hoff ⟨not_lt.mp hlow, not_lt.mp hhigh⟩
  -- The frame shown is between the ends, so the one that was passed lies the way the frames moved.
  cases hdirection : p.direction with
  | forward =>
    have htarget : p.unbounded dt = p.frame + dt * p.frameRate * p.speed := by
      rw [unbounded, hdirection, Direction.sign_forward, mul_one]
    simp only [finishes, hdirection, decide_eq_true_eq]
    constructor <;> intro <;> rcases hpassed with hpassed | hpassed <;> linarith
  | reverse =>
    have htarget : p.unbounded dt = p.frame - dt * p.frameRate * p.speed := by
      rw [unbounded, hdirection, Direction.sign_reverse]
      ring
    simp only [finishes, hdirection, decide_eq_true_eq]
    constructor <;> intro <;> rcases hpassed with hpassed | hpassed <;> linarith

theorem run_advances_of_paused (h : p.paused = true) (dts : List Rat) :
    p.run (dts.map .advance) = some p := by
  induction dts with
  | nil => rfl
  | cons dt dts ih =>
    have hstep : p.perform (.advance dt) = some p := by
      simp only [perform, Playhead.advance, if_pos h]
    simp only [run, List.map_cons, List.foldlM_cons, hstep, Option.bind_eq_bind, Option.bind_some]
    exact ih

/-- An advance off an end comes to that end. It stops the playhead exactly if the frames move the way
the direction says, that is, if speed, frame rate and time do not reverse it. A stopped playhead stays
where it is. -/
theorem stops_iff_along_direction (h : p.PlaysOnce)
    (hoff : p.unbounded dt ∉ Set.Icc p.inPoint p.outPoint) :
    ∃ q, p.advance dt = some q ∧ q = { p with frame := q.frame, paused := q.paused } ∧
      (p.unbounded dt < p.inPoint → q.frame = p.inPoint) ∧
      (p.outPoint < p.unbounded dt → q.frame = p.outPoint) ∧
      (q.paused = true ↔ 0 < dt * p.frameRate * p.speed) ∧
      (q.paused = true → ∀ dts : List Rat, q.run (dts.map .advance) = some q) := by
  refine ⟨_, h.advance dt, rfl, ?_, ?_, ?_, ?_⟩
  · exact Scalar.hold_of_lt h.ends.le
  · exact Scalar.hold_of_gt h.ends.le
  · exact h.finishes_iff hoff
  · exact run_advances_of_paused

def shuttle (speed : Rat) : Playhead Rat :=
  { start 10 0 20 with frame := 5, speed, looping := false }

theorem playsOnce_shuttle (speed : Rat) : (shuttle speed).PlaysOnce where
  unpaused := rfl
  once := rfl
  ends := show (0 : Rat) < 20 by norm_num
  within := show (5 : Rat) ∈ Set.Icc 0 20 by norm_num

theorem unbounded_shuttle (speed dt : Rat) : (shuttle speed).unbounded dt = 5 + dt * 10 * speed := by
  norm_num [unbounded, shuttle, start, Direction.sign]

theorem stops_iff_along_direction_on_shuttle :
    (shuttle 2).PlaysOnce ∧ (shuttle 2).unbounded 1 ∉ Set.Icc (0 : Rat) 20 ∧
    ∃ q, (shuttle 2).advance 1 = some q ∧ q.frame = 20 ∧ q.paused = true ∧
      ∀ dts : List Rat, q.run (dts.map .advance) = some q := by
  have htarget : (shuttle 2).unbounded 1 = 25 := by norm_num [unbounded_shuttle]
  have hoff : (shuttle 2).unbounded 1 ∉ Set.Icc (0 : Rat) 20 := by norm_num [htarget]
  obtain ⟨q, hq, -, -, hend, hstops, hstays⟩ :=
    stops_iff_along_direction (playsOnce_shuttle 2) hoff
  have hframe : q.frame = 20 := hend (show (20 : Rat) < (shuttle 2).unbounded 1 by norm_num [htarget])
  have hpaused : q.paused = true := hstops.mpr (show (0 : Rat) < 1 * 10 * 2 by norm_num)
  exact ⟨playsOnce_shuttle 2, hoff, q, hq, hframe, hpaused, hstays hpaused⟩

/-- At a negative speed the shuttle comes to its first frame and is not stopped there: a later advance
moves it on. -/
theorem shuttle_runs_on_at_first_frame :
    (shuttle (-1)).PlaysOnce ∧ (shuttle (-1)).unbounded 1 < 0 ∧
    ∃ q, (shuttle (-1)).advance 1 = some q ∧ q.frame = 0 ∧ q.paused = false ∧
      ∃ r, q.advance (-1) = some r ∧ r.frame = 10 := by
  have hlow : (shuttle (-1)).unbounded 1 < 0 := by norm_num [unbounded_shuttle]
  have hunfinished : (shuttle (-1)).finishes ((shuttle (-1)).unbounded 1) = false := by
    refine decide_eq_false fun hpast : (20 : Rat) ≤ (shuttle (-1)).unbounded 1 => ?_
    linarith
  have hfirst := (playsOnce_shuttle (-1)).advance 1
  rw [Scalar.hold_of_lt (playsOnce_shuttle (-1)).ends.le hlow, hunfinished] at hfirst
  have hagain : ({ shuttle (-1) with frame := 0 } : Playhead Rat).PlaysOnce :=
    { playsOnce_shuttle (-1) with within := show (0 : Rat) ∈ Set.Icc 0 20 by norm_num }
  refine ⟨playsOnce_shuttle (-1), hlow, _, hfirst, rfl, rfl, _, hagain.advance (-1), ?_⟩
  norm_num [unbounded, shuttle, start, Direction.sign, Scalar.hold]

end Playhead

end IconMotion
