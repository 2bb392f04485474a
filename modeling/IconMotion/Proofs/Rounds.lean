import Mathlib.Tactic.Ring
import IconMotion.Proofs.ExactArithmetic
import IconMotion.Proofs.History

namespace IconMotion

namespace Playhead

inductive Move (α : Type) where
  | advance (dt : α)
  | goTo (frame : α)
  | update
  | play
  | pause
  | speed (speed : α)
  | direction (direction : Direction)
  | looping (looping : Bool)

section Operations

variable {α : Type} [Scalar α]

def perform (p : Playhead α) : Move α → Option (Playhead α)
  | .advance dt => p.advance dt
  | .goTo frame => p.goTo frame
  | .update => some p
  | .play => some { p with paused := false }
  | .pause => some { p with paused := true }
  | .speed speed => some { p with speed }
  | .direction direction => some { p with direction }
  | .looping looping => some { p with looping }

def run (p : Playhead α) (moves : List (Move α)) : Option (Playhead α) := moves.foldlM perform p

end Operations

end Playhead

namespace Player

/-- An operation of playback without the sampling. -/
def Move.motion : Move → Playhead.Move Float32
  | .advance dt => .advance dt
  | .goTo frame => .goTo frame
  | .update => .update
  | .play => .play
  | .pause => .pause
  | .speed s => .speed s
  | .direction d => .direction d
  | .looping l => .looping l

theorem playhead_perform (p : Player) (move : Move) :
    (p.perform move).map (·.playhead) = p.playhead.perform move.motion := by
  cases move with
  | advance dt =>
    simp only [perform, advance, Move.motion, Playhead.perform]
    by_cases hpaused : p.playhead.paused = true
    · simp only [if_pos hpaused, Playhead.advance, Option.map_some]
    · simp only [if_neg hpaused, Option.map_map]
      exact Option.map_id'
  | goTo frame =>
    simp only [perform, goTo, Move.motion, Playhead.perform, Option.map_map]
    exact Option.map_id'
  | update | play | pause | speed | direction | looping => rfl

theorem playhead_playback (p : Player) (moves : List Move) :
    (p.playback moves).map (·.playhead) = p.playhead.run (moves.map Move.motion) := by
  induction moves generalizing p with
  | nil => rfl
  | cons move moves ih =>
    have hstep := playhead_perform p move
    simp only [playback, Playhead.run, List.map_cons, List.foldlM_cons, Option.bind_eq_bind]
    rw [← hstep]
    cases p.perform move with
    | none => rfl
    | some p' => exact ih p'

theorem playhead_of_load {document : Json} {p : Player} (h : load document = .ok p) :
    ∃ frameRate inPoint outPoint : Float32, ∀ moves : List Move,
      (p.playback moves).map (·.playhead) =
        (Playhead.start frameRate inPoint outPoint).run (moves.map Move.motion) := by
  obtain ⟨a, -, -, rfl⟩ := load_eq_ok.mp h
  exact ⟨a.frameRate, a.inPoint, a.outPoint, playhead_playback _⟩

end Player

namespace Playhead

variable {p q : Playhead Rat}

def Within (p : Playhead Rat) : Prop := p.frame ∈ Set.Icc p.inPoint p.outPoint

theorem within_goTo {x : Rat} (h : p.goTo x = some q) : q.Within := by
  obtain ⟨frame, hframe, rfl⟩ := Option.map_eq_some_iff.mp h
  unfold Scalar.clamp? at hframe
  split at hframe
  next hends =>
    cases hframe
    exact Scalar.hold_mem_Icc hends x
  · cases hframe

theorem duration_pos (h : p.inPoint < p.outPoint) : 0 < p.duration := sub_pos.mpr h

theorem not_duration_le_zero (h : p.inPoint < p.outPoint) : ¬ p.duration ≤ 0.0 := by
  rw [Scalar.exact_zero]
  exact not_le.mpr (duration_pos h)

theorem inPoint_add_duration (p : Playhead Rat) : p.inPoint + p.duration = p.outPoint :=
  add_sub_cancel _ _

/-- To go around is to reduce modulo the duration, to the range from the first end up to the last. -/
theorem around_eq_toIcoMod (h : p.inPoint < p.outPoint) (x : Rat) :
    p.around x = toIcoMod (duration_pos h) p.inPoint x := by
  unfold around
  split
  · rw [Scalar.wrap_eq_toIcoMod (duration_pos h), toIcoMod_eq_sub _ p.inPoint, add_comm]
  next hbetween =>
    obtain ⟨hout, hin⟩ := not_or.mp hbetween
    symm
    refine (toIcoMod_eq_self _).mpr ⟨not_lt.mp hin, ?_⟩
    rw [inPoint_add_duration]
    exact not_le.mp hout

theorem around_mem_Ico (h : p.inPoint < p.outPoint) (x : Rat) :
    p.around x ∈ Set.Ico p.inPoint p.outPoint := by
  rw [around_eq_toIcoMod h, ← inPoint_add_duration]
  exact toIcoMod_mem_Ico _ _ _

theorem within_move {dt : Rat} (hends : p.inPoint ≤ p.outPoint) (h : p.move dt = some q) :
    q.Within := by
  unfold move at h
  rw [Scalar.exact_zero] at h
  split at h
  · cases h
    exact ⟨le_refl _, hends⟩
  next hduration =>
    split at h
    · cases h
      have hlt : p.inPoint < p.outPoint := sub_pos.mp (not_le.mp hduration)
      exact Set.Ico_subset_Icc_self (around_mem_Ico hlt _)
    · obtain ⟨r, hr, rfl⟩ := Option.map_eq_some_iff.mp h
      have hwithin : r.Within := within_goTo hr
      exact hwithin

theorem exists_perform (hends : p.inPoint ≤ p.outPoint) (hwithin : p.Within) (move : Move Rat) :
    ∃ q, p.perform move = some q ∧ p.SameEnds q ∧ q.Within := by
  cases move with
  | advance dt =>
    by_cases hpaused : p.paused = true
    · exact ⟨p, by simp only [perform, advance, if_pos hpaused], ⟨rfl, rfl⟩, hwithin⟩
    · obtain ⟨q, hq⟩ := exists_move hends dt
      exact ⟨q, by simp only [perform, advance, if_neg hpaused, hq], sameEnds_move hq,
        within_move hends hq⟩
  | goTo frame =>
    obtain ⟨q, hq⟩ := exists_goTo hends frame
    exact ⟨q, hq, sameEnds_goTo hq, within_goTo hq⟩
  | update | play | pause | speed | direction | looping => exact ⟨_, rfl, ⟨rfl, rfl⟩, hwithin⟩

theorem exists_run (hends : p.inPoint ≤ p.outPoint) (hwithin : p.Within) (moves : List (Move Rat)) :
    ∃ q, p.run moves = some q ∧ p.SameEnds q ∧ q.Within := by
  induction moves generalizing p with
  | nil => exact ⟨p, rfl, ⟨rfl, rfl⟩, hwithin⟩
  | cons move moves ih =>
    obtain ⟨r, hr, ⟨hin, hout⟩, hwithin⟩ := exists_perform hends hwithin move
    obtain ⟨q, hq, hsame, hq'⟩ := ih (by rw [hin, hout]; exact hends) hwithin
    refine ⟨q, ?_, ⟨hsame.1.trans hin, hsame.2.trans hout⟩, hq'⟩
    simp only [run, List.foldlM_cons, hr, Option.bind_eq_bind, Option.bind_some]
    exact hq

theorem advance_around (hends : p.inPoint < p.outPoint) (hlooping : p.looping = true)
    (hpaused : p.paused = false) (dt : Rat) :
    p.advance dt =
      some { p with frame := toIcoMod (duration_pos hends) p.inPoint (p.unbounded dt) } := by
  simp [advance, move, hpaused, hlooping, not_duration_le_zero hends, around_eq_toIcoMod hends]

/-- The steps of two advances add up, whatever turns the first one has taken off. -/
theorem advance_advance (hends : p.inPoint < p.outPoint) (hlooping : p.looping = true)
    (hpaused : p.paused = false) (a b : Rat) :
    (p.advance a).bind (·.advance b) = p.advance (a + b) := by
  have hduration := duration_pos hends
  obtain ⟨frame, hframe⟩ : ∃ frame, frame = toIcoMod hduration p.inPoint (p.unbounded a) := ⟨_, rfl⟩
  obtain ⟨turns, hturns⟩ : ∃ turns : ℤ, frame + turns • p.duration = p.unbounded a :=
    ⟨_, hframe ▸ toIcoMod_add_toIcoDiv_zsmul hduration p.inPoint _⟩
  let q : Playhead Rat := { p with frame }
  have hfirst : p.advance a = some q := by rw [advance_around hends hlooping hpaused, ← hframe]
  have hsecond : q.advance b =
      some { p with frame := toIcoMod hduration p.inPoint (q.unbounded b) } :=
    advance_around (p := q) hends hlooping hpaused b
  have hsum : p.unbounded (a + b) = q.unbounded b + turns • p.duration := by
    have hsplit : p.unbounded (a + b) =
        p.unbounded a + b * p.frameRate * p.speed * p.direction.sign := by
      simp only [unbounded]
      ring
    rw [hsplit, ← hturns]
    simp only [unbounded, q]
    ring
  rw [hfirst, Option.bind_some, hsecond, advance_around hends hlooping hpaused (a + b), hsum,
    toIcoMod_add_zsmul]

/-- A loaded player shows what its playhead runs through from the first frame on. Read exactly, such a
run shows frames between the ends only, and an advance of a looping playhead is motion modulo the
duration, to a frame before the end. -/
theorem looping_playback_is_modular :
    (∀ (document : Json) (player : Player), Player.load document = .ok player →
      ∃ frameRate inPoint outPoint : Float32, ∀ moves : List Player.Move,
        (player.playback moves).map (·.playhead) =
          (start frameRate inPoint outPoint).run (moves.map Player.Move.motion)) ∧
    (∀ (frameRate inPoint outPoint : Rat) (moves : List (Move Rat)), inPoint ≤ outPoint →
      ∃ p, (start frameRate inPoint outPoint).run moves = some p ∧
        p.frame ∈ Set.Icc inPoint outPoint) ∧
    ∀ p : Playhead Rat, p.looping = true → p.paused = false → p.inPoint < p.outPoint →
      (∀ dt, ∃ q, p.advance dt = some q ∧ q.frame ∈ Set.Ico p.inPoint p.outPoint ∧
        q.frame ≡ p.frame + dt * p.frameRate * p.speed * p.direction.sign
          [PMOD p.outPoint - p.inPoint]) ∧
      ∀ a b, (p.advance a).bind (·.advance b) = p.advance (a + b) := by
  refine ⟨fun _ _ => Player.playhead_of_load, fun frameRate inPoint outPoint moves hends => ?_,
    fun p hlooping hpaused hends => ⟨fun dt => ?_, advance_advance hends hlooping hpaused⟩⟩
  · obtain ⟨p, hp, ⟨hin, hout⟩, hwithin⟩ :=
      exists_run (p := start frameRate inPoint outPoint) hends ⟨le_refl _, hends⟩ moves
    rw [Within, hin, hout] at hwithin
    exact ⟨p, hp, hwithin⟩
  · refine ⟨_, advance_around hends hlooping hpaused dt, ?_, ?_⟩
    · rw [← inPoint_add_duration]
      exact toIcoMod_mem_Ico _ _ _
    · refine (toIcoMod_inj (duration_pos hends) (c := p.inPoint)).mp ?_
      exact toIcoMod_toIcoMod _ _ _ _

def reel : Playhead Rat := { start 10 5 20 with frame := 7, speed := -3 }

theorem looping_playback_is_modular_on_reel :
    (∃ player, Player.load Json.sizeAndAxis = .ok player ∧
      ∃ frameRate inPoint outPoint : Float32,
        (player.playback [.pause]).map (·.playhead) =
          (start frameRate inPoint outPoint).run [.pause]) ∧
    (∃ p, (start 10 5 20).run
        [.speed (-3), .advance 1, .looping false, .direction .reverse, .advance 7] = some p ∧
      p.frame ∈ Set.Icc (5 : Rat) 20) ∧
    (reel.looping = true ∧ reel.paused = false ∧ reel.inPoint < reel.outPoint) ∧
    (∃ q, reel.advance 4 = some q ∧ q.frame ∈ Set.Ico (5 : Rat) 20) ∧
    (reel.advance 4).bind (·.advance (-1)) = reel.advance (4 + -1) := by
  obtain ⟨hplays, hruns, hturns⟩ := looping_playback_is_modular
  obtain ⟨player, hload⟩ : ∃ player, Player.load Json.sizeAndAxis = .ok player := ⟨_, rfl⟩
  obtain ⟨frameRate, inPoint, outPoint, hplayer⟩ := hplays _ player hload
  have hends : reel.inPoint < reel.outPoint := show (5 : Rat) < 20 by norm_num
  obtain ⟨hadvance, hsum⟩ := hturns reel rfl rfl hends
  obtain ⟨q, hq, hframe, -⟩ := hadvance 4
  exact ⟨⟨player, hload, frameRate, inPoint, outPoint, hplayer [.pause]⟩,
    hruns 10 5 20 _ (by norm_num), ⟨rfl, rfl, hends⟩, ⟨q, hq, hframe⟩, hsum 4 (-1)⟩

end Playhead

end IconMotion
