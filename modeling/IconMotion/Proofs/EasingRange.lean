import Mathlib.Order.Interval.Set.UnorderedInterval
import IconMotion.Proofs.EasingSearch
import IconMotion.Proofs.Holding

namespace IconMotion

open Set

namespace Easing

variable {a b t x : Rat} {p q : Pair Rat}

theorem solve_of_nonpos (hx : x ≤ 0) : solve p q x = 0 := by
  rw [solve, Scalar.exact_zero, if_pos hx]

theorem solve_of_one_le (hx : 1 ≤ x) : solve p q x = 1 := by
  have hpos : ¬ x ≤ 0 := not_le.mpr (zero_lt_one.trans_le hx)
  rw [solve, Scalar.exact_zero, if_neg hpos, Scalar.exact_one, if_pos hx]

theorem solve_of_between (h0 : 0 < x) (h1 : x < 1) :
    solve p q x = curve p.y q.y (refine p.x q.x x 8 x) := by
  rw [solve, Scalar.exact_zero, if_neg h0.not_ge, Scalar.exact_one, if_neg h1.not_ge]

theorem mem_of_curve_mem (h : curve 0 0 t ∈ Icc (0 : Rat) 1) : t ∈ Icc (0 : Rat) 1 := by
  have hcube : curve 0 0 t = t ^ 3 := by
    rw [curve_eq]
    ring
  rw [hcube] at h
  refine ⟨?_, ?_⟩
  · by_contra ht
    exact h.1.not_gt (Odd.pow_neg (by decide) (not_le.mp ht))
  · by_contra ht
    exact h.2.not_gt (one_lt_pow₀ (not_le.mp ht) (by decide))

/-- The first handle at five sixths of the time at most and the second one at one sixth at least. -/
theorem zero_le_newton_of_handles (ha : a ≤ 5 / 6) (hb : b ∈ Icc (1 / 6) 1) (ht : t ∈ Icc 0 1)
    (h : 0 < slope a b t) : 0 ≤ newton a b t t := by
  obtain ⟨ht0, ht1⟩ := ht
  obtain ⟨hb0, hb1⟩ := hb
  have hsplit : t - (curve a b t + slope a b t * (0 - t)) =
      t * (6 * (t * (1 - t)) * (5 / 6 - a) +
        6 / 5 * ((1 - b) * (6 * (t - 3 / 8) ^ 2 + 5 / 32) + (b - 1 / 6) * (1 - t) ^ 2)) := by
    rw [curve_eq, slope_eq]
    ring
  have hu : 0 ≤ 1 - t := sub_nonneg.mpr ht1
  have ha' : 0 ≤ 5 / 6 - a := sub_nonneg.mpr ha
  have hb' : 0 ≤ b - 1 / 6 := sub_nonneg.mpr hb0
  have hb'' : 0 ≤ 1 - b := sub_nonneg.mpr hb1
  rw [le_newton_iff h, ← sub_nonneg, hsplit]
  positivity

theorem startsInside_of_handles (ha : a ∈ Icc 0 (5 / 6)) (hb : b ∈ Icc (1 / 6) 1) :
    StartsInside a b := by
  intro t ht h
  refine ⟨zero_le_newton_of_handles ha.2 hb ht h, ?_⟩
  have hmirror : 0 ≤ newton (1 - b) (1 - a) (1 - t) (1 - t) :=
    zero_le_newton_of_handles (by linarith [hb.1]) ⟨by linarith [ha.2], by linarith [ha.1]⟩
      (mirror_mem ht) (by rwa [slope_mirror])
  rw [newton_mirror] at hmirror
  linarith

def InUnit (p : Pair Rat) : Prop := p.x ∈ Icc 0 1 ∧ p.y ∈ Icc 0 1

theorem solve_mem (hp : InUnit p) (hq : InUnit q) (h : StartsInside p.x q.x) (x : Rat) :
    solve p q x ∈ Icc (0 : Rat) 1 := by
  rcases le_or_gt x 0 with h0 | h0
  · rw [solve_of_nonpos h0]
    exact ⟨le_rfl, zero_le_one⟩
  · rcases le_or_gt 1 x with h1 | h1
    · rw [solve_of_one_le h1]
      exact ⟨zero_le_one, le_rfl⟩
    · rw [solve_of_between h0 h1]
      exact curve_mem hp.2 hq.2 (refine_mem hp.1 hq.1 ⟨h0.le, h1.le⟩ h)

theorem solve_mem_iff (h0 : 0 < x) (h1 : x < 1) :
    (∀ c ∈ Icc (0 : Rat) 1, ∀ d ∈ Icc (0 : Rat) 1,
      solve ⟨p.x, c⟩ ⟨q.x, d⟩ x ∈ Icc (0 : Rat) 1) ↔ refine p.x q.x x 8 x ∈ Icc (0 : Rat) 1 := by
  simp only [solve_of_between h0 h1]
  have hzero : (0 : Rat) ∈ Icc (0 : Rat) 1 := ⟨le_rfl, zero_le_one⟩
  exact ⟨fun h => mem_of_curve_mem (h 0 hzero 0 hzero), fun h c hc d hd => curve_mem hc hd h⟩

end Easing

namespace Mix

variable {a b t : Rat}

theorem even_mem_Icc_iff (h : a < b) : even a b t ∈ Icc a b ↔ t ∈ Icc (0 : Rat) 1 := by
  have hlength : 0 < b - a := sub_pos.mpr h
  have hlow : a ≤ even a b t ↔ 0 ≤ t := by
    rw [even, le_add_iff_nonneg_right, mul_nonneg_iff_of_pos_left hlength]
  have hhigh : even a b t ≤ b ↔ t ≤ 1 := by
    rw [even, ← le_sub_iff_add_le', mul_le_iff_le_one_right hlength]
  rw [mem_Icc, mem_Icc, hlow, hhigh]

theorem even_swap (a b t : Rat) : even b a (1 - t) = even a b t := by
  simp only [even]
  ring

theorem even_mem_uIcc_iff : even a b t ∈ uIcc a b ↔ a = b ∨ t ∈ Icc (0 : Rat) 1 := by
  rcases lt_trichotomy a b with h | rfl | h
  · rw [uIcc_of_lt h, even_mem_Icc_iff h, or_iff_right h.ne]
  · simp [even]
  · have hmirror : 1 - t ∈ Icc (0 : Rat) 1 ↔ t ∈ Icc (0 : Rat) 1 := by
      constructor <;> rintro ⟨h0, h1⟩ <;> constructor <;> linarith
    rw [uIcc_of_gt h, ← even_swap, even_mem_Icc_iff h, hmirror, or_iff_right h.ne']

end Mix

namespace Track

theorem segment_mem_uIcc_iff {a b : Keyframe Rat Rat} {frame fallback : Rat} :
    segment a b frame id fallback ∈ uIcc (origin a fallback) (goal a b fallback) ↔
      b.time ≤ a.time ∨ a.hold = some 1 ∨ origin a fallback = goal a b fallback ∨
        share a b frame ∈ Icc (0 : Rat) 1 := by
  have hsegment : segment a b frame id fallback =
      if b.time ≤ a.time then origin a fallback
      else if a.hold = some 1 then origin a fallback
      else Mix.even (origin a fallback) (goal a b fallback) (share a b frame) := by
    simp only [segment, Option.map_id, id_eq, origin, goal, share, Scalar.exact_zero, sub_nonpos]
    rfl
  rw [hsegment]
  by_cases htime : b.time ≤ a.time
  · simp [htime]
  · by_cases hhold : a.hold = some 1
    · simp [htime, hhold]
    · simp only [htime, hhold, if_false, false_or, Mix.even_mem_uIcc_iff]

end Track

namespace Easing

/-- Eased values are in range, whatever the heights of the handles, where the search ends at a parameter
between zero and one. That is so for every time if the first step leads to one from every time, as it
does if the handles do not reach too far beyond each other. -/
theorem solve_in_range_with_search {p q : Pair Rat} (hp : InUnit p) (hq : InUnit q) :
    (∀ x, x ≤ 0 ∨ 1 ≤ x → solve p q x ∈ Icc (0 : Rat) 1) ∧
    (∀ x, 0 < x → x < 1 →
      ((∀ c ∈ Icc (0 : Rat) 1, ∀ d ∈ Icc (0 : Rat) 1,
        solve ⟨p.x, c⟩ ⟨q.x, d⟩ x ∈ Icc (0 : Rat) 1) ↔ refine p.x q.x x 8 x ∈ Icc (0 : Rat) 1)) ∧
    (StartsInside p.x q.x → ∀ x, solve p q x ∈ Icc (0 : Rat) 1) ∧
    (p.x ≤ 5 / 6 → 1 / 6 ≤ q.x → StartsInside p.x q.x) ∧
    ∀ (a b : Keyframe Rat Rat) (frame fallback : Rat),
      a.easeOut.getD ⟨0.0, 0.0⟩ = p → b.easeIn.getD ⟨1.0, 1.0⟩ = q →
      (Track.segment a b frame id fallback ∈
          uIcc (Track.origin a fallback) (Track.goal a b fallback) ↔
        b.time ≤ a.time ∨ a.hold = some 1 ∨ Track.origin a fallback = Track.goal a b fallback ∨
          solve p q ((frame - a.time) / (b.time - a.time)) ∈ Icc (0 : Rat) 1) := by
  refine ⟨fun x hx => ?_, fun x => solve_mem_iff, solve_mem hp hq, fun hpx hqx => ?_, ?_⟩
  · rcases hx with hx | hx
    · rw [solve_of_nonpos hx]
      exact ⟨le_rfl, zero_le_one⟩
    · rw [solve_of_one_le hx]
      exact ⟨zero_le_one, le_rfl⟩
  · exact startsInside_of_handles ⟨hp.1.1, hpx⟩ ⟨hqx, hq.1.2⟩
  · rintro a b frame fallback rfl rfl
    exact Track.segment_mem_uIcc_iff

theorem solve_in_range_between_quarters :
    InUnit ⟨3 / 4, 0⟩ ∧ InUnit ⟨1 / 4, 1⟩ ∧
      ∀ x, solve (⟨3 / 4, 0⟩ : Pair Rat) ⟨1 / 4, 1⟩ x ∈ Icc (0 : Rat) 1 := by
  have hp : InUnit ⟨3 / 4, 0⟩ := by norm_num [InUnit]
  have hq : InUnit ⟨1 / 4, 1⟩ := by norm_num [InUnit]
  obtain ⟨-, -, hinside, hhandles, -⟩ := solve_in_range_with_search hp hq
  exact ⟨hp, hq, hinside (hhandles (by norm_num) (by norm_num))⟩

/-- With both handles at the start the curve is a straight line. It is nearly level at a hundredth of the
time, so that the first step leads far away, and there are too few steps to come back. -/
theorem search_leaves_straight_line :
    InUnit ⟨0, 0⟩ ∧ solve (⟨0, 0⟩ : Pair Rat) ⟨0, 0⟩ (1 / 100) ∉ Icc (0 : Rat) 1 ∧
    (1.0 : Float32) < solve ⟨0.0, 0.0⟩ ⟨0.0, 0.0⟩ 0.01 := by
  have hbeyond : (1 : Rat) < solve ⟨0, 0⟩ ⟨0, 0⟩ (1 / 100) := by decide +kernel
  exact ⟨by norm_num [InUnit], fun h => h.2.not_gt hbeyond, by decide +kernel⟩

end Easing

end IconMotion
