import Mathlib.Data.Rat.Lemmas
import Mathlib.Order.Interval.Set.Defs
import Mathlib.Tactic.Linarith
import Mathlib.Tactic.Positivity
import Mathlib.Tactic.LinearCombination
import IconMotion.Motion.Easing
import IconMotion.Proofs.ExactArithmetic

namespace IconMotion.Easing

open Set

variable {a b s t x : Rat}

theorem curve_eq (a b t : Rat) :
    curve a b t = 3 * (1 - t) ^ 2 * t * a + 3 * (1 - t) * t ^ 2 * b + t ^ 3 := by
  have h : curve a b t = 3 * (1 - t) * (1 - t) * t * a + 3 * (1 - t) * t * t * b + t * t * t := by
    norm_num [curve]
  rw [h]
  ring

theorem slope_eq (a b t : Rat) :
    slope a b t = 3 * (1 - t) ^ 2 * a + 6 * (1 - t) * t * (b - a) + 3 * t ^ 2 * (1 - b) := by
  have h : slope a b t =
      3 * (1 - t) * (1 - t) * a + 6 * (1 - t) * t * (b - a) + 3 * t * t * (1 - b) := by
    norm_num [slope]
  rw [h]
  ring

theorem curve_mirror (a b t : Rat) : curve (1 - b) (1 - a) (1 - t) = 1 - curve a b t := by
  rw [curve_eq, curve_eq]
  ring

theorem slope_mirror (a b t : Rat) : slope (1 - b) (1 - a) (1 - t) = slope a b t := by
  rw [slope_eq, slope_eq]
  ring

theorem slope_nonneg (ha : a ∈ Icc 0 1) (hb : b ∈ Icc 0 1) (ht : t ∈ Icc 0 1) : 0 ≤ slope a b t := by
  obtain ⟨ha, ha'⟩ := ha
  obtain ⟨hb, hb'⟩ := hb
  obtain ⟨ht, ht'⟩ := ht
  have hcorners : slope a b t = 3 * (a * (1 - b) * (1 - 2 * t) ^ 2 + (1 - a) * (1 - b) * t ^ 2 +
      2 * ((1 - a) * b * ((1 - t) * t)) + a * b * (1 - t) ^ 2) := by
    rw [slope_eq]
    ring
  have ha'' : 0 ≤ 1 - a := sub_nonneg.mpr ha'
  have hb'' : 0 ≤ 1 - b := sub_nonneg.mpr hb'
  have ht'' : 0 ≤ 1 - t := sub_nonneg.mpr ht'
  rw [hcorners]
  positivity

theorem mirror_mem (ht : t ∈ Icc (0 : Rat) 1) : 1 - t ∈ Icc (0 : Rat) 1 :=
  ⟨sub_nonneg.mpr ht.2, sub_le_self 1 ht.1⟩

theorem curve_nonneg (ha : a ∈ Icc 0 1) (hb : b ∈ Icc 0 1) (ht : t ∈ Icc 0 1) : 0 ≤ curve a b t := by
  have ha' := ha.1
  have hb' := hb.1
  have ht' := ht.1
  have ht'' : 0 ≤ 1 - t := sub_nonneg.mpr ht.2
  rw [curve_eq]
  positivity

theorem curve_mem (ha : a ∈ Icc 0 1) (hb : b ∈ Icc 0 1) (ht : t ∈ Icc 0 1) :
    curve a b t ∈ Icc 0 1 := by
  refine ⟨curve_nonneg ha hb ht, ?_⟩
  have hmirror := curve_nonneg (mirror_mem hb) (mirror_mem ha) (mirror_mem ht)
  rw [curve_mirror] at hmirror
  linarith

/-- By Simpson's rule, which is exact here. -/
theorem curve_mono (ha : a ∈ Icc 0 1) (hb : b ∈ Icc 0 1) (hs : 0 ≤ s) (hst : s ≤ t) (ht : t ≤ 1) :
    curve a b s ≤ curve a b t := by
  have hrule : curve a b t - curve a b s =
      (t - s) / 6 * (slope a b s + 4 * slope a b ((s + t) / 2) + slope a b t) := by
    simp only [curve_eq, slope_eq]
    ring
  have hfirst := slope_nonneg ha hb ⟨hs, hst.trans ht⟩
  have hlast := slope_nonneg ha hb ⟨hs.trans hst, ht⟩
  have hmiddle : 0 ≤ slope a b ((s + t) / 2) := slope_nonneg ha hb ⟨by linarith, by linarith⟩
  have hlength : 0 ≤ t - s := sub_nonneg.mpr hst
  rw [← sub_nonneg, hrule]
  positivity

/-- A sixth of the second derivative. -/
def bend (a b t : Rat) : Rat := (1 - t) * (b - 2 * a) + t * (1 + a - 2 * b)

theorem curve_eq_tangent (a b s t : Rat) :
    curve a b s =
      curve a b t + slope a b t * (s - t) + (s - t) ^ 2 * (2 * bend a b t + bend a b s) := by
  simp only [curve_eq, slope_eq, bend]
  ring

theorem curve_le_tangent (ht : bend a b t ≤ 0) (hs : bend a b s ≤ 0) :
    curve a b s ≤ curve a b t + slope a b t * (s - t) := by
  rw [curve_eq_tangent a b s t]
  have hbend : (s - t) ^ 2 * (2 * bend a b t + bend a b s) ≤ 0 :=
    mul_nonpos_of_nonneg_of_nonpos (sq_nonneg _) (by linarith)
  linarith

theorem tangent_le_curve (ht : 0 ≤ bend a b t) (hs : 0 ≤ bend a b s) :
    curve a b t + slope a b t * (s - t) ≤ curve a b s := by
  rw [curve_eq_tangent a b s t]
  have hbend : 0 ≤ (s - t) ^ 2 * (2 * bend a b t + bend a b s) := by positivity
  linarith

theorem exists_turn (hfirst : b ≤ 2 * a) (hlast : 2 * b ≤ 1 + a) :
    ∃ r ∈ Icc (0 : Rat) 1, (∀ t ≤ r, bend a b t ≤ 0) ∧ ∀ t, r ≤ t → 0 ≤ bend a b t := by
  have hbend : ∀ t, bend a b t = t * ((2 * a - b) + (1 + a - 2 * b)) - (2 * a - b) := by
    intro t
    rw [bend]
    ring
  rcases (show 0 ≤ (2 * a - b) + (1 + a - 2 * b) by linarith).eq_or_lt with hzero | hpos
  · refine ⟨0, ⟨le_rfl, zero_le_one⟩, fun t _ => ?_, fun t _ => ?_⟩
    · rw [hbend, ← hzero]
      linarith
    · rw [hbend, ← hzero]
      linarith
  · refine ⟨(2 * a - b) / ((2 * a - b) + (1 + a - 2 * b)), ⟨?_, ?_⟩, fun t ht => ?_, fun t ht => ?_⟩
    · exact div_nonneg (sub_nonneg.mpr hfirst) hpos.le
    · rw [div_le_one hpos]
      linarith
    · rw [hbend]
      linarith [(le_div_iff₀ hpos).mp ht]
    · rw [hbend]
      linarith [(div_le_iff₀ hpos).mp ht]

end IconMotion.Easing
