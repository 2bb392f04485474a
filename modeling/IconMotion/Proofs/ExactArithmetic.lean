import Mathlib.Algebra.Order.ToIntervalMod
import Mathlib.Data.Rat.Floor
import Mathlib.Tactic.Linarith
import Mathlib.Tactic.NormNum
import Mathlib.Tactic.Ring
import IconMotion.Number.Scalar

namespace IconMotion

namespace Scalar

theorem exact_zero : (0.0 : Rat) = 0 := by norm_num

theorem exact_one : (1.0 : Rat) = 1 := by norm_num

theorem abs_eq (x : Rat) : abs x = |x| := by
  rw [abs, exact_zero]
  split
  next h => rw [abs_of_neg h]
  next h => rw [abs_of_nonneg (not_lt.mp h)]

def towardZero (q : Rat) : Int := if q < 0 then -⌊-q⌋ else ⌊q⌋

theorem rem_eq (x m : Rat) : rem x m = x - m * towardZero (x / m) := rfl

variable {x m : Rat}

/-- A remainder has the sign of the dividend and is shorter than the divisor. -/
theorem rem_bounds (hm : 0 < m) : (x < 0 → -m < rem x m ∧ rem x m ≤ 0) ∧
    (0 ≤ x → 0 ≤ rem x m ∧ rem x m < m) := by
  have hx : x = m * (x / m) := by field_simp
  rw [rem_eq]
  constructor
  · intro hneg
    have hq : x / m < 0 := div_neg_of_neg_of_pos hneg hm
    have hle : (⌊-(x / m)⌋ : Rat) ≤ -(x / m) := Int.floor_le _
    have hlt : -(x / m) < ⌊-(x / m)⌋ + 1 := Int.lt_floor_add_one _
    rw [towardZero, if_pos hq]
    push_cast
    constructor <;> nlinarith
  · intro hpos
    have hq : ¬ x / m < 0 := not_lt.mpr (div_nonneg hpos hm.le)
    have hle : (⌊x / m⌋ : Rat) ≤ x / m := Int.floor_le _
    have hlt : x / m < ⌊x / m⌋ + 1 := Int.lt_floor_add_one _
    rw [towardZero, if_neg hq]
    constructor <;> nlinarith

theorem wrap_eq_toIcoMod (hm : 0 < m) : wrap x m = toIcoMod hm 0 x := by
  have habs : abs m = m := by
    rw [abs_eq, abs_of_pos hm]
  obtain ⟨hneg, hpos⟩ := rem_bounds (x := x) hm
  symm
  rw [toIcoMod_eq_iff, wrap, exact_zero, habs, zero_add]
  by_cases hrem : rem x m < 0
  · have hx : x < 0 := by
      by_contra hx
      linarith [(hpos (not_lt.mp hx)).1]
    simp only [if_pos hrem]
    refine ⟨⟨by linarith [(hneg hx).1], by linarith⟩, towardZero (x / m) - 1, ?_⟩
    rw [rem_eq, zsmul_eq_mul]
    push_cast
    ring
  · have hlt : rem x m < m := by
      rcases lt_or_ge x 0 with hx | hx
      · linarith [(hneg hx).2]
      · exact (hpos hx).2
    simp only [if_neg hrem]
    refine ⟨⟨not_lt.mp hrem, hlt⟩, towardZero (x / m), ?_⟩
    rw [rem_eq, zsmul_eq_mul]
    ring

theorem hold_mem_Icc {lo hi : Rat} (h : lo ≤ hi) (x : Rat) : hold lo hi x ∈ Set.Icc lo hi := by
  unfold hold
  dsimp only
  split <;> split <;> constructor <;> linarith

theorem hold_of_lt {lo hi x : Rat} (h : lo ≤ hi) (hx : x < lo) : hold lo hi x = lo := by
  simp only [hold, if_pos hx, if_neg h.not_gt]

theorem hold_of_gt {lo hi x : Rat} (h : lo ≤ hi) (hx : hi < x) : hold lo hi x = hi := by
  have hlo : ¬ x < lo := (h.trans hx.le).not_gt
  simp only [hold, if_neg hlo, if_pos hx]

end Scalar

end IconMotion
