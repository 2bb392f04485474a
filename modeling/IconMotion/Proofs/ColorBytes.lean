import IconMotion.Color
import IconMotion.Proofs.ExactArithmetic
import IconMotion.Proofs.Roundoff

namespace IconMotion.Color

open Precision

/-- The byte nearest to a fraction is the one that the fraction was made from. -/
def KeepsBytes (α : Type) [Scalar α] : Prop :=
  ∀ n < 256, fromUnit (toUnit (ofNat n : α)) = UInt8.ofNat n

theorem abs_floor_half_sub_le {a : Rat} (ha : -1 / 2 ≤ a) : |(⌊a + 1 / 2⌋₊ : Rat) - a| ≤ 1 / 2 := by
  have hfloor := Nat.floor_le (show 0 ≤ a + 1 / 2 by linarith)
  have hlt := Nat.lt_floor_add_one (a + 1 / 2)
  rw [abs_le]
  constructor <;> linarith

/-- Two roundings, each of a number that is known to a thousandth, lead back to a byte. -/
theorem floor_half_eq_of_near {n : Nat} {a b : Rat} (ha : |a - n / 255 * 1000| ≤ 1 / 1000)
    (hb : |b - ⌊a + 1 / 2⌋₊ / 1000 * 255| ≤ 1 / 1000) : ⌊b + 1 / 2⌋₊ = n := by
  have hn : (0 : Rat) ≤ n := n.cast_nonneg
  rw [abs_le] at ha hb
  have hround := abs_le.mp (abs_floor_half_sub_le (show -1 / 2 ≤ a by linarith))
  have hlow : (n : Rat) ≤ b + 1 / 2 := by linarith
  exact (Nat.floor_eq_iff (hn.trans hlow)).mpr ⟨hlow, by linarith⟩

theorem ofNat_eq_cast (n : Nat) : (ofNat n : Rat) = n := by
  change Rat.ofScientific n false 0 = n
  simp [Rat.ofScientific_false_def]

theorem round_eq_floor_half {x : Rat} (hx : 0 ≤ x) : Scalar.round x = (⌊x + 1 / 2⌋₊ : Rat) := by
  have hround : Scalar.round x = if x < 0 then -(⌊1 / 2 - x⌋ : Rat) else (⌊x + 1 / 2⌋ : Rat) := rfl
  rw [hround, if_neg hx.not_gt, ← natCast_floor_eq_intCast_floor (by positivity)]

theorem toByte_hold_cast {n : Nat} (hn : n < 256) :
    Scalar.toByte (Scalar.hold 0.0 255.0 (n : Rat)) = UInt8.ofNat n := by
  have hcast : (n : Rat) ≤ 255 := by exact_mod_cast Nat.le_of_lt_succ hn
  have hhold : Scalar.hold 0.0 255.0 (n : Rat) = n := by
    norm_num [Scalar.hold, hcast.not_gt, (n.cast_nonneg : (0 : Rat) ≤ n).not_gt]
  have hbyte : Scalar.toByte (n : Rat) = UInt8.ofNat (min ⌊(n : Rat)⌋.toNat 255) := rfl
  rw [hhold, hbyte, Int.floor_natCast, Int.toNat_natCast, min_eq_left (Nat.le_of_lt_succ hn)]

theorem keepsBytes_exact : KeepsBytes Rat := by
  intro n hn
  have hlit : (255.0 : Rat) = 255 ∧ (1000.0 : Rat) = 1000 := by norm_num
  generalize ha : (n : Rat) / 255 * 1000 = a at *
  have hkeep : ⌊(⌊a + 1 / 2⌋₊ / 1000 * 255 : Rat) + 1 / 2⌋₊ = n :=
    floor_half_eq_of_near (a := a) (by simp [ha]) (by simp)
  have hunit : toUnit (ofNat n : Rat) = ⌊a + 1 / 2⌋₊ / 1000 := by
    rw [toUnit, ofNat_eq_cast, hlit.1, hlit.2, ha, round_eq_floor_half (ha ▸ by positivity)]
  have hround : Scalar.round (toUnit (ofNat n : Rat) * 255.0) = n := by
    rw [hunit, hlit.1, round_eq_floor_half (by positivity), hkeep]
  rw [fromUnit, hround, toByte_hold_cast hn]

theorem exactly_zero_literal : Exactly 0.0 0 := exactly_iff.mpr (.inl ⟨rfl, .positive, rfl⟩)

theorem exactly_255 : Exactly 255.0 255 :=
  exactly_iff.mpr (.inr ⟨255 * 2 ^ 45, -45, by norm_num, rfl, by norm_num⟩)

theorem exactly_1000 : Exactly 1000.0 1000 :=
  exactly_iff.mpr (.inr ⟨1000 * 2 ^ 43, -43, by norm_num, rfl, by norm_num⟩)

theorem moderate_255 : Moderate 8 255 := by
  exact_mod_cast moderate_natCast (n := 255) (show 255 ≤ 2 ^ 8 by norm_num)

theorem moderate_1000 : Moderate 10 1000 := by
  exact_mod_cast moderate_natCast (n := 1000) (show 1000 ≤ 2 ^ 10 by norm_num)

/-- The fraction of a byte is a count of thousandths, give or take a millionth. What is rounded to that
count is the exact share of a thousand, give or take a thousandth. -/
theorem exists_exactly_toUnit {n : Nat} (hn : n < 256) :
    ∃ a z : Rat, |a - n / 255 * 1000| ≤ 1 / 1000 ∧ Exactly (toUnit (ofNat n : Float)) z ∧
      Moderate 21 z ∧ z ≤ 2 ∧ |z - ⌊a + 1 / 2⌋₊ / 1000| ≤ 1 / 1000000 := by
  have hshare : (n : Rat) / 255 ≤ 1 := by
    rw [div_le_one (by norm_num)]
    exact_mod_cast Nat.le_of_lt_succ hn
  have hnat : Exactly (ofNat n) n := stands_iff_exactly.mp (stands_ofScientific (by omega))
  have hmoderate : Moderate 16 ((n : Rat) / 255) :=
    (moderate_natCast (show n ≤ 2 ^ 8 by omega)).div moderate_255
  obtain ⟨x, hx, hnear⟩ := hnat.div exactly_255 (by norm_num) (hmoderate.mono (by norm_num))
  have hmoderate := (hmoderate.of_near hnear).mul moderate_1000
  obtain ⟨a, ha, hnear'⟩ := hx.mul exactly_1000 (hmoderate.mono (by norm_num))
  have habs : |a - n / 255 * 1000| ≤ 1 / 1000 := by
    rw [abs_le] at hnear hnear' ⊢
    constructor <;> linarith
  have hle : a < 1000 + 1 / 2 := by linarith [(abs_le.mp habs).2]
  have hround := ha.round (hle.trans (by norm_num))
  have hcount : ⌊a + 1 / 2⌋₊ ≤ 1000 := by
    rw [← Nat.lt_succ_iff, Nat.floor_lt' (by norm_num)]
    norm_num
    linarith
  have hmoderate : Moderate 20 (⌊a + 1 / 2⌋₊ / 1000) :=
    (moderate_natCast (show ⌊a + 1 / 2⌋₊ ≤ 2 ^ 10 by omega)).div moderate_1000
  have hcount : (⌊a + 1 / 2⌋₊ : Rat) ≤ 1000 := by exact_mod_cast hcount
  obtain ⟨z, hz, hnear⟩ := (stands_iff_exactly.mp hround).div exactly_1000 (by norm_num)
    (hmoderate.mono (by norm_num))
  refine ⟨a, z, habs, hz, hmoderate.of_near hnear, ?_, hnear.trans ?_⟩
  · linarith [(abs_le.mp hnear).2]
  · linarith

theorem isFinite_toUnit {n : Nat} (hn : n < 256) : (toUnit (ofNat n : Float)).isFinite = true := by
  obtain ⟨a, z, -, hz, -⟩ := exists_exactly_toUnit hn
  exact hz.isFinite

theorem hold_eq_self {x : Float} {n : Nat} (hx : Exactly x n) (hn : n < 256) :
    Scalar.hold 0.0 255.0 x = x := by
  have hlow : ¬ x < 0.0 := by
    rw [hx.lt_iff exactly_zero_literal]
    exact n.cast_nonneg.not_gt
  have hhigh : ¬ 255.0 < x := by
    rw [exactly_255.lt_iff hx]
    exact_mod_cast (Nat.le_of_lt_succ hn).not_gt
  exact (if_neg (by rwa [if_neg hlow])).trans (if_neg hlow)

theorem keepsBytes_double : KeepsBytes Float := by
  intro n hn
  obtain ⟨a, z, ha, hz, hmoderate, hle, hnear⟩ := exists_exactly_toUnit hn
  obtain ⟨b, hb, hnear'⟩ := hz.mul exactly_255 ((hmoderate.mul moderate_255).mono (by norm_num))
  have hkeep : ⌊b + 1 / 2⌋₊ = n := by
    refine floor_half_eq_of_near ha ?_
    rw [abs_le] at hnear hnear' ⊢
    constructor <;> linarith
  have hstands : Stands (Scalar.round (toUnit (ofNat n : Float) * 255.0)) n := by
    have hround := hb.round (by
      norm_num
      linarith [(abs_le.mp hnear').2])
    rwa [hkeep] at hround
  rw [fromUnit, hold_eq_self (stands_iff_exactly.mp hstands) hn]
  exact toUInt8_of_stands hstands hn

end IconMotion.Color
