import IconMotion.Proofs.Differences
import IconMotion.Proofs.WholeNumbers

namespace IconMotion.Precision

open Float.Model Float.Model.UnpackedFloat

variable {spec : Format} {s : Sign} {m : Nat} {e : Int} {x y : Float} {p q : Rat}

theorem roundedMantissa_le (em : ExtendedMantissa) : em.roundedMantissa ≤ em.mantissa + 1 := by
  unfold ExtendedMantissa.roundedMantissa Accuracy.roundToNearestEven
  split <;> omega

theorem div_two_pow_bounds (hm : 2 ^ spec.mantissaBitsWithoutImplicit ≤ m) :
    2 ^ spec.mantissaBitsWithoutImplicit ≤ m / 2 ^ (m.log2 - spec.mantissaBitsWithoutImplicit) ∧
      m / 2 ^ (m.log2 - spec.mantissaBitsWithoutImplicit) < 2 ^ spec.mantissaBits := by
  have hpos : m ≠ 0 := (Nat.two_pow_pos _ |>.trans_le hm).ne'
  have hlog := (Nat.le_log2 hpos).mpr hm
  constructor
  · rw [Nat.le_div_iff_mul_le (by positivity), ← pow_add, Nat.add_sub_cancel' hlog]
    exact Nat.log2_self_le hpos
  · rw [Nat.div_lt_iff_lt_mul (by positivity), ← pow_add, Format.mantissaBits, Nat.add_assoc,
      Nat.add_sub_cancel' hlog, Nat.add_comm]
    exact Nat.lt_log2_self

theorem shiftToTargetExponent_of_le (hm : 2 ^ spec.mantissaBitsWithoutImplicit ≤ m)
    (he : spec.minExponent ≤ e) (a : Accuracy) :
    (shiftToTargetExponent spec m e a).1.mantissa =
        m / 2 ^ (m.log2 - spec.mantissaBitsWithoutImplicit) ∧
      (shiftToTargetExponent spec m e a).2 = e + (m.log2 - spec.mantissaBitsWithoutImplicit : Nat) := by
  have hpos : m ≠ 0 := (Nat.two_pow_pos _ |>.trans_le hm).ne'
  have hlog := (Nat.le_log2 hpos).mpr hm
  have hshift : (spec.targetExponent (totalExponent m e) - e).toNat =
      m.log2 - spec.mantissaBitsWithoutImplicit := by
    simp only [Format.targetExponent, totalExponent, Format.mantissaBits]
    omega
  simp only [shiftToTargetExponent, shiftToExponent, hshift, mantissa_shiftRight,
    mantissa_ofMantissaAndAccuracy, and_self]

/-- Only a mantissa that was rounded up to a power of two has a bit too many, and that is zero. -/
theorem two_pow_dvd_rounded {r : Nat} (hr : r ≤ 2 ^ spec.mantissaBits) (hpos : r ≠ 0) :
    2 ^ (r.log2 - spec.mantissaBitsWithoutImplicit) ∣ r := by
  rcases hr.lt_or_eq with hlt | rfl
  · have hlog := (Nat.log2_lt hpos).mpr hlt
    rw [Format.mantissaBits] at hlog
    rw [Nat.sub_eq_zero_of_le (by omega), pow_zero]
    exact one_dvd r
  · rw [Nat.log2_two_pow]
    exact pow_dvd_pow 2 (Nat.sub_le _ _)

theorem cast_div_two_pow {n k : Nat} (h : 2 ^ k ∣ n) (f : Int) :
    ((n / 2 ^ k : Nat) : Rat) * 2 ^ (f + k) = n * 2 ^ f := by
  obtain ⟨d, rfl⟩ := h
  rw [Nat.mul_div_cancel_left d (by positivity), zpow_add₀ (by norm_num), zpow_natCast]
  push_cast
  ring

theorem abs_sub_le_of_next {d r u w : Nat} (hd : d = m / u) (hu : 0 < u) (hw : 0 < w) (hwd : w ≤ d)
    (hdr : d ≤ r) (hrd : r ≤ d + 1) (hlow : (m : Rat) ≤ q) (hhigh : q < m + 1) :
    |r * u - q| ≤ q / w := by
  have hle : d * u ≤ m := hd ▸ Nat.div_mul_le_self m u
  have hlt : m + 1 ≤ (d + 1) * u := hd ▸ Nat.lt_mul_of_div_lt (Nat.lt_succ_self _) hu
  have hle : (d : Rat) * u ≤ q := le_trans (by exact_mod_cast hle) hlow
  have hlt : q ≤ (d + 1) * u := hhigh.le.trans (by exact_mod_cast hlt)
  have hdr : (d : Rat) * u ≤ r * u := by gcongr
  have hrd : (r : Rat) * u ≤ (d + 1) * u := by
    gcongr
    exact_mod_cast hrd
  have hunit : (u : Rat) ≤ q / w := by
    rw [le_div_iff₀ (by exact_mod_cast hw), mul_comm]
    exact le_trans (by gcongr) hle
  rw [abs_le]
  constructor <;> linarith

theorem exists_shifted {r : Nat} (hnormal : 2 ^ spec.mantissaBitsWithoutImplicit ≤ r)
    (hr : r ≤ 2 ^ spec.mantissaBits) (he : spec.minExponent ≤ e) :
    ∃ n f, (shiftToTargetExponent spec r e .exact).1.mantissa = n ∧
      (shiftToTargetExponent spec r e .exact).2 = f ∧ n < 2 ^ spec.mantissaBits ∧
      2 ^ spec.mantissaBitsWithoutImplicit ≤ n ∧ spec.minExponent ≤ f ∧
      (n : Rat) * 2 ^ f = r * 2 ^ e := by
  have hpos : r ≠ 0 := (Nat.two_pow_pos _ |>.trans_le hnormal).ne'
  obtain ⟨hmantissa, hexponent⟩ := shiftToTargetExponent_of_le hnormal he .exact
  obtain ⟨hlarge, hsmall⟩ := div_two_pow_bounds hnormal
  exact ⟨_, _, hmantissa, hexponent, hsmall, hlarge, by omega,
    cast_div_two_pow (two_pow_dvd_rounded hr hpos) e⟩

/-- What is rounded is a number `q` of which the mantissa is the whole part. The result is off by one unit
in the last place at most. -/
theorem exists_near (s : Sign) (hm : 2 ^ spec.mantissaBitsWithoutImplicit ≤ m)
    (he : spec.minExponent ≤ e) (a : Accuracy) (hlow : (m : Rat) ≤ q) (hhigh : q < m + 1) :
    ∃ n f hn, roundWithAccuracy spec s m e a = .finite s n f hn ∧ n < 2 ^ spec.mantissaBits ∧
      2 ^ spec.mantissaBitsWithoutImplicit ≤ n ∧ spec.minExponent ≤ f ∧
      |n * 2 ^ f - q * 2 ^ e| ≤ q * 2 ^ e / 2 ^ spec.mantissaBitsWithoutImplicit := by
  obtain ⟨hmantissa, hexponent⟩ := shiftToTargetExponent_of_le hm he a
  obtain ⟨hlarge, hsmall⟩ := div_two_pow_bounds hm
  have hup := le_roundedMantissa (shiftToTargetExponent spec m e a).1
  have hdown := roundedMantissa_le (shiftToTargetExponent spec m e a).1
  rw [hmantissa] at hup hdown
  have hmin : spec.minExponent ≤ (shiftToTargetExponent spec m e a).2 := by omega
  obtain ⟨n, f, hn, hf, hlt, hnormal, hmin, hvalue⟩ :=
    exists_shifted (hlarge.trans hup) (by omega) hmin
  have hpos : 0 < n := (Nat.two_pow_pos _).trans_le hnormal
  refine ⟨n, f, hpos, ?_, hlt, hnormal, hmin, ?_⟩
  · simp only [roundWithAccuracy, hn, hf, dif_neg hpos.ne']
  · have hnear := abs_sub_le_of_next rfl (Nat.two_pow_pos _) (Nat.two_pow_pos _) hlarge hup hdown
      hlow hhigh
    rw [hvalue, hexponent, zpow_add₀ (by norm_num), mul_comm ((2 : Rat) ^ e), ← mul_assoc, ← sub_mul,
      abs_mul, abs_of_pos (show (0 : Rat) < 2 ^ e by positivity), mul_div_right_comm]
    push_cast at hnear
    gcongr
    exact hnear

/-- The float is the number `q`, which is not negative. -/
def Exactly (x : Float) (q : Rat) : Prop :=
  match x.toModel.unpack with
  | .zero _ => q = 0
  | .finite .positive m e _ => q = m * 2 ^ e
  | _ => False

theorem exactly_iff :
    Exactly x q ↔ (q = 0 ∧ ∃ s, x.toModel.unpack = .zero s) ∨
      ∃ m e hm, x.toModel.unpack = .finite .positive m e hm ∧ q = m * 2 ^ e := by
  unfold Exactly
  split <;> simp_all

theorem stands_iff_exactly {n : Nat} : Stands x n ↔ Exactly x n := by
  unfold Stands Exactly
  split <;> simp [*]

theorem Exactly.isFinite (h : Exactly x q) : x.isFinite = true := by
  change x.toModel.unpack.isFinite = true
  rcases exactly_iff.mp h with ⟨-, s, hx⟩ | ⟨m, e, hm, hx, -⟩
  · rw [hx]
    rfl
  · rw [hx]
    rfl

/-- Zero, or a number of at most `k` binary places, before or behind the point. -/
def Moderate (k : Nat) (q : Rat) : Prop := q ≠ 0 → 2 ^ (-k : Int) ≤ q ∧ q ≤ 2 ^ (k : Int)

section Moderate

variable {j k : Nat} {z : Rat}

theorem Moderate.mono (h : Moderate j q) (hjk : j ≤ k) : Moderate k q := by
  intro hq
  obtain ⟨hlow, hhigh⟩ := h hq
  exact ⟨(zpow_le_zpow_right₀ (by norm_num) (by omega)).trans hlow,
    hhigh.trans (zpow_le_zpow_right₀ (by norm_num) (by omega))⟩

theorem moderate_natCast {n : Nat} (h : n ≤ 2 ^ k) : Moderate k n := by
  intro hn
  have hpos : 1 ≤ n := Nat.one_le_iff_ne_zero.mpr (by exact_mod_cast hn)
  refine ⟨le_trans ?_ (show (1 : Rat) ≤ n by exact_mod_cast hpos), ?_⟩
  · exact zpow_le_one_of_nonpos₀ (by norm_num) (by omega)
  · rw [zpow_natCast]
    exact_mod_cast h

theorem Moderate.mul (hp : Moderate j p) (hq : Moderate k q) : Moderate (j + k) (p * q) := by
  intro hpq
  obtain ⟨hlow, hhigh⟩ := hp (left_ne_zero_of_mul hpq)
  obtain ⟨hlow', hhigh'⟩ := hq (right_ne_zero_of_mul hpq)
  have hp0 : 0 ≤ p := le_trans (by positivity) hlow
  have hq0 : 0 ≤ q := le_trans (by positivity) hlow'
  rw [Nat.cast_add, neg_add, zpow_add₀ (by norm_num), zpow_add₀ (by norm_num)]
  constructor <;> gcongr

theorem Moderate.inv (hq : Moderate k q) : Moderate k q⁻¹ := by
  intro hne
  obtain ⟨hlow, hhigh⟩ := hq (mt inv_eq_zero.mpr hne)
  have hpos : 0 < q := lt_of_lt_of_le (by positivity) hlow
  rw [zpow_neg] at hlow ⊢
  exact ⟨inv_anti₀ hpos hhigh, inv_le_of_inv_le₀ (by positivity) hlow⟩

theorem Moderate.div (hp : Moderate j p) (hq : Moderate k q) : Moderate (j + k) (p / q) :=
  div_eq_mul_inv p q ▸ hp.mul hq.inv

theorem Moderate.of_near (hq : Moderate k q) (h : |z - q| ≤ q / 2 ^ 52) : Moderate (k + 1) z := by
  intro hz
  obtain ⟨hle, hge⟩ := abs_le.mp h
  have hne : q ≠ 0 := by
    rintro rfl
    exact hz (by simpa using h)
  obtain ⟨hlow, hhigh⟩ := hq hne
  have hpos : 0 < q := lt_of_lt_of_le (by positivity) hlow
  rw [Nat.cast_add, neg_add, zpow_add₀ (by norm_num), zpow_add₀ (by norm_num), Nat.cast_one,
    zpow_neg_one, zpow_one]
  constructor <;> linarith

end Moderate

theorem lt_of_le_scaled {k : Nat} {j : Int} (hm : m < 2 ^ k) (h : (2 : Rat) ^ j ≤ m * 2 ^ e) :
    j < k + e := by
  have hlt : (m : Rat) * 2 ^ e < 2 ^ (k + e : Int) := by
    rw [zpow_add₀ (by norm_num), zpow_natCast]
    gcongr
    exact_mod_cast hm
  exact (zpow_lt_zpow_iff_right₀ (by norm_num)).mp (h.trans_lt hlt)

theorem lt_of_scaled_lt {k : Nat} {j : Int} (hm : 2 ^ k ≤ m) (h : (m : Rat) * 2 ^ e < 2 ^ j) :
    k + e < j := by
  have hle : (2 : Rat) ^ (k + e : Int) ≤ m * 2 ^ e := by
    rw [zpow_add₀ (by norm_num), zpow_natCast]
    gcongr
    exact_mod_cast hm
  exact (zpow_lt_zpow_iff_right₀ (by norm_num)).mp (hle.trans_lt h)

theorem exactly_zero (s : Sign) : Exactly (.ofModel (.pack (.zero s))) 0 :=
  exactly_iff.mpr (.inl ⟨rfl, s, unpack_pack trivial⟩)

theorem exactly_of_fits {hm : 0 < m} (h : Fits .binary64 (.finite .positive m e hm)) :
    Exactly (.ofModel (.pack (.finite .positive m e hm))) (m * 2 ^ e) :=
  exactly_iff.mpr (.inr ⟨m, e, hm, unpack_pack h, rfl⟩)

theorem exists_exactly_near (hm : 2 ^ 52 ≤ m) (he : Format.binary64.minExponent ≤ e) (a : Accuracy)
    (hlow : (m : Rat) ≤ q) (hhigh : q < m + 1) (hmax : q * 2 ^ e ≤ 2 ^ (64 : Int)) :
    ∃ z, Exactly (.ofModel (.pack (roundWithAccuracy .binary64 .positive m e a))) z ∧
      |z - q * 2 ^ e| ≤ q * 2 ^ e / 2 ^ 52 := by
  obtain ⟨n, f, hn, hround, hlt, hnormal, hmin, hnear⟩ := exists_near .positive hm he a hlow hhigh
  have hbound : (n : Rat) * 2 ^ f < 2 ^ (66 : Int) := by
    have hle := (abs_le.mp hnear).2
    norm_num at hle hmax ⊢
    linarith
  have hf : (52 : Nat) + f < 66 := lt_of_scaled_lt hnormal hbound
  have hfits : Fits .binary64 (.finite .positive n f hn) := by
    refine ⟨hlt, hmin, .inl hnormal, ?_⟩
    change f + 1023 + 52 + 1 < 2048
    omega
  exact ⟨_, hround ▸ exactly_of_fits hfits, hnear⟩

theorem Exactly.mul (hx : Exactly x p) (hy : Exactly y q) (hpq : Moderate 64 (p * q)) :
    ∃ z, Exactly (x * y) z ∧ |z - p * q| ≤ p * q / 2 ^ 52 := by
  have heq : x * y = .ofModel (.pack (UnpackedFloat.mul .binary64 x.toModel.unpack
    y.toModel.unpack)) := rfl
  have hfx := fits_double x
  have hfy := fits_double y
  rw [heq]
  rcases exactly_iff.mp hx with ⟨rfl, s, hux⟩ | ⟨m, e, hm, hux, rfl⟩ <;>
    rcases exactly_iff.mp hy with ⟨rfl, t, huy⟩ | ⟨n, f, hn, huy, rfl⟩ <;>
    rw [hux] at hfx ⊢ <;> rw [huy] at hfy ⊢
  · exact ⟨0, exactly_zero _, by simp⟩
  · exact ⟨0, exactly_zero _, by simp⟩
  · exact ⟨0, exactly_zero _, by simp⟩
  · have hvalue : (m * 2 ^ e * (n * 2 ^ f) : Rat) = (m * n : Nat) * 2 ^ (e + f) := by
      rw [zpow_add₀ (by norm_num)]
      push_cast
      ring
    have hpos : (m * 2 ^ e * (n * 2 ^ f) : Rat) ≠ 0 := by positivity
    obtain ⟨hmin, hmax⟩ := hpq hpos
    rw [hvalue] at hmin hmax ⊢
    obtain ⟨hmlt, hme, hmnormal, -⟩ := hfx
    obtain ⟨hnlt, hnf, hnnormal, -⟩ := hfy
    have hef : -64 < (106 : Nat) + (e + f) := by
      refine lt_of_le_scaled ?_ hmin
      calc m * n < 2 ^ 53 * 2 ^ 53 := Nat.mul_lt_mul'' hmlt hnlt
        _ = 2 ^ 106 := by norm_num
    have hnormal : 2 ^ 52 ≤ m * n := by
      rcases hmnormal with hm52 | he
      · exact hm52.trans (Nat.le_mul_of_pos_right m hn)
      · rcases hnnormal with hn52 | hf
        · exact hn52.trans (Nat.le_mul_of_pos_left n hm)
        · have he : e = -1074 := he
          have hf : f = -1074 := hf
          omega
    exact exists_exactly_near hnormal (by change -1074 ≤ _; omega) .exact le_rfl (lt_add_one _) hmax

/-- The whole part of a quotient has all bits of the format, and its exponent is in range. -/
theorem divCore_bounds {n : Nat} {f : Int} (hm : 0 < m) (hlt : m < 2 ^ 53) (hn : 0 < n)
    (hmin : (2 : Rat) ^ (-64 : Int) ≤ m * 2 ^ e / (n * 2 ^ f)) :
    ∃ k : Nat, (divCore .binary64 m e n f).1 = m * 2 ^ k / n ∧
      (divCore .binary64 m e n f).2.1 = e - f - k ∧ 2 ^ 52 ≤ m * 2 ^ k / n ∧ -1074 ≤ e - f - k := by
  have hlog : m.log2 < 53 := (Nat.log2_lt hm.ne').mpr hlt
  have hscale : (-64 : Int) + n.log2 + f < (m.log2 + 1 : Nat) + e := by
    refine lt_of_le_scaled Nat.lt_log2_self ?_
    rw [le_div_iff₀ (by positivity)] at hmin
    refine le_trans ?_ hmin
    rw [zpow_add₀ (by norm_num), zpow_add₀ (by norm_num), mul_assoc, zpow_natCast]
    gcongr
    exact_mod_cast Nat.log2_self_le hn.ne'
  have htarget : Format.binary64.targetExponent (totalExponent m e - totalExponent n f) =
      m.log2 - n.log2 + e - f - 53 := by
    have hfloor : Format.binary64.minExponent = -1074 := rfl
    have hbits : Format.binary64.mantissaBits = 53 := rfl
    simp only [Format.targetExponent, totalExponent, hfloor, hbits]
    omega
  refine ⟨(n.log2 + 53 - m.log2 : Nat), ?_, ?_, ?_, by omega⟩
  · simp only [divCore, htarget, Nat.shiftLeft_eq]
    congr 3
    omega
  · simp only [divCore, htarget]
    omega
  · rw [Nat.le_div_iff_mul_le hn]
    calc 2 ^ 52 * n ≤ 2 ^ 52 * 2 ^ (n.log2 + 1) := Nat.mul_le_mul_left _ Nat.lt_log2_self.le
      _ = 2 ^ m.log2 * 2 ^ (n.log2 + 53 - m.log2) := by
        rw [← pow_add, ← pow_add]
        congr 1
        omega
      _ ≤ m * 2 ^ (n.log2 + 53 - m.log2) := Nat.mul_le_mul_right _ (Nat.log2_self_le hm.ne')

theorem Exactly.div (hx : Exactly x p) (hy : Exactly y q) (hq : 0 < q) (hpq : Moderate 64 (p / q)) :
    ∃ z, Exactly (x / y) z ∧ |z - p / q| ≤ p / q / 2 ^ 52 := by
  have heq : x / y = .ofModel (.pack (UnpackedFloat.div .binary64 x.toModel.unpack
    y.toModel.unpack)) := rfl
  have hfx := fits_double x
  rw [heq]
  obtain ⟨rfl, -⟩ | ⟨n, f, hn, huy, rfl⟩ := exactly_iff.mp hy
  · exact absurd hq (lt_irrefl 0)
  obtain ⟨rfl, s, hux⟩ | ⟨m, e, hm, hux, rfl⟩ := exactly_iff.mp hx
  · rw [hux, huy]
    exact ⟨0, exactly_zero _, by simp⟩
  · rw [hux] at hfx ⊢
    rw [huy]
    obtain ⟨hmin, hmax⟩ := hpq (by positivity)
    obtain ⟨k, hwhole, hexponent, hnormal, he⟩ := divCore_bounds hm hfx.1 hn hmin
    have hvalue : (m * 2 ^ e / (n * 2 ^ f) : Rat) =
        ((m * 2 ^ k : Nat) : Rat) / n * 2 ^ (e - f - k) := by
      rw [zpow_sub₀ (by norm_num), zpow_sub₀ (by norm_num), zpow_natCast]
      push_cast
      field_simp
    have hround : UnpackedFloat.div .binary64 (.finite .positive m e hm) (.finite .positive n f hn) =
        roundWithAccuracy .binary64 .positive (m * 2 ^ k / n) (e - f - k)
          (divCore .binary64 m e n f).2.2 := by
      rw [← hwhole, ← hexponent]
      rfl
    rw [hvalue] at hmax ⊢
    rw [hround]
    refine exists_exactly_near hnormal he _ Nat.cast_div_le ?_ hmax
    have hfloor := Nat.lt_floor_add_one (((m * 2 ^ k : Nat) : Rat) / n)
    rwa [Nat.floor_div_eq_div] at hfloor

theorem stands_whole {n : Nat} (hn : n < 2 ^ 53) : Stands (toDouble (signed .positive n 0)) n := by
  rcases n.eq_zero_or_pos with rfl | hpos
  · exact stands_iff_exactly.mpr (by exact_mod_cast exactly_zero .positive)
  · obtain ⟨k, hk, hfits⟩ := exists_fits_of_lt (e := 0) .positive hpos hn (by norm_num) (by norm_num)
    have hround : fit .binary64 (signed .positive n 0) = .finite .positive (n * 2 ^ k) (0 - k) hk := by
      rw [signed, dif_pos hpos]
      exact round_of_fits_mul hpos hfits
    have hexactly := exactly_of_fits hfits
    rw [toDouble, hround, stands_iff_exactly]
    convert hexactly using 1
    rw [zero_sub, zpow_neg, zpow_natCast]
    push_cast
    field_simp

theorem stands_toFloat {n : Nat} (hn : n < 2 ^ 53) : Stands n.toUInt64.toFloat n := by
  have hword : n.toUInt64.toNat = n := UInt64.toNat_ofNat_of_lt' (by
    change n < 2 ^ 64
    omega)
  have heq : n.toUInt64.toFloat = toDouble (signed .positive n 0) := by
    change Float.ofModel (.pack (UnpackedFloat.ofUInt64 .binary64 n.toUInt64)) = _
    rw [toDouble, UnpackedFloat.ofUInt64, UnpackedFloat.ofNat, UnpackedFloat.ofInt, hword]
    rcases n.eq_zero_or_pos with rfl | hpos
    · rfl
    · have hgt : compare (n : Int) 0 = .gt := compare_gt_iff_gt.mpr (by omega)
      simp only [UnpackedFloat.normalize, hgt, signed, dif_pos hpos, fit, Int.toNat_natCast]
  exact heq ▸ stands_whole hn

theorem Exactly.mul_one (hx : Exactly x q) (hy : y.toModel.unpack = .finite .positive (2 ^ 52) (-52)
    (by norm_num)) : Exactly (x * y) q := by
  have heq : x * y = .ofModel (.pack (UnpackedFloat.mul .binary64 x.toModel.unpack
    y.toModel.unpack)) := rfl
  have hfx := fits_double x
  rw [heq, hy]
  obtain ⟨rfl, s, hux⟩ | ⟨m, e, hm, hux, rfl⟩ := exactly_iff.mp hx
  · rw [hux]
    exact exactly_zero _
  · rw [hux] at hfx ⊢
    have hround : UnpackedFloat.mul .binary64 (.finite .positive m e hm)
        (.finite .positive (2 ^ 52) (-52) (by norm_num)) = .finite .positive m e hm :=
      roundWithAccuracy_of_fits hfx 52
    rw [hround]
    exact exactly_of_fits hfx

theorem stands_ofScientific {n : Nat} (hn : n < 2 ^ 53) :
    Stands (OfScientific.ofScientific n false 0) n := by
  have heq : (OfScientific.ofScientific n false 0 : Float) =
      n.toUInt64.toFloat * Float.exactlyRepresentablePowersOfTen[0] := dif_pos ⟨hn, Nat.zero_le _⟩
  rw [heq, stands_iff_exactly]
  exact Exactly.mul_one (stands_iff_exactly.mp (stands_toFloat hn)) rfl

/-- Rounding adds a half and keeps the whole part. -/
theorem roundWhole_eq {hm : 0 < m} (he : e < 0) :
    roundWhole (.finite .positive m e hm) = signed .positive ⌊(m * 2 ^ e + 1 / 2 : Rat)⌋₊ 0 := by
  obtain ⟨j, rfl⟩ : ∃ j : Nat, e = -(j + 1 : Nat) := ⟨(-e).toNat - 1, by omega⟩
  have hsum : (m * 2 ^ (-(j + 1 : Nat) : Int) + 1 / 2 : Rat) =
      ((m + 2 ^ j : Nat) : Rat) / (2 ^ (j + 1) : Nat) := by
    rw [zpow_neg, zpow_natCast]
    push_cast
    field_simp
    ring
  have hunit : 2 ^ (j + 1) / 2 = 2 ^ j := by rw [pow_succ, Nat.mul_div_cancel _ (by norm_num)]
  rw [roundWhole, if_neg (by omega), hsum, Nat.floor_div_eq_div]
  simp only [Int.neg_neg, Int.toNat_natCast, Nat.pow_eq, hunit]

theorem Exactly.round (hx : Exactly x q) (hq : q < 2 ^ (52 : Int)) :
    Stands (Scalar.round x) ⌊q + 1 / 2⌋₊ := by
  have hfx := fits_double x
  change Stands (toDouble (roundWhole x.toModel.unpack)) _
  obtain ⟨rfl, s, hux⟩ | ⟨m, e, hm, hux, rfl⟩ := exactly_iff.mp hx
  · rw [hux, stands_iff_exactly]
    norm_num
    exact exactly_zero s
  · rw [hux] at hfx ⊢
    obtain ⟨-, -, hnormal, -⟩ := hfx
    have he : e < 0 := by
      rcases hnormal with hm52 | he
      · have hlt : (52 : Nat) + e < 52 := lt_of_scaled_lt hm52 hq
        omega
      · have he : e = -1074 := he
        omega
    have hlt : ⌊(m * 2 ^ e + 1 / 2 : Rat)⌋₊ < 2 ^ 53 := by
      rw [Nat.floor_lt (by positivity)]
      norm_num at hq ⊢
      linarith
    rw [roundWhole_eq he]
    exact stands_whole hlt

theorem scaled_lt_of_exponent_lt {n : Nat} {f : Int} {hm : 0 < m} {hn : 0 < n}
    (hu : Fits spec (.finite .positive m e hm)) (hv : Fits spec (.finite .positive n f hn))
    (h : e < f) : (m : Rat) * 2 ^ e < n * 2 ^ f := by
  obtain ⟨hlt, hmin, -⟩ := hu
  obtain ⟨-, -, hnormal, -⟩ := hv
  have hlarge := hnormal.resolve_right (by omega)
  rw [two_pow_mantissaBits] at hlt
  calc (m : Rat) * 2 ^ e < (2 * 2 ^ spec.mantissaBitsWithoutImplicit : Nat) * 2 ^ e := by
        gcongr
    _ = (2 ^ spec.mantissaBitsWithoutImplicit : Nat) * 2 ^ (e + 1) := by
        rw [zpow_add_one₀ (by norm_num)]
        push_cast
        ring
    _ ≤ n * 2 ^ f := by
        gcongr
        · norm_num
        · exact h

theorem Exactly.lt_iff (hx : Exactly x p) (hy : Exactly y q) : x < y ↔ p < q := by
  have hfx := fits_double x
  have hfy := fits_double y
  change decide (x.toModel < y.toModel) = true ↔ _
  rw [decide_eq_true_eq]
  change UnpackedFloat.lt x.toModel.unpack y.toModel.unpack = true ↔ _
  obtain ⟨rfl, s, hux⟩ | ⟨m, e, hm, hux, rfl⟩ := exactly_iff.mp hx <;>
    obtain ⟨rfl, t, huy⟩ | ⟨n, f, hn, huy, rfl⟩ := exactly_iff.mp hy <;>
    rw [hux] at hfx ⊢ <;> rw [huy] at hfy ⊢
  · simp [UnpackedFloat.lt, UnpackedFloat.compare]
  · have hpos : (0 : Rat) < n * 2 ^ f := by positivity
    simp [UnpackedFloat.lt, UnpackedFloat.compare, hpos]
  · have hpos : (0 : Rat) < m * 2 ^ e := by positivity
    simp [UnpackedFloat.lt, UnpackedFloat.compare, hpos.le]
  · rcases lt_trichotomy e f with h | rfl | h
    · have hlt := scaled_lt_of_exponent_lt hfx hfy h
      simp [UnpackedFloat.lt, UnpackedFloat.compare, compare_lt_iff_lt.mpr h, hlt]
    · have hpos : (0 : Rat) < 2 ^ e := by positivity
      simp [UnpackedFloat.lt, UnpackedFloat.compare, compare_lt_iff_lt, hpos]
    · have hlt := scaled_lt_of_exponent_lt hfy hfx h
      simp [UnpackedFloat.lt, UnpackedFloat.compare, compare_gt_iff_gt.mpr h, hlt.le]

end IconMotion.Precision
