import Mathlib
import IconMotion.Number.Precision

namespace IconMotion.Precision

open Float.Model Float.Model.UnpackedFloat

variable {spec : Format} {s : Sign} {m : Nat} {e : Int}

/-- The number is one of the format, with its exponent as the format has it. -/
def Fits (spec : Format) : UnpackedFloat → Prop
  | .finite _ m e _ => m < 2 ^ spec.mantissaBits ∧ spec.minExponent ≤ e ∧
      (2 ^ spec.mantissaBitsWithoutImplicit ≤ m ∨ e = spec.minExponent) ∧
      e + spec.exponentBias + spec.mantissaBitsWithoutImplicit + 1 < (2 ^ spec.exponentBits : Nat)
  | _ => True

theorem minExponent_eq (spec : Format) :
    spec.minExponent = 1 - (spec.exponentBias + spec.mantissaBitsWithoutImplicit : Int) := by
  have hpos : 1 ≤ 2 ^ (spec.exponentBits - 1) := Nat.one_le_two_pow
  simp only [Format.minExponent, Format.exponentBias, Format.mantissaBits]
  push_cast [hpos]
  ring

theorem two_pow_mantissaBits (spec : Format) :
    2 ^ spec.mantissaBits = 2 * 2 ^ spec.mantissaBitsWithoutImplicit := by
  rw [Format.mantissaBits, pow_add, pow_one]

theorem unpack_packedInfinity (s : Sign) :
    UnpackedFloat.unpack spec (packedInfinity spec s) = .infinity s := by
  simp only [UnpackedFloat.unpack, packedInfinity, unpackExponent_packComponents,
    unpackMantissa_packComponents, unpackSign_packComponents, Sign.ofBitVec_toBitVec]
  simp

theorem zero_ne_allOnes (spec : Format) : (0#_ : BitVec spec.exponentBits) ≠ -1#_ := by
  intro h
  have hbits := congrArg BitVec.toNat h
  have hpow : 2 ^ 1 ≤ 2 ^ spec.exponentBits := Nat.pow_le_pow_right (by decide) spec.he
  simp only [BitVec.toNat_zero, BitVec.neg_one_eq_allOnes, BitVec.toNat_allOnes] at hbits
  omega

theorem ofNat_ne_allOnes {b : Nat} (h : b + 1 < 2 ^ spec.exponentBits) :
    BitVec.ofNat spec.exponentBits b ≠ -1#_ := by
  intro he
  have hbits := congrArg BitVec.toNat he
  simp only [BitVec.toNat_ofNat, BitVec.neg_one_eq_allOnes, BitVec.toNat_allOnes,
    Nat.mod_eq_of_lt (show b < 2 ^ spec.exponentBits by omega)] at hbits
  omega

theorem toNat_append_one {n : Nat} (v : BitVec n) : (1#1 ++ v).toNat = 2 ^ n + v.toNat := by
  rw [BitVec.toNat_append, ← Nat.shiftLeft_add_eq_or_of_lt v.isLt, Nat.shiftLeft_eq]
  simp

theorem fits_unpack (hbits : 2 ≤ spec.exponentBits) (b : BitVec spec.numBits) :
    Fits spec (UnpackedFloat.unpack spec b) := by
  have hpow : 2 ^ 2 ≤ 2 ^ spec.exponentBits := Nat.pow_le_pow_right (by decide) hbits
  have hmantissa : (unpackMantissa b).toNat < 2 ^ spec.mantissaBitsWithoutImplicit := BitVec.isLt _
  have hexponent : (unpackExponent b).toNat < 2 ^ spec.exponentBits := BitVec.isLt _
  simp only [UnpackedFloat.unpack]
  split
  · split <;> trivial
  next hinf =>
    split
    next hsub =>
      split
      · trivial
      · simp only [Fits, two_pow_mantissaBits, minExponent_eq, hsub, BitVec.toNat_zero]
        exact ⟨by omega, by omega, .inr (by omega), by omega⟩
    next hnormal =>
      have hpos : (unpackExponent b).toNat ≠ 0 := fun h =>
        hnormal (BitVec.eq_of_toNat_eq (by simpa using h))
      have hlast : (unpackExponent b).toNat ≠ 2 ^ spec.exponentBits - 1 := fun h =>
        hinf (BitVec.eq_of_toNat_eq (by simpa [BitVec.neg_one_eq_allOnes] using h))
      simp only [Fits, two_pow_mantissaBits, minExponent_eq, toNat_append_one]
      exact ⟨by omega, by omega, .inl (by omega), by omega⟩

theorem log2_add_one_eq_iff (hm : 0 < m) (h : m < 2 ^ spec.mantissaBits) :
    m.log2 + 1 = spec.mantissaBits ↔ 2 ^ spec.mantissaBitsWithoutImplicit ≤ m := by
  have hlt := (Nat.log2_lt hm.ne').mpr h
  rw [← Nat.le_log2 hm.ne']
  simp only [Format.mantissaBits] at hlt ⊢
  omega

theorem unpack_pack {u : UnpackedFloat} (h : Fits spec u) :
    UnpackedFloat.unpack spec (UnpackedFloat.pack spec u) = u := by
  cases u with
  | notANumber => exact unpack_packedNaN
  | infinity s => exact unpack_packedInfinity s
  | zero s => exact unpack_packedZero
  | finite s m e hm =>
    obtain ⟨hlt, hmin, hnormal, hmax⟩ := h
    obtain ⟨b, hb⟩ : ∃ b : Nat, e + spec.exponentBias + spec.mantissaBitsWithoutImplicit = b := by
      rw [minExponent_eq] at hmin
      exact ⟨(e + spec.exponentBias + spec.mantissaBitsWithoutImplicit).toNat, by omega⟩
    have hrange : b + 1 < 2 ^ spec.exponentBits := by omega
    rw [UnpackedFloat.pack]
    simp only [hb, Int.toNat_natCast, if_neg (Nat.not_le.mpr hrange)]
    by_cases hlarge : 2 ^ spec.mantissaBitsWithoutImplicit ≤ m
    · have hbits : (BitVec.ofNat spec.exponentBits b).toNat = b := by
        rw [BitVec.toNat_ofNat, Nat.mod_eq_of_lt (by omega)]
      have hexponent : BitVec.ofNat spec.exponentBits b ≠ 0#_ := by
        intro hzero
        rw [hzero, BitVec.toNat_zero] at hbits
        rw [minExponent_eq] at hmin
        omega
      have hmantissa : (1#1 ++ BitVec.ofNat spec.mantissaBitsWithoutImplicit m).toNat = m := by
        rw [two_pow_mantissaBits] at hlt
        rw [toNat_append_one, BitVec.toNat_ofNat, Nat.mod_eq_sub_mod hlarge,
          Nat.mod_eq_of_lt (by omega)]
        omega
      simp only [if_pos ((log2_add_one_eq_iff hm hlt).mpr hlarge), UnpackedFloat.unpack,
        unpackExponent_packComponents, unpackMantissa_packComponents, unpackSign_packComponents,
        Sign.ofBitVec_toBitVec, if_neg (ofNat_ne_allOnes hrange), if_neg hexponent, hmantissa, hbits]
      congr 1
      omega
    · have hmantissa : (BitVec.ofNat spec.mantissaBitsWithoutImplicit m).toNat = m := by
        rw [BitVec.toNat_ofNat, Nat.mod_eq_of_lt (by omega)]
      have hne : BitVec.ofNat spec.mantissaBitsWithoutImplicit m ≠ 0#_ := by
        intro hzero
        rw [hzero, BitVec.toNat_zero] at hmantissa
        omega
      have hexponent := hnormal.resolve_left hlarge
      rw [minExponent_eq] at hexponent
      simp only [if_neg (mt (log2_add_one_eq_iff hm hlt).mp hlarge), UnpackedFloat.unpack,
        unpackExponent_packComponents, unpackMantissa_packComponents, unpackSign_packComponents,
        Sign.ofBitVec_toBitVec, if_neg (zero_ne_allOnes spec), if_pos, dif_neg hne, hmantissa,
        BitVec.toNat_zero]
      congr 1
      omega

theorem log2_mul_two_pow (hm : 0 < m) (k : Nat) : (m * 2 ^ k).log2 = m.log2 + k := by
  induction k with
  | zero => simp
  | succ k ih =>
    have hpos : m * 2 ^ k ≠ 0 := by positivity
    rw [pow_succ', Nat.mul_left_comm, Nat.log2_two_mul hpos, ih, Nat.add_assoc]

theorem totalExponent_mul_two_pow (hm : 0 < m) (k : Nat) :
    totalExponent (m * 2 ^ k) (e - k) = totalExponent m e := by
  simp only [totalExponent, log2_mul_two_pow hm]
  push_cast
  omega

theorem targetExponent_of_fits {hm : 0 < m} (h : Fits spec (.finite s m e hm)) :
    spec.targetExponent (totalExponent m e) = e := by
  obtain ⟨hlt, hmin, hnormal, -⟩ := h
  have hlog := (Nat.log2_lt hm.ne').mpr hlt
  have hlarge := log2_add_one_eq_iff hm hlt
  simp only [Format.targetExponent, totalExponent]
  rcases hnormal with hnormal | rfl
  · rw [← hlarge.mpr hnormal]
    omega
  · omega

theorem shiftRight_zero (em : ExtendedMantissa) : em >>> 0 = em := rfl

theorem mantissa_shiftRight (em : ExtendedMantissa) (n : Nat) :
    (em >>> n).mantissa = em.mantissa / 2 ^ n := by
  change (n.repeat ExtendedMantissa.shiftRightOne em).mantissa = _
  induction n with
  | zero => simp [Nat.repeat]
  | succ n ih =>
    rw [Nat.repeat, pow_succ, ← Nat.div_div_eq_div_mul, ← ih]
    rfl

theorem shiftRight_exact (m k : Nat) :
    (⟨m * 2 ^ k, false, false⟩ : ExtendedMantissa) >>> k = ⟨m, false, false⟩ := by
  change k.repeat ExtendedMantissa.shiftRightOne _ = _
  induction k generalizing m with
  | zero => simp [Nat.repeat]
  | succ k ih =>
    rw [Nat.repeat, pow_succ', ← mul_assoc, ih]
    simp [ExtendedMantissa.shiftRightOne]

theorem roundWithAccuracy_of_fits {hm : 0 < m} (h : Fits spec (.finite s m e hm)) (k : Nat) :
    roundWithAccuracy spec s (m * 2 ^ k) (e - k) .exact = .finite s m e hm := by
  have htarget := targetExponent_of_fits h
  have hshift : (e - (e - k : Int)).toNat = k := by omega
  simp only [roundWithAccuracy, shiftToTargetExponent, totalExponent_mul_two_pow hm, htarget,
    shiftToExponent, ExtendedMantissa.ofMantissaAndAccuracy, hshift, shiftRight_exact,
    ExtendedMantissa.roundedMantissa, ExtendedMantissa.accuracy, Accuracy.roundToNearestEven,
    sub_add_cancel, sub_self, Int.toNat_zero, shiftRight_zero, Nat.cast_zero, add_zero]
  exact dif_neg hm.ne'

/-- Rounding does nothing to a number of the format, however its mantissa is scaled. -/
theorem round_of_fits {hm : 0 < m} (h : Fits spec (.finite s m e hm)) (k : Nat) :
    UnpackedFloat.round spec s (m * 2 ^ k) (e - k) = .finite s m e hm := by
  have hshift : (e - k - e : Int).toNat = 0 := by omega
  simp only [UnpackedFloat.round, totalExponent_mul_two_pow hm, targetExponent_of_fits h,
    decreaseExponent, hshift, Nat.shiftLeft_zero, Nat.cast_zero, sub_zero]
  exact roundWithAccuracy_of_fits h k

theorem round_of_fits_mul {k : Nat} {hn : 0 < m * 2 ^ k} (hm : 0 < m)
    (h : Fits spec (.finite s (m * 2 ^ k) (e - k) hn)) :
    UnpackedFloat.round spec s m e = .finite s (m * 2 ^ k) (e - k) hn := by
  have hshift : (e - (e - k : Int)).toNat = k := by omega
  have htarget := targetExponent_of_fits h
  rw [totalExponent_mul_two_pow hm] at htarget
  simp only [UnpackedFloat.round, htarget, decreaseExponent, hshift, Nat.shiftLeft_eq]
  simpa using roundWithAccuracy_of_fits h 0

theorem exists_fits_of_lt (s : Sign) (hm : 0 < m) (hlt : m < 2 ^ 53) (hmin : -1022 ≤ e)
    (hmax : e ≤ 971) :
    ∃ k : Nat, ∃ hk : 0 < m * 2 ^ k, Fits .binary64 (.finite s (m * 2 ^ k) (e - k) hk) := by
  have hlog : m.log2 < 53 := (Nat.log2_lt hm.ne').mpr hlt
  have hscale : 2 ^ m.log2 * 2 ^ (52 - m.log2) = 2 ^ 52 := by
    rw [← pow_add]
    congr 1
    omega
  have hlow : 2 ^ m.log2 * 2 ^ (52 - m.log2) ≤ m * 2 ^ (52 - m.log2) :=
    Nat.mul_le_mul_right _ (Nat.log2_self_le hm.ne')
  have hhigh : m * 2 ^ (52 - m.log2) < 2 ^ (m.log2 + 1) * 2 ^ (52 - m.log2) :=
    Nat.mul_lt_mul_of_pos_right Nat.lt_log2_self (by positivity)
  rw [pow_succ', mul_assoc, hscale] at hhigh
  rw [hscale] at hlow
  refine ⟨52 - m.log2, by positivity, hhigh, ?_, .inl hlow, ?_⟩
  · change -1074 ≤ _
    omega
  · change _ + 1023 + 52 + 1 < 2048
    omega

theorem exists_fits_double {hm : 0 < m} (h : Fits .binary32 (.finite s m e hm)) :
    ∃ k : Nat, ∃ hk : 0 < m * 2 ^ k, Fits .binary64 (.finite s (m * 2 ^ k) (e - k) hk) := by
  obtain ⟨hlt, hmin, -, hmax⟩ := h
  have hlt : m < 2 ^ 24 := hlt
  have hmin : -149 ≤ e := hmin
  have hmax : e + 127 + 23 + 1 < 256 := hmax
  exact exists_fits_of_lt s hm (by omega) (by omega) (by omega)

theorem fit_double {u : UnpackedFloat} (h : Fits .binary32 u) :
    Fits .binary64 (fit .binary64 u) ∧ fit .binary32 (fit .binary64 u) = u ∧
      (fit .binary64 u).isFinite = u.isFinite := by
  cases u with
  | notANumber | infinity | zero => exact ⟨trivial, rfl, rfl⟩
  | finite s m e hm =>
    obtain ⟨k, hk, hdouble⟩ := exists_fits_double h
    have hwiden : fit .binary64 (.finite s m e hm) = .finite s (m * 2 ^ k) (e - k) hk :=
      round_of_fits_mul hm hdouble
    rw [hwiden]
    exact ⟨hdouble, round_of_fits h k, rfl⟩

theorem fits_single (x : Float32) : Fits .binary32 x.toModel.unpack := fits_unpack (by decide) _

theorem fits_double (x : Float) : Fits .binary64 x.toModel.unpack := fits_unpack (by decide) _

theorem pack_unpack_single (x : Float32) : .ofModel (.pack x.toModel.unpack) = x := by
  rcases x with ⟨⟨⟨b⟩, hb⟩⟩
  simp [Float32.Model.pack, Float32.Model.unpack, pack_unpack_of_valid hb]

theorem unpack_widen (x : Float32) :
    (widen x).toModel.unpack = fit .binary64 x.toModel.unpack := by
  obtain ⟨hfits, -⟩ := fit_double (fits_single x)
  exact unpack_pack hfits

/-- A single that is widened and narrowed again is as it was. -/
theorem narrow_widen (x : Float32) : narrow (widen x) = x := by
  obtain ⟨-, hfit, -⟩ := fit_double (fits_single x)
  rw [narrow, unpack_widen, toSingle, hfit, pack_unpack_single]

theorem isFinite_widen (x : Float32) : (widen x).isFinite = x.isFinite := by
  obtain ⟨-, -, hfinite⟩ := fit_double (fits_single x)
  rw [← unpack_widen] at hfinite
  exact hfinite

end IconMotion.Precision
