import IconMotion.Proofs.Signs

namespace IconMotion.Precision
open Float.Model Float.Model.UnpackedFloat

theorem pack_unpack (x : Float.Model) : Float.Model.pack x.unpack = x := by
  rcases x with ⟨⟨b⟩, hb⟩
  simp [Float.Model.pack, Float.Model.unpack, pack_unpack_of_valid hb]

theorem toModel_neg (x : Float) : (-x).toModel.unpack = x.toModel.unpack.neg := by
  have hfits : Fits .binary64 x.toModel.unpack.neg := by
    have hfits := fits_double x
    cases hu : x.toModel.unpack with
    | notANumber | infinity | zero => trivial
    | finite s m e hm =>
      rw [hu] at hfits
      exact hfits
  exact unpack_pack hfits

theorem neg_neg (x : Float) : - -x = x := by
  have h : (- -x).toModel = x.toModel := by
    rw [← pack_unpack (- -x).toModel, toModel_neg, toModel_neg]
    conv_rhs => rw [← pack_unpack x.toModel]
    congr 1
    cases x.toModel.unpack with
    | notANumber => rfl
    | infinity s => cases s <;> rfl
    | zero s => cases s <;> rfl
    | finite s m e hm => cases s <;> rfl
  rcases x with ⟨m⟩
  exact congrArg Float.ofModel h

theorem isAbove_powerOfTen : ∀ i : Fin 23,
    isAbove (Float.exactlyRepresentablePowersOfTen[i]).toModel.unpack = true := by
  decide +kernel

theorem sign?_toFloat (n : UInt64) : sign? n.toFloat.toModel.unpack = some .positive :=
  sign?_unpack_pack (sign?_ofUInt64 _ n)

theorem sign?_ofScientific (m : Nat) (s : Bool) (e : Nat) :
    sign? (Float.ofScientific m s e).toModel.unpack = some .positive := by
  unfold Float.ofScientific
  split
  next h =>
    have hpower := isAbove_powerOfTen ⟨e, by omega⟩
    split
    · exact sign?_unpack_pack (sign?_div (sign?_toFloat _) hpower)
    · exact sign?_unpack_pack (sign?_mul (sign?_toFloat _) hpower)
  next => exact sign?_unpack_pack (sign?_ofScientific_unpacked _ _ _)

theorem sign?_toFloat_literal (l : Literal) : sign? l.toFloat.toModel.unpack = some .positive :=
  sign?_ofScientific _ _ _

theorem unpack_zero : (0.0 : Float).toModel.unpack = .zero .positive := rfl

theorem zero_le_of_sign? {x : Float} (h : sign? x.toModel.unpack = some .positive) : 0.0 ≤ x := by
  change decide ((0.0 : Float).toModel ≤ x.toModel) = true
  rw [decide_eq_true_eq]
  change UnpackedFloat.le (0.0 : Float).toModel.unpack x.toModel.unpack = true
  rw [unpack_zero]
  cases hu : x.toModel.unpack with
  | notANumber => simp [hu, sign?] at h
  | infinity s => simp [hu, sign?] at h; subst h; rfl
  | zero s => rfl
  | finite s m e hm => simp [hu, sign?] at h; subst h; rfl

/-- The float is a whole number that is not negative. -/
def Stands (x : Float) (n : Nat) : Prop :=
  match x.toModel.unpack with
  | .zero _ => n = 0
  | .finite .positive m e _ => (n : Rat) = m * 2 ^ e
  | _ => False

theorem eq_scaled_iff {n m : Nat} {e : Int} :
    (n : Rat) = m * 2 ^ e ↔ n * 2 ^ (-e).toNat = m * 2 ^ e.toNat := by
  have hsplit : (2 : Rat) ^ e * 2 ^ (-e).toNat = 2 ^ e.toNat := by
    rw [← zpow_natCast, ← zpow_natCast, ← zpow_add₀ (by norm_num)]
    congr 1
    omega
  have hpos : (2 : Rat) ^ (-e).toNat ≠ 0 := by positivity
  rw [← @Nat.cast_inj Rat]
  push_cast
  rw [← hsplit, ← mul_assoc]
  exact (mul_left_inj' hpos).symm

theorem exists_stands {x : Float} (hpos : 0.0 ≤ x) (hwhole : isWhole x.toModel.unpack = true) :
    ∃ n, Stands x n := by
  have hle : UnpackedFloat.le (.zero .positive) x.toModel.unpack = true := by
    have h : decide ((0.0 : Float).toModel ≤ x.toModel) = true := hpos
    exact decide_eq_true_eq.mp h
  unfold Stands
  cases hu : x.toModel.unpack with
  | notANumber => simp [hu, isWhole] at hwhole
  | infinity s => simp [hu, isWhole] at hwhole
  | zero s => exact ⟨0, rfl⟩
  | finite s m e hm =>
    rw [hu] at hle hwhole
    cases s with
    | negative => cases hle
    | positive =>
      simp only [eq_scaled_iff]
      by_cases he : 0 ≤ e
      · refine ⟨m * 2 ^ e.toNat, ?_⟩
        rw [show (-e).toNat = 0 by omega, pow_zero, mul_one]
      · simp only [isWhole, he, decide_false, Bool.false_or, beq_iff_eq] at hwhole
        refine ⟨m / 2 ^ (-e).toNat, ?_⟩
        rw [show e.toNat = 0 by omega, pow_zero, mul_one]
        exact Nat.div_mul_cancel (Nat.dvd_of_mod_eq_zero hwhole)

theorem Stands.unique {x : Float} {n k : Nat} (hn : Stands x n) (hk : Stands x k) : n = k := by
  unfold Stands at hn hk
  split at hn
  next hu =>
    rw [hu] at hk
    exact hn.trans hk.symm
  next hu =>
    rw [hu] at hk
    exact_mod_cast hn.trans hk.symm
  · cases hn

theorem Stands.isWhole {x : Float} {n : Nat} (h : Stands x n) :
    isWhole x.toModel.unpack = true := by
  unfold Stands at h
  split at h
  · simp_all [Precision.isWhole]
  next m e hm hu =>
    rw [hu]
    rw [eq_scaled_iff] at h
    by_cases he : 0 ≤ e
    · simp [Precision.isWhole, he]
    · rw [show e.toNat = 0 by omega, pow_zero, mul_one] at h
      simp [Precision.isWhole, he, ← h]
  · cases h

theorem Stands.zero_le {x : Float} {n : Nat} (h : Stands x n) : 0.0 ≤ x := by
  change decide ((0.0 : Float).toModel ≤ x.toModel) = true
  rw [decide_eq_true_eq]
  change UnpackedFloat.le (0.0 : Float).toModel.unpack x.toModel.unpack = true
  rw [unpack_zero]
  unfold Stands at h
  split at h
  next hu => rw [hu]; rfl
  next hu => rw [hu]; rfl
  · cases h

theorem unpack_finite {x : Float} {s : Sign} {m : Nat} {e : Int} {hm : 0 < m}
    (h : x.toModel.unpack = .finite s m e hm) : m < 2 ^ 53 ∧ (2 ^ 52 ≤ m ∨ e = -1074) := by
  have hfits := fits_double x
  rw [h] at hfits
  obtain ⟨hlt, -, hnormal, -⟩ := hfits
  exact ⟨hlt, hnormal⟩

theorem Stands.one_le {x : Float} {n : Nat} (h : Stands x n) : 1.0 ≤ x ↔ 1 ≤ n := by
  have hone : (1.0 : Float).toModel.unpack = .finite .positive (2 ^ 52) (-52) (by decide) := rfl
  change decide ((1.0 : Float).toModel ≤ x.toModel) = true ↔ _
  rw [decide_eq_true_eq]
  change UnpackedFloat.le (1.0 : Float).toModel.unpack x.toModel.unpack = true ↔ _
  rw [hone]
  unfold Stands at h
  split at h
  next hu =>
    rw [hu, h]
    simp [UnpackedFloat.le, UnpackedFloat.compare]
  next m e hm hu =>
    obtain ⟨hmlt, hnormal⟩ := unpack_finite hu
    rw [eq_scaled_iff] at h
    rw [hu]
    simp only [UnpackedFloat.le, UnpackedFloat.compare, Option.any_some]
    rcases lt_trichotomy (-52) e with he | rfl | he
    · have hn : 1 ≤ n := by
        have hpos : 0 < n * 2 ^ (-e).toNat := by rw [h]; positivity
        exact Nat.pos_of_mul_pos_right hpos
      simp [compare_lt_iff_lt.mpr he, hn]
    · have hm52 : 2 ^ 52 ≤ m := by omega
      have hn : 1 ≤ n := by
        simp at h
        omega
      simpa [hn, Nat.isLE_compare] using hm52
    · have hn : n = 0 := by
        by_contra hne
        have hpow : 2 ^ 53 ≤ 2 ^ (-e).toNat := Nat.pow_le_pow_right (by norm_num) (by omega)
        have hle : 2 ^ (-e).toNat ≤ n * 2 ^ (-e).toNat := Nat.le_mul_of_pos_left _ (by omega)
        rw [h, show e.toNat = 0 by omega] at hle
        omega
      simp [compare_gt_iff_gt.mpr he, hn]
  · cases h

theorem toInt_of_stands {x : Float} {n : Nat} (h : Stands x n) (lo hi : Int) :
    UnpackedFloat.toInt lo hi x.toModel.unpack = n := by
  unfold Stands at h
  split at h
  next hu => simp [hu, UnpackedFloat.toInt, h]
  next m e hm hu =>
    rw [eq_scaled_iff] at h
    simp only [hu, UnpackedFloat.toInt, roundToInt, decreaseExponent, shiftToExponent,
      mantissa_shiftRight, Sign.apply, ExtendedMantissa.ofMantissaAndAccuracy]
    have hshift : (0 - (e - ((e - 0).toNat : Int))).toNat = (-e).toNat := by omega
    rw [Nat.shiftLeft_eq, hshift, sub_zero, ← h, Nat.mul_div_cancel _ (by positivity)]
  · cases h

theorem toUInt64_of_stands {x : Float} {n : Nat} (h : Stands x n) :
    x.toUInt64.toNat = min n (2 ^ 64 - 1) := by
  change (UInt64.ofNatClamp (UnpackedFloat.toInt 0 (UInt64.size - 1) x.toModel.unpack).toNat).toNat = _
  rw [toInt_of_stands h]
  unfold UInt64.ofNatClamp
  split
  next hsmall =>
    have hn : n < 2 ^ 64 := hsmall
    rw [Nat.min_eq_left (by omega)]
    rfl
  next hlarge =>
    have hn : ¬ n < 2 ^ 64 := hlarge
    rw [Nat.min_eq_right (by omega)]
    rfl

theorem toUInt8_of_stands {x : Float} {n : Nat} (h : Stands x n) (hn : n < 256) :
    x.toUInt8 = UInt8.ofNat n := by
  change UInt8.ofNatClamp (UnpackedFloat.toInt 0 (UInt8.size - 1) x.toModel.unpack).toNat = _
  rw [toInt_of_stands h, Int.toNat_natCast, UInt8.ofNatClamp, dif_pos hn]
  exact UInt8.ofNatLT_eq_ofNat n

end IconMotion.Precision
