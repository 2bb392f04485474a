import IconMotion.Proofs.Formats
import IconMotion.Number.Literal

namespace IconMotion.Precision

open Float.Model Float.Model.UnpackedFloat

variable {spec : Format} {s : Sign} {m : Nat} {e : Int}

/-- The sign of a number; zero has one too. -/
def sign? : UnpackedFloat → Option Sign
  | .infinity s => some s
  | .zero s => some s
  | .finite s .. => some s
  | .notANumber => none

theorem sign?_unpack_packComponents (s : Sign) {b : BitVec spec.exponentBits}
    (m : BitVec spec.mantissaBitsWithoutImplicit) (hb : b ≠ -1#_) :
    sign? (UnpackedFloat.unpack spec (packComponents spec s b m)) = some s := by
  simp only [UnpackedFloat.unpack, unpackExponent_packComponents,
    unpackMantissa_packComponents, unpackSign_packComponents, Sign.ofBitVec_toBitVec, if_neg hb]
  split
  · split <;> rfl
  · rfl

theorem sign?_unpack_pack {u : UnpackedFloat} (h : sign? u = some s) :
    sign? (UnpackedFloat.unpack spec (UnpackedFloat.pack spec u)) = some s := by
  cases u with
  | notANumber => cases h
  | infinity t =>
    cases h
    rw [UnpackedFloat.pack, unpack_packedInfinity]
    rfl
  | zero t =>
    cases h
    rw [UnpackedFloat.pack, unpack_packedZero]
    rfl
  | finite t m e hm =>
    cases h
    simp only [UnpackedFloat.pack]
    split
    · rw [unpack_packedInfinity]
      rfl
    next hsmall =>
      split
      · exact sign?_unpack_packComponents s _ (ofNat_ne_allOnes (by omega))
      · exact sign?_unpack_packComponents s _ (zero_ne_allOnes spec)

theorem sign?_roundWithAccuracy (spec : Format) (s : Sign) (m : Nat) (e : Int) (a : Accuracy) :
    sign? (roundWithAccuracy spec s m e a) = some s := by
  simp only [roundWithAccuracy]
  split <;> rfl

def isAbove : UnpackedFloat → Bool
  | .finite .positive .. => true
  | _ => false

theorem sign?_mul {u v : UnpackedFloat} (hu : sign? u = some .positive) (hv : isAbove v = true) :
    sign? (UnpackedFloat.mul spec u v) = some .positive := by
  match v, hv with
  | .finite .positive n f hn, _ =>
    cases u with
    | notANumber => cases hu
    | infinity s =>
      cases hu
      rfl
    | zero s =>
      cases hu
      rfl
    | finite s m e hm =>
      cases hu
      exact sign?_roundWithAccuracy _ _ _ _ _

theorem sign?_div {u v : UnpackedFloat} (hu : sign? u = some .positive) (hv : isAbove v = true) :
    sign? (UnpackedFloat.div spec u v) = some .positive := by
  match v, hv with
  | .finite .positive n f hn, _ =>
    cases u with
    | notANumber => cases hu
    | infinity s =>
      cases hu
      rfl
    | zero s =>
      cases hu
      rfl
    | finite s m e hm =>
      cases hu
      exact sign?_roundWithAccuracy _ _ _ _ _

theorem sign?_ofScientific_unpacked (spec : Format) (m : Nat) (e : Int) :
    sign? (UnpackedFloat.ofScientific spec m e) = some .positive := by
  unfold UnpackedFloat.ofScientific
  split
  · rfl
  · split
    · rfl
    · split
      · rfl
      · split
        · exact sign?_mul rfl rfl
        · exact sign?_div rfl rfl

theorem sign?_ofUInt64 (spec : Format) (n : UInt64) :
    sign? (UnpackedFloat.ofUInt64 spec n) = some .positive := by
  simp only [UnpackedFloat.ofUInt64, UnpackedFloat.ofNat, UnpackedFloat.ofInt,
    UnpackedFloat.normalize]
  split
  next h =>
    have := Int.compare_eq_lt.mp h
    omega
  · rfl
  · exact sign?_roundWithAccuracy _ _ _ _ _

/-- Zero, or a number with the negative sign. -/
def IsLow (u : UnpackedFloat) : Prop := sign? u = some .negative ∨ ∃ s, u = .zero s

theorem isLow_unpack_pack {u : UnpackedFloat} (h : IsLow u) :
    IsLow (UnpackedFloat.unpack spec (UnpackedFloat.pack spec u)) := by
  rcases h with h | ⟨s, rfl⟩
  · exact .inl (sign?_unpack_pack h)
  · exact .inr ⟨s, unpack_packedZero⟩

theorem le_zero_of_isLow {u : UnpackedFloat} (h : IsLow u) : u.le (.zero .positive) = true := by
  rcases h with h | ⟨s, rfl⟩
  · cases u with
    | notANumber => cases h
    | infinity t | finite t m e hm =>
      cases h
      rfl
    | zero t => rfl
  · rfl

theorem isLow_normalize {n : Int} (hn : n ≤ 0) (e : Int) (s : Sign) :
    IsLow (UnpackedFloat.normalize spec n e s) := by
  unfold UnpackedFloat.normalize
  split
  · exact .inl (sign?_roundWithAccuracy _ _ _ _ _)
  · exact .inr ⟨s, rfl⟩
  next hgt =>
    have := Int.compare_eq_gt.mp hgt
    omega

theorem scaled_lt {n : Nat} {f : Int} {t : Sign} {hm : 0 < m} {hn : 0 < n}
    (hu : Fits spec (.finite s m e hm)) (hv : Fits spec (.finite t n f hn))
    (h : f < e ∨ f = e ∧ n < m) : n <<< (f - min e f).toNat < m <<< (e - min e f).toNat := by
  obtain ⟨-, -, hnormal, -⟩ := hu
  obtain ⟨hlt, hmin, -⟩ := hv
  rcases h with h | ⟨rfl, h⟩
  · have hlarge := hnormal.resolve_right (by omega)
    rw [two_pow_mantissaBits] at hlt
    have hshift : 2 ^ 1 ≤ 2 ^ (e - f).toNat := Nat.pow_le_pow_right (by decide) (by omega)
    rw [min_eq_right h.le, sub_self, Nat.shiftLeft_eq, Nat.shiftLeft_eq]
    calc n * 2 ^ (0 : Int).toNat = n := by simp
      _ < m * 2 ^ 1 := by omega
      _ ≤ m * 2 ^ (e - f).toNat := Nat.mul_le_mul_left m hshift
  · simpa using h

theorem isLE_compare_then {n : Nat} {f : Int} :
    ((compare e f).then (compare m n)).isLE = true ↔ e < f ∨ e = f ∧ m ≤ n := by
  rcases lt_trichotomy e f with hlt | rfl | hgt
  · simp [compare_lt_iff_lt.mpr hlt, hlt]
  · simp [Nat.isLE_compare]
  · simp [compare_gt_iff_gt.mpr hgt, hgt.not_gt, hgt.ne']

theorem of_compare_then {n : Nat} {f : Int} (h : ((compare e f).then (compare m n)).isLE = false) :
    f < e ∨ f = e ∧ n < m := by
  rw [← Bool.not_eq_true, isLE_compare_then] at h
  omega

theorem apply_scaled_lt {n : Nat} {f : Int} {t : Sign} {hm : 0 < m} {hn : 0 < n}
    (hu : Fits spec (.finite s m e hm)) (hv : Fits spec (.finite t n f hn))
    (h : UnpackedFloat.le (.finite s m e hm) (.finite t n f hn) = false) :
    t.apply (n <<< (f - min e f).toNat : Nat) < s.apply (m <<< (e - min e f).toNat : Nat) := by
  cases s with
  | positive =>
    cases t with
    | positive =>
      have hlt := scaled_lt hu hv (of_compare_then h)
      simp only [Sign.apply]
      omega
    | negative =>
      have hpos : 0 < m <<< (e - min e f).toNat := by
        rw [Nat.shiftLeft_eq]
        positivity
      generalize m <<< (e - min e f).toNat = m', n <<< (f - min e f).toNat = n' at hpos ⊢
      simp only [Sign.apply]
      omega
  | negative =>
    cases t with
    | positive => cases h
    | negative =>
      have hlt := scaled_lt hv hu (of_compare_then (by
        change ((compare e f).then (compare m n)).swap.isLE = false at h
        rwa [Ordering.swap_then, Int.compare_swap, Nat.compare_swap] at h))
      rw [min_comm f e] at hlt
      simp only [Sign.apply]
      omega

theorem isLow_sub_finite {n : Nat} {f : Int} {t : Sign} {hm : 0 < m} {hn : 0 < n}
    (hu : Fits spec (.finite s m e hm)) (hv : Fits spec (.finite t n f hn))
    (h : UnpackedFloat.le (.finite s m e hm) (.finite t n f hn) = false) :
    IsLow (UnpackedFloat.sub spec (.finite t n f hn) (.finite s m e hm)) := by
  have hlt := apply_scaled_lt hu hv h
  rw [min_comm e f] at hlt
  exact isLow_normalize (Int.sub_nonpos_of_le hlt.le) _ _

theorem isLow_sub {u v : UnpackedFloat} (hu : Fits spec u) (hv : Fits spec v)
    (hsu : (sign? u).isSome) (hsv : (sign? v).isSome) (h : u.le v = false) :
    IsLow (UnpackedFloat.sub spec v u) := by
  cases u with
  | notANumber => cases hsu
  | infinity s | zero s =>
    cases v with
    | notANumber => cases hsv
    | infinity t | zero t | finite t n f hn =>
      cases s <;> cases t <;> first | exact .inl rfl | cases h
  | finite s m e hm =>
    cases v with
    | notANumber => cases hsv
    | infinity t | zero t => cases s <;> cases t <;> first | exact .inl rfl | cases h
    | finite t n f hn => exact isLow_sub_finite hu hv h

def IsNumber (x : Float32) : Prop := (sign? x.toModel.unpack).isSome

theorem isNumber_of_sign? {x : Float32} (h : sign? x.toModel.unpack = some s) : IsNumber x := by
  rw [IsNumber, h]
  rfl

theorem le_iff {x y : Float32} : x ≤ y ↔ x.toModel.unpack.le y.toModel.unpack = true := by
  change decide (x.toModel ≤ y.toModel) = true ↔ _
  rw [decide_eq_true_eq]
  rfl

/-- Two numbers that are out of order have no distance above zero, even after rounding. -/
theorem sub_le_zero {x y : Float32} (hx : IsNumber x) (hy : IsNumber y) (h : ¬ x ≤ y) :
    y - x ≤ 0.0 := by
  rw [le_iff, Bool.not_eq_true] at h
  have hlow := isLow_sub (fits_single x) (fits_single y) hx hy h
  have hzero : (0.0 : Float32).toModel.unpack = .zero .positive := rfl
  rw [le_iff, hzero]
  exact le_zero_of_isLow (isLow_unpack_pack hlow)

theorem isNumber_narrow {x : Float} (h : x.isFinite = true) : IsNumber (narrow x) := by
  have hfinite : x.toModel.unpack.isFinite = true := h
  unfold narrow
  cases hu : x.toModel.unpack with
  | notANumber | infinity =>
    rw [hu] at hfinite
    cases hfinite
  | zero s => exact isNumber_of_sign? (sign?_unpack_pack rfl)
  | finite s m e hm =>
    exact isNumber_of_sign? (sign?_unpack_pack (sign?_roundWithAccuracy _ _ _ _ _))

theorem sign?_ofNat (n : Nat) : sign? (Float32.ofNat n).toModel.unpack = some .positive := by
  change sign? (Float32.ofScientific n false 0).toModel.unpack = some .positive
  unfold Float32.ofScientific
  split
  · have hone : isAbove (Float32.exactlyRepresentablePowersOfTen[0]).toModel.unpack = true := rfl
    exact sign?_unpack_pack (sign?_mul (sign?_unpack_pack (sign?_ofUInt64 _ _)) hone)
  · exact sign?_unpack_pack (sign?_ofScientific_unpacked _ _ _)

theorem isNumber_ofInt (n : Int) : IsNumber (Float32.ofInt n) := by
  cases n with
  | ofNat n => exact isNumber_of_sign? (sign?_ofNat n)
  | negSucc n =>
    have hpositive := sign?_ofNat (n + 1)
    have hneg : sign? (Float32.ofNat (n + 1)).toModel.unpack.neg = some .negative := by
      cases hu : (Float32.ofNat (n + 1)).toModel.unpack with
      | notANumber =>
        rw [hu] at hpositive
        cases hpositive
      | infinity s | zero s | finite s m e hm =>
        rw [hu] at hpositive
        cases hpositive
        rfl
    exact isNumber_of_sign? (sign?_unpack_pack hneg)

end IconMotion.Precision
