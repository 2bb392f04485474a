import IconMotion.Proofs.Signs

namespace IconMotion.Precision

open Float.Model Float.Model.UnpackedFloat

variable {spec : Format} {s : Sign} {m : Nat} {e : Int} {u v : UnpackedFloat}

/-- The place of a number in the order. Below zero, exponent and mantissa count the other way. -/
def rank : UnpackedFloat → Int ×ₗ Int ×ₗ Int
  | .infinity .negative => toLex (-2, toLex (0, 0))
  | .finite .negative m e _ => toLex (-1, toLex (-e, -m))
  | .zero _ | .notANumber => toLex (0, toLex (0, 0))
  | .finite .positive m e _ => toLex (1, toLex (e, m))
  | .infinity .positive => toLex (2, toLex (0, 0))

theorem le_positive {n : Nat} {f : Int} {hm : 0 < m} {hn : 0 < n} :
    UnpackedFloat.le (.finite .positive m e hm) (.finite .positive n f hn) = true ↔
      e < f ∨ e = f ∧ m ≤ n := isLE_compare_then

theorem le_negative {n : Nat} {f : Int} {hm : 0 < m} {hn : 0 < n} :
    UnpackedFloat.le (.finite .negative m e hm) (.finite .negative n f hn) = true ↔
      f < e ∨ f = e ∧ n ≤ m := by
  rw [← isLE_compare_then, ← Int.compare_swap, ← Nat.compare_swap, ← Ordering.swap_then]
  rfl

theorem le_iff_rank :
    u.le v = true ↔ (sign? u).isSome ∧ (sign? v).isSome ∧ rank u ≤ rank v := by
  cases u with
  | notANumber => simp [UnpackedFloat.le, UnpackedFloat.compare, sign?]
  | infinity s =>
    cases v with
    | notANumber => simp [UnpackedFloat.le, UnpackedFloat.compare, sign?]
    | infinity t | zero t | finite t =>
      cases s <;> cases t <;>
        simp [UnpackedFloat.le, UnpackedFloat.compare, sign?, rank, Prod.Lex.le_iff] <;> decide
  | zero s =>
    cases v with
    | notANumber => simp [UnpackedFloat.le, UnpackedFloat.compare, sign?]
    | infinity t | zero t | finite t =>
      cases t <;> simp [UnpackedFloat.le, UnpackedFloat.compare, sign?, rank, Prod.Lex.le_iff]
  | finite s m e hm =>
    cases v with
    | notANumber => simp [UnpackedFloat.le, UnpackedFloat.compare, sign?]
    | infinity t | zero t =>
      cases s <;> cases t <;>
        simp [UnpackedFloat.le, UnpackedFloat.compare, sign?, rank, Prod.Lex.le_iff]
    | finite t n f hn =>
      cases s <;> cases t
      · rw [le_negative, eq_comm]
        simp [sign?, rank, Prod.Lex.le_iff]
      · simp [UnpackedFloat.le, UnpackedFloat.compare, sign?, rank, Prod.Lex.le_iff]
      · simp [UnpackedFloat.le, UnpackedFloat.compare, sign?, rank, Prod.Lex.le_iff]
      · simp [le_positive, sign?, rank, Prod.Lex.le_iff]

theorem compare_swap (u v : UnpackedFloat) :
    UnpackedFloat.compare v u = (UnpackedFloat.compare u v).map Ordering.swap := by
  cases u with
  | notANumber => cases v <;> rfl
  | infinity s =>
    cases v with
    | infinity t => cases s <;> cases t <;> rfl
    | notANumber | zero t | finite t => cases s <;> rfl
  | zero s =>
    cases v with
    | notANumber => rfl
    | infinity t | zero t | finite t => cases t <;> rfl
  | finite s m e hm =>
    cases v with
    | notANumber | zero t => cases s <;> rfl
    | infinity t => cases s <;> cases t <;> rfl
    | finite t n f hn =>
      have hswap : (compare f e).then (compare n m) = ((compare e f).then (compare m n)).swap := by
        rw [Ordering.swap_then, Int.compare_swap, Nat.compare_swap]
      cases s <;> cases t <;> simp [UnpackedFloat.compare, hswap]

theorem le_eq_false_of_lt (h : u.lt v = true) : v.le u = false := by
  have hlt : UnpackedFloat.compare u v = some .lt := by simpa [UnpackedFloat.lt] using h
  rw [UnpackedFloat.le, compare_swap u v, hlt]
  rfl

variable {x y z : Float32}

theorem le_iff_numbers :
    x ≤ y ↔ IsNumber x ∧ IsNumber y ∧ rank x.toModel.unpack ≤ rank y.toModel.unpack :=
  le_iff.trans le_iff_rank

theorem le_trans_single (hxy : x ≤ y) (hyz : y ≤ z) : x ≤ z := by
  rw [le_iff_numbers] at *
  exact ⟨hxy.1, hyz.2.1, hxy.2.2.trans hyz.2.2⟩

theorem lt_iff : x < y ↔ x.toModel.unpack.lt y.toModel.unpack = true := by
  change decide (x.toModel < y.toModel) = true ↔ _
  rw [decide_eq_true_eq]
  rfl

theorem not_le_of_lt_single (h : x < y) : ¬ y ≤ x := by
  rw [le_iff, le_eq_false_of_lt (lt_iff.mp h)]
  exact Bool.false_ne_true

def IsHigh (u : UnpackedFloat) : Prop := (UnpackedFloat.zero .positive).lt u = true

theorem isHigh_packedInfinity :
    IsHigh (UnpackedFloat.unpack spec (packedInfinity spec .positive)) := by
  rw [unpack_packedInfinity]
  rfl

theorem le_roundedMantissa (em : ExtendedMantissa) : em.mantissa ≤ em.roundedMantissa := by
  unfold ExtendedMantissa.roundedMantissa Accuracy.roundToNearestEven
  split <;> omega

theorem mantissa_ofMantissaAndAccuracy (m : Nat) (a : Accuracy) :
    (ExtendedMantissa.ofMantissaAndAccuracy m a).mantissa = m := by
  unfold ExtendedMantissa.ofMantissaAndAccuracy
  split <;> rfl

theorem shiftToTargetExponent_bounds (hm : 0 < m) (he : spec.minExponent ≤ e) (a : Accuracy) :
    0 < (shiftToTargetExponent spec m e a).1.mantissa ∧
    (shiftToTargetExponent spec m e a).1.mantissa < 2 ^ spec.mantissaBits ∧
    spec.minExponent ≤ (shiftToTargetExponent spec m e a).2 := by
  simp only [shiftToTargetExponent, shiftToExponent, mantissa_shiftRight,
    mantissa_ofMantissaAndAccuracy, Format.targetExponent, totalExponent]
  generalize hshift : (max ((m.log2 : Int) + 1 + e - spec.mantissaBits) spec.minExponent - e).toNat = k
  have hbits : 0 < spec.mantissaBits := by
    simp only [Format.mantissaBits]
    omega
  refine ⟨Nat.div_pos ?_ (by positivity), ?_, by omega⟩
  · exact (Nat.le_log2 hm.ne').mp (by omega)
  · rw [Nat.div_lt_iff_lt_mul (by positivity), ← pow_add]
    exact (Nat.log2_lt hm.ne').mp (by omega)

theorem exists_roundWithAccuracy (hm : 0 < m) (he : spec.minExponent ≤ e) (a : Accuracy) :
    ∃ n f hn, roundWithAccuracy spec s m e a = .finite s n f hn ∧
      n < 2 ^ spec.mantissaBits ∧ spec.minExponent ≤ f := by
  obtain ⟨hpos, -, hmin⟩ := shiftToTargetExponent_bounds hm he a
  have hrounded := hpos.trans_le (le_roundedMantissa (shiftToTargetExponent spec m e a).1)
  obtain ⟨hpos, hlt, hmin⟩ := shiftToTargetExponent_bounds hrounded hmin .exact
  exact ⟨_, _, hpos, dif_neg hpos.ne', hlt, hmin⟩

theorem exists_round (hm : 0 < m) (he : spec.minExponent ≤ e) :
    ∃ n f hn, UnpackedFloat.round spec s m e = .finite s n f hn ∧
      n < 2 ^ spec.mantissaBits ∧ spec.minExponent ≤ f := by
  refine exists_roundWithAccuracy ?_ ?_ .exact
  · rw [Nat.shiftLeft_eq]
    positivity
  · have htarget : spec.minExponent ≤ spec.targetExponent (totalExponent m e) := le_max_right _ _
    omega

theorem isHigh_packed {hm : 0 < m} (hlt : m < 2 ^ spec.mantissaBits) (hmin : spec.minExponent ≤ e) :
    IsHigh (UnpackedFloat.unpack spec (UnpackedFloat.pack spec (.finite .positive m e hm))) := by
  rw [UnpackedFloat.pack]
  split
  · exact isHigh_packedInfinity
  next hsmall =>
    have hlarge := log2_add_one_eq_iff hm hlt
    split
    next hnormal =>
      have hexponent : BitVec.ofNat spec.exponentBits
          (e + spec.exponentBias + spec.mantissaBitsWithoutImplicit).toNat ≠ 0#_ := by
        intro hzero
        have hbits := congrArg BitVec.toNat hzero
        rw [BitVec.toNat_ofNat, Nat.mod_eq_of_lt (by omega), BitVec.toNat_zero] at hbits
        rw [minExponent_eq] at hmin
        omega
      simp only [UnpackedFloat.unpack, unpackExponent_packComponents, unpackSign_packComponents,
        Sign.ofBitVec_toBitVec, if_neg (ofNat_ne_allOnes (not_le.mp hsmall)), if_neg hexponent]
      rfl
    next hsub =>
      have hmantissa : BitVec.ofNat spec.mantissaBitsWithoutImplicit m ≠ 0#_ := by
        intro hzero
        have hbits := congrArg BitVec.toNat hzero
        rw [BitVec.toNat_ofNat, Nat.mod_eq_of_lt (by omega), BitVec.toNat_zero] at hbits
        omega
      simp only [UnpackedFloat.unpack, unpackExponent_packComponents, unpackMantissa_packComponents,
        unpackSign_packComponents, Sign.ofBitVec_toBitVec, if_neg (zero_ne_allOnes spec), if_pos,
        dif_neg hmantissa]
      rfl

theorem isHigh_normalize {n : Int} (hn : 0 < n) (he : spec.minExponent ≤ e) (s : Sign) :
    IsHigh (UnpackedFloat.unpack spec (UnpackedFloat.pack spec
      (UnpackedFloat.normalize spec n e s))) := by
  have hgt : compare n 0 = .gt := compare_gt_iff_gt.mpr hn
  have hround : UnpackedFloat.normalize spec n e s =
      UnpackedFloat.round spec .positive n.toNat e := by
    rw [UnpackedFloat.normalize, hgt]
  obtain ⟨k, f, hk, hfinite, hlt, hmin⟩ := exists_round (s := .positive) (m := n.toNat) (by omega) he
  rw [hround, hfinite]
  exact isHigh_packed hlt hmin

theorem isHigh_sub_finite {n : Nat} {f : Int} {t : Sign} {hm : 0 < m} {hn : 0 < n}
    (hu : Fits spec (.finite s m e hm)) (hv : Fits spec (.finite t n f hn))
    (h : UnpackedFloat.le (.finite s m e hm) (.finite t n f hn) = false) :
    IsHigh (UnpackedFloat.unpack spec (UnpackedFloat.pack spec
      (UnpackedFloat.sub spec (.finite s m e hm) (.finite t n f hn)))) :=
  isHigh_normalize (Int.sub_pos_of_lt (apply_scaled_lt hu hv h)) (le_min hu.2.1 hv.2.1) _

theorem isHigh_sub (hu : Fits spec u) (hv : Fits spec v) (hsu : (sign? u).isSome)
    (hsv : (sign? v).isSome) (h : u.le v = false) :
    IsHigh (UnpackedFloat.unpack spec (UnpackedFloat.pack spec (UnpackedFloat.sub spec u v))) := by
  cases u with
  | notANumber => cases hsu
  | infinity s =>
    cases v with
    | notANumber => cases hsv
    | infinity t | zero t | finite t n f hn =>
      cases s <;> cases t <;> first | (cases h; done) | exact isHigh_packedInfinity
  | zero s =>
    cases v with
    | notANumber => cases hsv
    | infinity t | zero t => cases s <;> cases t <;> first | (cases h; done) | exact isHigh_packedInfinity
    | finite t n f hn =>
      cases t with
      | positive => cases h
      | negative => exact isHigh_packed hv.1 hv.2.1
  | finite s m e hm =>
    cases v with
    | notANumber => cases hsv
    | infinity t => cases s <;> cases t <;> first | (cases h; done) | exact isHigh_packedInfinity
    | zero t =>
      cases s with
      | positive => exact isHigh_packed hu.1 hu.2.1
      | negative => cases h
    | finite t n f hn => exact isHigh_sub_finite hu hv h

/-- Two numbers that are in order have a distance above zero, even after rounding. -/
theorem zero_lt_sub (hx : IsNumber x) (hy : IsNumber y) (h : ¬ x ≤ y) : 0.0 < x - y := by
  rw [le_iff, Bool.not_eq_true] at h
  have hhigh : IsHigh (x - y).toModel.unpack := isHigh_sub (fits_single x) (fits_single y) hx hy h
  have hzero : (0.0 : Float32).toModel.unpack = .zero .positive := rfl
  rw [lt_iff, hzero]
  exact hhigh

end IconMotion.Precision
