import Mathlib.Data.Nat.Digits.Defs
import IconMotion.Proofs.ColorBytes

namespace IconMotion

namespace Text

variable {c : Char} {cs : List Char}

def worth? (c : Char) : Option Nat := (List.range 16).find? fun d => d.digitChar = c.toLower

/-- The number that the digits in front of a text are, however many there are. -/
def leadingValue (cs : List Char) : Nat :=
  Nat.ofDigits 16 ((cs.takeWhile fun c => (worth? c).isSome).filterMap worth?).reverse

theorem hexDigit?_eq_worth?_of_ascii : ∀ n < 128, hexDigit? (Char.ofNat n) = worth? (Char.ofNat n) := by
  decide +kernel

theorem not_le_of_not_ascii {a : Char} (hc : ¬ c.toNat < 128) (ha : a.toNat < 128) : ¬ c ≤ a := by
  rw [Char.le_def, UInt32.le_iff_toNat_le]
  change ¬ c.toNat ≤ a.toNat
  omega

theorem toNat_digitChar_lt : ∀ d < 16, d.digitChar.toNat < 128 := by
  decide

theorem worth?_of_not_ascii (hc : ¬ c.toNat < 128) : worth? c = none := by
  have hlower : c.toLower = c := dif_neg fun h => not_le_of_not_ascii hc (by decide) h.2
  rw [worth?, hlower, List.find?_eq_none]
  intro d hd h
  rw [← of_decide_eq_true h] at hc
  exact hc (toNat_digitChar_lt d (List.mem_range.mp hd))

theorem hexDigit?_of_not_ascii (hc : ¬ c.toNat < 128) : hexDigit? c = none := by
  simp only [hexDigit?, not_le_of_not_ascii hc (show '9'.toNat < 128 by decide),
    not_le_of_not_ascii hc (show 'f'.toNat < 128 by decide),
    not_le_of_not_ascii hc (show 'F'.toNat < 128 by decide), and_false, if_false]

theorem hexDigit?_eq_worth? (c : Char) : hexDigit? c = worth? c := by
  by_cases hc : c.toNat < 128
  · have hascii := hexDigit?_eq_worth?_of_ascii c.toNat hc
    rwa [Char.ofNat_toNat] at hascii
  · rw [hexDigit?_of_not_ascii hc, worth?_of_not_ascii hc]

theorem hexDigits_eq (cs : List Char) :
    hexDigits cs = (cs.takeWhile fun c => (worth? c).isSome).filterMap worth? := by
  induction cs with
  | nil => rfl
  | cons c cs ih =>
    rw [hexDigits, hexDigit?_eq_worth?, List.takeWhile_cons]
    cases hc : worth? c with
    | none => rfl
    | some d => simp [hc, ih]

theorem hexDigit?_digitChar : ∀ d < 16, hexDigit? d.digitChar = some d := by
  decide

def sixDigits (n : Nat) : List Char :=
  (List.range 6).reverse.map fun i => (n / 16 ^ i % 16).digitChar

theorem hexDigits_map_digitChar {ds : List Nat} (h : ∀ d ∈ ds, d < 16) :
    hexDigits (ds.map Nat.digitChar) = ds := by
  induction ds with
  | nil => rfl
  | cons d ds ih =>
    rw [List.map_cons, hexDigits, hexDigit?_digitChar d (h d List.mem_cons_self)]
    exact congrArg (d :: ·) (ih fun d hd => h d (List.mem_cons_of_mem _ hd))

end Text

namespace Color

open Text

def unmarked : List Char → List Char
  | '#' :: cs => cs
  | cs => cs

theorem foldl_wrapping (ds : List Nat) :
    ds.foldl (fun n d => (16 * n + d) % UInt32.size) 0 = Nat.ofDigits 16 ds.reverse % 2 ^ 32 := by
  induction ds using List.reverseRecOn with
  | nil => rfl
  | append_singleton ds d ih =>
    rw [List.foldl_append, ih, List.reverse_append, List.reverse_singleton, List.singleton_append,
      Nat.ofDigits_cons, List.foldl_cons, List.foldl_nil]
    change (16 * (Nat.ofDigits 16 ds.reverse % 2 ^ 32) + d) % 2 ^ 32 = _
    omega

theorem hexValue_eq_ofDigits (cs : List Char) :
    hexValue cs = Nat.ofDigits 16 (hexDigits (unmarked cs)).reverse % 2 ^ 32 := by
  rw [← foldl_wrapping]
  rfl

theorem hexValue_eq (cs : List Char) : hexValue cs = leadingValue (unmarked cs) % 2 ^ 32 := by
  rw [hexValue_eq_ofDigits, hexDigits_eq, leadingValue]

theorem sixDigits_eq (n : Nat) :
    sixDigits n = [n / 1048576 % 16, n / 65536 % 16, n / 4096 % 16, n / 256 % 16, n / 16 % 16,
      n % 16].map Nat.digitChar := by
  simp [sixDigits, List.range_succ]

theorem hexValue_sixDigits (n : Nat) : hexValue ('#' :: sixDigits n) = n % 2 ^ 24 := by
  rw [hexValue_eq_ofDigits, unmarked, sixDigits_eq, hexDigits_map_digitChar]
  · simp [Nat.ofDigits_cons]
    omega
  · simp [Nat.mod_lt]

/-- The color that a text stands for, as `#` and six digits. -/
def sixDigitForm (hex : String) : String :=
  String.ofList ('#' :: sixDigits (leadingValue (unmarked hex.toList) % 2 ^ 32 % 2 ^ 24))

section

variable {α : Type} [Scalar α]

theorem hexByte_ofNat {n : Nat} (hn : n < 256) :
    hexByte (UInt8.ofNat n) = [(n / 16).digitChar, (n % 16).digitChar] := by
  rw [hexByte, UInt8.toNat_ofNat_of_lt' hn]

theorem hexBytes_eq_sixDigits (n : Nat) :
    hexByte (UInt8.ofNat (n / 65536 % 256)) ++ hexByte (UInt8.ofNat (n / 256 % 256)) ++
      hexByte (UInt8.ofNat (n % 256)) = sixDigits (n % 2 ^ 24) := by
  have hdigits : [n / 65536 % 256 / 16, n / 65536 % 256 % 16, n / 256 % 256 / 16, n / 256 % 256 % 16,
      n % 256 / 16, n % 256 % 16] = [n % 2 ^ 24 / 1048576 % 16, n % 2 ^ 24 / 65536 % 16,
      n % 2 ^ 24 / 4096 % 16, n % 2 ^ 24 / 256 % 16, n % 2 ^ 24 / 16 % 16, n % 2 ^ 24 % 16] := by
    simp only [List.cons.injEq, and_true]
    omega
  rw [hexByte_ofNat (Nat.mod_lt _ (by norm_num)), hexByte_ofNat (Nat.mod_lt _ (by norm_num)),
    hexByte_ofNat (Nat.mod_lt _ (by norm_num)), sixDigits_eq, ← hdigits]
  rfl

theorem toHex_unitOfHex (h : KeepsBytes α) (hex : String) :
    toHex (unitOfHex hex : Unit3 α) = sixDigitForm hex := by
  have hr := h (hexValue hex.toList / 65536 % 256) (Nat.mod_lt _ (by norm_num))
  have hg := h (hexValue hex.toList / 256 % 256) (Nat.mod_lt _ (by norm_num))
  have hb := h (hexValue hex.toList % 256) (Nat.mod_lt _ (by norm_num))
  simp only [toHex, toHexChars, unitOfHex, normalize, ofHex, hr, hg, hb, hexBytes_eq_sixDigits]
  rw [hexValue_eq, sixDigitForm]

theorem ofHex_sixDigitForm (hex : String) : (ofHex (sixDigitForm hex) : Rgb α) = ofHex hex := by
  simp only [ofHex, sixDigitForm, String.toList_ofList, hexValue_sixDigits, ← hexValue_eq]
  congr 2 <;> omega

end

/-- A color comes through fractions with three decimals as its last six digits, in lower case. These have
its channels, so that nothing changes when they go the same way. With doubles the outcome is the same. -/
theorem three_decimals_keep_color (hex : String) :
    toHex (unitOfHex hex : Unit3 Rat) = sixDigitForm hex ∧
    (ofHex (toHex (unitOfHex hex : Unit3 Rat)) : Rgb Rat) = ofHex hex ∧
    toHex (unitOfHex (toHex (unitOfHex hex : Unit3 Rat)) : Unit3 Rat) =
      toHex (unitOfHex hex : Unit3 Rat) ∧
    toHex (unitOfHex hex : Unit3 Float) = toHex (unitOfHex hex : Unit3 Rat) := by
  have hform := toHex_unitOfHex keepsBytes_exact hex
  have hagain : (unitOfHex (sixDigitForm hex) : Unit3 Rat) = unitOfHex hex :=
    congrArg normalize (ofHex_sixDigitForm hex)
  refine ⟨hform, ?_, ?_, ?_⟩
  · rw [hform, ofHex_sixDigitForm]
  · rw [hform, hagain, hform]
  · rw [hform, toHex_unitOfHex keepsBytes_double]

example : sixDigitForm "#1A2B3C4D5Ez7" = "#3c4d5e" := by decide +kernel

end Color

end IconMotion
