import IconMotion.Proofs.Layout

namespace IconMotion.Expression

open String (utf8Len)

/-- How a run ends early: at an error in the source or, as no run must, at an index or a cut out of place, at
a text that is no number, with a count below zero, or with no turns left. -/
inductive Halt where
  | refused (e : ParseError)
  | outside
  | noNumber
  | belowZero
  | endless

def bytes (source : String) : List UInt8 := source.toByteArray.data.toList

section

variable (source : String)

def charAt (i : Nat) : Except Halt Char :=
  match (bytes source)[i]? with
  | some b => .ok (Char.ofUInt8 b)
  | none => .error .outside

def isAt (p : Char → Bool) (i : Nat) : Except Halt Bool :=
  if i < (bytes source).length then return p (← charAt source i) else return false

def cut? (i j : Nat) : Option (List Char) :=
  if i ≤ j ∧ String.Pos.Raw.isValid source ⟨i⟩ ∧ String.Pos.Raw.isValid source ⟨j⟩ then
    some (String.Pos.Raw.extract source ⟨i⟩ ⟨j⟩).toList
  else none

def cut (i j : Nat) : Except Halt (List Char) :=
  match cut? source i j with
  | some cs => .ok cs
  | none => .error .outside

def passOver (p : Char → Bool) : (turns : Nat) → Nat → Except Halt Nat
  | 0, _ => .error .endless
  | turns + 1, i => do
    if ← isAt source p i then passOver p turns (i + 1) else return i

end

section

variable {source : String} {i : Nat} (p : Char → Bool)

theorem isAt_eq : isAt source p i = .ok ((((bytes source)[i]?).map Char.ofUInt8).any p) := by
  unfold isAt charAt
  by_cases hi : i < (bytes source).length
  · rw [if_pos hi, List.getElem?_eq_getElem hi]
    rfl
  · rw [if_neg hi, List.getElem?_eq_none (Nat.le_of_not_lt hi)]
    rfl

theorem passOver_eq {turns : Nat} (hi : i ≤ (bytes source).length)
    (hturns : (bytes source).length < i + turns) :
    passOver source p turns i =
      .ok (i + (((bytes source).drop i).takeWhile (p ∘ Char.ofUInt8)).length) := by
  induction turns generalizing i with
  | zero => omega
  | succ turns ih =>
    rw [passOver, isAt_eq, ok_bind]
    by_cases hlt : i < (bytes source).length
    · rw [List.getElem?_eq_getElem hlt, Option.map_some, Option.any_some, List.drop_eq_getElem_cons hlt]
      change (if (p ∘ Char.ofUInt8) (bytes source)[i] = true then _ else _) = _
      cases hp : (p ∘ Char.ofUInt8) (bytes source)[i] with
      | true =>
        have hnext := ih (i := i + 1) hlt (by omega)
        rw [if_pos rfl, hnext, List.takeWhile_cons_of_pos hp, List.length_cons]
        congr 1
        omega
      | false =>
        rw [List.takeWhile_cons_of_neg (by rw [hp]; exact Bool.false_ne_true)]
        rfl
    · rw [List.getElem?_eq_none (Nat.le_of_not_lt hlt), List.drop_eq_nil_of_le (Nat.le_of_not_lt hlt)]
      rfl

end

theorem bytes_eq (source : String) : bytes source = source.toList.flatMap String.utf8EncodeChar := by
  have hbytes : source.toByteArray = source.toList.utf8Encode := by
    rw [← String.toByteArray_ofList, String.ofList_toList]
  rw [bytes, hbytes, List.utf8Encode, List.data_toByteArray]

theorem length_flatMap_encode (cs : List Char) :
    (cs.flatMap String.utf8EncodeChar).length = utf8Len cs := by
  induction cs with
  | nil => rfl
  | cons c cs ih =>
    rw [List.flatMap_cons, List.length_append, String.length_utf8EncodeChar, ih, String.utf8Len_cons,
      Nat.add_comm]

theorem length_bytes (source : String) : (bytes source).length = utf8Len source.toList := by
  rw [bytes_eq, length_flatMap_encode]

theorem toNat_ofUInt8 (b : UInt8) : (Char.ofUInt8 b).toNat = b.toNat := by
  simp [Char.ofUInt8, Char.toNat]

theorem ofUInt8_ofNat {n : Nat} (h : n < 256) : Char.ofUInt8 (UInt8.ofNat n) = Char.ofNat n := by
  have hvalid : n.isValidChar := Or.inl (by omega)
  rw [Char.ofNat, dif_pos hvalid]
  apply Char.ext
  apply UInt32.toNat_inj.mp
  simp [Char.ofUInt8, Char.ofNatAux, Nat.mod_eq_of_lt h]

theorem encode_cases (c : Char) :
    (c.toNat < 128 ∧ ∃ b, String.utf8EncodeChar c = [b] ∧ Char.ofUInt8 b = c) ∨
    (128 ≤ c.toNat ∧ 192 ≤ (firstByte c).toNat ∧ ∃ b bs, String.utf8EncodeChar c = b :: bs ∧
      Char.ofUInt8 b = firstByte c ∧ ∀ b' ∈ bs, 128 ≤ (Char.ofUInt8 b').toNat) := by
  have hvalue : c.val.toNat = c.toNat := rfl
  have hlt : c.toNat < 0x110000 := by
    obtain h | ⟨-, h⟩ := c.valid
    · exact Nat.lt_trans h (by decide)
    · exact h
  by_cases hascii : c.toNat < 128
  · refine .inl ⟨hascii, UInt8.ofNat c.toNat, ?_, ?_⟩
    · rw [String.utf8EncodeChar, hvalue, if_pos (Nat.le_of_lt_succ hascii)]
    · rw [ofUInt8_ofNat (by omega), Char.ofNat_toNat]
  refine .inr ⟨Nat.le_of_not_lt hascii, ?_⟩
  have hbyte {n : Nat} (h : n < 256) : (Char.ofUInt8 (UInt8.ofNat n)).toNat = n := by
    rw [toNat_ofUInt8, UInt8.toNat_ofNat', Nat.mod_eq_of_lt h]
  have hbytes (first : Nat) (others : List Nat) (hfirst : 192 ≤ first ∧ first < 256)
      (hothers : ∀ n ∈ others, 128 ≤ n ∧ n < 256) (hf : firstByte c = Char.ofNat first)
      (hencode : String.utf8EncodeChar c = UInt8.ofNat first :: others.map UInt8.ofNat) :
      192 ≤ (firstByte c).toNat ∧ ∃ b bs, String.utf8EncodeChar c = b :: bs ∧
        Char.ofUInt8 b = firstByte c ∧ ∀ b' ∈ bs, 128 ≤ (Char.ofUInt8 b').toNat := by
    rw [hf, ← ofUInt8_ofNat hfirst.2]
    refine ⟨by rw [hbyte hfirst.2]; exact hfirst.1, _, _, hencode, rfl, fun b' hb' => ?_⟩
    obtain ⟨n, hn, rfl⟩ := List.mem_map.mp hb'
    rw [hbyte (hothers n hn).2]
    exact (hothers n hn).1
  by_cases htwo : c.toNat < 0x800
  · have hfirst : c.toNat / 64 % 32 + 192 = 0xC0 + c.toNat / 0x40 := by omega
    refine hbytes (0xC0 + c.toNat / 0x40) [c.toNat % 64 + 128] (by omega) (by simp; omega) ?_ ?_
    · simp only [firstByte]
      rw [if_neg hascii, if_pos htwo]
    · rw [String.utf8EncodeChar, hvalue, if_neg (by omega), if_pos (by omega), hfirst]
      rfl
  by_cases hthree : c.toNat < 0x10000
  · have hfirst : c.toNat / 4096 % 16 + 224 = 0xE0 + c.toNat / 0x1000 := by omega
    refine hbytes (0xE0 + c.toNat / 0x1000) [c.toNat / 64 % 64 + 128, c.toNat % 64 + 128] (by omega)
      (by simp; omega) ?_ ?_
    · simp only [firstByte]
      rw [if_neg hascii, if_neg htwo, if_pos hthree]
    · rw [String.utf8EncodeChar, hvalue, if_neg (by omega), if_neg (by omega), if_pos (by omega), hfirst]
      rfl
  · have hfirst : c.toNat / 262144 % 8 + 240 = 0xF0 + c.toNat / 0x40000 := by omega
    refine hbytes (0xF0 + c.toNat / 0x40000)
      [c.toNat / 4096 % 64 + 128, c.toNat / 64 % 64 + 128, c.toNat % 64 + 128] (by omega)
      (by simp; omega) ?_ ?_
    · simp only [firstByte]
      rw [if_neg hascii, if_neg htwo, if_neg hthree]
    · rw [String.utf8EncodeChar, hvalue, if_neg (by omega), if_neg (by omega), if_neg (by omega), hfirst]
      rfl

theorem firstByte_of_lt {c : Char} (h : c.toNat < 128) : firstByte c = c := by
  simp only [firstByte]
  rw [if_pos h]

theorem utf8Size_of_lt {c : Char} (h : c.toNat < 128) : c.utf8Size = 1 := by
  have hlen : utf8Len [c] = [c].length := utf8Len_of_ascii (by simpa using h)
  simpa using hlen

/-- What does not tell characters from 128 on apart is the same for a character and for its bytes. -/
def Uniform {α : Type} (p : Char → α) : Prop := ∀ c d : Char, 128 ≤ c.toNat → 128 ≤ d.toNat → p c = p d

theorem uniform_of_ascii {p : Char → Bool} (h : ∀ c, p c = true → c.toNat < 128) : Uniform p := by
  have hfalse {c : Char} (hc : 128 ≤ c.toNat) : p c = false :=
    Bool.eq_false_iff.mpr fun htrue => Nat.not_lt.mpr hc (h c htrue)
  intro c d hc hd
  rw [hfalse hc, hfalse hd]

theorem Uniform.firstByte {α : Type} {p : Char → α} (h : Uniform p) (c : Char) :
    p (firstByte c) = p c := by
  obtain ⟨hc, -⟩ | ⟨hc, hfirst, -⟩ := encode_cases c
  · rw [firstByte_of_lt hc]
  · exact h _ _ (by omega) hc

theorem Uniform.of_mem_encode {α : Type} {p : Char → α} (h : Uniform p) {c : Char} {b : UInt8}
    (hb : b ∈ String.utf8EncodeChar c) : p (Char.ofUInt8 b) = p c := by
  obtain ⟨-, b', hencode, hchar⟩ | ⟨hc, hfirst, b', bs, hencode, hchar, hbs⟩ := encode_cases c
  · rw [hencode] at hb
    rw [List.mem_singleton.mp hb, hchar]
  · rw [hencode] at hb
    refine h _ _ ?_ hc
    obtain rfl | hb := List.mem_cons.mp hb
    · rw [hchar]
      omega
    · exact hbs b hb

theorem Uniform.takeWhile_encode {p : Char → Bool} (h : Uniform p) (cs : List Char) :
    (cs.flatMap String.utf8EncodeChar).takeWhile (p ∘ Char.ofUInt8) =
      (cs.takeWhile p).flatMap String.utf8EncodeChar := by
  induction cs with
  | nil => rfl
  | cons c cs ih =>
    cases hc : p c with
    | true =>
      have hall : ∀ b ∈ String.utf8EncodeChar c, (p ∘ Char.ofUInt8) b = true :=
        fun b hb => (h.of_mem_encode hb).trans hc
      rw [List.flatMap_cons, List.takeWhile_append_of_pos hall, ih, List.takeWhile_cons_of_pos hc,
        List.flatMap_cons]
    | false =>
      rw [List.takeWhile_cons_of_neg (by simp [hc]), List.flatMap_nil, List.flatMap_cons]
      obtain ⟨b, bs, hencode⟩ : ∃ b bs, String.utf8EncodeChar c = b :: bs := by
        obtain ⟨-, b, hencode, -⟩ | ⟨-, -, b, bs, hencode, -⟩ := encode_cases c
        · exact ⟨b, [], hencode⟩
        · exact ⟨b, bs, hencode⟩
      have hb : (p ∘ Char.ofUInt8) b = false :=
        (h.of_mem_encode (hencode ▸ List.mem_cons_self)).trans hc
      rw [hencode, List.cons_append, List.takeWhile_cons_of_neg (by rw [hb]; exact Bool.false_ne_true)]

/-- The characters behind an offset. -/
def Left (source : String) (i : Nat) (cs : List Char) : Prop :=
  ∃ before, source.toList = before ++ cs ∧ i = utf8Len before

variable {source : String} {i : Nat} {c : Char} {cs text rest : List Char}

namespace Left

theorem start (source : String) : Left source 0 source.toList := ⟨[], rfl, rfl⟩

theorem append (h : Left source i (text ++ rest)) : Left source (i + utf8Len text) rest := by
  obtain ⟨before, hsource, rfl⟩ := h
  exact ⟨before ++ text, by rw [hsource, List.append_assoc], (String.utf8Len_append _ _).symm⟩

theorem next (h : Left source i (c :: cs)) : Left source (i + c.utf8Size) cs := by
  have happend : Left source i ([c] ++ cs) := h
  simpa using happend.append

theorem length_bytes (h : Left source i cs) : (bytes source).length = i + utf8Len cs := by
  obtain ⟨before, hsource, rfl⟩ := h
  rw [Expression.length_bytes, hsource, String.utf8Len_append]

theorem drop_bytes (h : Left source i cs) :
    (bytes source).drop i = cs.flatMap String.utf8EncodeChar := by
  obtain ⟨before, hsource, rfl⟩ := h
  rw [bytes_eq, hsource, List.flatMap_append, ← length_flatMap_encode, List.drop_left]

theorem isValid (h : Left source i cs) : String.Pos.Raw.IsValid source ⟨i⟩ := by
  obtain ⟨before, hsource, rfl⟩ := h
  refine String.Pos.Raw.isValid_iff_exists_take_toList.mpr ⟨before.length, ?_⟩
  rw [hsource, List.take_left, String.utf8ByteSize_ofList]

theorem lt_length (h : Left source i (c :: cs)) : i < (bytes source).length := by
  have hpos := c.utf8Size_pos
  rw [h.length_bytes, String.utf8Len_cons]
  omega

theorem getElem?_bytes (h : Left source i cs) :
    ((bytes source)[i]?).map Char.ofUInt8 = cs.head?.map firstByte := by
  rw [← List.head?_drop, h.drop_bytes]
  cases cs with
  | nil => rfl
  | cons c cs =>
    rw [List.flatMap_cons]
    obtain ⟨hc, b, hencode, hchar⟩ | ⟨-, -, b, bs, hencode, hchar, -⟩ := encode_cases c
    · simp [hencode, hchar, firstByte_of_lt hc]
    · simp [hencode, hchar]

theorem charAt (h : Left source i (c :: cs)) : charAt source i = .ok (firstByte c) := by
  obtain ⟨b, hb, hchar⟩ := Option.map_eq_some_iff.mp h.getElem?_bytes
  rw [Expression.charAt, hb, ← hchar]

theorem isAt (h : Left source i cs) {p : Char → Bool} (hp : Uniform p) :
    isAt source p i = .ok (cs.head?.any p) := by
  have hany : (cs.head?.map firstByte).any p = cs.head?.any p := by
    rw [Option.any_map]
    exact congrArg (cs.head?.any ·) (funext hp.firstByte)
  rw [isAt_eq, h.getElem?_bytes, hany]

/-- A loop over bytes passes over the characters that a loop over characters passes over. -/
theorem passOver (h : Left source i cs) {p : Char → Bool} (hp : Uniform p) {turns : Nat}
    (hturns : (bytes source).length < turns) :
    passOver source p turns i = .ok (i + utf8Len (cs.takeWhile p)) ∧
      Left source (i + utf8Len (cs.takeWhile p)) (cs.dropWhile p) := by
  have hlength := h.length_bytes
  have happend : Left source i (cs.takeWhile p ++ cs.dropWhile p) := by
    rwa [List.takeWhile_append_dropWhile]
  refine ⟨?_, happend.append⟩
  rw [passOver_eq p (by omega) (by omega), h.drop_bytes, hp.takeWhile_encode, length_flatMap_encode]

theorem cut?_eq (h : Left source i (text ++ rest)) : cut? source i (i + utf8Len text) = some text := by
  have hleft := h.isValid
  have hright := h.append.isValid
  rw [← String.Pos.Raw.isValid_eq_true_iff] at hleft hright
  rw [cut?, if_pos ⟨Nat.le_add_right _ _, hleft, hright⟩]
  obtain ⟨before, hsource, rfl⟩ := h
  have hofList : source = String.ofList (before ++ text ++ rest) := by
    rw [List.append_assoc, ← hsource, String.ofList_toList]
  rw [hofList, String.extract_of_valid, String.toList_ofList]

theorem cut_eq (h : Left source i (text ++ rest)) : cut source i (i + utf8Len text) = .ok text := by
  rw [cut, h.cut?_eq]

theorem exists_of_cut? (h : Left source i cs) {n : Nat} (hcut : cut? source i (i + n) = some text) :
    utf8Len text = n ∧ ∃ rest, cs = text ++ rest := by
  obtain ⟨text', rest, rfl, rfl⟩ : ∃ text' rest, cs = text' ++ rest ∧ utf8Len text' = n := by
    have hvalid : String.Pos.Raw.IsValid source ⟨i + n⟩ := by
      unfold cut? at hcut
      split at hcut
      next hvalid => exact String.Pos.Raw.isValid_eq_true_iff.mp hvalid.2.2
      next => cases hcut
    obtain ⟨before, hsource, rfl⟩ := h
    obtain ⟨k, hk⟩ := String.Pos.Raw.isValid_iff_exists_take_toList.mp hvalid
    rw [String.utf8ByteSize_ofList, hsource, List.take_append, String.utf8Len_append] at hk
    by_cases hle : before.length ≤ k
    · rw [List.take_of_length_le hle] at hk
      refine ⟨cs.take (k - before.length), cs.drop (k - before.length), ?_, by simpa using hk.symm⟩
      rw [List.take_append_drop]
    · have hbefore := String.utf8Len_append (before.take k) (before.drop k)
      rw [List.take_append_drop] at hbefore
      rw [Nat.sub_eq_zero_of_le (by omega), List.take_zero, String.utf8Len_nil] at hk
      exact ⟨[], cs, rfl, by rw [String.utf8Len_nil]; simp at hk; omega⟩
  rw [h.cut?_eq] at hcut
  obtain rfl := Option.some.inj hcut
  exact ⟨rfl, rest, rfl⟩

end Left

end IconMotion.Expression
