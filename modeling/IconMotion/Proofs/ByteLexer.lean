import IconMotion.Proofs.ByteTokens

namespace IconMotion.Expression

open String (utf8Len)

def isLatinBlank (c : Char) : Bool := isBlank c || c == '\x85' || c == '\xa0'

namespace ByteLexer

variable (source : String) (bound : Nat)

def blockEnd (start : Nat) : (turns : Nat) → Nat → Except Halt Nat
  | 0, _ => throw .endless
  | turns + 1, i => do
    if (bytes source).length ≤ i + 1 then throw (.refused ⟨start, .unterminatedComment⟩)
    else if (← charAt source i) = '*' ∧ (← charAt source (i + 1)) = '/' then return i + 2
    else blockEnd start turns (i + 1)

def commentEnd? (i : Nat) (c : Char) : Except Halt (Option Nat) := do
  if c = '/' ∧ i + 1 < (bytes source).length then
    let d ← charAt source (i + 1)
    if d = '/' then return some (← passOver source (· != '\n') bound i)
    else if d = '*' then return some (← blockEnd source i bound (i + 2))
    else return none
  else return none

def lexFrom : (turns : Nat) → Nat → List Lexeme → Except Halt (List Lexeme)
  | 0, _, _ => throw .endless
  | turns + 1, i, read => do
    if i < (bytes source).length then
      let c ← charAt source i
      if isLatinBlank c then lexFrom turns (i + 1) read
      else match ← commentEnd? source bound i c with
        | some j => lexFrom turns j read
        | none =>
          let (t, j) ← token source bound i c
          lexFrom turns j (⟨t, i, j⟩ :: read)
    else return (⟨.eof, (bytes source).length, (bytes source).length⟩ :: read).reverse

/-- The lexemes of a source. No loop takes more turns than `bound`. -/
def lex : Except Halt (List Lexeme) := lexFrom source bound bound 0 []

end ByteLexer

variable {source : String} {bound turns start i : Nat} {c : Char} {cs : List Char}

theorem isLatinBlank_firstByte (c : Char) : isLatinBlank (firstByte c) = isBlank c := by
  have hlatin {d : Char} (hlow : d.toNat < 128 ∨ 192 ≤ d.toNat) : isLatinBlank d = isBlank d := by
    have hne {d' : Char} (hd' : 128 ≤ d'.toNat ∧ d'.toNat < 192) : (d == d') = false := by
      refine beq_eq_false_iff_ne.mpr ?_
      rintro rfl
      omega
    rw [isLatinBlank, hne (by decide), hne (by decide), Bool.or_false, Bool.or_false]
  have huniform : Uniform isBlank := uniform_of_ascii fun c hc => by
    have hascii : ∀ c ∈ blanks, c.toNat < 128 := forall_mem_blanks.mpr (by decide)
    exact hascii c (isBlank_iff.mp hc)
  obtain ⟨hc, -⟩ | ⟨-, hfirst, -⟩ := encode_cases c
  · rw [firstByte_of_lt hc, hlatin (.inl hc)]
  · rw [hlatin (.inr hfirst), huniform.firstByte]

theorem skipGap_line_eq (pos : Nat) (cs : List Char) :
    skipGap .line pos cs =
      skipGap .plain (pos + utf8Len (cs.takeWhile (· != '\n'))) (cs.dropWhile (· != '\n')) := by
  induction cs generalizing pos with
  | nil => rfl
  | cons c cs ih =>
    by_cases hc : c = '\n'
    · subst hc
      rfl
    · have hpass : (c != '\n') = true := by simpa using hc
      simp only [skipGap, if_neg hc, ih, List.takeWhile_cons, List.dropWhile_cons, hpass, if_true,
        String.utf8Len_cons]
      congr 1
      omega

namespace ByteLexer

theorem blockEnd_succ (hi : i < (bytes source).length) (hturns : 0 < turns)
    (hopen : ¬ (((bytes source)[i]?).map Char.ofUInt8 = some '*' ∧
      ((bytes source)[i + 1]?).map Char.ofUInt8 = some '/')) :
    blockEnd source start (turns + 1) i = blockEnd source start turns (i + 1) := by
  by_cases hlength : (bytes source).length ≤ i + 1
  · obtain ⟨turns, rfl⟩ : ∃ n, turns = n + 1 := ⟨turns - 1, by omega⟩
    rw [blockEnd, if_pos hlength, blockEnd, if_pos (by omega)]
  · rw [blockEnd, if_neg hlength]
    have hnext := Nat.lt_of_not_le hlength
    rw [List.getElem?_eq_getElem hi, List.getElem?_eq_getElem hnext] at hopen
    simp only [charAt, List.getElem?_eq_getElem hi, List.getElem?_eq_getElem hnext, ok_bind]
    rw [if_neg (by simpa using hopen)]

theorem blockEnd_add {n : Nat} (hi : i + n ≤ (bytes source).length) (hturns : 0 < turns)
    (hopen : ∀ k < n, ¬ (((bytes source)[i + k]?).map Char.ofUInt8 = some '*' ∧
      ((bytes source)[i + k + 1]?).map Char.ofUInt8 = some '/')) :
    blockEnd source start (turns + n) i = blockEnd source start turns (i + n) := by
  induction n generalizing i with
  | zero => rfl
  | succ n ih =>
    have hrest := ih (i := i + 1) (by omega) fun k hk => by
      have hnext := hopen (k + 1) (by omega)
      rwa [Nat.add_comm k 1, ← Nat.add_assoc] at hnext
    have hfirst : blockEnd source start (turns + n + 1) i = blockEnd source start (turns + n) (i + 1) :=
      blockEnd_succ (by omega) (by omega) (hopen 0 (Nat.succ_pos n))
    rw [← Nat.add_assoc, hfirst, hrest, Nat.add_assoc, Nat.add_comm 1 n]

/-- No byte of a character closes a comment, unless the character is a star and a slash comes next. -/
theorem open_of_not_close (h : Left source i (c :: cs)) (hclose : ¬ (c = '*' ∧ cs.head? = some '/')) :
    ∀ k < c.utf8Size, ¬ (((bytes source)[i + k]?).map Char.ofUInt8 = some '*' ∧
      ((bytes source)[i + k + 1]?).map Char.ofUInt8 = some '/') := by
  rintro k hk ⟨hstar, hslash⟩
  have hbyte : (bytes source)[i + k]? = (String.utf8EncodeChar c)[k]? := by
    rw [← List.getElem?_drop, h.drop_bytes, List.flatMap_cons, List.getElem?_append_left]
    rwa [String.length_utf8EncodeChar]
  obtain ⟨b, hb, hchar⟩ := Option.map_eq_some_iff.mp hstar
  have hc : (Char.ofUInt8 b == '*') = (c == '*') := by
    have hstar : Uniform (· == '*') := uniform_eq (by decide)
    exact hstar.of_mem_encode (List.mem_of_getElem? (hbyte.symm.trans hb))
  rw [hchar, beq_self_eq_true] at hc
  obtain rfl := eq_of_beq hc.symm
  obtain rfl : k = 0 := Nat.lt_one_iff.mp hk
  have hnext : Left source (i + 1) cs := h.next
  rw [Nat.add_zero, hnext.getElem?_bytes] at hslash
  obtain ⟨d, hd, hfirst⟩ := Option.map_eq_some_iff.mp hslash
  exact hclose ⟨rfl, by rw [hd, (firstByte_eq_iff (by decide)).mp hfirst]⟩

theorem blockEnd_eq (start : Nat) (h : Left source i cs) (hturns : (bytes source).length < i + turns) :
    blockEnd source start turns i = .error (.refused ⟨start, .unterminatedComment⟩) ∧
      skipGap (.block start) i cs = .error ⟨start, .unterminatedComment⟩ ∨
    ∃ j cs', blockEnd source start turns i = .ok j ∧ i ≤ j ∧ Left source j cs' ∧
      skipGap (.block start) i cs = skipGap .plain j cs' := by
  have hlength := h.length_bytes
  induction cs generalizing i turns with
  | nil =>
    obtain ⟨turns, rfl⟩ : ∃ n, turns = n + 1 := ⟨turns - 1, by rw [String.utf8Len_nil] at hlength; omega⟩
    rw [String.utf8Len_nil] at hlength
    exact .inl ⟨by rw [blockEnd, if_pos (by omega)]; rfl, rfl⟩
  | cons c cs ih =>
    by_cases hclose : c = '*' ∧ cs.head? = some '/'
    · obtain ⟨rfl, hhead⟩ := hclose
      obtain ⟨cs, rfl⟩ := List.head?_eq_some_iff.mp hhead
      have hnext : Left source (i + 1) ('/' :: cs) := h.next
      have hlt := hnext.lt_length
      obtain ⟨turns, rfl⟩ : ∃ n, turns = n + 1 := ⟨turns - 1, by omega⟩
      refine .inr ⟨i + 2, cs, ?_, Nat.le_add_right i 2, hnext.next, rfl⟩
      rw [blockEnd, if_neg (by omega), h.charAt, ok_bind, hnext.charAt]
      rfl
    · have hpos := c.utf8Size_pos
      rw [String.utf8Len_cons] at hlength
      obtain ⟨turns, rfl⟩ : ∃ n, turns = n + c.utf8Size := ⟨turns - c.utf8Size, by omega⟩
      have hmachine : blockEnd source start (turns + c.utf8Size) i =
          blockEnd source start turns (i + c.utf8Size) := by
        refine blockEnd_add ?_ ?_ (open_of_not_close h hclose) <;> omega
      have hgap : skipGap (.block start) i (c :: cs) = skipGap (.block start) (i + c.utf8Size) cs := by
        rw [skipGap]
        rintro cs' rfl rfl
        exact hclose ⟨rfl, rfl⟩
      rw [hmachine, hgap]
      have hnext := h.next
      have hturns : (bytes source).length < i + c.utf8Size + turns := by omega
      obtain hrefuse | ⟨j, cs', hend, hle, hleft, hskip⟩ := ih hnext hturns hnext.length_bytes
      · exact .inl hrefuse
      · exact .inr ⟨j, cs', hend, by omega, hleft, hskip⟩

theorem exists_lineEnd (hbound : (bytes source).length < bound) (h : Left source i ('/' :: '/' :: cs)) :
    ∃ j cs', passOver source (· != '\n') bound i = .ok j ∧ i < j ∧ Left source j cs' ∧
      skipGap .plain i ('/' :: '/' :: cs) = skipGap .plain j cs' := by
  have hends : Uniform fun c => c != '\n' := fun c d hc hd =>
    congrArg Bool.not (uniform_eq (by decide) c d hc hd)
  have htake : utf8Len (('/' :: '/' :: cs).takeWhile (· != '\n')) =
      2 + utf8Len (cs.takeWhile (· != '\n')) := Nat.add_comm _ 2
  obtain ⟨hpass, hleft⟩ := h.passOver hends hbound
  refine ⟨_, _, hpass, by omega, hleft, ?_⟩
  rw [skipGap, skipGap_line_eq, htake, Nat.add_assoc]
  rfl

theorem commentEnd?_slash {d : Char} (h : Left source i ('/' :: d :: cs)) :
    commentEnd? source bound i (firstByte '/') =
      if d = '/' then passOver source (· != '\n') bound i >>= fun j => .ok (some j)
      else if d = '*' then blockEnd source i bound (i + 2) >>= fun j => .ok (some j)
      else .ok none := by
  have hnext : Left source (i + 1) (d :: cs) := h.next
  rw [commentEnd?, if_pos ⟨rfl, hnext.lt_length⟩, hnext.charAt, ok_bind]
  simp only [firstByte_eq_iff (show '/'.toNat < 128 by decide),
    firstByte_eq_iff (show '*'.toNat < 128 by decide)]
  rfl

/-- At a character that is no blank there is a comment that is not closed, one that ends further on, or
none. -/
theorem commentEnd?_eq (hbound : (bytes source).length < bound) (h : Left source i (c :: cs))
    (hblank : isBlank c = false) :
    (∃ e, commentEnd? source bound i (firstByte c) = .error (.refused e) ∧
      skipGap .plain i (c :: cs) = .error e) ∨
    (∃ j cs', commentEnd? source bound i (firstByte c) = .ok (some j) ∧ i < j ∧ Left source j cs' ∧
      skipGap .plain i (c :: cs) = skipGap .plain j cs') ∨
    commentEnd? source bound i (firstByte c) = .ok none ∧ skipGap .plain i (c :: cs) = .ok (i, c :: cs) := by
  by_cases hc : c = '/'
  · subst hc
    cases cs with
    | nil =>
      have hlength : (bytes source).length = i + 1 := h.next.length_bytes
      refine .inr (.inr ⟨?_, rfl⟩)
      rw [commentEnd?, if_neg (by omega)]
      rfl
    | cons d cs =>
      rw [commentEnd?_slash h]
      by_cases hline : d = '/'
      · subst hline
        obtain ⟨j, cs', hpass, hlt, hleft, hskip⟩ := exists_lineEnd hbound h
        exact .inr (.inl ⟨j, cs', by rw [if_pos rfl, hpass]; rfl, hlt, hleft, hskip⟩)
      · rw [if_neg hline]
        by_cases hblock : d = '*'
        · subst hblock
          have hbehind : Left source (i + 2) cs := h.next.next
          rw [if_pos rfl, skipGap]
          have hturns : (bytes source).length < i + 2 + bound := by omega
          obtain ⟨hend, hskip⟩ | ⟨j, cs', hend, hle, hleft, hskip⟩ := blockEnd_eq i hbehind hturns
          · exact .inl ⟨_, by rw [hend]; rfl, hskip⟩
          · exact .inr (.inl ⟨j, cs', by rw [hend]; rfl, by omega, hleft, hskip⟩)
        · rw [if_neg hblock]
          have hskip : skipGap .plain i ('/' :: d :: cs) = .ok (i, '/' :: d :: cs) :=
            skipGap_cons hblank fun _ _ hd => Option.some.inj hd ▸ ⟨hline, hblock⟩
          exact .inr (.inr ⟨rfl, hskip⟩)
  · refine .inr (.inr ⟨?_, skipGap_cons hblank fun hslash => (hc hslash).elim⟩)
    have hslash : firstByte c ≠ '/' := fun hfirst => hc ((firstByte_eq_iff (by decide)).mp hfirst)
    rw [commentEnd?, if_neg (by simp [hslash])]
    rfl

theorem lexFrom_eq {read : List Lexeme} (hbound : (bytes source).length < bound) (h : Left source i cs)
    (hturns : (bytes source).length < i + turns) :
    lexFrom source bound turns i read = (Expression.lexFrom i cs read).mapError .refused := by
  induction turns generalizing i cs read with
  | zero =>
    have hlength := h.length_bytes
    omega
  | succ turns ih =>
    rw [lexFrom, Expression.lexFrom_eq]
    cases cs with
    | nil =>
      have hlength : (bytes source).length = i := h.length_bytes
      rw [if_neg (by omega), hlength]
      rfl
    | cons c cs =>
      rw [if_pos h.lt_length, h.charAt, ok_bind, isLatinBlank_firstByte]
      cases hblank : isBlank c with
      | true =>
        have hsize : c.utf8Size = 1 := utf8Size_of_mem_blanks c (isBlank_iff.mp hblank)
        have hnext : Left source (i + 1) cs := hsize ▸ h.next
        rw [if_pos rfl, ih hnext (by omega), skipGap_blank hblank, ← Expression.lexFrom_eq]
      | false =>
        rw [if_neg (by simp)]
        obtain ⟨e, hend, hskip⟩ | ⟨j, cs', hend, hlt, hleft, hskip⟩ | ⟨hend, hskip⟩ :=
          commentEnd?_eq hbound h hblank
        · rw [hend, hskip]
          rfl
        · rw [hend, ok_bind]
          dsimp only
          rw [ih hleft (by omega), hskip, ← Expression.lexFrom_eq]
        · rw [hend, ok_bind, hskip, token_eq hbound h]
          dsimp only
          cases htoken : Expression.token i c cs with
          | error e => rfl
          | ok r =>
            obtain ⟨t, width, rest⟩ := r
            obtain ⟨hleft, -, hlt⟩ := h.behind_token htoken
            exact ih hleft (by omega)

theorem lex_eq (source : String) (hbound : (bytes source).length < bound) :
    lex source bound = (Expression.lex source).mapError .refused :=
  lexFrom_eq hbound (.start source) (by omega)

-- A character of two bytes is refused by its first byte.
example : lex "é" 3 = .error (.refused ⟨0, .unexpectedChar 'Ã'⟩) := by rfl

end ByteLexer

end IconMotion.Expression
