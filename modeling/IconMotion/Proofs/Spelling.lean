import Mathlib
import IconMotion.Expression.Lexer

namespace IconMotion.Expression

open String (utf8Len)

inductive SpellsSign : List Char → Bool → Prop
  | none : SpellsSign [] false
  | plus : SpellsSign ['+'] false
  | minus : SpellsSign ['-'] true

inductive SpellsFraction : List Char → List Char → Prop
  | none : SpellsFraction [] []
  | point {ds : List Char} (hne : ds ≠ []) (hds : ∀ d ∈ ds, d.isDigit) : SpellsFraction ('.' :: ds) ds

inductive SpellsExponent : List Char → Int → Prop
  | none : SpellsExponent [] 0
  | letter {e : Char} {sign ds : List Char} {negative : Bool} (he : e = 'e' ∨ e = 'E')
      (hsign : SpellsSign sign negative) (hne : ds ≠ []) (hds : ∀ d ∈ ds, d.isDigit) :
      SpellsExponent (e :: (sign ++ ds)) (exponentValue negative ds)

inductive SpellsNumber : List Char → Literal → Prop
  | parts {whole fraction exponent ds : List Char} {e : Int} (hwhole : ∀ d ∈ whole, d.isDigit)
      (hfraction : SpellsFraction fraction ds) (hexponent : SpellsExponent exponent e)
      (hne : whole ≠ [] ∨ ds ≠ []) :
      SpellsNumber (whole ++ (fraction ++ exponent)) ⟨whole, ds, e⟩

inductive SpellsBody (quote : Char) : List Char → List Char → Prop
  | nil : SpellsBody quote [] []
  | plain {c : Char} {raw value : List Char} (hquote : c ≠ quote) (hslash : c ≠ '\\')
      (h : SpellsBody quote raw value) : SpellsBody quote (c :: raw) (c :: value)
  | escaped (c : Char) {raw value : List Char} (h : SpellsBody quote raw value) :
      SpellsBody quote ('\\' :: c :: raw) (escape c :: value)

def marks : List (List Char × Token) :=
  [(['=', '=', '='], .equal), (['!', '=', '='], .notEqual), (['&', '&'], .andAnd), (['|', '|'], .orOr),
    (['=', '='], .equal), (['!', '='], .notEqual), (['<', '='], .lessEqual), (['>', '='], .greaterEqual),
    (['('], .leftParen), ([')'], .rightParen), (['\x7b'], .leftBrace), (['\x7d'], .rightBrace),
    (['['], .leftBracket), ([']'], .rightBracket), ([','], .comma), (['.'], .dot), ([';'], .semicolon),
    (['='], .assign), (['+'], .plus), (['-'], .minus), (['*'], .star), (['/'], .slash),
    (['%'], .percent), (['!'], .bang), (['<'], .less), (['>'], .greater)]

inductive Spells : List Char → Token → Prop
  | number {text : List Char} {l : Literal} (h : SpellsNumber text l) : Spells text (.number l.toFloat)
  | text {quote : Char} {raw value : List Char} (hquote : quote = '\'' ∨ quote = '"')
      (h : SpellsBody quote raw value) : Spells (quote :: (raw ++ [quote])) (.text (String.ofList value))
  | word {c : Char} {cs : List Char} (hc : isIdentStart c) (hcs : ∀ d ∈ cs, isIdentPart d) :
      Spells (c :: cs) (wordToken (String.ofList (c :: cs)))
  | mark {text : List Char} {t : Token} (h : (text, t) ∈ marks) : Spells text t

theorem Spells.of_word {c : Char} {cs : List Char} {t : Token} (hc : isIdentStart c)
    (hcs : ∀ d ∈ cs, isIdentPart d) (ht : wordToken (String.ofList (c :: cs)) = t) : Spells (c :: cs) t :=
  ht ▸ .word hc hcs

/-- Whether a character behind a token would be taken into it, or make it another token. -/
def Token.takes : Token → Char → Bool
  | number _, c => c.isDigit || c == '.' || c == 'e' || c == 'E'
  | ident _, c | yes, c | no, c | declare, c | ifWord, c | elseWord, c => isIdentPart c
  | assign, c | bang, c | less, c | greater, c | equal, c | notEqual, c => c == '='
  | slash, c => c == '/' || c == '*'
  | dot, c => c.isDigit
  | _, _ => false

/-- A token ends before a text. -/
def Apart (t : Token) (rest : List Char) : Prop := ∀ c ∈ rest.head?, t.takes c = false

variable {pos : Nat} {cs ds text rest raw value : List Char}

theorem utf8Len_of_ascii (h : ∀ c ∈ cs, c.toNat < 128) : utf8Len cs = cs.length := by
  induction cs with
  | nil => rfl
  | cons c cs ih =>
    have hc : c.utf8Size = 1 := Char.utf8Size_eq_one_iff.mpr (by
      have := h c (by simp)
      simp only [Char.toNat, UInt32.le_iff_toNat_le] at *
      exact Nat.le_of_lt_succ this)
    rw [String.utf8Len_cons, hc, ih fun d hd => h d (by simp [hd]), List.length_cons]

theorem toNat_lt_of_isIdentPart {c : Char} (h : isIdentPart c) : c.toNat < 128 := by
  simp only [isIdentPart, Char.isAlphanum, Char.isAlpha, Char.isUpper, Char.isLower, Char.isDigit,
    Bool.or_eq_true, Bool.and_eq_true, decide_eq_true_eq, UInt32.le_iff_toNat_le, ge_iff_le,
    beq_iff_eq] at h
  rcases h with (((⟨-, h⟩ | ⟨-, h⟩) | ⟨-, h⟩) | rfl) | rfl
  · exact Nat.lt_of_le_of_lt h (by decide)
  · exact Nat.lt_of_le_of_lt h (by decide)
  · exact Nat.lt_of_le_of_lt h (by decide)
  · decide
  · decide

theorem isIdentPart_of_isDigit {c : Char} (h : c.isDigit) : isIdentPart c := by
  simp [isIdentPart, Char.isAlphanum, h]

theorem isIdentPart_of_isIdentStart {c : Char} (h : isIdentStart c) : isIdentPart c := by
  simp only [isIdentStart, isIdentPart, Char.isAlphanum, Bool.or_eq_true] at *
  tauto

theorem utf8Len_of_word (h : ∀ c ∈ cs, isIdentPart c) : utf8Len cs = cs.length :=
  utf8Len_of_ascii fun c hc => toNat_lt_of_isIdentPart (h c hc)

theorem utf8Len_of_digits (h : ∀ d ∈ ds, d.isDigit) : utf8Len ds = ds.length :=
  utf8Len_of_word fun d hd => isIdentPart_of_isDigit (h d hd)

theorem digitsOf_append (hds : ∀ d ∈ ds, d.isDigit) (hrest : ∀ c ∈ rest.head?, c.isDigit = false) :
    digitsOf (ds ++ rest) = (ds, rest) := by
  unfold digitsOf
  rw [List.takeWhile_append_of_pos hds, List.dropWhile_append_of_pos hds]
  cases rest with
  | nil => simp
  | cons c cs => simp [hrest c rfl]

theorem exists_digits (cs : List Char) :
    ∃ ds rest, digitsOf cs = (ds, rest) ∧ cs = ds ++ rest ∧ ∀ d ∈ ds, d.isDigit :=
  ⟨_, _, rfl, List.takeWhile_append_dropWhile.symm, fun _ hd => List.mem_takeWhile_imp hd⟩

theorem exists_fraction (cs : List Char) :
    ∃ text ds rest, fractionOf cs = (ds, utf8Len text, rest) ∧ cs = text ++ rest ∧
      SpellsFraction text ds := by
  unfold fractionOf
  split
  next d cs =>
    split
    next hd =>
      obtain ⟨ds, rest, hdigits, hcs, hds⟩ := exists_digits (d :: cs)
      have hne : ds ≠ [] := by
        rintro rfl
        simp [digitsOf, hd] at hdigits
      refine ⟨'.' :: ds, ds, rest, ?_, by rw [hcs]; rfl, .point hne hds⟩
      rw [hdigits, String.utf8Len_cons, utf8Len_of_digits hds]
      rfl
    next => exact ⟨[], [], _, rfl, rfl, .none⟩
  next => exact ⟨[], [], _, rfl, rfl, .none⟩

theorem fractionOf_append (h : SpellsFraction text ds)
    (hrest : ∀ c ∈ rest.head?, c.isDigit = false ∧ c ≠ '.') :
    fractionOf (text ++ rest) = (ds, utf8Len text, rest) := by
  cases h with
  | none =>
    cases rest with
    | nil => rfl
    | cons c cs => simp [fractionOf, (hrest c rfl).2]
  | point hne hds =>
    obtain ⟨d, ds, rfl⟩ := List.exists_cons_of_ne_nil hne
    have hdigits := digitsOf_append hds fun c hc => (hrest c hc).1
    have hlen := utf8Len_of_digits hds
    rw [List.cons_append] at hdigits
    rw [List.cons_append, List.cons_append, fractionOf, if_pos (hds d (by simp)), hdigits,
      String.utf8Len_cons, hlen]
    rfl

theorem exists_sign (cs : List Char) :
    ∃ text negative rest, signOf cs = (negative, utf8Len text, rest) ∧ cs = text ++ rest ∧
      SpellsSign text negative := by
  unfold signOf
  split
  next cs => exact ⟨['+'], false, cs, rfl, rfl, .plus⟩
  next cs => exact ⟨['-'], true, cs, rfl, rfl, .minus⟩
  next => exact ⟨[], false, _, rfl, rfl, .none⟩

theorem signOf_append {negative : Bool} (h : SpellsSign text negative) (hne : ds ≠ [])
    (hds : ∀ d ∈ ds, d.isDigit) :
    signOf (text ++ (ds ++ rest)) = (negative, utf8Len text, ds ++ rest) := by
  cases h with
  | none =>
    obtain ⟨d, ds, rfl⟩ := List.exists_cons_of_ne_nil hne
    have hd := hds d (by simp)
    have hplus : d ≠ '+' := by rintro rfl; exact absurd hd (by decide)
    have hminus : d ≠ '-' := by rintro rfl; exact absurd hd (by decide)
    simp [signOf, hplus, hminus]
  | plus => rfl
  | minus => rfl

theorem exists_exponent {e : Int} {w : Nat} (h : exponentOf pos cs = .ok (e, w, rest)) :
    ∃ text, cs = text ++ rest ∧ w = utf8Len text ∧ SpellsExponent text e := by
  cases cs with
  | nil =>
    cases h
    exact ⟨[], rfl, rfl, .none⟩
  | cons c cs =>
    by_cases hc : c = 'e' ∨ c = 'E'
    · simp only [exponentOf, if_pos hc] at h
      obtain ⟨sign, negative, behind, hsign, rfl, hspells⟩ := exists_sign cs
      obtain ⟨ds, rest', hdigits, rfl, hds⟩ := exists_digits behind
      simp only [hsign, hdigits] at h
      split at h
      next => cases h
      next hne =>
        cases h
        refine ⟨c :: (sign ++ ds), by simp, ?_, .letter hc hspells (by simpa using hne) hds⟩
        have hlen : c.utf8Size = 1 := by rcases hc with rfl | rfl <;> rfl
        rw [String.utf8Len_cons, String.utf8Len_append, utf8Len_of_digits hds, hlen]
        omega
    · simp only [exponentOf, if_neg hc] at h
      cases h
      exact ⟨[], rfl, rfl, .none⟩

theorem exponentOf_append {e : Int} (h : SpellsExponent text e)
    (hrest : ∀ c ∈ rest.head?, c.isDigit = false ∧ c ≠ 'e' ∧ c ≠ 'E') :
    exponentOf pos (text ++ rest) = .ok (e, utf8Len text, rest) := by
  cases h with
  | none =>
    cases rest with
    | nil => rfl
    | cons c cs =>
      obtain ⟨-, he, hE⟩ := hrest c rfl
      simp [exponentOf, he, hE]
  | @letter c sign ds negative hc hsign hne hds =>
    have hlen : c.utf8Size = 1 := by rcases hc with rfl | rfl <;> rfl
    rw [List.cons_append, List.append_assoc, exponentOf, if_pos hc, signOf_append hsign hne hds]
    simp only [digitsOf_append hds fun c hc => (hrest c hc).1]
    rw [if_neg (by simpa using hne), String.utf8Len_cons, String.utf8Len_append,
      utf8Len_of_digits hds, hlen]
    congr 3
    omega

theorem exists_number {c : Char} {t : Token} {w : Nat} (hc : startsNumber c cs)
    (h : number pos (c :: cs) = .ok (t, w, rest)) :
    ∃ text, Spells text t ∧ c :: cs = text ++ rest ∧ w = utf8Len text := by
  obtain ⟨whole, behind, hdigits, hcs, hwhole⟩ := exists_digits (c :: cs)
  obtain ⟨fraction, ds, behind', hfractionOf, rfl, hfraction⟩ := exists_fraction behind
  have hne : whole ≠ [] ∨ ds ≠ [] := by
    by_cases hd : c.isDigit
    · left
      rintro rfl
      simp [digitsOf, hd] at hdigits
    · right
      obtain ⟨rfl, hhead⟩ : c = '.' ∧ cs.head?.any Char.isDigit := by simpa [startsNumber, hd] using hc
      rintro rfl
      cases cs with
      | nil => cases hhead
      | cons d cs =>
        have hd : d.isDigit := hhead
        have hbehind : '.' :: d :: cs = fraction ++ behind' := congrArg Prod.snd hdigits
        simp [← hbehind, fractionOf, digitsOf, hd] at hfractionOf
  simp only [number, hdigits, hfractionOf] at h
  split at h
  next => cases h
  next e width rest' hexponentOf =>
    cases h
    obtain ⟨exponent, rfl, rfl, hexponent⟩ := exists_exponent hexponentOf
    refine ⟨whole ++ (fraction ++ exponent), .number (.parts hwhole hfraction hexponent hne), ?_, ?_⟩
    · simp [hcs]
    · rw [String.utf8Len_append, String.utf8Len_append, utf8Len_of_digits hwhole]
      omega

theorem number_append {l : Literal} (h : SpellsNumber text l)
    (hrest : Apart (.number l.toFloat) rest) :
    number pos (text ++ rest) = .ok (.number l.toFloat, utf8Len text, rest) := by
  obtain ⟨hwhole, hfraction, hexponent, -⟩ := h
  rename_i whole fraction exponent ds e
  have hfree : ∀ c ∈ rest.head?, (c.isDigit = false ∧ c ≠ '.') ∧ c ≠ 'e' ∧ c ≠ 'E' := by
    intro c hc
    simpa [Token.takes, and_assoc] using hrest c hc
  have hbehind : ∀ c ∈ (exponent ++ rest).head?, c.isDigit = false ∧ c ≠ '.' := by
    intro c hc
    cases hexponent with
    | none => exact (hfree c hc).1
    | letter he =>
      obtain rfl : _ = c := Option.some.inj hc
      rcases he with rfl | rfl <;> decide
  have hbehind' : ∀ c ∈ (fraction ++ (exponent ++ rest)).head?, c.isDigit = false := by
    intro c hc
    cases hfraction with
    | none => exact (hbehind c hc).1
    | point =>
      obtain rfl : _ = c := Option.some.inj hc
      rfl
  rw [List.append_assoc, List.append_assoc, number, digitsOf_append hwhole hbehind']
  simp only [fractionOf_append hfraction hbehind,
    exponentOf_append hexponent fun c hc => ⟨(hfree c hc).1.1, (hfree c hc).2⟩, String.utf8Len_append,
    utf8Len_of_digits hwhole, Nat.add_assoc]

theorem startsNumber_of_spells {l : Literal} (h : SpellsNumber text l) (rest : List Char) :
    ∃ c cs, text ++ rest = c :: cs ∧ startsNumber c cs := by
  obtain ⟨hwhole, hfraction, -, hne⟩ := h
  rename_i whole fraction exponent ds e
  rcases whole with - | ⟨d, whole⟩
  · cases hfraction with
    | none => simp at hne
    | point hds hdigits =>
      obtain ⟨d, ds, rfl⟩ := List.exists_cons_of_ne_nil hds
      exact ⟨'.', d :: (ds ++ (exponent ++ rest)), by simp, by simp [startsNumber, hdigits d (by simp)]⟩
  · exact ⟨d, whole ++ (fraction ++ (exponent ++ rest)), by simp, by simp [startsNumber, hwhole d (by simp)]⟩

theorem exists_body {quote : Char} {read : List Char} {w width : Nat} {s : String}
    (h : textBody quote read width cs = some (s, w, rest)) :
    ∃ raw value, SpellsBody quote raw value ∧ s = String.ofList (read.reverse ++ value) ∧
      cs = raw ++ quote :: rest ∧ w = width + utf8Len raw + 1 := by
  fun_induction textBody quote read width cs with
  | case1 => cases h
  | case2 read width cs =>
    cases h
    exact ⟨[], [], .nil, by simp, rfl, by simp⟩
  | case3 => cases h
  | case4 read width d cs hquote ih =>
    obtain ⟨raw, value, hbody, rfl, rfl, rfl⟩ := ih h
    refine ⟨'\\' :: d :: raw, escape d :: value, .escaped d hbody, by simp, rfl, ?_⟩
    have hlen : '\\'.utf8Size = 1 := rfl
    rw [String.utf8Len_cons, String.utf8Len_cons, hlen]
    omega
  | case5 read width c cs hquote hslash ih =>
    obtain ⟨raw, value, hbody, rfl, rfl, rfl⟩ := ih h
    refine ⟨c :: raw, c :: value, .plain hquote hslash hbody, by simp, rfl, ?_⟩
    rw [String.utf8Len_cons]
    omega

theorem textBody_append {quote : Char} (hquote : quote ≠ '\\') (h : SpellsBody quote raw value)
    (read : List Char) (width : Nat) (rest : List Char) :
    textBody quote read width (raw ++ quote :: rest) =
      some (String.ofList (read.reverse ++ value), width + utf8Len raw + 1, rest) := by
  induction h generalizing read width with
  | nil =>
    unfold textBody
    simp
  | @plain c raw value hc hslash _ ih =>
    rw [List.cons_append]
    unfold textBody
    rw [if_neg hc, if_neg hslash, ih, String.utf8Len_cons,
      List.reverse_cons, List.append_assoc]
    congr 3
    omega
  | @escaped c raw value _ ih =>
    have hlen : '\\'.utf8Size = 1 := rfl
    rw [List.cons_append, List.cons_append]
    unfold textBody
    rw [if_neg (Ne.symm hquote), if_pos rfl]
    dsimp only
    rw [ih, String.utf8Len_cons, String.utf8Len_cons, hlen, List.reverse_cons, List.append_assoc]
    congr 3
    omega

theorem word_append {c : Char} (hc : isIdentStart c) (hcs : ∀ d ∈ cs, isIdentPart d)
    (hrest : ∀ d ∈ rest.head?, isIdentPart d = false) :
    word c (cs ++ rest) = (wordToken (String.ofList (c :: cs)), utf8Len (c :: cs), rest) := by
  have hlen : utf8Len (c :: cs) = (c :: cs).length := utf8Len_of_word fun d hd => by
    rcases List.mem_cons.mp hd with rfl | hd
    · exact isIdentPart_of_isIdentStart hc
    · exact hcs d hd
  unfold word
  rw [List.takeWhile_append_of_pos hcs, List.dropWhile_append_of_pos hcs, hlen]
  cases rest with
  | nil => simp
  | cons d rest => simp [hrest d rfl]

theorem takes_wordToken (s : String) : (wordToken s).takes = isIdentPart := by
  unfold wordToken
  split_ifs <;> rfl

theorem exists_mark {r : Token × Rest} (h : mark? cs = some r) :
    ∃ text, (text, r.1) ∈ marks ∧ cs = text ++ r.2.2 ∧ r.2.1 = utf8Len text := by
  refine ⟨cs.take r.2.1, ?_⟩
  unfold mark? at h
  split at h
  all_goals cases h
  all_goals exact ⟨by simp [marks], rfl, rfl⟩

theorem utf8Len_of_mem_marks : ∀ m ∈ marks, utf8Len m.1 = m.1.length := by decide

theorem mark?_append : ∀ m ∈ marks, Apart m.2 rest →
    mark? (m.1 ++ rest) = some (m.2, m.1.length, rest) := by
  simp only [marks, List.forall_mem_cons, List.not_mem_nil, false_implies, implies_true, and_true]
  cases rest with
  | nil =>
    and_intros
    all_goals exact fun _ => rfl
  | cons c cs =>
    simp only [Apart, List.head?_cons, Option.mem_some, forall_eq', Token.takes]
    and_intros
    all_goals
      intro hc
      simp_all [mark?]

theorem utf8Len_quote {quote : Char} (h : quote = '\'' ∨ quote = '"') : quote.utf8Size = 1 := by
  rcases h with rfl | rfl <;> rfl

/-- What the lexer takes for a token spells it. -/
theorem exists_spells {c : Char} {t : Token} {w : Nat} (h : token pos c cs = .ok (t, w, rest)) :
    ∃ text, Spells text t ∧ c :: cs = text ++ rest ∧ w = utf8Len text := by
  unfold token at h
  split at h
  next hnumber => exact exists_number hnumber h
  next =>
    split at h
    next hquote =>
      split at h
      next s r hbody =>
        cases h
        obtain ⟨raw, value, hspells, rfl, rfl, rfl⟩ := exists_body hbody
        refine ⟨c :: (raw ++ [c]), .text hquote hspells, by simp, ?_⟩
        rw [String.utf8Len_cons, String.utf8Len_append, String.utf8Len_cons, utf8Len_quote hquote]
        simp only [String.utf8Len_nil]
        omega
      next => cases h
    next =>
      split at h
      next hc =>
        cases h
        have hcs : ∀ d ∈ cs.takeWhile isIdentPart, isIdentPart d := fun _ hd =>
          List.mem_takeWhile_imp hd
        have hword : word c (cs.takeWhile isIdentPart ++ []) = _ := word_append hc hcs (by simp)
        refine ⟨c :: cs.takeWhile isIdentPart, .word hc hcs, by simp, ?_⟩
        simpa [word, List.takeWhile_takeWhile] using congrArg (·.2.1) hword
      next =>
        split at h
        next r hmark =>
          cases h
          obtain ⟨text, hmem, hcs, hw⟩ := exists_mark hmark
          exact ⟨text, .mark hmem, hcs, hw⟩
        next => cases h

/-- A number is spelled as such, not as a word or a mark. -/
theorem Spells.exists_literal {x : Float} (h : Spells text (.number x)) :
    ∃ l : Literal, SpellsNumber text l ∧ x = l.toFloat := by
  generalize ht : Token.number x = t at h
  cases h with
  | @number text l h =>
    cases ht
    exact ⟨l, h, rfl⟩
  | text => cases ht
  | word =>
    unfold wordToken at ht
    split_ifs at ht
  | mark h =>
    have hmarks : ∀ m ∈ marks, ∀ x, m.2 ≠ .number x := by simp [marks]
    exact absurd ht.symm (hmarks _ h x)

def blanks : List Char := [' ', '\t', '\n', '\x0b', '\x0c', '\r']

theorem forall_mem_blanks {P : Char → Prop} : (∀ c ∈ blanks, P c) ↔
    P ' ' ∧ P '\t' ∧ P '\n' ∧ P '\x0b' ∧ P '\x0c' ∧ P '\r' := by
  simp [blanks]

theorem utf8Size_of_mem_blanks : ∀ c ∈ blanks, c.utf8Size = 1 := forall_mem_blanks.mpr (by decide)

theorem isBlank_iff {c : Char} : isBlank c ↔ c ∈ blanks := by
  constructor
  · intro h
    simp only [isBlank, Bool.or_eq_true, beq_iff_eq, Bool.and_eq_true, decide_eq_true_eq] at h
    rcases h with rfl | ⟨hlow, hhigh⟩
    · decide
    · have hlow : 9 ≤ c.toNat := hlow
      have hhigh : c.toNat ≤ 13 := hhigh
      rw [← Char.ofNat_toNat c]
      generalize c.toNat = n at hlow hhigh
      obtain rfl | rfl | rfl | rfl | rfl : n = 9 ∨ n = 10 ∨ n = 11 ∨ n = 12 ∨ n = 13 := by omega
      all_goals decide
  · have hblanks : ∀ c ∈ blanks, isBlank c = true := forall_mem_blanks.mpr (by decide)
    exact hblanks c

theorem isBlank_of_isIdentPart {c : Char} (h : isIdentPart c) : isBlank c = false := by
  have hblanks : ∀ c ∈ blanks, isIdentPart c = false := forall_mem_blanks.mpr (by decide)
  refine Bool.eq_false_iff.mpr fun hblank => ?_
  simp [hblanks c (isBlank_iff.mp hblank)] at h

theorem takes_of_isBlank {c : Char} (h : isBlank c) (t : Token) : t.takes c = false := by
  have hmem : c ∈ blanks := isBlank_iff.mp h
  simp only [blanks, List.mem_cons, List.not_mem_nil, or_false] at hmem
  rcases hmem with rfl | rfl | rfl | rfl | rfl | rfl <;> cases t <;> rfl

theorem skipGap_cons {c : Char} (hblank : isBlank c = false)
    (hslash : c = '/' → ∀ d ∈ cs.head?, d ≠ '/' ∧ d ≠ '*') :
    skipGap .plain pos (c :: cs) = .ok (pos, c :: cs) := by
  rw [skipGap, if_neg (by simp [hblank])]
  · rintro cs' rfl rfl
    exact (hslash rfl '/' rfl).1 rfl
  · rintro cs' rfl rfl
    exact (hslash rfl '*' rfl).2 rfl

theorem isBlank_of_startsNumber {c : Char} (h : startsNumber c cs) : isBlank c = false ∧ c ≠ '/' := by
  simp only [startsNumber, Bool.or_eq_true, Bool.and_eq_true, beq_iff_eq] at h
  rcases h with h | ⟨rfl, -⟩
  · exact ⟨isBlank_of_isIdentPart (isIdentPart_of_isDigit h), by rintro rfl; cases h⟩
  · decide

/-- No mark starts as another token does, but for the point; none but the slash starts as a comment. -/
theorem start_of_mem_marks : ∀ m ∈ marks, ∀ c ∈ m.1.head?, isBlank c = false ∧ c.isDigit = false ∧
    ¬ (c = '\'' ∨ c = '"') ∧ isIdentStart c = false ∧ (c = '.' → m = (['.'], .dot)) ∧
    (c = '/' → m = (['/'], .slash)) := by
  simp only [marks, List.forall_mem_cons, List.head?_cons, Option.mem_some, forall_eq',
    List.not_mem_nil, false_implies, implies_true, and_true]
  and_intros
  all_goals decide

theorem not_of_isIdentStart {c : Char} (h : isIdentStart c) :
    c.isDigit = false ∧ c ≠ '.' ∧ ¬ (c = '\'' ∨ c = '"') ∧ c ≠ '/' := by
  refine ⟨?_, ?_, ?_, ?_⟩
  · simp only [isIdentStart, Char.isAlpha, Char.isUpper, Char.isLower, Bool.or_eq_true, Bool.and_eq_true,
      decide_eq_true_eq, UInt32.le_iff_toNat_le, ge_iff_le, beq_iff_eq] at h
    have hletter {n : Nat} (hn : 58 ≤ n) (h : n ≤ c.toNat) : c.isDigit = false := by
      simp only [Char.isDigit, Bool.and_eq_false_iff, decide_eq_false_iff_not, UInt32.le_iff_toNat_le,
        ge_iff_le]
      exact .inr fun hle => absurd (Nat.le_trans (Nat.le_trans hn h) hle) (by decide)
    rcases h with ((⟨h, -⟩ | ⟨h, -⟩) | rfl) | rfl
    · exact hletter (by decide) h
    · exact hletter (by decide) h
    · decide
    · decide
  · rintro rfl
    cases h
  · rintro (rfl | rfl) <;> cases h
  · rintro rfl
    cases h

/-- The lexer takes a text for the token that it spells. -/
theorem Spells.exists_cons {t : Token} (h : Spells text t) (hrest : Apart t rest) :
    ∃ c cs, text ++ rest = c :: cs ∧ (∀ pos, skipGap .plain pos (c :: cs) = .ok (pos, c :: cs)) ∧
      ∀ pos, token pos c cs = .ok (t, utf8Len text, rest) := by
  cases h with
  | number h =>
    obtain ⟨c, cs, hcons, hstarts⟩ := startsNumber_of_spells h rest
    obtain ⟨hblank, hslash⟩ := isBlank_of_startsNumber hstarts
    refine ⟨c, cs, hcons, fun pos => skipGap_cons hblank fun hc => (hslash hc).elim, fun pos => ?_⟩
    rw [token, if_pos hstarts, ← hcons]
    exact number_append h hrest
  | @text quote raw value hquote h =>
    have hstarts : startsNumber quote (raw ++ quote :: rest) = false ∧ isBlank quote = false ∧
        quote ≠ '/' ∧ quote ≠ '\\' := by
      rcases hquote with rfl | rfl <;> exact ⟨rfl, by decide⟩
    refine ⟨quote, raw ++ quote :: rest, by simp,
      fun pos => skipGap_cons hstarts.2.1 fun hc => (hstarts.2.2.1 hc).elim, fun pos => ?_⟩
    rw [token, if_neg (by simp [hstarts.1]), if_pos hquote,
      textBody_append hstarts.2.2.2 h]
    simp only [List.reverse_nil, List.nil_append, String.utf8Len_cons, String.utf8Len_append,
      String.utf8Len_nil, utf8Len_quote hquote]
    congr 3
    omega
  | @word c cs hc hcs =>
    have hpart := isIdentPart_of_isIdentStart hc
    obtain ⟨hdigit, hdot, hquote, hslash⟩ := not_of_isIdentStart hc
    have hstarts : ¬ startsNumber c (cs ++ rest) := by simp [startsNumber, hdigit, hdot]
    refine ⟨c, cs ++ rest, rfl,
      fun pos => skipGap_cons (isBlank_of_isIdentPart hpart) fun hc => (hslash hc).elim, fun pos => ?_⟩
    rw [token, if_neg hstarts, if_neg hquote, if_pos hc, word_append hc hcs]
    intro d hd
    rw [← takes_wordToken (String.ofList (c :: cs))]
    exact hrest d hd
  | @mark _ t hmem =>
    obtain ⟨c, cs, rfl⟩ : ∃ c cs, text = c :: cs := by
      have hne : ∀ m ∈ marks, m.1 ≠ [] := by decide
      exact List.exists_cons_of_ne_nil (hne _ hmem)
    obtain ⟨hblank, hdigit, hquote, hstart, hdot, hslash⟩ := start_of_mem_marks _ hmem c rfl
    have hnumber : ¬ startsNumber c (cs ++ rest) := by
      by_cases hc : c = '.'
      · obtain ⟨rfl, rfl⟩ : cs = [] ∧ t = .dot := by simpa [hc] using hdot hc
        cases rest with
        | nil => simp [startsNumber, hdigit]
        | cons d rest =>
          have hd : d.isDigit = false := hrest d rfl
          simp [startsNumber, hdigit, hd]
      · simp [startsNumber, hdigit, hc]
    refine ⟨c, cs ++ rest, rfl, fun pos => skipGap_cons hblank fun hc d hd => ?_, fun pos => ?_⟩
    · obtain ⟨rfl, rfl⟩ : cs = [] ∧ t = .slash := by simpa [hc] using hslash hc
      simpa [Token.takes] using hrest d hd
    · have hmark := mark?_append (c :: cs, t) hmem hrest
      rw [List.cons_append] at hmark
      rw [token, if_neg hnumber, if_neg hquote, if_neg (by simp [hstart]), hmark,
        utf8Len_of_mem_marks (c :: cs, t) hmem]

theorem Spells.utf8Len_pos {t : Token} (h : Spells text t) : 0 < utf8Len text := by
  have hend : Apart t [] := nofun
  obtain ⟨c, cs, hcons, -⟩ := h.exists_cons hend
  rw [List.append_nil] at hcons
  rw [hcons, String.utf8Len_cons]
  exact Nat.add_pos_right _ c.utf8Size_pos

end IconMotion.Expression
