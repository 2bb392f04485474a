import IconMotion.Expression.Error
import IconMotion.Number.Literal

namespace IconMotion.Expression

/-- The characters a scan has passed, by their width, and those left. -/
abbrev Rest := Nat × List Char

def isBlank (c : Char) : Bool := c == ' ' || ('\t' ≤ c && c ≤ '\r')

/-- Between lexemes: in plain blanks, or in a comment up to its line or from its start. -/
inductive Gap where
  | plain
  | line
  | block (start : Nat)

def skipGap : Gap → Nat → List Char → Except ParseError (Nat × List Char)
  | .plain, pos, [] => .ok (pos, [])
  | .plain, pos, '/' :: '/' :: cs => skipGap .line (pos + 2) cs
  | .plain, pos, '/' :: '*' :: cs => skipGap (.block pos) (pos + 2) cs
  | .plain, pos, c :: cs => if isBlank c then skipGap .plain (pos + 1) cs else .ok (pos, c :: cs)
  | .line, pos, [] => .ok (pos, [])
  | .line, pos, c :: cs => skipGap (if c = '\n' then .plain else .line) (pos + c.utf8Size) cs
  | .block start, _, [] => .error ⟨start, .unterminatedComment⟩
  | .block _, pos, '*' :: '/' :: cs => skipGap .plain (pos + 2) cs
  | .block start, pos, c :: cs => skipGap (.block start) (pos + c.utf8Size) cs

def isIdentStart (c : Char) : Bool := c.isAlpha || c == '_' || c == '$'

def isIdentPart (c : Char) : Bool := c.isAlphanum || c == '_' || c == '$'

def wordToken (s : String) : Token :=
  if s = "true" then .yes
  else if s = "false" then .no
  else if s = "var" ∨ s = "let" ∨ s = "const" then .declare
  else if s = "if" then .ifWord
  else if s = "else" then .elseWord
  else .ident s

def word (c : Char) (cs : List Char) : Token × Rest :=
  let name := c :: cs.takeWhile isIdentPart
  (wordToken (String.ofList name), name.length, cs.dropWhile isIdentPart)

def digitsOf (cs : List Char) : List Char × List Char :=
  (cs.takeWhile Char.isDigit, cs.dropWhile Char.isDigit)

def fractionOf : List Char → List Char × Rest
  | '.' :: d :: cs =>
    if d.isDigit then
      let (ds, rest) := digitsOf (d :: cs)
      (ds, ds.length + 1, rest)
    else ([], 0, '.' :: d :: cs)
  | cs => ([], 0, cs)

def signOf : List Char → Bool × Rest
  | '+' :: cs => (false, 1, cs)
  | '-' :: cs => (true, 1, cs)
  | cs => (false, 0, cs)

def exponentValue (negative : Bool) (ds : List Char) : Int :=
  if negative then -(Literal.digitsValue ds : Int) else Literal.digitsValue ds

def exponentOf (pos : Nat) : List Char → Except ParseError (Int × Rest)
  | [] => .ok (0, 0, [])
  | c :: cs =>
    if c = 'e' ∨ c = 'E' then
      let (negative, width, cs) := signOf cs
      let (ds, rest) := digitsOf cs
      if ds.isEmpty then .error ⟨pos, .noExponent⟩
      else .ok (exponentValue negative ds, 1 + width + ds.length, rest)
    else .ok (0, 0, c :: cs)

def number (pos : Nat) (cs : List Char) : Except ParseError (Token × Rest) :=
  let (whole, cs) := digitsOf cs
  let (fraction, width, cs) := fractionOf cs
  let before := whole.length + width
  match exponentOf (pos + before) cs with
  | .error e => .error e
  | .ok (exponent, width, cs) =>
    .ok (.number (Literal.toFloat ⟨whole, fraction, exponent⟩), before + width, cs)

def escape (c : Char) : Char :=
  if c = 'n' then '\n' else if c = 't' then '\t' else c

def textBody (quote : Char) (read : List Char) (width : Nat) : List Char → Option (String × Rest)
  | [] => none
  | c :: cs =>
    if c = quote then some (String.ofList read.reverse, width + 1, cs)
    else if c = '\\' then
      match cs with
      | [] => none
      | d :: cs => textBody quote (escape d :: read) (width + 1 + d.utf8Size) cs
    else textBody quote (c :: read) (width + c.utf8Size) cs

/-- The mark that a source starts with. A longer mark goes before a shorter one. -/
def mark? : List Char → Option (Token × Rest)
  | '=' :: '=' :: '=' :: cs => some (.equal, 3, cs)
  | '!' :: '=' :: '=' :: cs => some (.notEqual, 3, cs)
  | '&' :: '&' :: cs => some (.andAnd, 2, cs)
  | '|' :: '|' :: cs => some (.orOr, 2, cs)
  | '=' :: '=' :: cs => some (.equal, 2, cs)
  | '!' :: '=' :: cs => some (.notEqual, 2, cs)
  | '<' :: '=' :: cs => some (.lessEqual, 2, cs)
  | '>' :: '=' :: cs => some (.greaterEqual, 2, cs)
  | '(' :: cs => some (.leftParen, 1, cs)
  | ')' :: cs => some (.rightParen, 1, cs)
  | '\x7b' :: cs => some (.leftBrace, 1, cs)
  | '\x7d' :: cs => some (.rightBrace, 1, cs)
  | '[' :: cs => some (.leftBracket, 1, cs)
  | ']' :: cs => some (.rightBracket, 1, cs)
  | ',' :: cs => some (.comma, 1, cs)
  | '.' :: cs => some (.dot, 1, cs)
  | ';' :: cs => some (.semicolon, 1, cs)
  | '=' :: cs => some (.assign, 1, cs)
  | '+' :: cs => some (.plus, 1, cs)
  | '-' :: cs => some (.minus, 1, cs)
  | '*' :: cs => some (.star, 1, cs)
  | '/' :: cs => some (.slash, 1, cs)
  | '%' :: cs => some (.percent, 1, cs)
  | '!' :: cs => some (.bang, 1, cs)
  | '<' :: cs => some (.less, 1, cs)
  | '>' :: cs => some (.greater, 1, cs)
  | _ => none

def firstByte (c : Char) : Char :=
  let n := c.toNat
  if n < 0x80 then c
  else if n < 0x800 then Char.ofNat (0xC0 + n / 0x40)
  else if n < 0x10000 then Char.ofNat (0xE0 + n / 0x1000)
  else Char.ofNat (0xF0 + n / 0x40000)

def startsNumber (c : Char) (cs : List Char) : Bool :=
  c.isDigit || (c == '.' && cs.head?.any Char.isDigit)

def token (pos : Nat) (c : Char) (cs : List Char) : Except ParseError (Token × Rest) :=
  if startsNumber c cs then number pos (c :: cs)
  else if c = '\'' ∨ c = '"' then
    match textBody c [] 1 cs with
    | some (s, rest) => .ok (.text s, rest)
    | none => .error ⟨pos, .unterminatedText⟩
  else if isIdentStart c then .ok (word c cs)
  else match mark? (c :: cs) with
    | some found => .ok found
    | none => .error ⟨pos, .unexpectedChar (firstByte c)⟩

theorem length_skipGap {gap : Gap} {pos : Nat} {cs : List Char} {r : Nat × List Char}
    (h : skipGap gap pos cs = .ok r) : r.2.length ≤ cs.length := by
  fun_induction skipGap gap pos cs <;> simp_all <;> grind

theorem length_dropWhile_le (p : Char → Bool) (cs : List Char) :
    (cs.dropWhile p).length ≤ cs.length := (List.dropWhile_suffix p).length_le

theorem length_textBody {quote : Char} {read : List Char} {width : Nat} {cs : List Char}
    {r : String × Rest} (h : textBody quote read width cs = some r) : r.2.2.length < cs.length := by
  fun_induction textBody quote read width cs <;> grind

theorem length_mark {cs : List Char} {r : Token × Rest} (h : mark? cs = some r) :
    r.2.2.length < cs.length := by
  unfold mark? at h
  split at h <;> grind

theorem length_fractionOf (cs : List Char) : (fractionOf cs).2.2.length ≤ cs.length := by
  unfold fractionOf
  split
  · next d cs =>
    split
    · have := length_dropWhile_le Char.isDigit (d :: cs)
      simp only [digitsOf, List.length_cons] at *
      omega
    · simp
  · simp

theorem length_signOf (cs : List Char) : (signOf cs).2.2.length ≤ cs.length := by
  unfold signOf
  split <;> simp

theorem length_exponentOf {pos : Nat} {cs : List Char} {r : Int × Rest}
    (h : exponentOf pos cs = .ok r) : r.2.2.length ≤ cs.length := by
  cases cs with
  | nil => simp_all [exponentOf]; grind
  | cons c cs =>
    have hs := length_signOf cs
    have hd := length_dropWhile_le Char.isDigit (signOf cs).2.2
    by_cases he : c = 'e' ∨ c = 'E'
    · simp only [exponentOf, digitsOf, he, if_true] at h
      by_cases hn : ((signOf cs).2.2.takeWhile Char.isDigit).isEmpty
      · simp [hn] at h
      · simp only [hn, Bool.false_eq_true, if_false, Except.ok.injEq] at h
        subst h
        exact Nat.le_succ_of_le (Nat.le_trans hd hs)
    · simp only [exponentOf, he, if_false, Except.ok.injEq] at h
      subst h
      simp

theorem length_number {pos : Nat} {c : Char} {cs : List Char} {r : Token × Rest}
    (hc : startsNumber c cs) (h : number pos (c :: cs) = .ok r) : r.2.2.length ≤ cs.length := by
  simp only [number] at h
  split at h
  · simp at h
  · next exponent width rest he =>
    have hrest := length_exponentOf he
    simp only [Except.ok.injEq] at h
    subst h
    refine Nat.le_trans hrest ?_
    by_cases hd : c.isDigit
    · have h1 := length_fractionOf (digitsOf (c :: cs)).2
      have h2 := length_dropWhile_le Char.isDigit cs
      simp only [digitsOf, List.dropWhile_cons, hd, if_true] at h1 ⊢
      exact Nat.le_trans h1 h2
    · have hdot : c = '.' ∧ cs.head?.any Char.isDigit := by
        simpa [startsNumber, hd] using hc
      obtain ⟨rfl, hcs⟩ := hdot
      cases cs with
      | nil => simp at hcs
      | cons d cs =>
        have hd' : d.isDigit = true := by simpa using hcs
        have h2 := length_dropWhile_le Char.isDigit cs
        simp only [digitsOf, List.dropWhile_cons, hd, fractionOf, hd', if_true, List.length_cons,
          Bool.false_eq_true, if_false]
        omega

theorem length_token {pos : Nat} {c : Char} {cs : List Char} {r : Token × Rest}
    (h : token pos c cs = .ok r) : r.2.2.length ≤ cs.length := by
  unfold token at h
  split at h
  · next hc => exact length_number hc h
  · split at h
    · split at h
      · next hb =>
        have := length_textBody hb
        simp only [Except.ok.injEq] at h
        subst h
        exact Nat.le_of_lt this
      · simp at h
    · split at h
      · simp only [Except.ok.injEq] at h
        subst h
        exact length_dropWhile_le _ _
      · split at h
        · next hm =>
          have := length_mark hm
          simp only [Except.ok.injEq] at h
          subst h
          simp only [List.length_cons] at this
          omega
        · simp at h

/-- The lexemes from a place on, after those already read, which are in reverse. -/
def lexFrom (pos : Nat) (cs : List Char) (read : List Lexeme) : Except ParseError (List Lexeme) :=
  match _hg : skipGap .plain pos cs with
  | .error e => .error e
  | .ok (pos, []) => .ok (⟨.eof, pos, pos⟩ :: read).reverse
  | .ok (pos, c :: rest) => match _ht : token pos c rest with
    | .error e => .error e
    | .ok (t, width, rest) => lexFrom (pos + width) rest (⟨t, pos, pos + width⟩ :: read)
termination_by cs.length
decreasing_by
  have h1 := length_skipGap _hg
  have h2 := length_token _ht
  simp only [List.length_cons] at h1 h2
  omega

def lex (source : String) : Except ParseError (List Lexeme) := lexFrom 0 source.toList []

end IconMotion.Expression
