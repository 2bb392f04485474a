import IconMotion.Proofs.Bytes

namespace IconMotion.Expression

open String (utf8Len)

def numeral? (cs : List Char) : Option Token :=
  match number 0 cs with
  | .ok (t, _, []) => some t
  | _ => none

def marked? (n : Nat) (cs : List Char) : Option Token :=
  (marks.filter fun m => m.1.length = n).lookup cs

namespace ByteLexer

variable (source : String) (bound : Nat)

/-- The end of the digits in front of a point, behind the point if digits follow it. -/
def wholeEnd (i : Nat) : Except Halt Nat := do
  let i ← passOver source Char.isDigit bound i
  if (← isAt source (· == '.') i) && (← isAt source Char.isDigit (i + 1)) then return i + 1 else return i

def exponentEnd (i : Nat) : Except Halt Nat := do
  if ← isAt source (fun c => c == 'e' || c == 'E') i then
    let signed ← isAt source (fun c => c == '+' || c == '-') (i + 1)
    let j := if signed then i + 2 else i + 1
    let k ← passOver source Char.isDigit bound j
    if k = j then throw (.refused ⟨i, .noExponent⟩)
    return k
  else return i

def pointEnd (i : Nat) (c : Char) : Except Halt Nat :=
  if c = '.' then return i + 1 else wholeEnd source bound i

def numberEnd (i : Nat) (c : Char) : Except Halt Nat := do
  let i ← pointEnd source bound i c
  let i ← passOver source Char.isDigit bound i
  exponentEnd source bound i

def mark? (i : Nat) (c : Char) : Option (Token × Nat) :=
  match (cut? source i (i + 3)).bind (marked? 3) with
  | some t => some (t, 3)
  | none => match (cut? source i (i + 2)).bind (marked? 2) with
    | some t => some (t, 2)
    | none => (marked? 1 [c]).map (·, 1)

/-- The token that starts with a byte, and where it ends. -/
def token (i : Nat) (c : Char) : Except Halt (Token × Nat) := do
  if c.isDigit || (c == '.' && (← isAt source Char.isDigit (i + 1))) then
    let j ← numberEnd source bound i c
    match numeral? (← cut source i j) with
    | some t => return (t, j)
    | none => throw .noNumber
  else if c = '\'' ∨ c = '"' then
    match textBody c [] 1 (← cut source (i + 1) (bytes source).length) with
    | some (s, width, _) => return (.text s, i + width)
    | none => throw (.refused ⟨i, .unterminatedText⟩)
  else if isIdentStart c then
    let j ← passOver source isIdentPart bound (i + 1)
    return (wordToken (String.ofList (← cut source i j)), j)
  else match mark? source i c with
    | some (t, width) => return (t, i + width)
    | none => throw (.refused ⟨i, .unexpectedChar c⟩)

end ByteLexer

variable {source : String} {bound i n : Nat} {c : Char} {cs text rest : List Char} {t : Token}

theorem mem_marks_of_marked? (h : marked? n cs = some t) : (cs, t) ∈ marks ∧ cs.length = n := by
  obtain ⟨before, behind, hmarks, -⟩ := List.lookup_eq_some_iff.mp h
  have hmem : (cs, t) ∈ marks.filter fun m => m.1.length = n := by
    rw [hmarks]
    simp
  simpa using List.mem_filter.mp hmem

theorem marked?_of_mem : ∀ m ∈ marks, marked? m.1.length m.1 = some m.2 := by decide

theorem mark?_three (rest : List Char) (h : marked? 3 cs = some t) :
    mark? (cs ++ rest) = some (t, 3, rest) := by
  have hmarks : ∀ m ∈ marks, m.1.length = 3 → mark? (m.1 ++ rest) = some (m.2, 3, rest) := by
    simp only [marks, List.forall_mem_cons, List.length_cons, List.length_nil]
    simp [mark?]
  obtain ⟨hmem, hlength⟩ := mem_marks_of_marked? h
  exact hmarks _ hmem hlength

theorem mark?_two (rest : List Char) (h : marked? 2 cs = some t)
    (hthree : marked? 3 ((cs ++ rest).take 3) = none) :
    mark? (cs ++ rest) = some (t, 2, rest) := by
  have hmarks : ∀ m ∈ marks.filter (fun m => m.1.length = 2),
      marked? 3 ((m.1 ++ rest).take 3) = none → mark? (m.1 ++ rest) = some (m.2, 2, rest) := by
    change ∀ m ∈ [_, _, _, _, _, _], _
    simp only [List.forall_mem_cons]
    cases rest with
    | nil =>
      and_intros
      all_goals simp [mark?]
    | cons d rest =>
      by_cases hd : d = '='
      · subst hd
        and_intros
        all_goals simp [mark?, marked?, marks, List.lookup]
      · and_intros
        all_goals simp [mark?, hd]
  obtain ⟨hmem, hlength⟩ := mem_marks_of_marked? h
  exact hmarks _ (List.mem_filter.mpr ⟨hmem, by simpa using hlength⟩) hthree

theorem mark?_one (rest : List Char) (h : marked? 1 cs = some t)
    (htwo : marked? 2 ((cs ++ rest).take 2) = none) : mark? (cs ++ rest) = some (t, 1, rest) := by
  have hmarks : ∀ m ∈ marks.filter (fun m => m.1.length = 1),
      marked? 2 ((m.1 ++ rest).take 2) = none → mark? (m.1 ++ rest) = some (m.2, 1, rest) := by
    change ∀ m ∈ [_, _, _, _, _, _, _, _, _, _, _, _, _, _, _, _, _, _], _
    simp only [List.forall_mem_cons]
    cases rest with
    | nil =>
      and_intros
      all_goals simp [mark?]
    | cons d rest =>
      by_cases hd : d = '='
      · subst hd
        and_intros
        all_goals simp [mark?, marked?, marks, List.lookup]
      · and_intros
        all_goals simp [mark?, hd]
  obtain ⟨hmem, hlength⟩ := mem_marks_of_marked? h
  exact hmarks _ (List.mem_filter.mpr ⟨hmem, by simpa using hlength⟩) htwo

theorem mark?_eq (cs : List Char) : mark? cs =
    match marked? 3 (cs.take 3) with
    | some t => some (t, 3, cs.drop 3)
    | none => match marked? 2 (cs.take 2) with
      | some t => some (t, 2, cs.drop 2)
      | none => (marked? 1 (cs.take 1)).map (·, 1, cs.drop 1) := by
  cases hthree : marked? 3 (cs.take 3) with
  | some t =>
    have hmark := mark?_three (cs.drop 3) hthree
    rwa [List.take_append_drop] at hmark
  | none =>
    cases htwo : marked? 2 (cs.take 2) with
    | some t =>
      have hmark := mark?_two (cs.drop 2) htwo
      rw [List.take_append_drop] at hmark
      exact hmark hthree
    | none =>
      cases hone : marked? 1 (cs.take 1) with
      | some t =>
        have hmark := mark?_one (cs.drop 1) hone
        rw [List.take_append_drop] at hmark
        exact hmark htwo
      | none =>
        -- A mark that stands there is of one of the three lengths.
        cases hmark : mark? cs with
        | none => rfl
        | some r =>
          obtain ⟨text, hmem, hcs, -⟩ := exists_mark hmark
          have htake : marked? text.length (cs.take text.length) = some r.1 := by
            rw [hcs, List.take_left]
            exact marked?_of_mem _ hmem
          have hlengths : ∀ m ∈ marks, m.1.length = 1 ∨ m.1.length = 2 ∨ m.1.length = 3 := by decide
          obtain hlength | hlength | hlength := hlengths _ hmem
          · rw [hlength, hone] at htake
            cases htake
          · rw [hlength, htwo] at htake
            cases htake
          · rw [hlength, hthree] at htake
            cases htake

theorem Left.marked?_cut (h : Left source i cs) (n : Nat) :
    (cut? source i (i + n)).bind (marked? n) = marked? n (cs.take n) := by
  refine Option.ext fun t => ⟨fun hcut => ?_, fun hmarked => ?_⟩
  · obtain ⟨text, htext, hmarked⟩ := Option.bind_eq_some_iff.mp hcut
    obtain ⟨hlength, rest, rfl⟩ := h.exists_of_cut? htext
    obtain ⟨-, hn⟩ := mem_marks_of_marked? hmarked
    rwa [← hn, List.take_left, hn]
  · obtain ⟨hmem, hlength⟩ := mem_marks_of_marked? hmarked
    have happend : Left source i (cs.take n ++ cs.drop n) := by rwa [List.take_append_drop]
    have hcut := happend.cut?_eq
    rw [utf8Len_of_mem_marks _ hmem, hlength] at hcut
    rw [hcut]
    exact hmarked

theorem toNat_lt_of_mem_marks : ∀ m ∈ marks, ∀ c ∈ m.1, c.toNat < 128 := by
  simp only [marks, List.forall_mem_cons, List.not_mem_nil, false_implies, implies_true, and_true]
  and_intros
  all_goals decide

theorem ByteLexer.mark?_eq (h : Left source i (c :: cs)) :
    ByteLexer.mark? source i (firstByte c) = (Expression.mark? (c :: cs)).map fun r => (r.1, r.2.1) := by
  have huniform : Uniform fun c => marked? 1 [c] := by
    have hnone {c : Char} (hc : 128 ≤ c.toNat) : marked? 1 [c] = none := by
      refine Option.eq_none_iff_forall_ne_some.mpr fun t ht => Nat.not_lt.mpr hc ?_
      exact toNat_lt_of_mem_marks _ (mem_marks_of_marked? ht).1 c List.mem_cons_self
    exact fun c d hc hd => (hnone hc).trans (hnone hd).symm
  have hone : marked? 1 [firstByte c] = marked? 1 ((c :: cs).take 1) := huniform.firstByte c
  rw [ByteLexer.mark?, h.marked?_cut, h.marked?_cut, hone, Expression.mark?_eq]
  cases marked? 3 ((c :: cs).take 3) with
  | some t => rfl
  | none => cases marked? 2 ((c :: cs).take 2) with
    | some t => rfl
    | none => cases marked? 1 ((c :: cs).take 1) with
      | some t => rfl
      | none => rfl

theorem uniform_isDigit : Uniform Char.isDigit :=
  uniform_of_ascii fun _ hc => toNat_lt_of_isIdentPart (isIdentPart_of_isDigit hc)

theorem uniform_eq {d : Char} (hd : d.toNat < 128) : Uniform (· == d) :=
  uniform_of_ascii fun _ hc => eq_of_beq hc ▸ hd

theorem Uniform.or {p q : Char → Bool} (hp : Uniform p) (hq : Uniform q) : Uniform fun c => p c || q c :=
  fun c d hc hd => by simp only [hp c d hc hd, hq c d hc hd]

def pointed : List Char → Bool
  | [] => false
  | c :: cs => c == '.' && cs.head?.any Char.isDigit

theorem exists_of_pointed (h : pointed cs) : ∃ tail, cs = '.' :: tail := by
  cases cs with
  | nil => cases h
  | cons c tail =>
    obtain ⟨hc, -⟩ := Bool.and_eq_true_iff.mp h
    exact ⟨tail, by rw [eq_of_beq hc]⟩

theorem digitsOf_behind (cs : List Char) : digitsOf (digitsOf cs).2 = ([], (digitsOf cs).2) := by
  refine digitsOf_append (List.forall_mem_nil _) fun d hd => ?_
  have hhead : (cs.dropWhile Char.isDigit).head? = some d := hd
  have hnot := List.head?_dropWhile_not Char.isDigit cs
  rw [hhead] at hnot
  exact hnot

theorem fractionOf_eq (cs : List Char) : fractionOf cs =
    if pointed cs then ((digitsOf cs.tail).1, (digitsOf cs.tail).1.length + 1, (digitsOf cs.tail).2)
    else ([], 0, cs) := by
  rcases cs with - | ⟨c, - | ⟨d, cs⟩⟩
  · rfl
  · simp [fractionOf, pointed]
  · by_cases hc : c = '.'
    · subst hc
      simp [fractionOf, pointed]
    · simp [fractionOf, pointed, hc]

theorem width_signOf (cs : List Char) :
    (signOf cs).2.1 = if cs.head?.any (fun c => c == '+' || c == '-') then 1 else 0 := by
  unfold signOf
  split
  next => rfl
  next => rfl
  next =>
    cases cs with
    | nil => rfl
    | cons c cs => simp_all

namespace ByteLexer

section

variable (hbound : (bytes source).length < bound)

include hbound

theorem digits_eq (h : Left source i cs) :
    passOver source Char.isDigit bound i = .ok (i + (digitsOf cs).1.length) ∧
      Left source (i + (digitsOf cs).1.length) (digitsOf cs).2 := by
  have hdigits : utf8Len (cs.takeWhile Char.isDigit) = (digitsOf cs).1.length :=
    utf8Len_of_digits fun d hd => List.mem_takeWhile_imp hd
  have hpass := h.passOver uniform_isDigit hbound
  rwa [hdigits] at hpass

theorem exponentEnd_eq (h : Left source i cs) : exponentEnd source bound i =
    match exponentOf i cs with
    | .ok (_, width, _) => .ok (i + width)
    | .error e => .error (.refused e) := by
  have hletter : Uniform fun c => c == 'e' || c == 'E' :=
    (uniform_eq (by decide)).or (uniform_eq (by decide))
  have hsign : Uniform fun c => c == '+' || c == '-' :=
    (uniform_eq (by decide)).or (uniform_eq (by decide))
  rw [exponentEnd, h.isAt hletter, ok_bind]
  cases cs with
  | nil => rfl
  | cons c cs =>
    rw [List.head?_cons, Option.any_some, exponentOf]
    by_cases hc : c = 'e' ∨ c = 'E'
    · have hnext : Left source (i + 1) cs := by
        have hwidth : c.utf8Size = 1 := by rcases hc with rfl | rfl <;> rfl
        exact hwidth ▸ h.next
      have hsigned : (if cs.head?.any fun c => c == '+' || c == '-' then i + 2 else i + 1) =
          i + 1 + (signOf cs).2.1 := by
        rw [width_signOf]
        split <;> rfl
      have hbehind : Left source (i + 1 + (signOf cs).2.1) (signOf cs).2.2 := by
        obtain ⟨text, negative, rest, hsignOf, rfl, -⟩ := exists_sign cs
        rw [hsignOf]
        exact hnext.append
      rw [if_pos (by simpa using hc), hnext.isAt hsign, ok_bind, if_pos hc]
      simp only [hsigned, (digits_eq hbound hbehind).1, ok_bind]
      by_cases hds : (digitsOf (signOf cs).2.2).1 = []
      · simp only [hds, List.length_nil, Nat.add_zero, if_pos, List.isEmpty_nil]
        rfl
      · have hlength : i + 1 + (signOf cs).2.1 + (digitsOf (signOf cs).2.2).1.length ≠
            i + 1 + (signOf cs).2.1 := by
          have hpos := List.length_pos_iff.mpr hds
          omega
        rw [if_neg hlength, if_neg (by simpa using hds)]
        simp only [Nat.add_assoc]
        rfl
    · rw [if_neg (by simpa using hc), if_neg hc]
      rfl

theorem wholeEnd_eq (h : Left source i cs) :
    ∃ j, wholeEnd source bound i = .ok j ∧ j = i + (digitsOf cs).1.length +
      if pointed (digitsOf cs).2 then 1 else 0 := by
  obtain ⟨hpass, hbehind⟩ := digits_eq hbound h
  refine ⟨_, ?_, rfl⟩
  rw [wholeEnd, hpass, ok_bind, hbehind.isAt (uniform_eq (by decide)), ok_bind]
  generalize i + (digitsOf cs).1.length = j at hbehind ⊢
  generalize (digitsOf cs).2 = behind at hbehind ⊢
  cases behind with
  | nil =>
    rw [isAt_eq]
    rfl
  | cons c cs =>
    by_cases hc : c = '.'
    · subst hc
      have hnext : Left source (j + 1) cs := hbehind.next
      rw [hnext.isAt uniform_isDigit, ok_bind]
      simp only [List.head?_cons, Option.any_some, beq_self_eq_true, Bool.true_and, pointed]
      split <;> rfl
    · rw [isAt_eq]
      simp [pointed, hc]

/-- The digits in front of a point and those behind it end where they end for the lexer of characters. -/
theorem exists_pointEnd (h : Left source i (c :: cs)) (hc : startsNumber c cs) :
    ∃ j, pointEnd source bound i c = .ok j ∧
      passOver source Char.isDigit bound j =
        .ok (i + ((digitsOf (c :: cs)).1.length + (fractionOf (digitsOf (c :: cs)).2).2.1)) ∧
      Left source (i + ((digitsOf (c :: cs)).1.length + (fractionOf (digitsOf (c :: cs)).2).2.1))
        (fractionOf (digitsOf (c :: cs)).2).2.2 := by
  by_cases hpoint : c = '.'
  · subst hpoint
    have hdigits : digitsOf ('.' :: cs) = ([], '.' :: cs) := rfl
    have hpointed : pointed ('.' :: cs) = true := hc
    refine ⟨i + 1, rfl, ?_⟩
    have hnext : Left source (i + 1) cs := h.next
    have hplace : i + 1 + (digitsOf cs).1.length = i + (0 + ((digitsOf cs).1.length + 1)) := by omega
    rw [hdigits, fractionOf_eq, if_pos hpointed]
    exact hplace ▸ digits_eq hbound hnext
  · obtain ⟨j, hwhole, rfl⟩ := wholeEnd_eq hbound h
    refine ⟨_, by rw [pointEnd, if_neg hpoint, hwhole], ?_⟩
    obtain ⟨-, hbehind⟩ := digits_eq hbound h
    rw [fractionOf_eq]
    have hnone := digitsOf_behind (c :: cs)
    generalize (digitsOf (c :: cs)).1.length = n at hbehind ⊢
    generalize (digitsOf (c :: cs)).2 = behind at hbehind hnone ⊢
    by_cases hpointed : pointed behind
    · obtain ⟨tail, rfl⟩ := exists_of_pointed hpointed
      have hnext : Left source (i + n + 1) tail := hbehind.next
      have hplace : i + n + 1 + (digitsOf tail).1.length = i + (n + ((digitsOf tail).1.length + 1)) := by
        omega
      rw [if_pos hpointed, if_pos hpointed]
      exact hplace ▸ digits_eq hbound hnext
    · have hdigits := digits_eq hbound hbehind
      rw [hnone] at hdigits
      rw [if_neg hpointed, if_neg hpointed]
      exact hdigits

theorem numberEnd_eq (h : Left source i (c :: cs)) (hc : startsNumber c cs) :
    numberEnd source bound i c =
      match number i (c :: cs) with
      | .ok (_, width, _) => .ok (i + width)
      | .error e => .error (.refused e) := by
  obtain ⟨j, hj, hfraction, hbehind⟩ := exists_pointEnd hbound h hc
  rw [numberEnd, hj, ok_bind, hfraction, ok_bind, exponentEnd_eq hbound hbehind, number]
  simp only
  cases exponentOf (i + ((digitsOf (c :: cs)).1.length + (fractionOf (digitsOf (c :: cs)).2).2.1))
      (fractionOf (digitsOf (c :: cs)).2).2.2 with
  | error e => rfl
  | ok r => simp only [Nat.add_assoc]

end

end ByteLexer

theorem numeral?_of_number {width : Nat} (hc : startsNumber c cs)
    (h : number i (c :: cs) = .ok (t, width, rest)) :
    ∃ text, c :: cs = text ++ rest ∧ width = utf8Len text ∧ numeral? text = some t := by
  obtain ⟨text, hspells, hcs, hwidth⟩ := exists_number hc h
  obtain ⟨x, rfl⟩ : ∃ x, t = .number x := by
    simp only [number] at h
    split at h
    next => cases h
    next =>
      cases h
      exact ⟨_, rfl⟩
  obtain ⟨l, hl, rfl⟩ := hspells.exists_literal
  have hnumber : number 0 (text ++ []) = .ok (.number l.toFloat, utf8Len text, []) :=
    number_append hl (by simp [Apart])
  rw [List.append_nil] at hnumber
  exact ⟨text, hcs, hwidth, by rw [numeral?, hnumber]⟩

theorem toNat_lt_of_startsNumber (hc : startsNumber c cs) : c.toNat < 128 := by
  simp only [startsNumber, Bool.or_eq_true, Bool.and_eq_true, beq_iff_eq] at hc
  obtain hc | ⟨rfl, -⟩ := hc
  · exact toNat_lt_of_isIdentPart (isIdentPart_of_isDigit hc)
  · decide

theorem uniform_isIdentPart : Uniform isIdentPart := uniform_of_ascii fun _ => toNat_lt_of_isIdentPart

theorem uniform_isIdentStart : Uniform isIdentStart :=
  uniform_of_ascii fun _ hc => toNat_lt_of_isIdentPart (isIdentPart_of_isIdentStart hc)

theorem firstByte_eq_iff {d : Char} (hd : d.toNat < 128) : firstByte c = d ↔ c = d := by
  have hbeq : (firstByte c == d) = (c == d) := (uniform_eq hd).firstByte c
  rw [← beq_iff_eq, hbeq, beq_iff_eq]

theorem Left.next_of_lt (h : Left source i (c :: cs)) (hc : c.toNat < 128) : Left source (i + 1) cs :=
  utf8Size_of_lt hc ▸ h.next

theorem Left.cut_all (h : Left source i cs) : cut source i (bytes source).length = .ok cs := by
  have happend : Left source i (cs ++ []) := by rwa [List.append_nil]
  rw [h.length_bytes, happend.cut_eq]

theorem Left.exists_word (h : Left source i (c :: cs)) (hbound : (bytes source).length < bound)
    (hc : isIdentPart c) : ∃ j, Expression.passOver source isIdentPart bound (i + 1) = .ok j ∧
      j = i + (c :: cs.takeWhile isIdentPart).length ∧
      cut source i j = .ok (c :: cs.takeWhile isIdentPart) := by
  have hparts : ∀ d ∈ c :: cs.takeWhile isIdentPart, isIdentPart d :=
    List.forall_mem_cons.mpr ⟨hc, fun _ hd => List.mem_takeWhile_imp hd⟩
  obtain ⟨hpass, -⟩ := (h.next_of_lt (toNat_lt_of_isIdentPart hc)).passOver uniform_isIdentPart hbound
  refine ⟨_, hpass, ?_, ?_⟩
  · rw [utf8Len_of_word fun d hd => hparts d (List.mem_cons_of_mem c hd), List.length_cons]
    omega
  · have happend : Left source i ((c :: cs.takeWhile isIdentPart) ++ cs.dropWhile isIdentPart) := by
      rwa [List.cons_append, List.takeWhile_append_dropWhile]
    have hcut := happend.cut_eq
    rwa [String.utf8Len_cons, utf8Size_of_lt (toNat_lt_of_isIdentPart hc), Nat.add_comm _ 1,
      ← Nat.add_assoc] at hcut

/-- Looking at the next byte tells whether a number starts. -/
theorem Left.exists_isAt (h : Left source i (c :: cs)) : ∃ digit,
    Expression.isAt source Char.isDigit (i + 1) = .ok digit ∧
      ((firstByte c).isDigit || (firstByte c == '.' && digit)) = startsNumber c cs := by
  have hpoint : (firstByte c == '.') = (c == '.') := (uniform_eq (by decide)).firstByte c
  rw [uniform_isDigit.firstByte c, hpoint]
  by_cases hc : c = '.'
  · exact ⟨_, (h.next_of_lt (by rw [hc]; decide)).isAt uniform_isDigit, rfl⟩
  · have hc : (c == '.') = false := by simpa using hc
    refine ⟨_, isAt_eq _, ?_⟩
    simp [startsNumber, hc]

theorem Spells.ne_eof (h : Spells text t) : t ≠ .eof := by
  cases h with
  | number | text => simp
  | word =>
    unfold wordToken
    split_ifs <;> simp
  | mark h =>
    have hmarks : ∀ m ∈ marks, m.2 ≠ .eof := by decide
    exact hmarks _ h

theorem Left.behind_token {width : Nat} (h : Left source i (c :: cs))
    (htoken : Expression.token i c cs = .ok (t, width, rest)) :
    Left source (i + width) rest ∧ t ≠ .eof ∧ i < i + width := by
  obtain ⟨text, hspells, hcons, rfl⟩ := exists_spells htoken
  rw [hcons] at h
  exact ⟨h.append, hspells.ne_eof, Nat.lt_add_of_pos_right hspells.utf8Len_pos⟩

namespace ByteLexer

variable (hbound : (bytes source).length < bound)

include hbound

theorem token_eq (h : Left source i (c :: cs)) : token source bound i (firstByte c) =
    match Expression.token i c cs with
    | .ok (t, width, _) => .ok (t, i + width)
    | .error e => .error (.refused e) := by
  obtain ⟨digit, hdigit, hstarts⟩ := h.exists_isAt
  have hquotes : (firstByte c = '\'' ∨ firstByte c = '"') ↔ (c = '\'' ∨ c = '"') :=
    or_congr (firstByte_eq_iff (by decide)) (firstByte_eq_iff (by decide))
  have hident : isIdentStart (firstByte c) = isIdentStart c := uniform_isIdentStart.firstByte c
  simp only [token, hdigit, ok_bind, hstarts, hquotes, hident, Expression.token]
  split
  next hnumber =>
    rw [firstByte_of_lt (toNat_lt_of_startsNumber hnumber), numberEnd_eq hbound h hnumber]
    cases hvalue : number i (c :: cs) with
    | error e => rfl
    | ok r =>
      obtain ⟨t, width, rest⟩ := r
      obtain ⟨text, hcs, rfl, hnumeral⟩ := numeral?_of_number hnumber hvalue
      rw [hcs] at h
      simp only [ok_bind, h.cut_eq, hnumeral]
      rfl
  next =>
    split
    next hquote =>
      have hc : c.toNat < 128 := by rcases hquote with rfl | rfl <;> decide
      have hcut := (h.next_of_lt hc).cut_all
      simp only [firstByte_of_lt hc, hcut, ok_bind]
      cases textBody c [] 1 cs with
      | none => rfl
      | some r => rfl
    next =>
      split
      next hword =>
        obtain ⟨j, hpass, rfl, hcut⟩ := h.exists_word hbound (isIdentPart_of_isIdentStart hword)
        rw [hpass, ok_bind, hcut]
        rfl
      next =>
        rw [mark?_eq h]
        cases Expression.mark? (c :: cs) with
        | none => rfl
        | some r => rfl

end ByteLexer

end IconMotion.Expression
