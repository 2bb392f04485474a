import IconMotion.Proofs.Boundaries
import IconMotion.Proofs.Cursor

namespace IconMotion.Expression

def Closed (ls : List Lexeme) : Prop := ∃ l, ls.getLast? = some l ∧ l.token = .eof

/-- The outcome of a run at a depth against that of a parser: they read the same, and the run ends at `n` or
behind it, where the lexemes left to the parser start; or they refuse the same at one of the lexemes. The
cursor is inside the lexemes and at the depth. -/
inductive Follows (ls : List Lexeme) (depth n : Nat) {τ : Type} :
    Except Halt τ × Cursor → Except ParseError (τ × List Lexeme) → Prop
  | read (x : τ) {place : Nat} (hn : n ≤ place) (hplace : place < ls.length) :
      Follows ls depth n (.ok x, ⟨place, depth⟩) (.ok (x, ls.drop place))
  | refused (e : ParseError) {place : Nat} (hplace : place < ls.length)
      (hoffset : ∃ l ∈ ls, e.offset = l.start) :
      Follows ls depth n (.error (.refused e), ⟨place, depth⟩) (.error e)

/-- From everywhere in the lexemes a run does what a parser does, and takes at least one lexeme. -/
def Mirrors (ls : List Lexeme) (depth : Nat) {τ : Type} (p : Run τ) (q : Parser τ) : Prop :=
  ∀ place < ls.length, Follows ls depth (place + 1) (p.run ls ⟨place, depth⟩) (q (ls.drop place))

variable {τ σ : Type} {ls : List Lexeme} {depth n m place : Nat} {c : Cursor} {t : Token}

theorem Run.bind_eq (p : Run τ) (f : τ → Run σ) (ls : List Lexeme) (c : Cursor) :
    (p >>= f).run ls c = match p.run ls c with
      | (.ok x, c') => (f x).run ls c'
      | (.error why, c') => (.error why, c') := rfl

theorem Follows.mono {r : Except Halt τ × Cursor} {a : Except ParseError (τ × List Lexeme)}
    (h : Follows ls depth n r a) (hm : m ≤ n) : Follows ls depth m r a := by
  cases h with
  | read x hn hplace => exact .read x (Nat.le_trans hm hn) hplace
  | refused e hplace hoffset => exact .refused e hplace hoffset

theorem Follows.bind {p : Run τ} {f : τ → Run σ} {a : Except ParseError (τ × List Lexeme)}
    {g : τ × List Lexeme → Except ParseError (σ × List Lexeme)} (h : Follows ls depth n (p.run ls c) a)
    (hfg : ∀ x place, n ≤ place → place < ls.length →
      Follows ls depth m ((f x).run ls ⟨place, depth⟩) (g (x, ls.drop place))) :
    Follows ls depth m ((p >>= f).run ls c) (a >>= g) := by
  rw [Run.bind_eq]
  generalize p.run ls c = r at h
  cases h with
  | read x hn hplace => exact hfg x _ hn hplace
  | refused e hplace hoffset => exact .refused e hplace hoffset

theorem peek_drop (hplace : place < ls.length) : peek (ls.drop place) = ls[place] := by
  rw [List.drop_eq_getElem_cons hplace]
  rfl

theorem exists_start (hplace : place < ls.length) : ∃ l ∈ ls, (peek (ls.drop place)).start = l.start :=
  ⟨ls[place], List.getElem_mem hplace, by rw [peek_drop hplace]⟩

theorem advance_drop (hnext : place + 1 < ls.length) : advance (ls.drop place) = ls.drop (place + 1) := by
  rw [List.drop_eq_getElem_cons (Nat.lt_of_succ_lt hnext), List.drop_eq_getElem_cons hnext]
  rfl

theorem Closed.next (hclosed : Closed ls) (hplace : place < ls.length)
    (hpeek : (peek (ls.drop place)).token ≠ .eof) :
    place + 1 < ls.length ∧ advance (ls.drop place) = ls.drop (place + 1) := by
  have hnext : place + 1 < ls.length := by
    by_contra hlast
    obtain ⟨l, hl, htoken⟩ := hclosed
    rw [List.getLast?_eq_getElem?, show ls.length - 1 = place by omega,
      List.getElem?_eq_getElem hplace] at hl
    rw [peek_drop hplace, Option.some.inj hl] at hpeek
    exact hpeek htoken
  exact ⟨hnext, advance_drop hnext⟩

namespace Run

theorem bind_ok {p : Run τ} {f : τ → Run σ} {x : τ} {c' : Cursor} (h : p.run ls c = (.ok x, c')) :
    (p >>= f).run ls c = (f x).run ls c' := by
  rw [bind_eq, h]

theorem look_eq (hplace : place < ls.length) :
    look.run ls ⟨place, depth⟩ = (.ok (peek (ls.drop place)), ⟨place, depth⟩) := by
  simp only [look, lexemeAt]
  rw [List.getElem?_eq_getElem hplace, peek_drop hplace]

theorem exists_bump (depth : Nat) (hplace : place < ls.length) : ∃ place' < ls.length,
    bump.run ls ⟨place, depth⟩ = (.ok (peek (ls.drop place)), ⟨place', depth⟩) ∧
      (place + 1 < ls.length → place' = place + 1) := by
  have hstep : step.run ls ⟨place, depth⟩ =
      (.ok (), if place + 1 < ls.length then ⟨place + 1, depth⟩ else ⟨place, depth⟩) := rfl
  rw [bump, bind_ok (look_eq hplace), bind_ok hstep]
  by_cases hnext : place + 1 < ls.length
  · rw [if_pos hnext]
    exact ⟨place + 1, hnext, rfl, fun _ => rfl⟩
  · rw [if_neg hnext]
    exact ⟨place, hplace, rfl, fun h => (hnext h).elim⟩

theorem bump_eq (hclosed : Closed ls) (hplace : place < ls.length)
    (hpeek : (peek (ls.drop place)).token ≠ .eof) :
    bump.run ls ⟨place, depth⟩ = (.ok (peek (ls.drop place)), ⟨place + 1, depth⟩) := by
  obtain ⟨place', -, hbump, hnext⟩ := exists_bump depth hplace
  rw [hbump, hnext (hclosed.next hplace hpeek).1]

theorem consume_eq (hclosed : Closed ls) (hplace : place < ls.length) (t : Token) (ht : t ≠ .eof) :
    (consume t).run ls ⟨place, depth⟩ = if (peek (ls.drop place)).token = t then
      (.ok true, ⟨place + 1, depth⟩) else (.ok false, ⟨place, depth⟩) := by
  rw [consume, bind_ok (look_eq hplace)]
  split
  next hpeek =>
    rw [bind_ok (bump_eq hclosed hplace (hpeek ▸ ht))]
    rfl
  next => rfl

theorem ite_consume_eq (hclosed : Closed ls) (hplace : place < ls.length) (t : Token) (ht : t ≠ .eof)
    {p q : Run τ} :
    (do if ← consume t then p else q).run ls ⟨place, depth⟩ =
      if (peek (ls.drop place)).token = t then p.run ls ⟨place + 1, depth⟩ else q.run ls ⟨place, depth⟩ := by
  rw [bind_eq, consume_eq hclosed hplace t ht]
  by_cases hpeek : (peek (ls.drop place)).token = t
  · rw [if_pos hpeek, if_pos hpeek]
    rfl
  · rw [if_neg hpeek, if_neg hpeek]
    rfl

theorem follows_refuse (hplace : place < ls.length) (cause : Token → ParseCause) :
    Follows ls depth n ((refuse cause : Run τ).run ls ⟨place, depth⟩)
      (Parser.refuse cause (ls.drop place)) := by
  rw [refuse, bind_ok (look_eq hplace)]
  exact .refused _ hplace (exists_start hplace)

section

variable (hclosed : Closed ls)

include hclosed

theorem mirrors_expect (t : Token) (ht : t ≠ .eof) : Mirrors ls depth (expect t) (Parser.expect t) := by
  intro place hplace
  rw [expect, bind_ok (look_eq hplace), Parser.expect]
  split
  next hpeek =>
    obtain ⟨hnext, hadvance⟩ := hclosed.next hplace (hpeek ▸ ht)
    rw [bind_ok (bump_eq hclosed hplace (hpeek ▸ ht)), hadvance]
    exact .read () (Nat.le_refl _) hnext
  next => exact follows_refuse hplace _

theorem mirrors_ident : Mirrors ls depth ident Parser.ident := by
  intro place hplace
  obtain ⟨place', hplace', hbump, hmoved⟩ := exists_bump depth hplace
  rw [ident, bind_ok hbump, Parser.ident, Parser.refuse]
  cases htoken : (peek (ls.drop place)).token with
  | ident name =>
    obtain ⟨hnext, hadvance⟩ := hclosed.next hplace (by simp [htoken])
    rw [hmoved hnext, hadvance]
    exact .read name (Nat.le_refl _) hnext
  | _ => exact .refused _ hplace' (exists_start hplace)

section

variable {item : Run τ} {item' : Parser τ} (close : Token) {turns bound : Nat} {read : List τ}
  (hclose : close ≠ .eof) (hitem : Mirrors ls depth item item')

include hclose hitem

theorem follows_items (hplace : place < ls.length) (hturns : ls.length ≤ place + turns)
    (hbound : ls.length ≤ place + bound) :
    Follows ls depth (place + 1) ((items item close turns read).run ls ⟨place, depth⟩)
      (Parser.items item' close bound read (ls.drop place)) := by
  induction turns generalizing bound read place with
  | zero => omega
  | succ turns ih =>
    obtain ⟨bound, rfl⟩ : ∃ b, bound = b + 1 := ⟨bound - 1, by omega⟩
    refine (hitem place hplace).bind fun x place' hle hplace' => ?_
    dsimp only
    rw [ite_consume_eq hclosed hplace' .comma (by decide)]
    split
    next hcomma =>
      obtain ⟨hnext, hadvance⟩ := hclosed.next hplace' (by simp [hcomma])
      rw [hadvance]
      exact (ih hnext (by omega) (by omega)).mono (by omega)
    next =>
      exact (mirrors_expect hclosed close hclose place' hplace').bind fun _ _ hle' hplace'' =>
        .read _ (by omega) hplace''

theorem mirrors_list (hturns : ls.length ≤ turns) (hbound : ls.length ≤ bound) :
    Mirrors ls depth (list turns item close) (Parser.list bound item' close) := by
  intro place hplace
  rw [list, ite_consume_eq hclosed hplace close hclose, Parser.list]
  split
  next hpeek =>
    obtain ⟨hnext, hadvance⟩ := hclosed.next hplace (hpeek ▸ hclose)
    rw [hadvance]
    exact .read [] (Nat.le_refl _) hnext
  next => exact follows_items hclosed close hclose hitem hplace (by omega) (by omega)

end

section

variable {inner operand : Run Expr} {inner' operand' : Parser Expr} {turns bound : Nat}
  (hinner : Mirrors ls depth inner inner') (hturns : ls.length ≤ turns) (hbound : ls.length ≤ bound)

include hinner hturns hbound

theorem mirrors_primary : Mirrors ls depth (primary turns inner) (Parser.primary bound inner') := by
  intro place hplace
  obtain ⟨place', hplace', hbump, hmoved⟩ := exists_bump depth hplace
  have hnext (hpeek : (peek (ls.drop place)).token ≠ .eof) :
      place' = place + 1 ∧ advance (ls.drop place) = ls.drop place' := by
    obtain ⟨hlt, hadvance⟩ := hclosed.next hplace hpeek
    obtain rfl := hmoved hlt
    exact ⟨rfl, hadvance⟩
  rw [primary, bind_ok hbump, Parser.primary, Parser.refuse]
  cases htoken : (peek (ls.drop place)).token with
  | number | text | yes | no | ident =>
    obtain ⟨rfl, hadvance⟩ := hnext (by simp [htoken])
    rw [hadvance]
    exact .read _ (Nat.le_refl _) hplace'
  | leftParen =>
    obtain ⟨rfl, hadvance⟩ := hnext (by simp [htoken])
    rw [hadvance]
    refine (hinner _ hplace').bind fun e place' hle hplace' => ?_
    exact (mirrors_expect hclosed .rightParen (by decide) place' hplace').bind fun _ _ hle' hplace'' =>
      .read e (by omega) hplace''
  | leftBracket =>
    obtain ⟨rfl, hadvance⟩ := hnext (by simp [htoken])
    rw [hadvance]
    have hlist := mirrors_list hclosed .rightBracket (by decide) hinner hturns hbound _ hplace'
    exact hlist.bind fun es _ hle hplace'' => .read _ (by omega) hplace''
  | _ => exact .refused _ hplace' (exists_start hplace)

theorem follows_trailers {left left' : Nat} {e : Expr} (hplace : place < ls.length)
    (hleft : ls.length ≤ place + left) (hleft' : ls.length ≤ place + left') :
    Follows ls depth place ((trailers turns inner left e).run ls ⟨place, depth⟩)
      (Parser.trailers bound inner' left' e (ls.drop place)) := by
  induction left generalizing left' e place with
  | zero => omega
  | succ left ih =>
    obtain ⟨left', rfl⟩ : ∃ l, left' = l + 1 := ⟨left' - 1, by omega⟩
    rw [trailers, ite_consume_eq hclosed hplace .dot (by decide),
      ite_consume_eq hclosed hplace .leftParen (by decide),
      ite_consume_eq hclosed hplace .leftBracket (by decide), Parser.trailers]
    dsimp only
    cases htoken : (peek (ls.drop place)).token with
    | dot =>
      obtain ⟨hnext, hadvance⟩ := hclosed.next hplace (by simp [htoken])
      rw [if_pos rfl, hadvance]
      refine (mirrors_ident hclosed _ hnext).bind fun name place' hle hplace' => ?_
      exact (ih hplace' (by omega) (by omega)).mono (by omega)
    | leftParen =>
      obtain ⟨hnext, hadvance⟩ := hclosed.next hplace (by simp [htoken])
      rw [if_neg (by simp), if_pos rfl, hadvance]
      have hlist := mirrors_list hclosed .rightParen (by decide) hinner hturns hbound _ hnext
      refine hlist.bind fun args place' hle hplace' => ?_
      exact (ih hplace' (by omega) (by omega)).mono (by omega)
    | leftBracket =>
      obtain ⟨hnext, hadvance⟩ := hclosed.next hplace (by simp [htoken])
      rw [if_neg (by simp), if_neg (by simp), if_pos rfl, hadvance]
      refine (hinner _ hnext).bind fun i place' hle hplace' => ?_
      refine (mirrors_expect hclosed .rightBracket (by decide) _ hplace').bind fun _ _ hle' hplace'' => ?_
      exact (ih hplace'' (by omega) (by omega)).mono (by omega)
    | _ =>
      rw [if_neg (by simp), if_neg (by simp), if_neg (by simp)]
      exact .read e (Nat.le_refl _) hplace

theorem mirrors_unaryWith (hoperand : Mirrors ls depth operand operand') :
    Mirrors ls depth (unaryWith turns inner operand) (Parser.unaryWith bound inner' operand') := by
  intro place hplace
  have hrest : Follows ls depth (place + 1)
      ((do let e ← primary turns inner; trailers turns inner turns e).run ls ⟨place, depth⟩)
      (Parser.primary bound inner' (ls.drop place) >>= fun r =>
        Parser.trailers bound inner' bound r.1 r.2) := by
    refine (mirrors_primary hclosed hinner hturns hbound place hplace).bind fun e place' hle hplace' => ?_
    exact (follows_trailers hclosed hinner hturns hbound hplace' (by omega) (by omega)).mono hle
  rw [unaryWith, ite_consume_eq hclosed hplace .minus (by decide),
    ite_consume_eq hclosed hplace .bang (by decide), Parser.unaryWith]
  cases htoken : (peek (ls.drop place)).token with
  | minus =>
    obtain ⟨hnext, hadvance⟩ := hclosed.next hplace (by simp [htoken])
    rw [if_pos rfl, hadvance]
    exact (hoperand _ hnext).bind fun e _ hle hplace' => .read _ (by omega) hplace'
  | bang =>
    obtain ⟨hnext, hadvance⟩ := hclosed.next hplace (by simp [htoken])
    rw [if_neg (by simp), if_pos rfl, hadvance]
    exact (hoperand _ hnext).bind fun e _ hle hplace' => .read _ (by omega) hplace'
  | _ =>
    rw [if_neg (by simp), if_neg (by simp)]
    exact hrest

end

omit hclosed in
theorem not_eof_of_levels : ∀ op? ∈ BinaryOp.levels, op? .eof = none := by
  simp [BinaryOp.levels, BinaryOp.ofFactor?, BinaryOp.ofTerm?, BinaryOp.ofComparison?,
    BinaryOp.ofEquality?, BinaryOp.ofAnd?, BinaryOp.ofOr?]

section

variable {operand : Run Expr} {operand' : Parser Expr} {turns bound : Nat}
  (hoperand : Mirrors ls depth operand operand')

include hoperand

theorem follows_rights {op? : Token → Option BinaryOp} (hop : op? .eof = none) {left : Expr}
    (hplace : place < ls.length) (hturns : ls.length ≤ place + turns) (hbound : ls.length ≤ place + bound) :
    Follows ls depth place ((rights op? operand turns left).run ls ⟨place, depth⟩)
      (Parser.rights op? operand' bound left (ls.drop place)) := by
  induction turns generalizing bound left place with
  | zero => omega
  | succ turns ih =>
    obtain ⟨bound, rfl⟩ : ∃ b, bound = b + 1 := ⟨bound - 1, by omega⟩
    rw [rights, bind_ok (look_eq hplace), Parser.rights]
    dsimp only
    cases hpeek : op? (peek (ls.drop place)).token with
    | none => exact .read left (Nat.le_refl _) hplace
    | some op =>
      have heof : (peek (ls.drop place)).token ≠ .eof := by
        intro heof
        rw [heof, hop] at hpeek
        cases hpeek
      obtain ⟨hnext, hadvance⟩ := hclosed.next hplace heof
      dsimp only
      rw [bind_ok (bump_eq hclosed hplace heof), hadvance]
      refine (hoperand _ hnext).bind fun right place' hle hplace' => ?_
      exact (ih hplace' (by omega) (by omega)).mono (by omega)

theorem mirrors_chain {op? : Token → Option BinaryOp} (hop : op? .eof = none) (hturns : ls.length ≤ turns)
    (hbound : ls.length ≤ bound) :
    Mirrors ls depth (chain turns op? operand) (Parser.chain bound op? operand') := by
  intro place hplace
  refine (hoperand place hplace).bind fun left place' hle hplace' => ?_
  exact (follows_rights hclosed hoperand hop hplace' (by omega) (by omega)).mono hle

theorem mirrors_chains {ops : List (Token → Option BinaryOp)} (hops : ∀ op? ∈ ops, op? .eof = none)
    (hturns : ls.length ≤ turns) (hbound : ls.length ≤ bound) :
    Mirrors ls depth (chains turns ops operand)
      (ops.foldl (fun p op? => Parser.chain bound op? p) operand') := by
  induction ops generalizing operand operand' with
  | nil => exact hoperand
  | cons op? ops ih =>
    obtain ⟨hop, hops⟩ := List.forall_mem_cons.mp hops
    exact ih (mirrors_chain hclosed hoperand hop hturns hbound) hops

theorem mirrors_binaries (hturns : ls.length ≤ turns) (hbound : ls.length ≤ bound) :
    Mirrors ls depth (binaries turns operand) (Parser.binaries bound operand') :=
  mirrors_chains hclosed hoperand not_eof_of_levels hturns hbound

end

omit hclosed in
/-- On the last level no nested call is made. -/
theorem mirrors_nested_tooDeep (p : Run τ) : Mirrors ls maxDepth (nested p) Parser.tooDeep := by
  intro place hplace
  rw [nested]
  dsimp only
  rw [if_pos (Nat.le_refl maxDepth)]
  exact follows_refuse hplace _

omit hclosed in
/-- A nested call leaves the level that it enters, also when it is refused. -/
theorem mirrors_nested {p : Run τ} {q : Parser τ} (hdepth : depth < maxDepth)
    (h : Mirrors ls (depth + 1) p q) : Mirrors ls depth (nested p) q := by
  intro place hplace
  have hfollows := h place hplace
  have hrun : (nested p).run ls ⟨place, depth⟩ = leave (p.run ls ⟨place, depth + 1⟩) :=
    if_neg (Nat.not_le_of_lt hdepth)
  rw [hrun]
  generalize p.run ls ⟨place, depth + 1⟩ = r, q (ls.drop place) = a at hfollows
  cases hfollows with
  | read x hn hplace' => exact .read x hn hplace'
  | refused e hplace' hoffset => exact .refused e hplace' hoffset

section

variable {turns bound levels left : Nat} (hturns : ls.length ≤ turns) (hbound : ls.length ≤ bound)

include hturns hbound

/-- The levels that are left to the parser are those that the cursor has not counted. -/
theorem mirrors_unary (hdepth : depth + left = maxDepth) (hlevels : left ≤ levels) :
    Mirrors ls depth (unary turns levels) (Parser.unary bound left) := by
  induction left generalizing depth levels with
  | zero =>
    obtain rfl : depth = maxDepth := hdepth
    have hlast (p q : Run Expr) : Mirrors ls maxDepth (unaryWith turns (nested p) (nested q))
        (Parser.unaryWith bound Parser.tooDeep Parser.tooDeep) :=
      mirrors_unaryWith hclosed (mirrors_nested_tooDeep p) hturns hbound (mirrors_nested_tooDeep q)
    cases levels with
    | zero => exact hlast _ _
    | succ levels => exact hlast _ _
  | succ left ih =>
    obtain ⟨levels, rfl⟩ : ∃ l, levels = l + 1 := ⟨levels - 1, by omega⟩
    have hoperand : Mirrors ls (depth + 1) (unary turns levels) (Parser.unary bound left) :=
      ih (by omega) (by omega)
    have hinner := mirrors_nested (by omega) (mirrors_binaries hclosed hoperand hturns hbound)
    exact mirrors_unaryWith hclosed hinner hturns hbound (mirrors_nested (by omega) hoperand)

theorem mirrors_expr (hdepth : depth + left = maxDepth) (hlevels : left ≤ levels) :
    Mirrors ls depth (expr turns levels) (Parser.expr bound left) := by
  cases left with
  | zero =>
    obtain rfl : depth = maxDepth := hdepth
    cases levels with
    | zero => exact mirrors_nested_tooDeep (halt .endless)
    | succ levels => exact mirrors_nested_tooDeep (binaries turns (unary turns levels))
  | succ left =>
    obtain ⟨levels, rfl⟩ : ∃ l, levels = l + 1 := ⟨levels - 1, by omega⟩
    have hoperand : Mirrors ls (depth + 1) (unary turns levels) (Parser.unary bound left) :=
      mirrors_unary hclosed hturns hbound (by omega) (by omega)
    exact mirrors_nested (by omega) (mirrors_binaries hclosed hoperand hturns hbound)

end

theorem follows_closing {x : τ} (hn : n ≤ place) (hplace : place < ls.length) :
    Follows ls depth n ((closing x).run ls ⟨place, depth⟩)
      (.ok (x, Parser.skipSemicolon (ls.drop place))) := by
  rw [closing, bind_eq, consume_eq hclosed hplace .semicolon (by decide), Parser.skipSemicolon]
  by_cases hpeek : (peek (ls.drop place)).token = .semicolon
  · obtain ⟨hnext, hadvance⟩ := hclosed.next hplace (by simp [hpeek])
    rw [if_pos hpeek, if_pos hpeek, hadvance]
    exact .read x (by omega) hnext
  · rw [if_neg hpeek, if_neg hpeek]
    exact .read x hn hplace

omit hclosed in
theorem target?_eq (hplace : place < ls.length) :
    target?.run ls ⟨place, depth⟩ = (.ok (Parser.target? (ls.drop place)), ⟨place, depth⟩) := by
  have hahead : lookAhead.run ls ⟨place, depth⟩ =
      (.ok (peek (advance (ls.drop place))), ⟨place, depth⟩) := by
    simp only [lookAhead, lexemeAt]
    by_cases hnext : place + 1 < ls.length
    · rw [Nat.min_eq_left (by omega), List.getElem?_eq_getElem hnext, advance_drop hnext, peek_drop hnext]
    · have hlast : advance (ls.drop place) = ls.drop place := by
        rw [List.drop_eq_getElem_cons hplace, List.drop_eq_nil_of_le (Nat.le_of_not_lt hnext)]
        rfl
      rw [Nat.min_eq_right (by omega), show ls.length - 1 = place by omega, List.getElem?_eq_getElem hplace,
        hlast, peek_drop hplace]
  rw [target?, bind_ok (look_eq hplace), bind_ok hahead]
  rfl

section

variable {expr : Run Expr} {expr' : Parser Expr} {branch : Run (List Stmt)} {branch' : Parser (List Stmt)}
  (hexpr : Mirrors ls depth expr expr')

include hexpr

theorem mirrors_declaration : Mirrors ls depth (declaration expr) (Parser.declaration expr') := by
  intro place hplace
  refine (mirrors_ident hclosed place hplace).bind fun name place' hle hplace' => ?_
  dsimp only
  rw [ite_consume_eq hclosed hplace' .assign (by decide)]
  split
  next hpeek =>
    obtain ⟨hnext, hadvance⟩ := hclosed.next hplace' (by simp [hpeek])
    rw [hadvance]
    exact (hexpr _ hnext).bind fun e _ hle' hplace'' => follows_closing hclosed (by omega) hplace''
  next => exact follows_closing hclosed (by omega) hplace'

theorem mirrors_conditional (hbranch : Mirrors ls depth branch branch') :
    Mirrors ls depth (conditional expr branch) (Parser.conditional expr' branch') := by
  intro place hplace
  refine (mirrors_expect hclosed .leftParen (by decide) place hplace).bind fun _ place₁ hle₁ hplace₁ => ?_
  refine (hexpr place₁ hplace₁).bind fun condition place₂ hle₂ hplace₂ => ?_
  refine (mirrors_expect hclosed .rightParen (by decide) place₂ hplace₂).bind fun _ place₃ hle₃ hplace₃ => ?_
  refine (hbranch place₃ hplace₃).bind fun thens place₄ hle₄ hplace₄ => ?_
  dsimp only
  rw [ite_consume_eq hclosed hplace₄ .elseWord (by decide)]
  split
  next hpeek =>
    obtain ⟨hnext, hadvance⟩ := hclosed.next hplace₄ (by simp [hpeek])
    rw [hadvance]
    exact (hbranch _ hnext).bind fun elses _ hle₅ hplace₅ => .read _ (by omega) hplace₅
  next => exact .read _ (by omega) hplace₄

theorem follows_plainStmt (hplace : place < ls.length) :
    Follows ls depth (place + 1) ((plainStmt expr).run ls ⟨place, depth⟩)
      (match Parser.target? (ls.drop place) with
        | some name => do
          let (e, rest) ← expr' (advance (advance (ls.drop place)))
          return (some (Stmt.assign name e), Parser.skipSemicolon rest)
        | none => do
          let (e, rest) ← expr' (ls.drop place)
          return (some (Stmt.expr e), Parser.skipSemicolon rest)) := by
  rw [plainStmt, bind_ok (target?_eq hplace)]
  cases htarget : Parser.target? (ls.drop place) with
  | none =>
    exact (hexpr place hplace).bind fun e _ hle hplace' => follows_closing hclosed hle hplace'
  | some name =>
    obtain ⟨hname, hassign⟩ := Parser.target?_eq_some.mp htarget
    have heof : (peek (ls.drop place)).token ≠ .eof := by simp [hname]
    obtain ⟨hnext, hadvance⟩ := hclosed.next hplace heof
    rw [hadvance] at hassign ⊢
    have heof' : (peek (ls.drop (place + 1))).token ≠ .eof := by simp [hassign]
    obtain ⟨hnext', hadvance'⟩ := hclosed.next hnext heof'
    dsimp only
    rw [bind_ok (bump_eq hclosed hplace heof), bind_ok (bump_eq hclosed hnext heof'), hadvance']
    exact (hexpr _ hnext').bind fun e _ hle hplace' => follows_closing hclosed (by omega) hplace'

theorem mirrors_stmtWith (hbranch : Mirrors ls depth branch branch') :
    Mirrors ls depth (stmtWith expr branch) (Parser.stmtWith expr' branch') := by
  intro place hplace
  rw [stmtWith, ite_consume_eq hclosed hplace .semicolon (by decide),
    ite_consume_eq hclosed hplace .declare (by decide),
    ite_consume_eq hclosed hplace .ifWord (by decide), Parser.stmtWith]
  cases htoken : (peek (ls.drop place)).token with
  | semicolon =>
    obtain ⟨hnext, hadvance⟩ := hclosed.next hplace (by simp [htoken])
    rw [if_pos rfl, hadvance]
    exact .read none (Nat.le_refl _) hnext
  | declare =>
    obtain ⟨hnext, hadvance⟩ := hclosed.next hplace (by simp [htoken])
    rw [if_neg (by simp), if_pos rfl, hadvance]
    exact (mirrors_declaration hclosed hexpr _ hnext).bind fun s _ hle hplace' => .read _ (by omega) hplace'
  | ifWord =>
    obtain ⟨hnext, hadvance⟩ := hclosed.next hplace (by simp [htoken])
    rw [if_neg (by simp), if_neg (by simp), if_pos rfl, hadvance]
    exact (mirrors_conditional hclosed hexpr hbranch _ hnext).bind fun s _ hle hplace' =>
      .read _ (by omega) hplace'
  | _ =>
    rw [if_neg (by simp), if_neg (by simp), if_neg (by simp)]
    exact follows_plainStmt hclosed hexpr hplace

end

section

variable {stmt : Run (Option Stmt)} {stmt' : Parser (Option Stmt)} {turns bound : Nat}
  (hstmt : Mirrors ls depth stmt stmt')

include hstmt

theorem follows_block {read : List Stmt} (hplace : place < ls.length) (hturns : ls.length ≤ place + turns)
    (hbound : ls.length ≤ place + bound) :
    Follows ls depth (place + 1) ((block stmt turns read).run ls ⟨place, depth⟩)
      (Parser.block stmt' bound read (ls.drop place)) := by
  induction turns generalizing bound read place with
  | zero => omega
  | succ turns ih =>
    obtain ⟨bound, rfl⟩ : ∃ b, bound = b + 1 := ⟨bound - 1, by omega⟩
    rw [block, ite_consume_eq hclosed hplace .rightBrace (by decide), Parser.block]
    dsimp only
    split
    next hpeek =>
      obtain ⟨hnext, hadvance⟩ := hclosed.next hplace (by simp [hpeek])
      rw [hadvance]
      exact .read _ (Nat.le_refl _) hnext
    next =>
      rw [bind_ok (look_eq hplace)]
      split
      next => exact follows_refuse hplace _
      next =>
        refine (hstmt place hplace).bind fun s place' hle hplace' => ?_
        exact (ih hplace' (by omega) (by omega)).mono (by omega)

theorem mirrors_branchWith (hturns : ls.length ≤ turns) (hbound : ls.length ≤ bound) :
    Mirrors ls depth (branchWith turns stmt) (Parser.branchWith bound stmt') := by
  intro place hplace
  rw [branchWith, ite_consume_eq hclosed hplace .leftBrace (by decide), Parser.branchWith]
  split
  next hpeek =>
    obtain ⟨hnext, hadvance⟩ := hclosed.next hplace (by simp [hpeek])
    rw [hadvance]
    exact (follows_block hclosed hstmt hnext (by omega) (by omega)).mono (by omega)
  next => exact (hstmt place hplace).bind fun s _ hle hplace' => .read _ hle hplace'

end

theorem mirrors_stmt {turns bound levels left : Nat} (hturns : ls.length ≤ turns) (hbound : ls.length ≤ bound)
    (hdepth : depth + left = maxDepth) (hlevels : left ≤ levels) :
    Mirrors ls depth (stmt turns levels) (Parser.stmt bound left) := by
  induction left generalizing depth levels with
  | zero =>
    have hexpr : Mirrors ls depth (expr turns levels) (Parser.expr bound 0) :=
      mirrors_expr hclosed hturns hbound hdepth hlevels
    obtain rfl : depth = maxDepth := hdepth
    cases levels with
    | zero => exact mirrors_stmtWith hclosed hexpr (mirrors_nested_tooDeep _)
    | succ levels => exact mirrors_stmtWith hclosed hexpr (mirrors_nested_tooDeep _)
  | succ left ih =>
    obtain ⟨levels, rfl⟩ : ∃ l, levels = l + 1 := ⟨levels - 1, by omega⟩
    have hexpr : Mirrors ls depth (expr turns (levels + 1)) (Parser.expr bound (left + 1)) :=
      mirrors_expr hclosed hturns hbound hdepth hlevels
    have hstmt : Mirrors ls (depth + 1) (stmt turns levels) (Parser.stmt bound left) :=
      ih (by omega) (by omega)
    have hbranch := mirrors_nested (by omega) (mirrors_branchWith hclosed hstmt hturns hbound)
    exact mirrors_stmtWith hclosed hexpr hbranch

end

theorem exists_stmts {stmt : Run (Option Stmt)} {stmt' : Parser (Option Stmt)} {turns bound : Nat}
    {read : List Stmt} (hstmt : Mirrors ls depth stmt stmt') (hplace : place < ls.length)
    (hturns : ls.length ≤ place + turns) (hbound : ls.length ≤ place + bound) :
    ∃ place' < ls.length, (stmts stmt turns read).run ls ⟨place, depth⟩ =
        ((Parser.stmts stmt' bound read (ls.drop place)).mapError .refused, ⟨place', depth⟩) ∧
      ∀ e, Parser.stmts stmt' bound read (ls.drop place) = .error e → ∃ l ∈ ls, e.offset = l.start := by
  induction turns generalizing bound read place with
  | zero => omega
  | succ turns ih =>
    obtain ⟨bound, rfl⟩ : ∃ b, bound = b + 1 := ⟨bound - 1, by omega⟩
    rw [stmts, bind_ok (look_eq hplace), Parser.stmts]
    by_cases hpeek : (peek (ls.drop place)).token = .eof
    · rw [if_pos hpeek, if_pos hpeek]
      exact ⟨place, hplace, rfl, by rintro e ⟨⟩⟩
    · rw [if_neg hpeek, if_neg hpeek, bind_eq]
      have hfollows := hstmt place hplace
      generalize stmt.run ls ⟨place, depth⟩ = r, stmt' (ls.drop place) = a at hfollows
      cases hfollows with
      | read s hn hplace' => exact ih hplace' (by omega) (by omega)
      | refused e hplace' hoffset =>
        refine ⟨_, hplace', rfl, ?_⟩
        rintro e' ⟨⟩
        exact hoffset

end Run

open String.Pos.Raw (IsValid)

/-- What has become of a cursor inside the lexemes of a source. It still is inside and as deep, it has moved
on if the run succeeds, and where the run fails it refuses the source at a boundary of characters. -/
structure Advances (source : String) (ls : List Lexeme) (c : Cursor) {τ : Type}
    (r : Except Halt τ × Cursor) : Prop where
  inside : r.2.place < ls.length
  depth_eq : r.2.depth = c.depth
  moved : ∀ x, r.1 = .ok x → c.place < r.2.place
  refused : ∀ why, r.1 = .error why → ∃ e, why = .refused e ∧ IsValid source ⟨e.offset⟩

def Moves (source : String) (ls : List Lexeme) (depth : Nat) {τ : Type} (p : Run τ) : Prop :=
  ∀ place < ls.length, Advances source ls ⟨place, depth⟩ (p.run ls ⟨place, depth⟩)

variable {source : String}

theorem Covers.toClosed (h : Covers source ls) : Closed ls := by
  obtain ⟨more, rfl, -⟩ := h.closed
  exact ⟨_, List.getLast?_concat .., rfl⟩

theorem Covers.isValid_of_start (h : Covers source ls) {e : ParseError}
    (hoffset : ∃ l ∈ ls, e.offset = l.start) : IsValid source ⟨e.offset⟩ := by
  obtain ⟨l, hl, hstart⟩ := hoffset
  exact hstart ▸ (h.valid l hl).1

theorem Covers.moves (h : Covers source ls) {p : Run τ} {q : Parser τ} (hmirrors : Mirrors ls depth p q) :
    Moves source ls depth p := by
  intro place hplace
  have hfollows := hmirrors place hplace
  generalize p.run ls ⟨place, depth⟩ = r, q (ls.drop place) = a at hfollows
  cases hfollows with
  | read x hn hplace' => exact ⟨hplace', rfl, fun _ _ => hn, by rintro why ⟨⟩⟩
  | refused e hplace' hoffset =>
    refine ⟨hplace', rfl, by rintro x ⟨⟩, ?_⟩
    rintro why ⟨⟩
    exact ⟨e, rfl, h.isValid_of_start hoffset⟩

theorem Covers.moves_nested (h : Covers source ls) {p : Run τ} {q : Parser τ} (hdepth : depth ≤ maxDepth)
    (hmirrors : depth < maxDepth → Mirrors ls (depth + 1) p q) : Moves source ls depth (Run.nested p) := by
  obtain hlt | rfl := Nat.lt_or_eq_of_le hdepth
  · exact h.moves (Run.mirrors_nested hlt (hmirrors hlt))
  · exact h.moves (Run.mirrors_nested_tooDeep p)

/-- What the parser reads at a depth moves the cursor on, and the nested calls that it makes leave the levels
that they enter. -/
structure Steady (source : String) (ls : List Lexeme) (turns levels depth : Nat) : Prop where
  stmt : Moves source ls depth (Run.stmt turns levels)
  item : Moves source ls depth (Run.expr turns levels)
  operand : ∀ ops, ops <+: BinaryOp.levels →
    Moves source ls depth (Run.chains turns ops (Run.unary turns levels))
  nested_branch : Moves source ls depth (Run.nested (Run.branchWith turns (Run.stmt turns (levels - 1))))
  nested_expr : Moves source ls depth (Run.nested (Run.binaries turns (Run.unary turns (levels - 1))))
  nested_unary : Moves source ls depth (Run.nested (Run.unary turns (levels - 1)))

theorem Covers.steady (h : Covers source ls) {turns levels : Nat} (hturns : ls.length ≤ turns)
    (hdepth : depth ≤ maxDepth) (hlevels : maxDepth ≤ depth + levels) :
    Steady source ls turns levels depth := by
  have hbound := Nat.le_refl ls.length
  have hleft : depth + (maxDepth - depth) = maxDepth := by omega
  have hunary (hlt : depth < maxDepth) : Mirrors ls (depth + 1) (Run.unary turns (levels - 1))
      (Parser.unary ls.length (maxDepth - (depth + 1))) :=
    Run.mirrors_unary h.toClosed hturns hbound (by omega) (by omega)
  have hstmt (hlt : depth < maxDepth) : Mirrors ls (depth + 1) (Run.stmt turns (levels - 1))
      (Parser.stmt ls.length (maxDepth - (depth + 1))) :=
    Run.mirrors_stmt h.toClosed hturns hbound (by omega) (by omega)
  refine ⟨?_, ?_, fun ops hops => ?_, ?_, ?_, ?_⟩
  · exact h.moves (Run.mirrors_stmt h.toClosed hturns hbound hleft (by omega))
  · exact h.moves (Run.mirrors_expr h.toClosed hturns hbound hleft (by omega))
  · have hoperand : Mirrors ls depth (Run.unary turns levels) (Parser.unary ls.length (maxDepth - depth)) :=
      Run.mirrors_unary h.toClosed hturns hbound hleft (by omega)
    have hnone : ∀ op? ∈ ops, op? .eof = none := fun op? hmem =>
      Run.not_eof_of_levels op? (hops.subset hmem)
    exact h.moves (Run.mirrors_chains h.toClosed hoperand hnone hturns hbound)
  · exact h.moves_nested hdepth fun hlt =>
      Run.mirrors_branchWith h.toClosed (hstmt hlt) hturns hbound
  · exact h.moves_nested hdepth fun hlt =>
      Run.mirrors_binaries h.toClosed (hunary hlt) hturns hbound
  · exact h.moves_nested hdepth hunary

theorem Covers.exists_program (h : Covers source ls) {turns levels : Nat} (hturns : ls.length ≤ turns)
    (hlevels : maxDepth ≤ levels) :
    ∃ place < ls.length, (Run.program turns levels).run ls ⟨0, 0⟩ =
        ((parseLexemes ls).mapError .refused, ⟨place, 0⟩) ∧
      ∀ e, parseLexemes ls = .error e → IsValid source ⟨e.offset⟩ := by
  have hplace : 0 < ls.length := by
    obtain ⟨more, rfl, -⟩ := h.closed
    simp
  have hstmt : Mirrors ls 0 (Run.stmt turns levels) (Parser.stmt ls.length maxDepth) :=
    Run.mirrors_stmt h.toClosed hturns (Nat.le_refl _) (Nat.zero_add _) hlevels
  have hfirst : ls.length ≤ 0 + turns := by omega
  obtain ⟨place, hplace', hrun, hoffset⟩ :=
    Run.exists_stmts hstmt hplace hfirst (Nat.le_add_left ls.length 0)
  exact ⟨place, hplace', hrun, fun e he => h.isValid_of_start (hoffset e he)⟩

/-- Lexing and parsing a source comes to an end inside its bounds. Going byte by byte finds the lexemes, which
cover the source; going from lexeme to lexeme finds the program, with a cursor that stays among the lexemes,
moves on with everything read and leaves every level of nesting; and what is refused is so at a boundary of
characters. -/
theorem reading_stays_inside (source : String) :
    (∀ bound, source.utf8ByteSize < bound →
      ByteLexer.lex source bound = (lex source).mapError .refused) ∧
    (∀ ls, lex source = .ok ls → Covers source ls ∧ ∀ turns levels, ls.length ≤ turns →
      (maxDepth ≤ levels → ∃ place < ls.length,
        (Run.program turns levels).run ls ⟨0, 0⟩ = ((parse source).mapError .refused, ⟨place, 0⟩)) ∧
      ∀ depth, depth ≤ maxDepth → maxDepth ≤ depth + levels → Steady source ls turns levels depth) ∧
    ∀ e, parse source = .error e → IsValid source ⟨e.offset⟩ := by
  have hlength : (bytes source).length = source.utf8ByteSize := by
    rw [length_bytes, utf8ByteSize_eq]
  refine ⟨fun bound hbound => ByteLexer.lex_eq source (by omega), fun ls hls => ?_, fun e he => ?_⟩
  · have hcovers := covers_of_lex hls
    refine ⟨hcovers, fun turns levels hturns => ⟨fun hlevels => ?_, fun depth => hcovers.steady hturns⟩⟩
    obtain ⟨place, hplace, hrun, -⟩ := hcovers.exists_program hturns hlevels
    have hparse : parse source = parseLexemes ls := by rw [parse, hls, ok_bind]
    exact ⟨place, hplace, hparse ▸ hrun⟩
  · rw [parse] at he
    cases hls : lex source with
    | error e' =>
      rw [hls] at he
      cases he
      exact isValid_of_lex hls
    | ok ls =>
      rw [hls, ok_bind] at he
      obtain ⟨-, -, -, hvalid⟩ :=
        (covers_of_lex hls).exists_program (Nat.le_refl ls.length) (Nat.le_refl maxDepth)
      exact hvalid e he

def unclosedSource : String := "x('é'"

def unclosedLexemes : List Lexeme :=
  [⟨.ident "x", 0, 1⟩, ⟨.leftParen, 1, 2⟩, ⟨.text "é", 2, 6⟩, ⟨.eof, 6, 6⟩]

theorem reading_stays_inside_of_unclosed :
    ByteLexer.lex unclosedSource 7 = .ok unclosedLexemes ∧ Covers unclosedSource unclosedLexemes ∧
      (∃ place < 4, (Run.program 4 64).run unclosedLexemes ⟨0, 0⟩ =
        (.error (.refused ⟨6, .expectedToken .rightParen .eof⟩), ⟨place, 0⟩)) ∧
      Steady unclosedSource unclosedLexemes 4 63 1 ∧ IsValid unclosedSource ⟨6⟩ := by
  have hlex : lex unclosedSource = .ok unclosedLexemes := by cbv
  have hparse : parse unclosedSource = .error ⟨6, .expectedToken .rightParen .eof⟩ := by cbv
  obtain ⟨hbytes, hlexemes, hoffset⟩ := reading_stays_inside unclosedSource
  obtain ⟨hcovers, hruns⟩ := hlexemes unclosedLexemes hlex
  have hprogram := (hruns 4 64 (Nat.le_refl 4)).1 (Nat.le_refl 64)
  have hsteady := (hruns 4 63 (Nat.le_refl 4)).2 1 (by decide) (by decide)
  rw [hparse] at hprogram
  refine ⟨?_, hcovers, hprogram, hsteady, hoffset _ hparse⟩
  rw [hbytes 7 (by decide), hlex]
  rfl

end IconMotion.Expression
