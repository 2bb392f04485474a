import IconMotion.Expression.Idiom
import IconMotion.Proofs.Outcomes

namespace IconMotion.Expression

def tokens (ls : List Lexeme) : List Token := ls.map Lexeme.token

/-- Lexemes with the same tokens up to the end of the source, at most `n` of them. -/
structure Same (n : Nat) (ls ls' : List Lexeme) : Prop where
  tokens_eq : tokens ls = tokens ls'
  closed : (tokens ls).getLast? = some .eof
  length_le : ls.length ≤ n

inductive Alike {τ : Type} (n : Nat) :
    Except ParseError (τ × List Lexeme) → Except ParseError (τ × List Lexeme) → Prop
  | refused (e e' : ParseError) : Alike n (.error e) (.error e')
  | read (x : τ) {ls ls' : List Lexeme} (h : Same n ls ls') : Alike n (.ok (x, ls)) (.ok (x, ls'))

/-- Two parsers do the same on at most `n` lexemes, and take at least one. -/
structure Agree {τ : Type} (n : Nat) (p q : Parser τ) : Prop where
  less {k : Nat} {ls ls' : List Lexeme} (h : Same (k + 1) ls ls') (hk : k < n) :
    Alike k (p ls) (q ls')

variable {τ σ : Type} {n m k : Nat} {ls ls' : List Lexeme}

namespace Same

theorem mono (h : Same n ls ls') (hnm : n ≤ m) : Same m ls ls' :=
  ⟨h.tokens_eq, h.closed, Nat.le_trans h.length_le hnm⟩

theorem exists_cons (h : Same n ls ls') :
    ∃ l rest l' rest', ls = l :: rest ∧ ls' = l' :: rest' ∧ l.token = l'.token ∧
      tokens rest = tokens rest' := by
  have heq := h.tokens_eq
  cases ls with
  | nil => cases h.closed
  | cons l rest =>
    cases ls' with
    | nil => cases heq
    | cons l' rest' =>
      injection heq with hl hrest
      exact ⟨l, rest, l', rest', rfl, rfl, hl, hrest⟩

theorem token_peek (h : Same n ls ls') : (peek ls).token = (peek ls').token := by
  obtain ⟨l, rest, l', rest', rfl, rfl, hl, -⟩ := h.exists_cons
  exact hl

theorem exists_succ (h : Same n ls ls') : ∃ k, n = k + 1 := by
  obtain ⟨l, rest, l', rest', rfl, -⟩ := h.exists_cons
  have hlength := h.length_le
  rw [List.length_cons] at hlength
  exact ⟨n - 1, by omega⟩

theorem advance (h : Same (k + 1) ls ls') (hpeek : (peek ls).token ≠ .eof) :
    Same k (advance ls) (advance ls') := by
  obtain ⟨l, rest, l', rest', rfl, rfl, hl, hrest⟩ := h.exists_cons
  have hclosed := h.closed
  have hlength := h.length_le
  cases rest with
  | nil => exact (hpeek (Option.some.inj hclosed)).elim
  | cons l₁ rest =>
    cases rest' with
    | nil => cases hrest
    | cons l₁' rest' =>
      refine ⟨hrest, ?_, ?_⟩
      · simpa [tokens, Expression.advance] using hclosed
      · simpa [Expression.advance] using hlength

theorem next (h : Same n ls ls') (hpeek : (peek ls).token ≠ .eof) :
    Same n (Expression.advance ls) (Expression.advance ls') := by
  obtain ⟨k, rfl⟩ := h.exists_succ
  exact (h.advance hpeek).mono (Nat.le_succ k)

end Same

namespace Alike

variable {a b : Except ParseError (τ × List Lexeme)}

theorem mono (h : Alike n a b) (hnm : n ≤ m) : Alike m a b := by
  cases h with
  | refused e e' => exact .refused e e'
  | read x h => exact .read x (h.mono hnm)

theorem bind {f g : τ × List Lexeme → Except ParseError (σ × List Lexeme)} (h : Alike n a b)
    (hfg : ∀ x ls ls', Same n ls ls' → Alike n (f (x, ls)) (g (x, ls'))) :
    Alike n (a >>= f) (b >>= g) := by
  cases h with
  | refused e e' => exact .refused e e'
  | read x h => exact hfg x _ _ h

end Alike

theorem Agree.same {p q : Parser τ} (hpq : Agree n p q) (h : Same k ls ls') (hk : k ≤ n) :
    Alike k (p ls) (q ls') := by
  obtain ⟨k, rfl⟩ := h.exists_succ
  exact (hpq.less h hk).mono (Nat.le_succ k)

namespace Parser

theorem agree_refuse (cause : Token → ParseCause) : Agree n (refuse cause : Parser τ) (refuse cause) :=
  ⟨fun _ _ => .refused _ _⟩

theorem agree_expect (t : Token) (ht : t ≠ .eof) : Agree n (expect t) (expect t) := by
  constructor
  intro k ls ls' h _
  unfold expect
  rw [← h.token_peek]
  split
  next hpeek => exact .read () (h.advance (hpeek ▸ ht))
  next => exact .refused _ _

theorem agree_ident : Agree n ident ident := by
  constructor
  intro k ls ls' h _
  unfold ident
  rw [← h.token_peek]
  split
  next name hpeek => exact .read name (h.advance (by rw [hpeek]; nofun))
  next => exact .refused _ _

section

variable {item item' : Parser τ} (close : Token) {bound bound' : Nat} (hclose : close ≠ .eof)
  (hitem : Agree n item item')

include hclose hitem

theorem alike_items {read : List τ} (h : Same (k + 1) ls ls') (hk : k < n) (hbound : k < bound)
    (hbound' : k < bound') :
    Alike k (items item close bound read ls) (items item' close bound' read ls') := by
  induction bound generalizing bound' k read ls ls' with
  | zero => omega
  | succ bound ih =>
    obtain ⟨bound', rfl⟩ : ∃ b, bound' = b + 1 := ⟨bound' - 1, by omega⟩
    refine (hitem.less h hk).bind fun x ls ls' h => ?_
    simp only [← h.token_peek]
    split
    next hcomma =>
      obtain ⟨k, rfl⟩ := h.exists_succ
      have h := h.next (by rw [hcomma]; nofun)
      exact (ih h (by omega) (by omega) (by omega)).mono (Nat.le_succ k)
    next => exact ((agree_expect close hclose).same h (Nat.le_refl _)).bind fun _ _ _ h => .read _ h

theorem agree_list (hbound : n ≤ bound) (hbound' : n ≤ bound') :
    Agree n (list bound item close) (list bound' item' close) := by
  constructor
  intro k ls ls' h hk
  unfold list
  rw [← h.token_peek]
  split
  next hpeek => exact .read [] (h.advance (hpeek ▸ hclose))
  next => exact alike_items close hclose hitem h hk (by omega) (by omega)

end

section

variable {inner inner' operand operand' : Parser Expr} {bound bound' : Nat}
  (hinner : Agree n inner inner') (hbound : n ≤ bound) (hbound' : n ≤ bound')

include hinner hbound hbound'

theorem agree_primary : Agree n (primary bound inner) (primary bound' inner') := by
  constructor
  intro k ls ls' h hk
  unfold primary
  rw [← h.token_peek]
  split
  next x hpeek => exact .read _ (h.advance (by rw [hpeek]; nofun))
  next s hpeek => exact .read _ (h.advance (by rw [hpeek]; nofun))
  next hpeek => exact .read _ (h.advance (by rw [hpeek]; nofun))
  next hpeek => exact .read _ (h.advance (by rw [hpeek]; nofun))
  next name hpeek => exact .read _ (h.advance (by rw [hpeek]; nofun))
  next hpeek =>
    have h := h.advance (by rw [hpeek]; nofun)
    exact (hinner.same h (by omega)).bind fun e _ _ h =>
      ((agree_expect .rightParen nofun).same h (Nat.le_refl _)).bind fun _ _ _ h => .read e h
  next hpeek =>
    have h := h.advance (by rw [hpeek]; nofun)
    have hlist := (agree_list .rightBracket nofun hinner hbound hbound').same h (by omega)
    exact hlist.bind fun es _ _ h => .read _ h
  next => exact .refused _ _

theorem alike_trailers {turns turns' : Nat} {e : Expr} (h : Same k ls ls') (hk : k ≤ n)
    (hturns : k ≤ turns) (hturns' : k ≤ turns') :
    Alike k (trailers bound inner turns e ls) (trailers bound' inner' turns' e ls') := by
  induction turns generalizing turns' k e ls ls' with
  | zero =>
    obtain ⟨k, rfl⟩ := h.exists_succ
    omega
  | succ turns ih =>
    obtain ⟨k, rfl⟩ := h.exists_succ
    obtain ⟨turns', rfl⟩ : ∃ t, turns' = t + 1 := ⟨turns' - 1, by omega⟩
    unfold trailers
    rw [← h.token_peek]
    split
    next hpeek =>
      have h := h.advance (by rw [hpeek]; nofun)
      refine ((agree_ident.same h (Nat.le_refl k)).bind fun name ls ls' h => ?_).mono (Nat.le_succ k)
      exact ih h (by omega) (by omega) (by omega)
    next hpeek =>
      have h := h.advance (by rw [hpeek]; nofun)
      have hlist := (agree_list .rightParen nofun hinner hbound hbound').same h (by omega)
      refine (hlist.bind fun args ls ls' h => ?_).mono (Nat.le_succ k)
      exact ih h (by omega) (by omega) (by omega)
    next hpeek =>
      have h := h.advance (by rw [hpeek]; nofun)
      refine ((hinner.same h (by omega)).bind fun i ls ls' h => ?_).mono (Nat.le_succ k)
      refine ((agree_expect .rightBracket nofun).same h (Nat.le_refl k)).bind fun _ ls ls' h => ?_
      exact ih h (by omega) (by omega) (by omega)
    next => exact .read e h

theorem agree_unaryWith (hoperand : Agree n operand operand') :
    Agree n (unaryWith bound inner operand) (unaryWith bound' inner' operand') := by
  constructor
  intro k ls ls' h hk
  unfold unaryWith
  rw [← h.token_peek]
  split
  next hpeek =>
    have h := h.advance (by rw [hpeek]; nofun)
    exact (hoperand.same h (by omega)).bind fun e _ _ h => .read _ h
  next hpeek =>
    have h := h.advance (by rw [hpeek]; nofun)
    exact (hoperand.same h (by omega)).bind fun e _ _ h => .read _ h
  next =>
    exact ((agree_primary hinner hbound hbound').less h hk).bind fun e _ _ h =>
      alike_trailers hinner hbound hbound' h (by omega) (by omega) (by omega)

end

section

variable {operand operand' : Parser Expr} {bound bound' : Nat} (hoperand : Agree n operand operand')

include hoperand

theorem alike_rights {op? : Token → Option BinaryOp} (hop : op? .eof = none) {turns turns' : Nat}
    {left : Expr} (h : Same k ls ls') (hk : k ≤ n) (hturns : k ≤ turns) (hturns' : k ≤ turns') :
    Alike k (rights op? operand turns left ls) (rights op? operand' turns' left ls') := by
  induction turns generalizing turns' k left ls ls' with
  | zero =>
    obtain ⟨k, rfl⟩ := h.exists_succ
    omega
  | succ turns ih =>
    obtain ⟨k, rfl⟩ := h.exists_succ
    obtain ⟨turns', rfl⟩ : ∃ t, turns' = t + 1 := ⟨turns' - 1, by omega⟩
    unfold rights
    rw [← h.token_peek]
    split
    next => exact .read left h
    next op hpeek =>
      have h := h.advance (by intro heof; rw [heof, hop] at hpeek; cases hpeek)
      refine ((hoperand.same h (by omega)).bind fun right ls ls' h => ?_).mono (Nat.le_succ k)
      exact ih h (by omega) (by omega) (by omega)

theorem agree_chain {op? : Token → Option BinaryOp} (hop : op? .eof = none) (hbound : n ≤ bound)
    (hbound' : n ≤ bound') : Agree n (chain bound op? operand) (chain bound' op? operand') := by
  constructor
  intro k ls ls' h hk
  exact (hoperand.less h hk).bind fun left _ _ h =>
    alike_rights hoperand hop h (by omega) (by omega) (by omega)

theorem agree_binaries (hbound : n ≤ bound) (hbound' : n ≤ bound') :
    Agree n (binaries bound operand) (binaries bound' operand') := by
  have hlevels : ∀ op? ∈ BinaryOp.levels, op? .eof = none := by
    simp [BinaryOp.levels, BinaryOp.ofFactor?, BinaryOp.ofTerm?, BinaryOp.ofComparison?,
      BinaryOp.ofEquality?, BinaryOp.ofAnd?, BinaryOp.ofOr?]
  unfold binaries
  generalize BinaryOp.levels = levels at hlevels
  induction levels generalizing operand operand' with
  | nil => exact hoperand
  | cons op? levels ih =>
    exact ih (agree_chain hoperand (hlevels op? (by simp)) hbound hbound')
      fun op?' hmem => hlevels op?' (by simp [hmem])

end

section

variable {bound bound' : Nat} (hbound : n ≤ bound) (hbound' : n ≤ bound')

include hbound hbound'

theorem agree_unary (depth : Nat) : Agree n (unary bound depth) (unary bound' depth) := by
  induction depth with
  | zero => exact agree_unaryWith (agree_refuse _) hbound hbound' (agree_refuse _)
  | succ depth ih => exact agree_unaryWith (agree_binaries ih hbound hbound') hbound hbound' ih

theorem agree_expr (depth : Nat) : Agree n (expr bound depth) (expr bound' depth) := by
  cases depth with
  | zero => exact agree_refuse fun _ => .tooDeep
  | succ depth => exact agree_binaries (agree_unary hbound hbound' depth) hbound hbound'

end

theorem same_skipSemicolon (h : Same n ls ls') : Same n (skipSemicolon ls) (skipSemicolon ls') := by
  unfold skipSemicolon
  rw [← h.token_peek]
  split
  next hpeek => exact h.next (by rw [hpeek]; nofun)
  next => exact h

theorem target?_eq (h : Same n ls ls') : target? ls = target? ls' := by
  unfold target?
  rw [← h.token_peek]
  split
  next name hpeek => rw [(h.next (by rw [hpeek]; nofun)).token_peek]
  next => rfl

theorem target?_eq_some {name : String} : target? ls = some name ↔
    (peek ls).token = .ident name ∧ (peek (advance ls)).token = .assign := by
  unfold target?
  split
  next name' hpeek =>
    split
    next hassign => simp [hpeek, hassign]
    next hassign => simp [hassign]
  next hno => exact ⟨nofun, fun h => (hno _ h.1).elim⟩

section

variable {expr expr' : Parser Expr} {branch branch' : Parser (List Stmt)}
  (hexpr : Agree n expr expr')

include hexpr

theorem agree_declaration : Agree n (declaration expr) (declaration expr') := by
  constructor
  intro k ls ls' h hk
  refine (agree_ident.less h hk).bind fun name ls ls' h => ?_
  simp only [← h.token_peek]
  split
  next hpeek =>
    have h := h.next (by rw [hpeek]; nofun)
    exact (hexpr.same h (by omega)).bind fun e _ _ h => .read _ (same_skipSemicolon h)
  next => exact .read _ (same_skipSemicolon h)

theorem agree_conditional (hbranch : Agree n branch branch') :
    Agree n (conditional expr branch) (conditional expr' branch') := by
  constructor
  intro k ls ls' h hk
  refine ((agree_expect .leftParen nofun).less h hk).bind fun _ ls ls' h => ?_
  refine (hexpr.same h (by omega)).bind fun condition ls ls' h => ?_
  refine ((agree_expect .rightParen nofun).same h (Nat.le_refl k)).bind fun _ ls ls' h => ?_
  refine (hbranch.same h (by omega)).bind fun thens ls ls' h => ?_
  simp only [← h.token_peek]
  split
  next hpeek =>
    have h := h.next (by rw [hpeek]; nofun)
    exact (hbranch.same h (by omega)).bind fun elses _ _ h => .read _ h
  next => exact .read _ h

theorem agree_stmtWith (hbranch : Agree n branch branch') :
    Agree n (stmtWith expr branch) (stmtWith expr' branch') := by
  constructor
  intro k ls ls' h hk
  unfold stmtWith
  rw [← h.token_peek]
  split
  next hpeek => exact .read none (h.advance (by rw [hpeek]; nofun))
  next hpeek =>
    have h := h.advance (by rw [hpeek]; nofun)
    exact ((agree_declaration hexpr).same h (by omega)).bind fun s _ _ h => .read _ h
  next hpeek =>
    have h := h.advance (by rw [hpeek]; nofun)
    exact ((agree_conditional hexpr hbranch).same h (by omega)).bind fun s _ _ h => .read _ h
  next =>
    rw [← target?_eq h]
    split
    next name htarget =>
      obtain ⟨hname, hassign⟩ := target?_eq_some.mp htarget
      have h := (h.advance (by rw [hname]; nofun)).next (by rw [hassign]; nofun)
      exact (hexpr.same h (by omega)).bind fun e _ _ h => .read _ (same_skipSemicolon h)
    next => exact (hexpr.less h hk).bind fun e _ _ h => .read _ (same_skipSemicolon h)

end

section

variable {stmt stmt' : Parser (Option Stmt)} (hstmt : Agree n stmt stmt')

include hstmt

theorem alike_block {turns turns' : Nat} {read : List Stmt} (h : Same (k + 1) ls ls') (hk : k < n)
    (hturns : k < turns) (hturns' : k < turns') :
    Alike k (block stmt turns read ls) (block stmt' turns' read ls') := by
  induction turns generalizing turns' k read ls ls' with
  | zero => omega
  | succ turns ih =>
    obtain ⟨turns', rfl⟩ : ∃ t, turns' = t + 1 := ⟨turns' - 1, by omega⟩
    unfold block
    rw [← h.token_peek]
    split
    next hpeek => exact .read _ (h.advance (by rw [hpeek]; nofun))
    next =>
      split
      next => exact .refused _ _
      next =>
        refine (hstmt.less h hk).bind fun s ls ls' h => ?_
        obtain ⟨k, rfl⟩ := h.exists_succ
        exact (ih h (by omega) (by omega) (by omega)).mono (Nat.le_succ k)

theorem agree_branchWith {bound bound' : Nat} (hbound : n ≤ bound) (hbound' : n ≤ bound') :
    Agree n (branchWith bound stmt) (branchWith bound' stmt') := by
  constructor
  intro k ls ls' h hk
  unfold branchWith
  rw [← h.token_peek]
  split
  next hpeek =>
    have h := h.advance (by rw [hpeek]; nofun)
    obtain ⟨k, rfl⟩ := h.exists_succ
    exact (alike_block hstmt h (by omega) (by omega) (by omega)).mono (Nat.le_succ k)
  next => exact (hstmt.less h hk).bind fun s _ _ h => .read _ h

end

theorem agree_stmt {bound bound' : Nat} (hbound : n ≤ bound) (hbound' : n ≤ bound') (depth : Nat) :
    Agree n (stmt bound depth) (stmt bound' depth) := by
  induction depth with
  | zero => exact agree_stmtWith (agree_expr hbound hbound' 0) (agree_refuse _)
  | succ depth ih =>
    exact agree_stmtWith (agree_expr hbound hbound' (depth + 1)) (agree_branchWith ih hbound hbound')

theorem toOption_stmts {stmt stmt' : Parser (Option Stmt)} (hstmt : Agree n stmt stmt')
    {turns turns' : Nat} (read read' : List Stmt) (h : Same k ls ls') (hk : k ≤ n)
    (hturns : k ≤ turns) (hturns' : k ≤ turns') :
    (stmts stmt turns (read ++ read') ls).toOption =
      (stmts stmt' turns' read ls').toOption.map (read'.reverse ++ ·) := by
  induction turns generalizing turns' k read ls ls' with
  | zero =>
    obtain ⟨k, rfl⟩ := h.exists_succ
    omega
  | succ turns ih =>
    obtain ⟨k, rfl⟩ := h.exists_succ
    obtain ⟨turns', rfl⟩ : ∃ t, turns' = t + 1 := ⟨turns' - 1, by omega⟩
    unfold stmts
    rw [← h.token_peek]
    split
    next => simp [Except.toOption]
    next =>
      have hs := hstmt.less h hk
      generalize stmt ls = a at hs
      generalize stmt' ls' = b at hs
      cases hs with
      | refused => rfl
      | read s h =>
        have hrest : (stmts stmt turns (s.toList ++ read ++ read') _).toOption =
            (stmts stmt' turns' (s.toList ++ read) _).toOption.map (read'.reverse ++ ·) :=
          ih (s.toList ++ read) h (by omega) (by omega) (by omega)
        rwa [List.append_assoc] at hrest

end Parser

def placed (ts : List Token) : List Lexeme := ts.map fun t => ⟨t, 0, 0⟩

theorem tokens_placed (ts : List Token) : tokens (placed ts) = ts := by
  simp [tokens, placed, Function.comp_def]

theorem same_placed (h : (tokens ls).getLast? = some .eof) : Same ls.length ls (placed (tokens ls)) :=
  ⟨(tokens_placed _).symm, h, Nat.le_refl _⟩

def parseTokens (ts : List Token) : Option (List Stmt) := (parseLexemes (placed ts)).toOption

/-- The program of lexemes is that of their tokens. -/
theorem toOption_parseLexemes (h : (tokens ls).getLast? = some .eof) :
    (parseLexemes ls).toOption = parseTokens (tokens ls) := by
  have hstmts := Parser.toOption_stmts
    (Parser.agree_stmt (Nat.le_refl ls.length) (Nat.le_refl _) maxDepth) [] [] (same_placed h)
    (Nat.le_refl _) (Nat.le_refl _) (Nat.le_refl _)
  simpa [parseTokens, parseLexemes, tokens, placed] using hstmts

variable {ts : List Token} {rest : List Lexeme}

theorem parseLexemes_placed (t : Token) (ts : List Token) :
    parseLexemes (placed (t :: ts)) = if t = .eof then .ok [] else (do
      let (s, rest) ← Parser.stmt (ts.length + 1) maxDepth (placed (t :: ts))
      Parser.stmts (Parser.stmt (ts.length + 1) maxDepth) ts.length (s.toList ++ []) rest) := by
  have hlength : (placed (t :: ts)).length = ts.length + 1 := by simp [placed]
  rw [parseLexemes, hlength]
  rfl

theorem exists_cons_of_getLast? (hts : ts.getLast? = some .eof) : ∃ t ts', ts = t :: ts' := by
  cases ts with
  | nil => cases hts
  | cons t ts => exact ⟨t, ts, rfl⟩

/-- A program is its first statement and the program behind it. -/
theorem parseTokens_of_stmt {s : Option Stmt} (hts : ts.getLast? = some .eof)
    (hpeek : (peek (placed ts)).token ≠ .eof)
    (h : Parser.stmt ts.length maxDepth (placed ts) = .ok (s, rest)) :
    parseTokens ts = (parseTokens (tokens rest)).map (s.toList ++ ·) := by
  obtain ⟨t, ts, rfl⟩ := exists_cons_of_getLast? hts
  have hsame : Same (ts.length + 1) (placed (t :: ts)) (placed (t :: ts)) :=
    ⟨rfl, by rwa [tokens_placed], by simp [placed]⟩
  have hstmt := (Parser.agree_stmt (Nat.le_refl _) (Nat.le_refl _) maxDepth).less hsame
    (Nat.lt_succ_self ts.length)
  have h : Parser.stmt ts.length.succ maxDepth (placed (t :: ts)) = .ok (s, rest) := h
  rw [h] at hstmt
  obtain ⟨-, hclosed, hlength⟩ : Same ts.length rest rest := by
    cases hstmt with
    | read _ h => exact h
  have hstmts := Parser.toOption_stmts
    (Parser.agree_stmt (Nat.le_succ_of_le hlength) (Nat.le_refl rest.length) maxDepth) [] s.toList
    (same_placed hclosed) (Nat.le_refl _) hlength (Nat.le_refl _)
  have hfirst : parseLexemes (placed (t :: ts)) =
      Parser.stmts (Parser.stmt (ts.length + 1) maxDepth) ts.length (s.toList ++ []) rest := by
    have hne : t ≠ .eof := hpeek
    rw [parseLexemes_placed, if_neg hne, h]
    rfl
  have hreverse : s.toList.reverse = s.toList := by cases s <;> rfl
  rw [parseTokens, hfirst]
  rw [hreverse] at hstmts
  simpa [parseTokens, parseLexemes, tokens, placed] using hstmts

theorem Parser.stmt_eq (bound depth : Nat) :
    ∃ branch, stmt bound depth = stmtWith (expr bound depth) branch := by
  cases depth with
  | zero => exact ⟨_, rfl⟩
  | succ depth => exact ⟨_, rfl⟩

theorem Parser.exists_of_declaration {expr : Parser Expr} {s : Stmt}
    (h : declaration expr ls = .ok (s, rest)) : ∃ name value, s = .declare name value := by
  unfold declaration at h
  obtain ⟨⟨name, behind⟩, -, h⟩ := bind_eq_ok.mp h
  dsimp only at h
  split at h
  next =>
    obtain ⟨⟨e, behind⟩, -, h⟩ := bind_eq_ok.mp h
    cases h
    exact ⟨name, some e, rfl⟩
  next =>
    cases h
    exact ⟨name, none, rfl⟩

theorem Parser.exists_of_conditional {expr : Parser Expr} {branch : Parser (List Stmt)} {s : Stmt}
    (h : conditional expr branch ls = .ok (s, rest)) :
    ∃ condition thens elses, s = .branch condition thens elses := by
  unfold conditional at h
  obtain ⟨⟨_, behind⟩, -, h⟩ := bind_eq_ok.mp h
  obtain ⟨⟨condition, behind⟩, -, h⟩ := bind_eq_ok.mp h
  obtain ⟨⟨_, behind⟩, -, h⟩ := bind_eq_ok.mp h
  obtain ⟨⟨thens, behind⟩, -, h⟩ := bind_eq_ok.mp h
  dsimp only at h
  split at h
  next =>
    obtain ⟨⟨elses, behind⟩, -, h⟩ := bind_eq_ok.mp h
    cases h
    exact ⟨condition, thens, elses, rfl⟩
  next =>
    cases h
    exact ⟨condition, thens, [], rfl⟩

theorem Parser.exists_of_stmt {bound depth : Nat} {s : Option Stmt}
    (h : stmt bound depth ls = .ok (s, rest)) :
    (s = none → (peek ls).token = .semicolon) ∧
      ∀ e, s = some (.expr e) →
        ∃ behind, expr bound depth ls = .ok (e, behind) ∧ rest = skipSemicolon behind := by
  obtain ⟨branch, hstmt⟩ := stmt_eq bound depth
  rw [hstmt] at h
  unfold stmtWith at h
  split at h
  next hpeek =>
    cases h
    exact ⟨fun _ => hpeek, nofun⟩
  next =>
    obtain ⟨⟨s', behind⟩, hs, h⟩ := bind_eq_ok.mp h
    obtain ⟨name, value, rfl⟩ := exists_of_declaration hs
    cases h
    exact ⟨nofun, nofun⟩
  next =>
    obtain ⟨⟨s', behind⟩, hs, h⟩ := bind_eq_ok.mp h
    obtain ⟨condition, thens, elses, rfl⟩ := exists_of_conditional hs
    cases h
    exact ⟨nofun, nofun⟩
  next =>
    split at h
    next =>
      obtain ⟨⟨e', behind⟩, -, h⟩ := bind_eq_ok.mp h
      cases h
      exact ⟨nofun, nofun⟩
    next =>
      obtain ⟨⟨e', behind⟩, he, h⟩ := bind_eq_ok.mp h
      cases h
      refine ⟨nofun, ?_⟩
      rintro e ⟨⟩
      exact ⟨behind, he, rfl⟩

/-- A declaration without a value may stand in front of any program. -/
theorem parseTokens_bare (name : String) (hts : ts.getLast? = some .eof) :
    parseTokens (.declare :: .ident name :: .semicolon :: ts) =
      (parseTokens ts).map (.declare name none :: ·) := by
  obtain ⟨t, ts, rfl⟩ := exists_cons_of_getLast? hts
  obtain ⟨branch, hstmt⟩ := Parser.stmt_eq (t :: ts).length.succ.succ.succ maxDepth
  have hfirst : Parser.stmt (t :: ts).length.succ.succ.succ maxDepth
      (placed (.declare :: .ident name :: .semicolon :: t :: ts)) =
        .ok (some (.declare name none), placed (t :: ts)) := by
    rw [hstmt]
    rfl
  have hclosed : (.declare :: .ident name :: .semicolon :: t :: ts : List Token).getLast? = some .eof := by
    simpa using hts
  have hparse := parseTokens_of_stmt hclosed nofun hfirst
  rwa [tokens_placed] at hparse

/-- A program that is one expression starts with it, if it does not start with a semicolon. -/
theorem exists_of_parseTokens {e : Expr} (hts : ts.getLast? = some .eof)
    (hpeek : (peek (placed ts)).token ≠ .semicolon) (h : parseTokens ts = some [.expr e]) :
    ∃ behind, Parser.expr ts.length maxDepth (placed ts) = .ok (e, behind) ∧
      parseTokens (tokens (Parser.skipSemicolon behind)) = some [] := by
  obtain ⟨t, ts, rfl⟩ := exists_cons_of_getLast? hts
  have hparse := toOption_eq_some.mp h
  rw [parseLexemes_placed] at hparse
  split at hparse
  next => cases hparse
  next heof =>
    obtain ⟨⟨s, rest⟩, hstmt, -⟩ := bind_eq_ok.mp hparse
    obtain ⟨hnone, hexpr⟩ := Parser.exists_of_stmt hstmt
    rw [parseTokens_of_stmt hts heof hstmt] at h
    obtain ⟨program, hprogram, h⟩ := Option.map_eq_some_iff.mp h
    cases s with
    | none => exact (hpeek (hnone rfl)).elim
    | some s =>
      obtain ⟨rfl, rfl⟩ : s = .expr e ∧ program = [] := by simpa using h
      obtain ⟨behind, he, rfl⟩ := hexpr e rfl
      exact ⟨behind, he, hprogram⟩

/-- An expression that is a whole program may be given to a name instead. -/
theorem parseTokens_named (name : String) {e : Expr} (hts : ts.getLast? = some .eof)
    (hpeek : (peek (placed ts)).token ≠ .semicolon) (h : parseTokens ts = some [.expr e]) :
    parseTokens (.ident name :: .assign :: ts) = some [.assign name e] ∧
      parseTokens (.declare :: .ident name :: .assign :: ts) = some [.declare name (some e)] := by
  obtain ⟨behind, he, hbehind⟩ := exists_of_parseTokens hts hpeek h
  have hexpr (bound : Nat) (hbound : ts.length ≤ bound) :
      ∃ behind', Parser.expr bound maxDepth (placed ts) = .ok (e, behind') ∧
        parseTokens (tokens (Parser.skipSemicolon behind')) = some [] := by
    have hsame : Same ts.length (placed ts) (placed ts) := ⟨rfl, by rwa [tokens_placed], by simp [placed]⟩
    have halike := (Parser.agree_expr (Nat.le_refl ts.length) hbound maxDepth).same hsame (Nat.le_refl _)
    rw [he] at halike
    generalize Parser.expr bound maxDepth (placed ts) = outcome at halike
    cases halike with
    | @read _ _ behind' hsame =>
      refine ⟨behind', rfl, ?_⟩
      rw [← (Parser.same_skipSemicolon hsame).tokens_eq, hbehind]
  obtain ⟨t, ts, rfl⟩ := exists_cons_of_getLast? hts
  constructor
  · obtain ⟨behind', he, hbehind⟩ := hexpr (t :: ts).length.succ.succ (by omega)
    obtain ⟨branch, hstmt⟩ := Parser.stmt_eq (t :: ts).length.succ.succ maxDepth
    have hclosed : (.ident name :: .assign :: t :: ts : List Token).getLast? = some .eof := by
      simpa using hts
    have hfirst : Parser.stmt (t :: ts).length.succ.succ maxDepth
        (placed (.ident name :: .assign :: t :: ts)) =
          .ok (some (.assign name e), Parser.skipSemicolon behind') := by
      rw [hstmt, ← ok_bind (e, behind') fun r =>
        Except.ok (some (Stmt.assign name r.1), Parser.skipSemicolon r.2), ← he]
      rfl
    rw [parseTokens_of_stmt hclosed nofun hfirst, hbehind]
    rfl
  · obtain ⟨behind', he, hbehind⟩ := hexpr (t :: ts).length.succ.succ.succ (by omega)
    obtain ⟨branch, hstmt⟩ := Parser.stmt_eq (t :: ts).length.succ.succ.succ maxDepth
    have hclosed : (.declare :: .ident name :: .assign :: t :: ts : List Token).getLast? = some .eof := by
      simpa using hts
    have hdeclaration : Parser.declaration (Parser.expr (t :: ts).length.succ.succ.succ maxDepth)
        (placed (.ident name :: .assign :: t :: ts)) =
          .ok (.declare name (some e), Parser.skipSemicolon behind') := by
      rw [← ok_bind (e, behind') fun r =>
        Except.ok (Stmt.declare name (some r.1), Parser.skipSemicolon r.2), ← he]
      rfl
    have hfirst : Parser.stmt (t :: ts).length.succ.succ.succ maxDepth
        (placed (.declare :: .ident name :: .assign :: t :: ts)) =
          .ok (some (.declare name (some e)), Parser.skipSemicolon behind') := by
      rw [hstmt, ← ok_bind (Stmt.declare name (some e), Parser.skipSemicolon behind') fun r =>
        Except.ok (some r.1, r.2), ← hdeclaration]
      rfl
    rw [parseTokens_of_stmt hclosed nofun hfirst, hbehind]
    rfl

end IconMotion.Expression
