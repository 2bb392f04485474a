import IconMotion.Proofs.Placement
import IconMotion.Proofs.Printing

namespace IconMotion.Expression

@[simp] theorem token_peek_placed (t : Token) (rest : List Token) :
    (peek (placed (t :: rest))).token = t := rfl

@[simp] theorem advance_placed (t t' : Token) (rest : List Token) :
    advance (placed (t :: t' :: rest)) = placed (t' :: rest) := rfl

@[simp] theorem advance_placed_append (t t' : Token) (ts rest : List Token) :
    advance (placed (t :: (ts ++ t' :: rest))) = placed (ts ++ t' :: rest) := by
  cases ts <;> rfl

namespace Parser

variable {τ : Type} {bound : Nat}

def operand (bound depth j : Nat) : Parser Expr :=
  (BinaryOp.levels.take j).foldl (fun p op? => chain bound op? p) (unary bound depth)

/-- Tokens that an operand does not take behind it. -/
def Stops (j : Nat) (t : Token) : Prop :=
  t ≠ .dot ∧ t ≠ .leftParen ∧ t ≠ .leftBracket ∧ ∀ op? ∈ BinaryOp.levels.take j, op? t = none

instance (j : Nat) (t : Token) : Decidable (Stops j t) := inferInstanceAs (Decidable (_ ∧ _ ∧ _ ∧ _))

/-- A parser takes tokens for a thing, whatever is behind them if it starts so. -/
def Reads (bound : Nat) (stop : Token → Prop) (p : Parser τ) (ts : List Token) (x : τ) : Prop :=
  ∀ t rest, stop t → ts.length + rest.length < bound →
    p (placed (ts ++ t :: rest)) = .ok (x, placed (t :: rest))

/-- A parser takes tokens for a thing and goes on with a loop behind it. -/
def Continues (bound : Nat) (stop : Token → Prop) (p : Parser τ) (loop : Nat → τ → Parser τ)
    (ts : List Token) (x : τ) : Prop :=
  ∀ t rest, stop t → ts.length + rest.length < bound →
    ∃ turns, rest.length < turns ∧ p (placed (ts ++ t :: rest)) = loop turns x (placed (t :: rest))

theorem operand_succ {op? : Token → Option BinaryOp} {j : Nat} (h : BinaryOp.levels[j]? = some op?)
    (bound depth : Nat) : operand bound depth (j + 1) = chain bound op? (operand bound depth j) := by
  unfold operand
  rw [List.take_add_one, h, List.foldl_append]
  rfl

variable {stop stop' : Token → Prop} {ts ts' : List Token} {depth j : Nat} {e : Expr}

theorem Continues.of_reads {op? : Token → Option BinaryOp} {p : Parser Expr}
    (h : Reads bound stop p ts e) : Continues bound stop (chain bound op? p) (rights op? p) ts e := by
  intro t rest ht hbound
  refine ⟨bound, by omega, ?_⟩
  rw [chain, h t rest ht hbound]
  rfl

theorem Continues.binary {op? : Token → Option BinaryOp} {p : Parser Expr} {op : BinaryOp}
    {left right : Expr} (hleft : Continues bound stop (chain bound op? p) (rights op? p) ts left)
    (hop : op? op.token = some op) (hstop : stop op.token) (hright : Reads bound stop p ts' right) :
    Continues bound stop (chain bound op? p) (rights op? p) (ts ++ op.token :: ts')
      (.binary op left right) := by
  intro t rest ht hbound
  rw [List.length_append, List.length_cons] at hbound
  obtain ⟨turns, hturns, hchain⟩ := hleft op.token (ts' ++ t :: rest) hstop (by simp; omega)
  obtain ⟨turns, rfl⟩ : ∃ n, turns = n + 1 := ⟨turns - 1, by omega⟩
  refine ⟨turns, by simp at hturns; omega, ?_⟩
  rw [List.append_assoc, List.cons_append, hchain]
  simp only [rights, token_peek_placed, hop, advance_placed_append, hright t rest ht (by omega), ok_bind]

theorem Continues.reads {op? : Token → Option BinaryOp} {p : Parser Expr}
    (h : Continues bound stop (chain bound op? p) (rights op? p) ts e)
    (hstop : ∀ t, stop' t → stop t ∧ op? t = none) : Reads bound stop' (chain bound op? p) ts e := by
  intro t rest ht hbound
  obtain ⟨hstop, hop⟩ := hstop t ht
  obtain ⟨turns, hturns, hchain⟩ := h t rest hstop hbound
  obtain ⟨turns, rfl⟩ : ∃ n, turns = n + 1 := ⟨turns - 1, by omega⟩
  simp only [hchain, rights, token_peek_placed, hop]

theorem Reads.mono {p : Parser τ} {x : τ} (h : Reads bound stop p ts x) (hstop : ∀ t, stop' t → stop t) :
    Reads bound stop' p ts x := fun t rest ht => h t rest (hstop t ht)

theorem unary_eq (bound depth : Nat) :
    ∃ below, unary bound depth = unaryWith bound (expr bound depth) below := by
  cases depth with
  | zero => exact ⟨_, rfl⟩
  | succ depth => exact ⟨_, rfl⟩

section

variable {inner below : Parser Expr}

theorem Continues.of_primary {t : Token} (hminus : t ≠ .minus) (hbang : t ≠ .bang)
    (h : Reads bound stop (primary bound inner) (t :: ts) e) :
    Continues bound stop (unaryWith bound inner below) (trailers bound inner) (t :: ts) e := by
  intro t' rest ht hbound
  refine ⟨bound, by omega, ?_⟩
  unfold unaryWith
  rw [List.cons_append, token_peek_placed]
  split
  next => exact (hminus rfl).elim
  next => exact (hbang rfl).elim
  next =>
    have hprimary := h t' rest ht hbound
    rw [List.cons_append] at hprimary
    rw [hprimary]
    rfl

theorem Continues.member {p : Parser Expr} (name : String)
    (h : Continues bound (fun _ => True) p (trailers bound inner) ts e) :
    Continues bound (fun _ => True) p (trailers bound inner) (ts ++ [.dot, .ident name])
      (.member e name) := by
  intro t rest _ hbound
  rw [List.length_append] at hbound
  obtain ⟨turns, hturns, hp⟩ := h .dot (.ident name :: t :: rest) trivial (by simp at *; omega)
  obtain ⟨turns, rfl⟩ : ∃ n, turns = n + 1 := ⟨turns - 1, by omega⟩
  refine ⟨turns, by simp at hturns; omega, ?_⟩
  rw [List.append_assoc]
  simp only [List.cons_append, List.nil_append, hp, trailers, token_peek_placed, advance_placed, ident,
    ok_bind]

theorem Continues.index {p : Parser Expr} {i : Expr}
    (h : Continues bound (fun _ => True) p (trailers bound inner) ts e)
    (hi : Reads bound (Stops 6) inner ts' i) :
    Continues bound (fun _ => True) p (trailers bound inner) (ts ++ .leftBracket :: (ts' ++ [.rightBracket]))
      (.index e i) := by
  intro t rest _ hbound
  simp only [List.length_append, List.length_cons, List.length_nil] at hbound
  obtain ⟨turns, hturns, hp⟩ := h .leftBracket (ts' ++ .rightBracket :: t :: rest) trivial
    (by simp; omega)
  obtain ⟨turns, rfl⟩ : ∃ n, turns = n + 1 := ⟨turns - 1, by omega⟩
  refine ⟨turns, by simp at hturns; omega, ?_⟩
  have hindex := hi .rightBracket (t :: rest) (by decide) (by simp; omega)
  have hexpect : expect .rightBracket (placed (.rightBracket :: t :: rest)) =
      .ok ((), placed (t :: rest)) := by
    simp [expect]
  rw [List.append_assoc]
  simp only [List.cons_append, List.append_assoc, List.nil_append, hp, trailers, token_peek_placed,
    advance_placed_append, hindex, hexpect, ok_bind]

theorem Continues.call {p : Parser Expr} {args : List Expr}
    (h : Continues bound (fun _ => True) p (trailers bound inner) ts e)
    (hargs : Reads bound (fun _ => True) (list bound inner .rightParen) (ts' ++ [.rightParen]) args) :
    Continues bound (fun _ => True) p (trailers bound inner) (ts ++ .leftParen :: (ts' ++ [.rightParen]))
      (.call e args) := by
  intro t rest _ hbound
  simp only [List.length_append, List.length_cons, List.length_nil] at hbound
  obtain ⟨turns, hturns, hp⟩ := h .leftParen (ts' ++ .rightParen :: t :: rest) trivial
    (by simp; omega)
  obtain ⟨turns, rfl⟩ : ∃ n, turns = n + 1 := ⟨turns - 1, by omega⟩
  refine ⟨turns, by simp at hturns; omega, ?_⟩
  have hlist := hargs t rest trivial (by simp; omega)
  simp only [List.append_assoc, List.cons_append, List.nil_append] at hlist ⊢
  simp only [hp, trailers, token_peek_placed, advance_placed_append, hlist, ok_bind]

theorem Continues.reads_operand {p : Parser Expr}
    (h : Continues bound (fun _ => True) p (trailers bound inner) ts e) :
    Reads bound (Stops 0) p ts e := by
  intro t rest ⟨hdot, hparen, hbracket, _⟩ hbound
  obtain ⟨turns, hturns, hp⟩ := h t rest trivial hbound
  obtain ⟨turns, rfl⟩ : ∃ n, turns = n + 1 := ⟨turns - 1, by omega⟩
  simp only [hp, trailers, token_peek_placed]

end

theorem Stops.of_succ {op? : Token → Option BinaryOp} {t : Token} (hop : BinaryOp.levels[j]? = some op?)
    (h : Stops (j + 1) t) : Stops j t ∧ op? t = none := by
  obtain ⟨hdot, hparen, hbracket, hlevels⟩ := h
  rw [List.take_add_one, hop] at hlevels
  simp only [Option.toList_some, List.mem_append, List.mem_singleton] at hlevels
  exact ⟨⟨hdot, hparen, hbracket, fun op? h => hlevels op? (.inl h)⟩, hlevels op? (.inr rfl)⟩

theorem exists_level (op : BinaryOp) :
    ∃ op?, BinaryOp.levels[op.level]? = some op? ∧ op? op.token = some op ∧ Stops op.level op.token := by
  cases op
  all_goals exact ⟨_, rfl, rfl, by decide⟩

theorem Reads.loosen {j' : Nat} (h : Reads bound (Stops j) (operand bound depth j) ts e) (hj : j ≤ j')
    (hj' : j' ≤ 6) : Reads bound (Stops j') (operand bound depth j') ts e := by
  induction j', hj using Nat.le_induction with
  | base => exact h
  | succ j' hj ih =>
    have hlt : j' < BinaryOp.levels.length := by
      have : BinaryOp.levels.length = 6 := rfl
      omega
    have hop := List.getElem?_eq_getElem hlt
    rw [operand_succ hop]
    exact (Continues.of_reads (ih (by omega))).reads fun t => Stops.of_succ hop

theorem Continues.reads_binary {op? : Token → Option BinaryOp} (hop : BinaryOp.levels[j]? = some op?)
    (h : Continues bound (Stops j) (chain bound op? (operand bound depth j))
      (rights op? (operand bound depth j)) ts e) :
    Reads bound (Stops (j + 1)) (operand bound depth (j + 1)) ts e := by
  rw [operand_succ hop]
  exact h.reads fun t => Stops.of_succ hop

section

variable {item : Parser Expr} {close : Token} {es : List Expr}

theorem items_printAll (hitems : ∀ e ∈ es, Reads bound (Stops 6) item e.print e) (hne : es ≠ [])
    (hclose : Stops 6 close) (hcomma : close ≠ .comma) {turns : Nat} {t : Token} {rest : List Token}
    (read : List Expr) (hturns : (Expr.printAll es).length < turns)
    (hbound : (Expr.printAll es).length + 1 + rest.length < bound) :
    items item close turns read (placed (Expr.printAll es ++ close :: t :: rest)) =
      .ok (read.reverse ++ es, placed (t :: rest)) := by
  induction es generalizing turns read with
  | nil => exact (hne rfl).elim
  | cons e es ih =>
    obtain ⟨turns, rfl⟩ : ∃ n, turns = n + 1 := ⟨turns - 1, by omega⟩
    have he := hitems e (by simp)
    cases es with
    | nil =>
      have hitem := he close (t :: rest) hclose (by simp [Expr.printAll] at *; omega)
      simp [Expr.printAll, items, hitem, ok_bind, expect, hcomma]
    | cons e' es =>
      simp only [Expr.printAll, List.length_append, List.length_cons] at hturns hbound
      have hitem := he .comma (Expr.printAll (e' :: es) ++ close :: t :: rest) (by decide)
        (by simp; omega)
      have hrest : items item close turns (e :: read) _ = .ok ((e :: read).reverse ++ e' :: es, _) :=
        ih (fun e he => hitems e (List.mem_cons_of_mem _ he)) (List.cons_ne_nil e' es) (e :: read)
          (by omega) (by omega)
      simp only [Expr.printAll, List.append_assoc, List.cons_append, items, hitem, ok_bind,
        token_peek_placed, if_true, advance_placed_append, hrest]
      simp

end

theorem reads_list {item : Parser Expr} {close : Token} {es : List Expr}
    (hproper : ∀ e ∈ es, e.Proper) (hitems : ∀ e ∈ es, Reads bound (Stops 6) item e.print e)
    (hclose : Stops 6 close) (hcomma : close ≠ .comma) (hopens : close.opens = false) :
    Reads bound (fun _ => True) (list bound item close) (Expr.printAll es ++ [close]) es := by
  intro t rest _ hbound
  simp only [List.length_append, List.length_cons, List.length_nil] at hbound
  rw [List.append_assoc, List.cons_append, List.nil_append, list]
  cases es with
  | nil => simp [Expr.printAll]
  | cons e es =>
    have hitems : items item close bound [] _ = .ok ([].reverse ++ e :: es, placed (t :: rest)) :=
      items_printAll hitems (List.cons_ne_nil e es) hclose hcomma [] (by omega) (by omega)
    have hpeek : (peek (placed (Expr.printAll (e :: es) ++ close :: t :: rest))).token ≠ close := by
      obtain ⟨t', ts, hts, ht⟩ := (hproper e (by simp)).exists_cons
      have hne : t' ≠ close := by
        rintro rfl
        simp [hopens] at ht
      cases es with
      | nil => simpa [Expr.printAll, hts] using hne
      | cons e' es => simpa [Expr.printAll, hts] using hne
    rw [if_neg hpeek, hitems]
    rfl

theorem reads_group {inner : Parser Expr} (h : Reads bound (Stops 6) inner ts e) :
    Reads bound (fun _ => True) (primary bound inner) (.leftParen :: (ts ++ [.rightParen])) e := by
  intro t rest _ hbound
  simp only [List.length_append, List.length_cons, List.length_nil] at hbound
  have hinner := h .rightParen (t :: rest) (by decide) (by simp; omega)
  simp [primary, hinner, ok_bind, expect]

theorem reads_array {inner : Parser Expr} {es : List Expr}
    (h : Reads bound (fun _ => True) (list bound inner .rightBracket) (ts ++ [.rightBracket]) es) :
    Reads bound (fun _ => True) (primary bound inner) (.leftBracket :: (ts ++ [.rightBracket]))
      (.array es) := by
  intro t rest _ hbound
  simp only [List.length_append, List.length_cons, List.length_nil] at hbound
  have hlist := h t rest trivial (by simp; omega)
  simp only [List.append_assoc, List.cons_append, List.nil_append] at hlist ⊢
  simp only [primary, token_peek_placed, advance_placed_append, hlist, ok_bind]
  rfl

/-- The parsers of operands take the tokens of an expression for it. -/
structure Readable (bound : Nat) (e : Expr) : Prop where
  continues (h : e.looseness = 0) {depth : Nat} (hdepth : e.nesting ≤ depth) :
    Continues bound (fun _ => True) (unary bound depth) (trailers bound (expr bound depth)) e.print e
  chains {op : BinaryOp} {left right : Expr} (h : e = .binary op left right)
    {op? : Token → Option BinaryOp} (hop : BinaryOp.levels[op.level]? = some op?) {depth : Nat}
    (hdepth : e.nesting ≤ depth) :
    Continues bound (Stops op.level) (chain bound op? (operand bound depth op.level))
      (rights op? (operand bound depth op.level)) e.print e
  reads {j : Nat} (hj : j ≤ 6) (h : e.looseness ≤ j + 1) {depth : Nat} (hdepth : e.nesting ≤ depth) :
    Reads bound (Stops j) (operand bound depth j) e.print e

theorem level_le (op : BinaryOp) : op.level ≤ 5 := by cases op <;> decide

theorem looseness_le (e : Expr) : e.looseness ≤ 7 := by
  cases e with
  | number x =>
    rw [Expr.looseness]
    split <;> decide
  | binary op => exact Nat.add_le_add_right (level_le op) 2
  | unary => exact Nat.le_add_left 1 6
  | _ => exact Nat.zero_le 7

namespace Readable

theorem of_continues (h : e.looseness = 0) (hcontinues : ∀ depth, e.nesting ≤ depth →
    Continues bound (fun _ => True) (unary bound depth) (trailers bound (expr bound depth)) e.print e) :
    Readable bound e where
  continues _ _ hdepth := hcontinues _ hdepth
  chains := by
    rintro op left right rfl
    simp [Expr.looseness] at h
  reads hj _ depth hdepth :=
    Reads.loosen (j := 0) (hcontinues depth hdepth).reads_operand (Nat.zero_le _) hj

theorem of_unary (h : e.looseness = 1) (hreads : ∀ depth, e.nesting ≤ depth →
    Reads bound (Stops 0) (unary bound depth) e.print e) : Readable bound e where
  continues h' := by omega
  chains := by
    rintro op left right rfl
    simp [Expr.looseness] at h
  reads hj _ depth hdepth := Reads.loosen (j := 0) (hreads depth hdepth) (Nat.zero_le _) hj

theorem reads_expr (h : Readable bound e) (hdepth : e.nesting + 1 ≤ depth) :
    Reads bound (Stops 6) (expr bound depth) e.print e := by
  obtain ⟨depth, rfl⟩ : ∃ n, depth = n + 1 := ⟨depth - 1, by omega⟩
  exact h.reads (Nat.le_refl 6) (looseness_le e) (Nat.le_of_succ_le_succ hdepth)

theorem continues_group (h : Readable bound e) (hdepth : e.nesting + 1 ≤ depth) :
    Continues bound (fun _ => True) (unary bound depth) (trailers bound (expr bound depth))
      (.leftParen :: (e.print ++ [.rightParen])) e := by
  obtain ⟨below, hunary⟩ := unary_eq bound depth
  rw [hunary]
  exact .of_primary (by simp) (by simp) (reads_group (h.reads_expr hdepth))

/-- An object or a callee. -/
theorem continues_in (h : Readable bound e) (hdepth : e.groupNesting 0 e.nesting ≤ depth) :
    Continues bound (fun _ => True) (unary bound depth) (trailers bound (expr bound depth))
      (e.group 0 e.print) e := by
  unfold Expr.group
  unfold Expr.groupNesting at hdepth
  split
  next hle =>
    rw [if_pos hle] at hdepth
    exact h.continues (Nat.le_zero.mp hle) hdepth
  next hle =>
    rw [if_neg hle] at hdepth
    exact h.continues_group hdepth

theorem reads_in (h : Readable bound e) (hj : j ≤ 6) (hdepth : e.groupNesting (j + 1) e.nesting ≤ depth) :
    Reads bound (Stops j) (operand bound depth j) (e.group (j + 1) e.print) e := by
  unfold Expr.group
  unfold Expr.groupNesting at hdepth
  split
  next hle =>
    rw [if_pos hle] at hdepth
    exact h.reads hj hle hdepth
  next hle =>
    rw [if_neg hle] at hdepth
    exact Reads.loosen (j := 0) (h.continues_group hdepth).reads_operand (Nat.zero_le j) hj

/-- A left operand: a chain of the same level, or an operand that binds more tightly. -/
theorem chains_in (h : Readable bound e) {op? : Token → Option BinaryOp}
    (hop : BinaryOp.levels[j]? = some op?) (hj : j ≤ 5)
    (hdepth : e.groupNesting (j + 2) e.nesting ≤ depth) :
    Continues bound (Stops j) (chain bound op? (operand bound depth j)) (rights op? (operand bound depth j))
      (e.group (j + 2) e.print) e := by
  by_cases hloose : e.looseness = j + 2
  · obtain ⟨op, left, right, rfl⟩ : ∃ op left right, e = .binary op left right := by
      cases e with
      | binary op left right => exact ⟨op, left, right, rfl⟩
      | number x =>
        rw [Expr.looseness] at hloose
        split at hloose <;> omega
      | unary => simp [Expr.looseness] at hloose
      | _ => simp [Expr.looseness] at hloose
    obtain rfl : op.level = j := by simpa [Expr.looseness] using hloose
    rw [Expr.groupNesting, if_pos (Nat.le_of_eq hloose)] at hdepth
    rw [Expr.group, if_pos (Nat.le_of_eq hloose)]
    exact h.chains rfl hop hdepth
  · have hsame : e.looseness ≤ j + 2 ↔ e.looseness ≤ j + 1 := by omega
    have hgroup : e.group (j + 2) e.print = e.group (j + 1) e.print := by
      simp only [Expr.group, hsame]
    rw [Expr.groupNesting] at hdepth
    simp only [hsame] at hdepth
    rw [hgroup]
    exact .of_reads (h.reads_in (by omega) hdepth)

end Readable

theorem nesting_of_mem {es : List Expr} (h : e ∈ es) : e.nesting + 1 ≤ Expr.nestingAll es := by
  induction es with
  | nil => cases h
  | cons e' es ih =>
    rw [Expr.nestingAll]
    rcases List.mem_cons.mp h with rfl | h
    · exact Nat.le_max_left _ _
    · exact Nat.le_trans (ih h) (Nat.le_max_right _ _)

theorem reads_all {es : List Expr} {close : Token} (hproper : ∀ e ∈ es, e.Proper)
    (hreadable : ∀ e ∈ es, Readable bound e) (hdepth : Expr.nestingAll es ≤ depth)
    (hclose : Stops 6 close) (hcomma : close ≠ .comma) (hopens : close.opens = false) :
    Reads bound (fun _ => True) (list bound (expr bound depth) close) (Expr.printAll es ++ [close]) es :=
  reads_list hproper
    (fun e he => (hreadable e he).reads_expr (Nat.le_trans (nesting_of_mem he) hdepth))
    hclose hcomma hopens

theorem reads_neg (h : Reads bound (Stops 0) (unary bound depth) ts e) :
    Reads bound (Stops 0) (unary bound (depth + 1)) (.minus :: ts) (negate e) := by
  intro t rest ht hbound
  rw [List.length_cons] at hbound
  simp only [unary, unaryWith, List.cons_append, token_peek_placed, advance_placed_append,
    h t rest ht (by omega), ok_bind]
  rfl

theorem reads_not (h : Reads bound (Stops 0) (unary bound depth) ts e) :
    Reads bound (Stops 0) (unary bound (depth + 1)) (.bang :: ts) (.unary .not e) := by
  intro t rest ht hbound
  rw [List.length_cons] at hbound
  simp only [unary, unaryWith, List.cons_append, token_peek_placed, advance_placed_append,
    h t rest ht (by omega), ok_bind]
  rfl

theorem continues_single {t : Token} (hminus : t ≠ .minus) (hbang : t ≠ .bang)
    (h : ∀ inner rest, primary bound inner (placed (t :: rest)) = .ok (e, advance (placed (t :: rest)))) :
    Continues bound (fun _ => True) (unary bound depth) (trailers bound (expr bound depth)) [t] e := by
  obtain ⟨below, hunary⟩ := unary_eq bound depth
  rw [hunary]
  exact .of_primary hminus hbang fun t' rest _ _ => h _ (t' :: rest)

theorem readable_of_proper (h : e.Proper) : Readable bound e := by
  induction h with
  | number x =>
    by_cases hx : isNegative x
    · refine .of_unary (by simp [Expr.looseness, hx]) fun depth hdepth => ?_
      rw [Expr.nesting, if_pos hx] at hdepth
      obtain ⟨depth, rfl⟩ : ∃ n, depth = n + 1 := ⟨depth - 1, by omega⟩
      have hnumber : Continues bound (fun _ => True) (unary bound depth)
          (trailers bound (expr bound depth)) [.number (-x)] (.number (-x)) :=
        continues_single (by simp) (by simp) fun _ _ => rfl
      have hneg := reads_neg hnumber.reads_operand
      rw [negate, Precision.neg_neg] at hneg
      rw [Expr.print, if_pos hx]
      exact hneg
    · refine .of_continues (by simp [Expr.looseness, hx]) fun depth hdepth => ?_
      rw [Expr.print, if_neg hx]
      exact continues_single (by simp) (by simp) fun _ _ => rfl
  | text s => exact .of_continues rfl fun depth _ => continues_single (by simp) (by simp) fun _ _ => rfl
  | bool b =>
    refine .of_continues rfl fun depth _ => ?_
    cases b
    · exact continues_single (by simp) (by simp) fun _ _ => rfl
    · exact continues_single (by simp) (by simp) fun _ _ => rfl
  | ident name => exact .of_continues rfl fun depth _ => continues_single (by simp) (by simp) fun _ _ => rfl
  | array hitems ih =>
    refine .of_continues rfl fun depth hdepth => ?_
    rw [Expr.nesting] at hdepth
    obtain ⟨below, hunary⟩ := unary_eq bound depth
    rw [hunary, Expr.print]
    exact .of_primary (by simp) (by simp)
      (reads_array (reads_all hitems ih hdepth (by decide) (by decide) rfl))
  | @member object name _ ih =>
    refine .of_continues rfl fun depth hdepth => ?_
    rw [Expr.nesting] at hdepth
    rw [Expr.print]
    exact (ih.continues_in hdepth).member name
  | @index object i _ _ ih ihi =>
    refine .of_continues rfl fun depth hdepth => ?_
    rw [Expr.nesting] at hdepth
    rw [Expr.print]
    exact (ih.continues_in (by omega)).index (ihi.reads_expr (by omega))
  | @call callee args _ hargs ih ihargs =>
    refine .of_continues rfl fun depth hdepth => ?_
    rw [Expr.nesting] at hdepth
    rw [Expr.print]
    exact (ih.continues_in (by omega)).call (reads_all hargs ihargs (by omega) (by decide) (by decide) rfl)
  | @not e _ ih =>
    refine .of_unary rfl fun depth hdepth => ?_
    rw [Expr.nesting] at hdepth
    obtain ⟨depth, rfl⟩ : ∃ n, depth = n + 1 := ⟨depth - 1, by omega⟩
    rw [Expr.print]
    exact reads_not (ih.reads_in (Nat.zero_le 6) (Nat.le_of_succ_le_succ hdepth))
  | @neg e _ hnumber ih =>
    refine .of_unary rfl fun depth hdepth => ?_
    rw [Expr.nesting] at hdepth
    obtain ⟨depth, rfl⟩ : ∃ n, depth = n + 1 := ⟨depth - 1, by omega⟩
    have hneg := reads_neg (ih.reads_in (Nat.zero_le 6) (Nat.le_of_succ_le_succ hdepth))
    have hnegate : negate e = .unary .neg e := by
      cases e with
      | number x => exact (hnumber x rfl).elim
      | _ => rfl
    rw [hnegate] at hneg
    rw [Expr.print]
    exact hneg
  | @binary op left right _ _ ihleft ihright =>
    have hchain {op? : Token → Option BinaryOp} (hlevel : BinaryOp.levels[op.level]? = some op?)
        {depth : Nat} (hdepth : (Expr.binary op left right).nesting ≤ depth) :
        Continues bound (Stops op.level) (chain bound op? (operand bound depth op.level))
          (rights op? (operand bound depth op.level)) (Expr.binary op left right).print
          (.binary op left right) := by
      obtain ⟨op?', hlevel', hop, hstop⟩ := exists_level op
      obtain rfl := Option.some.inj (hlevel.symm.trans hlevel')
      have hle := level_le op
      rw [Expr.nesting] at hdepth
      rw [Expr.print]
      exact (ihleft.chains_in hlevel hle (by omega)).binary hop hstop
        (ihright.reads_in (by omega) (by omega))
    refine ⟨fun h => by simp [Expr.looseness] at h, ?_, ?_⟩
    · rintro _ _ _ ⟨⟩
      exact hchain
    · intro j hj hloose depth hdepth
      obtain ⟨op?, hlevel, -⟩ := exists_level op
      have hreads := (hchain hlevel hdepth).reads_binary hlevel
      exact hreads.loosen (by simpa [Expr.looseness] using hloose) hj

end Parser

end IconMotion.Expression
