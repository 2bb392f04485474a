import IconMotion.Proofs.Operands

namespace IconMotion.Expression

namespace Parser

variable {τ : Type} {bound depth : Nat} {stop : Token → Prop} {ts : List Token} {e : Expr}

def Ends (close : List Token) (t : Token) : Prop :=
  close = [.semicolon] ∨ close = [] ∧ (t = .eof ∨ t = .rightBrace)

section

variable {close rest : List Token} {t : Token}

theorem Reads.before_end {p : Parser τ} {x : τ} (h : Reads bound (Stops 6) p ts x) (rest : List Token)
    (ht : Ends close t) (hbound : ts.length + close.length + rest.length < bound) :
    p (placed (ts ++ (close ++ t :: rest))) = .ok (x, placed (close ++ t :: rest)) := by
  rcases ht with rfl | ⟨rfl, ht⟩
  · exact h .semicolon (t :: rest) (by decide) (by simp at *; omega)
  · have hstops : Stops 6 t := by rcases ht with rfl | rfl <;> decide
    exact h t rest hstops (by simpa using hbound)

theorem advance_placed_end (t' : Token) (ts : List Token) :
    advance (placed (t' :: (ts ++ (close ++ t :: rest)))) = placed (ts ++ (close ++ t :: rest)) := by
  rw [← List.append_assoc, advance_placed_append]

theorem skipSemicolon_end (ht : Ends close t) :
    skipSemicolon (placed (close ++ t :: rest)) = placed (t :: rest) := by
  rcases ht with rfl | ⟨rfl, rfl | rfl⟩ <;> rfl

theorem target?_print (h : e.Proper) (ht : t ≠ .assign) :
    target? (placed (e.print ++ t :: rest)) = none := by
  cases htarget : target? (placed (e.print ++ t :: rest)) with
  | none => rfl
  | some name =>
    obtain ⟨-, hassign⟩ := target?_eq_some.mp htarget
    have hmem := h.assign_not_mem
    obtain ⟨t', ts, hts, -⟩ := h.exists_cons
    rw [hts] at hassign hmem
    cases ts with
    | nil => exact (ht hassign).elim
    | cons t'' ts =>
      have hassign : t'' = .assign := hassign
      simp [hassign] at hmem

theorem exists_end_cons (rest : List Token) (ht : Ends close t) :
    ∃ t' rest', close ++ t :: rest = t' :: rest' ∧ t' ≠ .assign := by
  rcases ht with rfl | ⟨rfl, rfl | rfl⟩
  · exact ⟨_, _, rfl, nofun⟩
  · exact ⟨_, _, rfl, nofun⟩
  · exact ⟨_, _, rfl, nofun⟩

theorem reads_bare (name : String) :
    Reads bound (Ends close) (stmt bound depth) (.declare :: .ident name :: close)
      (some (.declare name none)) := by
  intro t rest ht _
  obtain ⟨branch, hstmt⟩ := stmt_eq bound depth
  have hend : skipSemicolon (placed (close ++ t :: rest)) = placed (t :: rest) := skipSemicolon_end ht
  obtain ⟨t', rest', hcons, hassign⟩ := exists_end_cons rest ht
  rw [hstmt, List.cons_append, List.cons_append]
  rw [hcons] at hend ⊢
  simp [stmtWith, declaration, ident, ok_bind, hassign, hend]
  rfl

variable (hreads : Reads bound (Stops 6) (expr bound depth) e.print e)

include hreads

theorem reads_declare (name : String) :
    Reads bound (Ends close) (stmt bound depth) (.declare :: .ident name :: .assign :: (e.print ++ close))
      (some (.declare name (some e))) := by
  intro t rest ht hbound
  simp only [List.length_append, List.length_cons] at hbound
  obtain ⟨branch, hstmt⟩ := stmt_eq bound depth
  have hexpr := hreads.before_end rest ht (by omega)
  have hend : skipSemicolon (placed (close ++ t :: rest)) = placed (t :: rest) := skipSemicolon_end ht
  simp only [hstmt, List.cons_append, List.append_assoc, stmtWith, declaration, ident, token_peek_placed,
    advance_placed, ok_bind, if_true, advance_placed_end, hexpr, hend]
  rfl

theorem reads_assign (name : String) :
    Reads bound (Ends close) (stmt bound depth) (.ident name :: .assign :: (e.print ++ close))
      (some (.assign name e)) := by
  intro t rest ht hbound
  simp only [List.length_append, List.length_cons] at hbound
  obtain ⟨branch, hstmt⟩ := stmt_eq bound depth
  have hexpr := hreads.before_end rest ht (by omega)
  have hend : skipSemicolon (placed (close ++ t :: rest)) = placed (t :: rest) := skipSemicolon_end ht
  simp only [hstmt, List.cons_append, List.append_assoc, stmtWith, target?, token_peek_placed,
    advance_placed, ok_bind, if_true, advance_placed_end, hexpr, hend]
  rfl

theorem reads_expr_stmt (h : e.Proper) :
    Reads bound (Ends close) (stmt bound depth) (e.print ++ close) (some (.expr e)) := by
  intro t rest ht hbound
  rw [List.length_append] at hbound
  obtain ⟨branch, hstmt⟩ := stmt_eq bound depth
  have hexpr := hreads.before_end rest ht hbound
  have hend : skipSemicolon (placed (close ++ t :: rest)) = placed (t :: rest) := skipSemicolon_end ht
  have htarget : target? (placed (e.print ++ (close ++ t :: rest))) = none := by
    obtain ⟨t', rest', hcons, hassign⟩ := exists_end_cons rest ht
    rw [hcons]
    exact target?_print h hassign
  obtain ⟨t', ts, hcons, hopens⟩ := h.exists_cons
  have hpeek : (peek (placed (e.print ++ (close ++ t :: rest)))).token = t' := by rw [hcons]; rfl
  rw [hstmt, List.append_assoc]
  unfold stmtWith
  rw [hpeek, htarget]
  split
  next => cases hopens
  next => cases hopens
  next => cases hopens
  next => simp only [hexpr, ok_bind, hend]; rfl

end

section

variable {branch : Parser (List Stmt)} {ts₁ ts₂ : List Token} {thens elses : List Stmt} {condition : Expr}
  (hcondition : Reads bound (Stops 6) (expr bound depth) ts condition)
  (hthens : Reads bound (fun _ => True) branch ts₁ thens)

include hcondition hthens

theorem reads_short_branch :
    Reads bound (· ≠ .elseWord) (stmtWith (expr bound depth) branch)
      (.ifWord :: .leftParen :: (ts ++ .rightParen :: ts₁)) (some (.branch condition thens [])) := by
  intro t rest ht hbound
  simp only [List.length_append, List.length_cons] at hbound
  have hc := hcondition .rightParen (ts₁ ++ t :: rest) (by decide) (by simp; omega)
  have hb := hthens t rest trivial (by omega)
  simp only [List.cons_append, List.append_assoc, stmtWith, conditional, expect, token_peek_placed,
    advance_placed, advance_placed_append, ok_bind, if_true, hc, hb, eq_false ht, if_false]
  rfl

theorem reads_branch (helses : Reads bound (fun _ => True) branch ts₂ elses) :
    Reads bound (fun _ => True) (stmtWith (expr bound depth) branch)
      (.ifWord :: .leftParen :: (ts ++ .rightParen :: (ts₁ ++ .elseWord :: ts₂)))
      (some (.branch condition thens elses)) := by
  intro t rest _ hbound
  simp only [List.length_append, List.length_cons] at hbound
  have hc := hcondition .rightParen (ts₁ ++ .elseWord :: (ts₂ ++ t :: rest)) (by decide) (by simp; omega)
  have hb := hthens .elseWord (ts₂ ++ t :: rest) trivial (by simp; omega)
  have hb' := helses t rest trivial (by omega)
  simp only [List.cons_append, List.append_assoc, stmtWith, conditional, expect, token_peek_placed,
    advance_placed, advance_placed_append, ok_bind, if_true, hc, hb, hb']
  rfl

end

section

variable {p : Parser (Option Stmt)} {s : Stmt} {t t' : Token} {rest : List Token} {read : List Stmt}
  {turns : Nat}

theorem block_step (h : Reads bound stop p (t :: ts) (some s)) (ht : t.begins) (ht' : stop t')
    (hbound : ts.length + 1 + rest.length < bound) :
    block p (turns + 1) read (placed (t :: ts ++ t' :: rest)) =
      block p turns (s :: read) (placed (t' :: rest)) := by
  have hbrace : t ≠ .rightBrace := by rintro rfl; cases ht
  have heof : t ≠ .eof := by rintro rfl; cases ht
  have hs := h t' rest ht' hbound
  rw [List.cons_append] at hs ⊢
  simp only [block, token_peek_placed, if_neg hbrace, if_neg heof, hs]
  rfl

theorem block_close : block p (turns + 1) read (placed (.rightBrace :: t :: rest)) =
    .ok (read.reverse, placed (t :: rest)) := rfl

theorem stmts_step (h : Reads bound stop p (t :: ts) (some s)) (ht : t.begins) (ht' : stop t')
    (hbound : ts.length + 1 + rest.length < bound) :
    stmts p (turns + 1) read (placed (t :: ts ++ t' :: rest)) =
      stmts p turns (s :: read) (placed (t' :: rest)) := by
  have heof : t ≠ .eof := by rintro rfl; cases ht
  have hs := h t' rest ht' hbound
  rw [List.cons_append] at hs ⊢
  simp only [stmts, token_peek_placed, if_neg heof, hs]
  rfl

theorem stmts_eof : stmts p (turns + 1) read (placed (.eof :: rest)) = .ok read.reverse := rfl

end

section

variable {short : Bool} {p : Parser (Option Stmt)} {ss : List Stmt} {t : Token}

/-- Behind a printed statement there is no second branch. -/
theorem exists_printAll_cons (short : Bool) (hproper : ∀ s ∈ ss, s.Proper) (ht : t ≠ .elseWord)
    (rest : List Token) :
    ∃ t' rest', Stmt.printAll short ss ++ t :: rest = t' :: rest' ∧ t' ≠ .elseWord := by
  cases ss with
  | nil => exact ⟨t, rest, rfl, ht⟩
  | cons s ss =>
    obtain ⟨t', ts, hts, ht'⟩ := (hproper s (by simp)).exists_cons short
    refine ⟨t', ts ++ (Stmt.printAll short ss ++ t :: rest), by simp [Stmt.printAll, hts], ?_⟩
    rintro rfl
    cases ht'

/-- A loop that takes one statement in a turn is done with all of them before what is behind. -/
theorem loop_printAll {loop : Nat → List Stmt → List Lexeme → Except ParseError τ}
    (hloop : ∀ {t t' : Token} {ts rest : List Token} {s : Stmt} (turns : Nat) (read : List Stmt),
      Reads bound (· ≠ .elseWord) p (t :: ts) (some s) → t.begins → t' ≠ .elseWord →
      ts.length + 1 + rest.length < bound →
      loop (turns + 1) read (placed (t :: ts ++ t' :: rest)) =
        loop turns (s :: read) (placed (t' :: rest)))
    (hproper : ∀ s ∈ ss, s.Proper)
    (h : ∀ s ∈ ss, Reads bound (· ≠ .elseWord) p (s.print short) (some s)) (ht : t ≠ .elseWord)
    (turns : Nat) (read : List Stmt) (rest : List Token) (hturns : (Stmt.printAll short ss).length < turns)
    (hbound : (Stmt.printAll short ss).length + rest.length < bound) :
    ∃ left, loop turns read (placed (Stmt.printAll short ss ++ t :: rest)) =
      loop (left + 1) (ss.reverse ++ read) (placed (t :: rest)) := by
  induction ss generalizing turns read with
  | nil => exact ⟨turns - 1, by rw [Nat.sub_add_cancel (Nat.one_le_of_lt hturns)]; rfl⟩
  | cons s ss ih =>
    obtain ⟨turns, rfl⟩ : ∃ n, turns = n + 1 := ⟨turns - 1, by omega⟩
    have hproper' : ∀ s ∈ ss, s.Proper := fun s hs => hproper s (List.mem_cons_of_mem _ hs)
    have hs := h s (by simp)
    obtain ⟨t₁, ts, hts, ht₁⟩ := (hproper s (by simp)).exists_cons short
    obtain ⟨t₂, rest', hcons, hne⟩ := exists_printAll_cons short hproper' ht rest
    have hlength := congrArg List.length hcons
    rw [Stmt.printAll, hts] at hturns hbound
    rw [hts] at hs
    simp only [List.length_append, List.length_cons] at hturns hbound hlength
    obtain ⟨left, hleft⟩ := ih hproper' (fun s hs => h s (List.mem_cons_of_mem _ hs)) turns (s :: read)
      (by omega) (by omega)
    refine ⟨left, ?_⟩
    rw [Stmt.printAll, hts, List.append_assoc, hcons, hloop turns read hs ht₁ hne (by omega), ← hcons, hleft]
    simp

theorem reads_block (hproper : ∀ s ∈ ss, s.Proper)
    (h : ∀ s ∈ ss, Reads bound (· ≠ .elseWord) p (s.print short) (some s)) :
    Reads bound (fun _ => True) (branchWith bound p)
      (.leftBrace :: (Stmt.printAll short ss ++ [.rightBrace])) ss := by
  intro t rest _ hbound
  simp only [List.length_append, List.length_cons, List.length_nil] at hbound
  obtain ⟨left, hblock⟩ := loop_printAll (fun turns read => block_step) hproper h
    (t := .rightBrace) (by decide) bound [] (t :: rest) (by omega) (by simp; omega)
  simp only [List.cons_append, List.append_assoc, List.nil_append, branchWith, token_peek_placed, if_true,
    advance_placed_append, hblock, block_close, List.append_nil, List.reverse_reverse]

theorem nesting_le_of_mem {s : Stmt} (h : s ∈ ss) : s.nesting ≤ Stmt.nestingAll ss := by
  induction ss with
  | nil => cases h
  | cons s' ss ih =>
    rw [Stmt.nestingAll]
    rcases List.mem_cons.mp h with rfl | h
    · exact Nat.le_max_left _ _
    · exact Nat.le_trans (ih h) (Nat.le_max_right _ _)

/-- The parser of statements takes the tokens of a statement for it. -/
theorem reads_of_proper {s : Stmt} (h : s.Proper) {depth : Nat} (hdepth : s.nesting ≤ depth) :
    Reads bound (· ≠ .elseWord) (stmt bound depth) (s.print short) (some s) := by
  induction h generalizing depth with
  | @declare name value hvalue =>
    have hclose : ∀ t, t ≠ .elseWord → Ends [.semicolon] t := fun _ _ => .inl rfl
    cases value with
    | none => exact (reads_bare name).mono hclose
    | some e =>
      rw [Stmt.nesting] at hdepth
      exact (reads_declare ((readable_of_proper (hvalue e rfl)).reads_expr hdepth) name).mono hclose
  | @assign name e he =>
    rw [Stmt.nesting] at hdepth
    exact (reads_assign ((readable_of_proper he).reads_expr hdepth) name).mono fun _ _ => .inl rfl
  | @expr e he =>
    rw [Stmt.nesting] at hdepth
    exact (reads_expr_stmt ((readable_of_proper he).reads_expr hdepth) he).mono fun _ _ => .inl rfl
  | @branch condition thens elses hcondition hthens helses ihthens ihelses =>
    rw [Stmt.nesting] at hdepth
    obtain ⟨depth, rfl⟩ : ∃ n, depth = n + 1 := ⟨depth - 1, by omega⟩
    have hc : Reads bound (Stops 6) (expr bound (depth + 1)) condition.print condition :=
      (readable_of_proper hcondition).reads_expr (by omega)
    have hb : Reads bound (fun _ => True) (branchWith bound (stmt bound depth)) _ thens :=
      reads_block hthens fun s hs => ihthens s hs
        (Nat.le_trans (nesting_le_of_mem hs) (by omega))
    have hb' : Reads bound (fun _ => True) (branchWith bound (stmt bound depth)) _ elses :=
      reads_block helses fun s hs => ihelses s hs
        (Nat.le_trans (nesting_le_of_mem hs) (by omega))
    rw [Stmt.print]
    split
    next hshort =>
      obtain ⟨-, rfl⟩ : short = true ∧ elses = [] := by simpa using hshort
      exact reads_short_branch hc hb
    next =>
      have hbranch := reads_branch hc hb hb'
      simp only [List.cons_append, List.append_assoc, List.nil_append] at hbranch
      exact hbranch.mono fun _ _ => trivial

end

end Parser

/-- Parsing undoes printing. -/
theorem parse_print {program : List Stmt} (hproper : ∀ s ∈ program, s.Proper)
    (hdepth : ∀ s ∈ program, s.nesting ≤ maxDepth) (short : Bool) {ls : List Lexeme}
    (hls : tokens ls = Stmt.printAll short program ++ [.eof]) : parseLexemes ls = .ok program := by
  have hclosed : (tokens ls).getLast? = some .eof := by simp [hls]
  rw [← toOption_eq_some, toOption_parseLexemes hclosed, hls, parseTokens, toOption_eq_some, parseLexemes]
  have hlength : (placed (Stmt.printAll short program ++ [.eof])).length =
      (Stmt.printAll short program).length + 1 := by simp [placed]
  generalize (placed (Stmt.printAll short program ++ [.eof])).length = bound at hlength ⊢
  have hreads : ∀ s ∈ program,
      Parser.Reads bound (· ≠ .elseWord) (Parser.stmt bound maxDepth) (s.print short) (some s) :=
    fun s hs => Parser.reads_of_proper (hproper s hs) (hdepth s hs)
  obtain ⟨left, hleft⟩ := Parser.loop_printAll (fun turns read => Parser.stmts_step) hproper hreads
    (t := .eof) (by decide) bound [] [] (by omega) (by simp; omega)
  rw [hleft, Parser.stmts_eof]
  simp

def sampleProgram : List Stmt :=
  [.branch
      (.binary .le (.binary .sub (.ident "a") (.binary .sub (.number (-1.0)) (.ident "b")))
        (.unary .not (.member (.unary .neg (.ident "c")) "d")))
      [.assign "x" (.call (.ident "f") [.text "s", .array []])] [],
    .expr (.index (.binary .or (.ident "a") (.ident "b"))
      (.binary .sub (.binary .sub (.ident "a") (.ident "b")) (.ident "c")))]

def sampleTokens : List Token :=
  [.ifWord, .leftParen, .ident "a", .minus, .leftParen, .minus, .number 1.0, .minus, .ident "b", .rightParen,
    .lessEqual, .bang, .leftParen, .minus, .ident "c", .rightParen, .dot, .ident "d", .rightParen,
    .leftBrace, .ident "x", .assign, .ident "f", .leftParen, .text "s", .comma, .leftBracket,
    .rightBracket, .rightParen, .semicolon, .rightBrace,
    .leftParen, .ident "a", .orOr, .ident "b", .rightParen, .leftBracket,
    .ident "a", .minus, .ident "b", .minus, .ident "c", .rightBracket, .semicolon, .eof]

theorem isNegative_neg_one : isNegative (-1.0) = true := by decide +kernel

theorem printAll_sampleProgram : Stmt.printAll true sampleProgram ++ [.eof] = sampleTokens := by
  simp [sampleProgram, sampleTokens, Stmt.printAll, Stmt.print, Expr.print, Expr.printAll, Expr.group,
    Expr.looseness, isNegative_neg_one, BinaryOp.level, BinaryOp.token, UnaryOp.token, Precision.neg_neg]

theorem proper_sampleProgram : ∀ s ∈ sampleProgram, s.Proper := by
  have hleft : (Expr.binary .sub (.ident "a") (.binary .sub (.number (-1.0)) (.ident "b"))).Proper :=
    .binary _ (.ident "a") (.binary _ (.number _) (.ident "b"))
  have hright : (Expr.unary .not (.member (.unary .neg (.ident "c")) "d")).Proper :=
    .not (.member "d" (.neg (.ident "c") nofun))
  have hcall : (Expr.call (.ident "f") [.text "s", .array []]).Proper := by
    refine .call (.ident "f") fun e he => ?_
    obtain rfl | rfl : e = .text "s" ∨ e = .array [] := by simpa using he
    · exact .text "s"
    · exact .array nofun
  intro s hs
  obtain rfl | rfl : s = .branch _ _ _ ∨ s = .expr _ := by simpa [sampleProgram] using hs
  · refine .branch (.binary _ hleft hright) (fun s hs => ?_) nofun
    obtain rfl := List.mem_singleton.mp hs
    exact .assign "x" hcall
  · exact .expr (.index (.binary _ (.ident "a") (.ident "b"))
      (.binary _ (.binary _ (.ident "a") (.ident "b")) (.ident "c")))

theorem nesting_sampleProgram : ∀ s ∈ sampleProgram, s.nesting ≤ maxDepth := by
  simp [sampleProgram, Stmt.nesting, Stmt.nestingAll, Expr.nesting, Expr.nestingAll, Expr.groupNesting,
    Expr.looseness, isNegative_neg_one, BinaryOp.level, maxDepth]

theorem parse_print_sampleProgram : parseLexemes (placed sampleTokens) = .ok sampleProgram :=
  parse_print proper_sampleProgram nesting_sampleProgram true
    ((tokens_placed sampleTokens).trans printAll_sampleProgram.symm)

end IconMotion.Expression
