import IconMotion.Proofs.Heights
import IconMotion.Proofs.Instances

namespace IconMotion.Expression

/-- Lexemes as the lexer makes them: they are closed by the end of the source, and no number has a sign. -/
structure Lexed (ls : List Lexeme) : Prop where
  closed : (tokens ls).getLast? = some .eof
  unsigned : ∀ l ∈ ls, ∀ x, l.token = .number x → isNegative x = false

variable {ls : List Lexeme}

theorem isNegative_of_spells {text : List Char} {x : Float} (h : Spells text (.number x)) :
    isNegative x = false := by
  obtain ⟨l, hl, rfl⟩ := h.exists_literal
  exact isNegative_value ⟨text, l, hl⟩

theorem lexed_of_lex {source : String} (h : lex source = .ok ls) : Lexed ls := by
  refine ⟨getLast?_tokens h, fun l hl x hx => ?_⟩
  obtain ⟨more, stop, rfl, hmore⟩ := exists_lexemes_of_lex h
  rcases List.mem_append.mp hl with hl | hl
  · exact isNegative_of_spells (hx ▸ hmore l hl)
  · obtain rfl := List.mem_singleton.mp hl
    cases hx

namespace Lexed

theorem advance (h : Lexed ls) (hpeek : (peek ls).token ≠ .eof) :
    Lexed (advance ls) ∧ (Expression.advance ls).length + 1 = ls.length := by
  obtain ⟨hclosed, hunsigned⟩ := h
  match ls with
  | [] => cases hclosed
  | [l] => exact (hpeek (Option.some.inj hclosed)).elim
  | l :: l' :: ls =>
    refine ⟨⟨?_, fun l'' hl'' => hunsigned l'' (List.mem_cons_of_mem l hl'')⟩, rfl⟩
    simpa [tokens, Expression.advance] using hclosed

theorem peek_mem (h : Lexed ls) : peek ls ∈ ls := by
  cases ls with
  | nil => cases h.closed
  | cons l ls => exact List.mem_cons_self

end Lexed

namespace Parser

variable {τ σ : Type}

/-- What the parser gives has a property, which may depend on how many lexemes there are before and behind
it. -/
def Gives (p : Parser τ) (Q : τ → Nat → Nat → Prop) : Prop :=
  ∀ ⦃ls x rest⦄, Lexed ls → p ls = .ok (x, rest) → Lexed rest ∧ Q x ls.length rest.length

theorem gives_refuse (cause : Token → ParseCause) (Q : τ → Nat → Nat → Prop) :
    Gives (refuse cause) Q := nofun

theorem gives_expect (t : Token) (ht : t ≠ .eof) :
    Gives (expect t) fun _ before behind => behind + 1 = before := by
  intro ls x rest hls h
  unfold expect at h
  split at h
  next hpeek =>
    cases h
    exact hls.advance (hpeek ▸ ht)
  next => cases h

theorem gives_ident : Gives ident fun _ before behind => behind + 1 = before := by
  intro ls x rest hls h
  unfold ident at h
  split at h
  next name hpeek =>
    cases h
    exact hls.advance (by simp [hpeek])
  next => cases h

structure Nested (depth : Nat) (e : Expr) (before behind : Nat) : Prop where
  nesting : e.nesting < depth
  height : e.height + behind < before

structure NestedAll (depth : Nat) (es : List Expr) (before behind : Nat) : Prop where
  nesting : Expr.nestingAll es ≤ depth
  height : Expr.heightAll es + behind ≤ before

structure Fits (k depth : Nat) (e : Expr) (before behind : Nat) : Prop where
  nesting : e.groupNesting k e.nesting ≤ depth
  height : e.height + behind < before

section

variable {inner operand : Parser Expr} {bound depth k : Nat}

theorem gives_items (close : Token) (hclose : close ≠ .eof) (hinner : Gives inner (Nested depth))
    (read : List Expr) : Gives (items inner close bound read) fun es before behind =>
      ∃ more, es = read.reverse ++ more ∧ NestedAll depth more before behind := by
  induction bound generalizing read with
  | zero => exact gives_refuse _ _
  | succ bound ih =>
    intro ls es rest hls h
    obtain ⟨⟨e, ls'⟩, he, h⟩ := bind_eq_ok.mp h
    obtain ⟨hls', hnesting, hheight⟩ := hinner hls he
    dsimp only at h
    split at h
    next hpeek =>
      obtain ⟨hls'', hlength⟩ := hls'.advance (by simp [hpeek])
      obtain ⟨hrest, more, rfl, hmore⟩ := ih (e :: read) hls'' h
      refine ⟨hrest, e :: more, by simp, ?_, ?_⟩
      · rw [Expr.nestingAll]
        exact Nat.max_le.mpr ⟨hnesting, hmore.nesting⟩
      · have hmore := hmore.height
        rw [Expr.heightAll]
        omega
    next =>
      obtain ⟨⟨_, ls''⟩, hexpect, h⟩ := bind_eq_ok.mp h
      obtain ⟨hrest, hlength⟩ := gives_expect close hclose hls' hexpect
      cases h
      refine ⟨hrest, [e], by simp, ?_, ?_⟩
      · simpa [Expr.nestingAll] using hnesting
      · simp only [Expr.heightAll]
        omega

theorem gives_list (close : Token) (hclose : close ≠ .eof) (hinner : Gives inner (Nested depth)) :
    Gives (list bound inner close) (NestedAll depth) := by
  intro ls es rest hls h
  unfold list at h
  split at h
  next hpeek =>
    cases h
    obtain ⟨hrest, hlength⟩ := hls.advance (hpeek ▸ hclose)
    exact ⟨hrest, Nat.zero_le _, by simp only [Expr.heightAll]; omega⟩
  next =>
    obtain ⟨hrest, more, rfl, hmore⟩ := gives_items close hclose hinner [] hls h
    exact ⟨hrest, hmore⟩

theorem gives_primary (hinner : Gives inner (Nested depth)) :
    Gives (primary bound inner) (Fits 0 depth) := by
  intro ls e rest hls h
  -- A leaf is one lexeme, and nests nothing.
  have hleaf {e : Expr} (hpeek : (peek ls).token ≠ .eof) (hnesting : e.groupNesting 0 e.nesting = 0)
      (hheight : e.height = 0) :
      Lexed (advance ls) ∧ Fits 0 depth e ls.length (advance ls).length := by
    obtain ⟨hrest, hlength⟩ := hls.advance hpeek
    exact ⟨hrest, by omega, by omega⟩
  unfold primary at h
  split at h
  next x hpeek =>
    cases h
    have hx : ¬ isNegative x := by simp [hls.unsigned _ hls.peek_mem x hpeek]
    refine hleaf (by simp [hpeek]) ?_ rfl
    simp [Expr.groupNesting, Expr.looseness, Expr.nesting, hx]
  next s hpeek =>
    cases h
    exact hleaf (by simp [hpeek]) rfl rfl
  next hpeek =>
    cases h
    exact hleaf (by simp [hpeek]) rfl rfl
  next hpeek =>
    cases h
    exact hleaf (by simp [hpeek]) rfl rfl
  next name hpeek =>
    cases h
    exact hleaf (by simp [hpeek]) rfl rfl
  next hpeek =>
    obtain ⟨hopen, hlength⟩ := hls.advance (by simp [hpeek])
    obtain ⟨⟨e, ls'⟩, he, h⟩ := bind_eq_ok.mp h
    obtain ⟨hls', hnesting, hheight⟩ := hinner hopen he
    obtain ⟨⟨_, ls''⟩, hexpect, h⟩ := bind_eq_ok.mp h
    obtain ⟨hrest, hlength'⟩ := gives_expect .rightParen (by decide) hls' hexpect
    cases h
    refine ⟨hrest, ?_, by omega⟩
    unfold Expr.groupNesting
    split
    · exact Nat.le_of_lt hnesting
    · exact hnesting
  next hpeek =>
    obtain ⟨hopen, hlength⟩ := hls.advance (by simp [hpeek])
    obtain ⟨⟨es, ls'⟩, hes, h⟩ := bind_eq_ok.mp h
    obtain ⟨hrest, hnesting, hheight⟩ := gives_list .rightBracket (by decide) hinner hopen hes
    cases h
    exact ⟨hrest, hnesting, by rw [Expr.height]; omega⟩
  next => cases h

theorem gives_trailers (hinner : Gives inner (Nested depth)) {turns : Nat} {e : Expr} {start : Nat}
    {ls rest : List Lexeme} {e' : Expr} (hls : Lexed ls) (he : Fits 0 depth e start ls.length)
    (h : trailers bound inner turns e ls = .ok (e', rest)) :
    Lexed rest ∧ Fits 0 depth e' start rest.length := by
  induction turns generalizing e ls with
  | zero =>
    cases h
    exact ⟨hls, he⟩
  | succ turns ih =>
    obtain ⟨hnesting, hheight⟩ := he
    unfold trailers at h
    split at h
    next hpeek =>
      obtain ⟨hdot, hlength⟩ := hls.advance (by simp [hpeek])
      obtain ⟨⟨name, ls'⟩, hident, h⟩ := bind_eq_ok.mp h
      obtain ⟨hls', hlength'⟩ := gives_ident hdot hident
      refine ih (e := .member e name) hls' ⟨hnesting, ?_⟩ h
      rw [Expr.height]
      omega
    next hpeek =>
      obtain ⟨hopen, hlength⟩ := hls.advance (by simp [hpeek])
      obtain ⟨⟨args, ls'⟩, hargs, h⟩ := bind_eq_ok.mp h
      obtain ⟨hls', hnesting', hheight'⟩ := gives_list .rightParen (by decide) hinner hopen hargs
      refine ih (e := .call e args) hls' ⟨Nat.max_le.mpr ⟨hnesting, hnesting'⟩, ?_⟩ h
      rw [Expr.height]
      omega
    next hpeek =>
      obtain ⟨hopen, hlength⟩ := hls.advance (by simp [hpeek])
      obtain ⟨⟨i, ls'⟩, hi, h⟩ := bind_eq_ok.mp h
      obtain ⟨hls', hnesting', hheight'⟩ := hinner hopen hi
      obtain ⟨⟨_, ls''⟩, hexpect, h⟩ := bind_eq_ok.mp h
      obtain ⟨hls'', hlength'⟩ := gives_expect .rightBracket (by decide) hls' hexpect
      refine ih (e := .index e i) hls'' ⟨Nat.max_le.mpr ⟨hnesting, hnesting'⟩, ?_⟩ h
      rw [Expr.height]
      omega
    next =>
      cases h
      exact ⟨hls, hnesting, hheight⟩

theorem Fits.mono {k' before behind : Nat} {e : Expr} (h : Fits k depth e before behind) (hk : k ≤ k') :
    Fits k' depth e before behind := by
  refine ⟨Nat.le_trans ?_ h.nesting, h.height⟩
  unfold Expr.groupNesting
  split_ifs <;> omega

/-- A minus takes a level of nesting, also where it becomes part of a number. -/
theorem Fits.negate {before behind : Nat} {e : Expr} (h : Fits 1 depth e before behind) :
    Fits 1 (depth + 1) (negate e) (before + 1) behind := by
  obtain ⟨hnesting, hheight⟩ := h
  unfold Parser.negate
  split
  next x =>
    refine ⟨?_, Nat.lt_succ_of_lt hheight⟩
    simp only [Expr.groupNesting, Expr.looseness, Expr.nesting]
    split_ifs <;> omega
  next => exact ⟨Nat.succ_le_succ hnesting, by rw [Expr.height]; omega⟩

theorem gives_unaryWith (hinner : Gives inner (Nested depth))
    (hoperand : Gives operand fun e before behind => ∃ n, depth = n + 1 ∧ Fits 1 n e before behind) :
    Gives (unaryWith bound inner operand) (Fits 1 depth) := by
  intro ls e rest hls h
  unfold unaryWith at h
  split at h
  next hpeek =>
    obtain ⟨hminus, hlength⟩ := hls.advance (by simp [hpeek])
    obtain ⟨⟨e, ls'⟩, he, h⟩ := bind_eq_ok.mp h
    obtain ⟨hrest, n, rfl, hfits⟩ := hoperand hminus he
    cases h
    rw [← hlength]
    exact ⟨hrest, hfits.negate⟩
  next hpeek =>
    obtain ⟨hbang, hlength⟩ := hls.advance (by simp [hpeek])
    obtain ⟨⟨e, ls'⟩, he, h⟩ := bind_eq_ok.mp h
    obtain ⟨hrest, n, rfl, hnesting, hheight⟩ := hoperand hbang he
    cases h
    exact ⟨hrest, Nat.succ_le_succ hnesting, by rw [Expr.height]; omega⟩
  next =>
    obtain ⟨⟨e, ls'⟩, he, h⟩ := bind_eq_ok.mp h
    obtain ⟨hls', hfits⟩ := gives_primary hinner hls he
    obtain ⟨hrest, hfits'⟩ := gives_trailers hinner hls' hfits h
    exact ⟨hrest, hfits'.mono (Nat.zero_le 1)⟩

def IsLevel (op? : Token → Option BinaryOp) (k : Nat) : Prop :=
  op? .eof = none ∧ ∀ t op, op? t = some op → op.level = k

theorem gives_rights {op? : Token → Option BinaryOp} (hop : IsLevel op? k)
    (hoperand : Gives operand (Fits (k + 1) depth)) {turns : Nat} {left : Expr} {start : Nat}
    {ls rest : List Lexeme} {e : Expr} (hls : Lexed ls) (hleft : Fits (k + 2) depth left start ls.length)
    (h : rights op? operand turns left ls = .ok (e, rest)) :
    Lexed rest ∧ Fits (k + 2) depth e start rest.length := by
  induction turns generalizing left ls with
  | zero =>
    cases h
    exact ⟨hls, hleft⟩
  | succ turns ih =>
    unfold rights at h
    split at h
    next =>
      cases h
      exact ⟨hls, hleft⟩
    next op hpeek =>
      obtain ⟨hopen, hlength⟩ := hls.advance (by intro heof; rw [heof, hop.1] at hpeek; cases hpeek)
      obtain ⟨⟨right, ls'⟩, hright, h⟩ := bind_eq_ok.mp h
      obtain ⟨hls', hnesting', hheight'⟩ := hoperand hopen hright
      obtain ⟨hnesting, hheight⟩ := hleft
      have hlevel : op.level = k := hop.2 _ op hpeek
      refine ih hls' ⟨?_, by rw [Expr.height]; omega⟩ h
      rw [Expr.groupNesting, Expr.looseness, hlevel, if_pos (Nat.le_refl _), Expr.nesting, hlevel]
      exact Nat.max_le.mpr ⟨hnesting, hnesting'⟩

theorem gives_chain {op? : Token → Option BinaryOp} (hop : IsLevel op? k)
    (hoperand : Gives operand (Fits (k + 1) depth)) :
    Gives (chain bound op? operand) (Fits (k + 2) depth) := by
  intro ls e rest hls h
  obtain ⟨⟨left, ls'⟩, hleft, h⟩ := bind_eq_ok.mp h
  obtain ⟨hls', hfits⟩ := hoperand hls hleft
  exact gives_rights hop hoperand hls' (hfits.mono (Nat.le_succ _)) h

theorem isLevel_of_getElem? {op? : Token → Option BinaryOp} (h : BinaryOp.levels[k]? = some op?) :
    IsLevel op? k := by
  rcases k with - | - | - | - | - | - | k
  all_goals cases h
  all_goals
    refine ⟨rfl, fun t op hop => ?_⟩
    cases t <;> cases hop <;> rfl

theorem gives_operand (hunary : Gives (unary bound depth) (Fits 1 depth)) (hk : k ≤ 6) :
    Gives (Parser.operand bound depth k) (Fits (k + 1) depth) := by
  induction k with
  | zero => exact hunary
  | succ k ih =>
    have hlevel := List.getElem?_eq_getElem (show k < BinaryOp.levels.length from hk)
    rw [operand_succ hlevel]
    exact gives_chain (isLevel_of_getElem? hlevel) (ih (by omega))

theorem gives_binaries (hunary : Gives (unary bound depth) (Fits 1 depth)) :
    Gives (binaries bound (unary bound depth)) (Nested (depth + 1)) := by
  intro ls e rest hls h
  obtain ⟨hrest, hnesting, hheight⟩ := gives_operand hunary (Nat.le_refl 6) hls h
  exact ⟨hrest, Nat.lt_succ_of_le (Nat.le_trans (Expr.le_groupNesting _ _ _) hnesting), hheight⟩

theorem gives_unary (bound depth : Nat) : Gives (unary bound depth) (Fits 1 depth) := by
  induction depth with
  | zero => exact gives_unaryWith (gives_refuse _ _) (gives_refuse _ _)
  | succ depth ih =>
    refine gives_unaryWith (gives_binaries ih) fun ls e rest hls h => ?_
    obtain ⟨hrest, hfits⟩ := ih hls h
    exact ⟨hrest, depth, rfl, hfits⟩

theorem gives_expr (bound depth : Nat) : Gives (expr bound depth) (Nested depth) := by
  cases depth with
  | zero => exact gives_refuse (fun _ => .tooDeep) _
  | succ depth => exact gives_binaries (gives_unary bound depth)

end

structure FitsAll (depth : Nat) (ss : List Stmt) (before behind : Nat) : Prop where
  nesting : Stmt.nestingAll ss ≤ depth
  height : Stmt.heightAll ss + behind ≤ before + 1
  progress : behind < before

theorem FitsAll.none {depth before behind : Nat} (h : behind < before) : FitsAll depth [] before behind :=
  ⟨Nat.zero_le _, by rw [Stmt.heightAll]; omega, h⟩

theorem FitsAll.single {s : Stmt} {depth before behind : Nat} (hnesting : s.nesting ≤ depth)
    (hheight : s.height + behind ≤ before) (h : behind < before) : FitsAll depth [s] before behind := by
  refine ⟨?_, ?_, h⟩
  · simpa [Stmt.nestingAll] using hnesting
  · simp only [Stmt.heightAll]
    omega

theorem FitsAll.later {ss : List Stmt} {depth before before' behind : Nat}
    (h : FitsAll depth ss before behind) (hbefore : before ≤ before') :
    FitsAll depth ss before' behind :=
  ⟨h.nesting, Nat.le_trans h.height (Nat.succ_le_succ hbefore), Nat.lt_of_lt_of_le h.progress hbefore⟩

theorem FitsAll.append {ss ss' : List Stmt} {depth before mid behind : Nat}
    (h : FitsAll depth ss before mid) (h' : FitsAll depth ss' mid behind) :
    FitsAll depth (ss ++ ss') before behind := by
  obtain ⟨hnesting, hheight, hprogress⟩ := h
  obtain ⟨hnesting', hheight', hprogress'⟩ := h'
  refine ⟨?_, ?_, Nat.lt_trans hprogress' hprogress⟩
  · clear hheight
    induction ss with
    | nil => exact hnesting'
    | cons s ss ih =>
      rw [Stmt.nestingAll] at hnesting
      rw [List.cons_append, Stmt.nestingAll]
      exact Nat.max_le.mpr ⟨by omega, ih (by omega)⟩
  · clear hnesting
    induction ss with
    | nil => simp only [List.nil_append]; omega
    | cons s ss ih =>
      rw [Stmt.heightAll] at hheight
      have hss := ih (by omega)
      rw [List.cons_append, Stmt.heightAll]
      omega

theorem lexed_skipSemicolon (hls : Lexed ls) :
    Lexed (skipSemicolon ls) ∧ (skipSemicolon ls).length ≤ ls.length := by
  unfold skipSemicolon
  split
  next hpeek =>
    obtain ⟨hrest, hlength⟩ := hls.advance (by simp [hpeek])
    exact ⟨hrest, by omega⟩
  next => exact ⟨hls, Nat.le_refl _⟩

section

variable {expr : Parser Expr} {branch : Parser (List Stmt)} {bound depth : Nat}
  (hexpr : Gives expr (Nested depth))

include hexpr

theorem gives_declaration : Gives (declaration expr) fun s => FitsAll depth [s] := by
  intro ls s rest hls h
  obtain ⟨⟨name, ls'⟩, hident, h⟩ := bind_eq_ok.mp h
  obtain ⟨hls', hlength⟩ := gives_ident hls hident
  dsimp only at h
  split at h
  next hpeek =>
    obtain ⟨hassign, hlength'⟩ := hls'.advance (by simp [hpeek])
    obtain ⟨⟨e, ls''⟩, he, h⟩ := bind_eq_ok.mp h
    obtain ⟨hls'', hnesting, hheight⟩ := hexpr hassign he
    obtain ⟨hrest, hskip⟩ := lexed_skipSemicolon hls''
    dsimp only at h
    cases h
    exact ⟨hrest, .single hnesting (by rw [Stmt.height]; omega) (by omega)⟩
  next =>
    obtain ⟨hrest, hskip⟩ := lexed_skipSemicolon hls'
    cases h
    exact ⟨hrest, .single (Nat.zero_le _) (by rw [Stmt.height]; omega) (by omega)⟩

theorem gives_conditional
    (hbranch : Gives branch fun ss before behind => ∃ n, depth = n + 1 ∧ FitsAll n ss before behind) :
    Gives (conditional expr branch) fun s => FitsAll depth [s] := by
  intro ls s rest hls h
  obtain ⟨⟨_, ls₁⟩, hopen, h⟩ := bind_eq_ok.mp h
  obtain ⟨hls₁, hlength₁⟩ := gives_expect .leftParen (by decide) hls hopen
  obtain ⟨⟨condition, ls₂⟩, hcondition, h⟩ := bind_eq_ok.mp h
  obtain ⟨hls₂, hnesting, hheight⟩ := hexpr hls₁ hcondition
  obtain ⟨⟨_, ls₃⟩, hclose, h⟩ := bind_eq_ok.mp h
  obtain ⟨hls₃, hlength₃⟩ := gives_expect .rightParen (by decide) hls₂ hclose
  obtain ⟨⟨thens, ls₄⟩, hthens, h⟩ := bind_eq_ok.mp h
  obtain ⟨hls₄, n, rfl, hfits⟩ := hbranch hls₃ hthens
  obtain ⟨hnesting', hheight', hprogress⟩ := hfits
  dsimp only at h
  split at h
  next hpeek =>
    obtain ⟨helse, hlength⟩ := hls₄.advance (by simp [hpeek])
    obtain ⟨⟨elses, ls₅⟩, helses, h⟩ := bind_eq_ok.mp h
    obtain ⟨hrest, n', hn', hfits'⟩ := hbranch helse helses
    obtain rfl : n = n' := Nat.succ.inj hn'
    obtain ⟨hnesting'', hheight'', hprogress'⟩ := hfits'
    dsimp only at h
    cases h
    refine ⟨hrest, .single ?_ ?_ (by omega)⟩
    · rw [Stmt.nesting]
      omega
    · rw [Stmt.height]
      omega
  next =>
    cases h
    refine ⟨hls₄, .single ?_ ?_ (by omega)⟩
    · rw [Stmt.nesting, Stmt.nestingAll]
      omega
    · rw [Stmt.height, Stmt.heightAll]
      omega

theorem gives_stmtWith
    (hbranch : Gives branch fun ss before behind => ∃ n, depth = n + 1 ∧ FitsAll n ss before behind) :
    Gives (stmtWith expr branch) fun s => FitsAll depth s.toList := by
  intro ls s rest hls h
  unfold stmtWith at h
  split at h
  next hpeek =>
    cases h
    obtain ⟨hrest, hlength⟩ := hls.advance (by simp [hpeek])
    exact ⟨hrest, .none (by omega)⟩
  next hpeek =>
    obtain ⟨hword, hlength⟩ := hls.advance (by simp [hpeek])
    obtain ⟨⟨s, ls'⟩, hs, h⟩ := bind_eq_ok.mp h
    obtain ⟨hrest, hfits⟩ := gives_declaration hexpr hword hs
    cases h
    exact ⟨hrest, hfits.later (by omega)⟩
  next hpeek =>
    obtain ⟨hword, hlength⟩ := hls.advance (by simp [hpeek])
    obtain ⟨⟨s, ls'⟩, hs, h⟩ := bind_eq_ok.mp h
    obtain ⟨hrest, hfits⟩ := gives_conditional hexpr hbranch hword hs
    cases h
    exact ⟨hrest, hfits.later (by omega)⟩
  next =>
    split at h
    next name htarget =>
      obtain ⟨hname, hassign⟩ := target?_eq_some.mp htarget
      obtain ⟨hls₁, hlength₁⟩ := hls.advance (by simp [hname])
      obtain ⟨hls₂, hlength₂⟩ := hls₁.advance (by simp [hassign])
      obtain ⟨⟨e, ls'⟩, he, h⟩ := bind_eq_ok.mp h
      obtain ⟨hls', hnesting, hheight⟩ := hexpr hls₂ he
      obtain ⟨hrest, hskip⟩ := lexed_skipSemicolon hls'
      cases h
      exact ⟨hrest, .single hnesting (by rw [Stmt.height]; omega) (by omega)⟩
    next =>
      obtain ⟨⟨e, ls'⟩, he, h⟩ := bind_eq_ok.mp h
      obtain ⟨hls', hnesting, hheight⟩ := hexpr hls he
      obtain ⟨hrest, hskip⟩ := lexed_skipSemicolon hls'
      cases h
      exact ⟨hrest, .single hnesting (by rw [Stmt.height]; omega) (by omega)⟩

end

section

variable {stmt : Parser (Option Stmt)} {bound depth : Nat}
  (hstmt : Gives stmt fun s => FitsAll depth s.toList)

include hstmt

theorem gives_block {turns : Nat} (read : List Stmt) :
    Gives (block stmt turns read) fun ss before behind =>
      ∃ more, ss = read.reverse ++ more ∧ FitsAll depth more before behind := by
  induction turns generalizing read with
  | zero => exact gives_refuse (fun _ => .unterminatedBlock) _
  | succ turns ih =>
    intro ls ss rest hls h
    unfold block at h
    split at h
    next hpeek =>
      cases h
      obtain ⟨hrest, hlength⟩ := hls.advance (by simp [hpeek])
      exact ⟨hrest, [], by simp, .none (by omega)⟩
    next =>
      split at h
      next => cases h
      next =>
        obtain ⟨⟨s, ls'⟩, hs, h⟩ := bind_eq_ok.mp h
        obtain ⟨hls', hfits⟩ := hstmt hls hs
        obtain ⟨hrest, more, rfl, hmore⟩ := ih (s.toList ++ read) hls' h
        have hreverse : s.toList.reverse = s.toList := by cases s <;> rfl
        refine ⟨hrest, s.toList ++ more, ?_, hfits.append hmore⟩
        rw [List.reverse_append, hreverse, List.append_assoc]

theorem gives_branchWith : Gives (branchWith bound stmt) (FitsAll depth) := by
  intro ls ss rest hls h
  unfold branchWith at h
  split at h
  next hpeek =>
    obtain ⟨hopen, hlength⟩ := hls.advance (by simp [hpeek])
    obtain ⟨hrest, more, rfl, hfits⟩ := gives_block hstmt [] hopen h
    exact ⟨hrest, hfits.later (by omega)⟩
  next =>
    obtain ⟨⟨s, ls'⟩, hs, h⟩ := bind_eq_ok.mp h
    obtain ⟨hrest, hfits⟩ := hstmt hls hs
    cases h
    exact ⟨hrest, hfits⟩

/-- Of a whole program no statement is taller than there are lexemes in front of its end. -/
theorem fits_of_stmts {turns : Nat} {read program : List Stmt} {before : Nat} (hls : Lexed ls)
    (hlength : ls.length ≤ before)
    (hread : ∀ s ∈ read, s.nesting ≤ depth ∧ s.height < before)
    (h : stmts stmt turns read ls = .ok program) :
    ∀ s ∈ program, s.nesting ≤ depth ∧ s.height < before := by
  induction turns generalizing read ls with
  | zero =>
    cases h
    exact fun s hs => hread s (List.mem_reverse.mp hs)
  | succ turns ih =>
    unfold stmts at h
    split at h
    next =>
      cases h
      exact fun s hs => hread s (List.mem_reverse.mp hs)
    next =>
      obtain ⟨⟨s, ls'⟩, hs, h⟩ := bind_eq_ok.mp h
      obtain ⟨hls', hnesting, hheight, hprogress⟩ := hstmt hls hs
      refine ih hls' (by omega) (fun s' hs' => ?_) h
      rcases List.mem_append.mp hs' with hs' | hs'
      · obtain rfl := Option.mem_toList.mp hs'
        have hpos : 0 < ls'.length := List.length_pos_of_mem hls'.peek_mem
        simp only [Option.toList_some, Stmt.nestingAll, Stmt.heightAll] at hnesting hheight
        exact ⟨by omega, by omega⟩
      · exact hread s' hs'

end

theorem gives_stmt (bound depth : Nat) :
    Gives (stmt bound depth) fun s => FitsAll depth s.toList := by
  induction depth with
  | zero => exact gives_stmtWith (gives_expr bound 0) (gives_refuse (fun _ => .tooDeep) _)
  | succ depth ih =>
    refine gives_stmtWith (gives_expr bound (depth + 1)) fun ls ss rest hls h => ?_
    obtain ⟨hrest, hfits⟩ := gives_branchWith ih hls h
    exact ⟨hrest, depth, rfl, hfits⟩

end Parser

theorem fits_of_parse {source : String} {program : List Stmt} (hls : lex source = .ok ls)
    (h : parse source = .ok program) : ∀ s ∈ program, s.nesting ≤ maxDepth ∧ s.height < ls.length := by
  unfold parse at h
  rw [hls] at h
  exact Parser.fits_of_stmts (Parser.gives_stmt _ maxDepth) (lexed_of_lex hls) (Nat.le_refl _)
    (List.forall_mem_nil _) h

/-- The links that the parser takes in loops. -/
inductive Link where
  | member | index | call
  | binary (op : BinaryOp)

namespace Link

def onto (e : Expr) : Link → Expr
  | member => .member e "a"
  | index => .index e (.ident "a")
  | call => .call e []
  | binary op => .binary op e (.ident "a")

def chain (link : Link) : Nat → Expr
  | 0 => .ident "a"
  | n + 1 => link.onto (link.chain n)

def looseness : Link → Nat
  | member | index | call => 0
  | binary op => op.level + 2

variable {link : Link} {e : Expr}

theorem looseness_chain (link : Link) (n : Nat) : (link.chain n).looseness ≤ link.looseness := by
  cases n with
  | zero => exact Nat.zero_le _
  | succ n => cases link <;> exact Nat.le_refl _

theorem isName_a : IsName "a" := ⟨⟨'a', rfl, rfl⟩, List.all_eq_true.mp rfl, by decide⟩

theorem exists_mark (op : BinaryOp) : ∃ m ∈ marks, m.2 = op.token := by
  cases op
  all_goals decide

theorem exists_pieces (link : Link) : ∃ ps : List Piece,
    ∀ e : Expr, e.looseness ≤ link.looseness → (link.onto e).print = e.print ++ ps.map Piece.token := by
  have hgroup {e : Expr} (h : e.looseness ≤ link.looseness) (ts : List Token) :
      e.group link.looseness e.print ++ ts = e.print ++ ts := by
    rw [Expr.group, if_pos h]
  have hopen : (['['], Token.leftBracket) ∈ marks := by decide
  have hclose : ([']'], Token.rightBracket) ∈ marks := by decide
  cases link with
  | member => exact ⟨[.dot, .name "a" isName_a], fun e h => hgroup h _⟩
  | index =>
    exact ⟨[.mark _ _ hopen, .name "a" isName_a, .mark _ _ hclose], fun e h => hgroup h _⟩
  | call => exact ⟨[.leftParen, .rightParen], fun e h => hgroup h _⟩
  | binary op =>
    obtain ⟨⟨text, t⟩, hmark, rfl⟩ := exists_mark op
    exact ⟨[.mark _ _ hmark, .name "a" isName_a], fun e h => hgroup h _⟩

theorem proper_chain (link : Link) (n : Nat) : (link.chain n).Proper := by
  induction n with
  | zero => exact .ident "a"
  | succ n ih =>
    cases link with
    | member => exact .member "a" ih
    | index => exact .index ih (.ident "a")
    | call => exact .call ih (by simp)
    | binary op => exact .binary op ih (.ident "a")

theorem nesting_chain_le (link : Link) (n : Nat) : (link.chain n).nesting ≤ 1 := by
  induction n with
  | zero => exact Nat.zero_le 1
  | succ n ih =>
    have hgroup {k : Nat} (hk : link.looseness = k) :
        (link.chain n).groupNesting k (link.chain n).nesting ≤ 1 := by
      rw [Expr.groupNesting, if_pos (hk ▸ link.looseness_chain n)]
      exact ih
    rw [chain]
    cases link with
    | member => exact hgroup rfl
    | index => exact Nat.max_le.mpr ⟨hgroup rfl, Nat.le_refl 1⟩
    | call => exact Nat.max_le.mpr ⟨hgroup rfl, Nat.zero_le 1⟩
    | binary op => exact Nat.max_le.mpr ⟨hgroup rfl, Nat.zero_le 1⟩

theorem height_chain (link : Link) (n : Nat) : (link.chain n).height = n := by
  induction n with
  | zero => rfl
  | succ n ih =>
    rw [chain]
    cases link <;> simp [onto, Expr.height, Expr.heightAll, ih]

/-- However long a run of links is, there is a source for it. -/
theorem exists_source (link : Link) (n : Nat) : ∃ source, parse source = .ok [.expr (link.chain n)] := by
  obtain ⟨ps, hps⟩ := link.exists_pieces
  obtain ⟨qs, hqs⟩ : ∃ qs : List Piece, (link.chain n).print = qs.map Piece.token := by
    induction n with
    | zero => exact ⟨[.name "a" isName_a], rfl⟩
    | succ n ih =>
      obtain ⟨qs, hqs⟩ := ih
      exact ⟨qs ++ ps, by rw [chain, hps _ (link.looseness_chain n), hqs, List.map_append]⟩
  obtain ⟨ls, hls, htokens⟩ := exists_lex_of_kinds (kinds_laid (laid_spaced (qs ++ [.semicolon])))
  refine ⟨spaced (qs ++ [.semicolon]), ?_⟩
  have hparse : parseLexemes ls = .ok [.expr (link.chain n)] := by
    refine parse_print ?_ ?_ true ?_
    · exact List.forall_mem_singleton.mpr (.expr (link.proper_chain n))
    · refine List.forall_mem_singleton.mpr (Nat.le_trans (Nat.succ_le_succ (link.nesting_chain_le n)) ?_)
      decide
    · rw [htokens, List.map_append, ← hqs]
      simp [Stmt.printAll, Stmt.print]
      rfl
  unfold parse
  rw [hls]
  exact hparse

/-- Nothing else bounds a run of links: at two levels of nesting there are trees of every height. -/
theorem exists_tall (link : Link) (n : Nat) : ∃ source e, parse source = .ok [.expr e] ∧
    (Stmt.expr e).nesting ≤ 2 ∧ (Stmt.expr e).height = n + 1 := by
  obtain ⟨source, hsource⟩ := link.exists_source n
  exact ⟨source, link.chain n, hsource, Nat.succ_le_succ (link.nesting_chain_le n),
    congrArg Nat.succ (link.height_chain n)⟩

end Link

/-- What is parsed is as tall as its runs of links are long, up to the limit of nesting. Besides, its lexemes
bound its height. -/
theorem height_le_of_parse {source : String} {ls : List Lexeme} {program : List Stmt}
    (hls : lex source = .ok ls) (hparse : parse source = .ok program) :
    ∀ s ∈ program, s.nesting ≤ maxDepth ∧ s.longest ≤ s.height ∧ s.height ≤ maxDepth * (s.longest + 1) ∧
      s.height < ls.length := by
  intro s hs
  obtain ⟨hnesting, hheight⟩ := fits_of_parse hls hparse s hs
  have hrun := s.height_le (Nat.le_refl s.longest)
  exact ⟨hnesting, s.longest_le_height, Nat.le_trans hrun (Nat.mul_le_mul_right _ hnesting), hheight⟩

theorem height_le_of_parse_on_members :
    parse "a.b.c" = .ok [.expr (.member (.member (.ident "a") "b") "c")] ∧
      2 ≤ (Stmt.expr (.member (.member (.ident "a") "b") "c")).height ∧
      (Stmt.expr (.member (.member (.ident "a") "b") "c")).height < 6 := by
  have hls : lex "a.b.c" = .ok [⟨.ident "a", 0, 1⟩, ⟨.dot, 1, 2⟩, ⟨.ident "b", 2, 3⟩, ⟨.dot, 3, 4⟩,
      ⟨.ident "c", 4, 5⟩, ⟨.eof, 5, 5⟩] := by cbv
  have hparse : parse "a.b.c" = .ok [.expr (.member (.member (.ident "a") "b") "c")] := by cbv
  obtain ⟨-, hlongest, -, hlexemes⟩ := height_le_of_parse hls hparse _ List.mem_cons_self
  exact ⟨hparse, hlongest, hlexemes⟩

/-- No bound holds for all programs. -/
theorem no_bound_of_height :
    ¬ ∃ bound, ∀ source program, parse source = .ok program → ∀ s ∈ program, s.height ≤ bound := by
  rintro ⟨bound, h⟩
  obtain ⟨source, e, hsource, -, htall⟩ := Link.member.exists_tall bound
  have hheight := h source _ hsource _ List.mem_cons_self
  rw [htall] at hheight
  exact Nat.not_succ_le_self bound hheight

end IconMotion.Expression
