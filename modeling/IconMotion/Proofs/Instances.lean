import IconMotion.Proofs.Idioms
import IconMotion.Proofs.Layout
import IconMotion.Proofs.Roundtrip

namespace IconMotion.Expression

open Precision (Stands)

structure Piece where
  text : List Char
  token : Token
  spells : Spells text token

/-- Texts that are pieces in turn, with gaps around them. A gap may be missing where the texts around it
do not run into each other. -/
inductive Laid : List Piece → List Char → Prop
  | nil {gap : List Char} (hgap : Trivia gap) : Laid [] gap
  | cons {gap rest : List Char} {p : Piece} {ps : List Piece} (hgap : Trivia gap)
      (hapart : Apart p.token rest) (hrest : Laid ps rest) : Laid (p :: ps) (gap ++ (p.text ++ rest))

/-- The source with a space behind each piece. -/
def spaced (ps : List Piece) : String := String.ofList (ps.flatMap fun p => p.text ++ [' '])

inductive Quote where
  | single | double

namespace Quote

def char : Quote → Char
  | single => '\''
  | double => '"'

/-- The quote itself and the backslash are escaped, and nothing else. -/
def written (q : Quote) (c : Char) : List Char := if c = q.char ∨ c = '\\' then ['\\', c] else [c]

theorem spellsBody_written (q : Quote) (cs : List Char) : SpellsBody q.char (cs.flatMap q.written) cs := by
  induction cs with
  | nil => exact .nil
  | cons c cs ih =>
    have hescape : c = q.char ∨ c = '\\' → escape c = c := by
      rintro (rfl | rfl)
      · cases q <;> rfl
      · rfl
    rw [List.flatMap_cons, written]
    split
    next hc =>
      have hescaped := SpellsBody.escaped c ih
      rwa [hescape hc] at hescaped
    next hc =>
      obtain ⟨hquote, hslash⟩ := not_or.mp hc
      exact .plain hquote hslash ih

end Quote

structure Numeral where
  text : List Char
  literal : Literal
  spells : SpellsNumber text literal

def Numeral.value (x : Numeral) : Float := x.literal.toFloat

namespace Piece

def quoted (q : Quote) (s : String) : Piece where
  text := q.char :: (s.toList.flatMap q.written ++ [q.char])
  token := .text s
  spells := by
    have hspells := Spells.text (by cases q <;> decide) (q.spellsBody_written s.toList)
    rwa [String.ofList_toList] at hspells

def number (x : Numeral) : Piece := ⟨x.text, .number x.value, .number x.spells⟩

def name (s : String) (h : IsName s) : Piece := ⟨s.toList, .ident s, h.spells⟩

def mark (text : List Char) (t : Token) (h : (text, t) ∈ marks) : Piece := ⟨text, t, .mark h⟩

def leftParen : Piece := mark ['('] .leftParen (by decide)
def rightParen : Piece := mark [')'] .rightParen (by decide)
def leftBrace : Piece := mark ['\x7b'] .leftBrace (by decide)
def rightBrace : Piece := mark ['\x7d'] .rightBrace (by decide)
def comma : Piece := mark [','] .comma (by decide)
def dot : Piece := mark ['.'] .dot (by decide)
def semicolon : Piece := mark [';'] .semicolon (by decide)
def assign : Piece := mark ['='] .assign (by decide)
def equal : Piece := mark ['=', '='] .equal (by decide)

def varWord : Piece := ⟨['v', 'a', 'r'], .declare, spells_var⟩
def ifWord : Piece := ⟨['i', 'f'], .ifWord, .of_word rfl (List.all_eq_true.mp rfl) rfl⟩
def elseWord : Piece := ⟨['e', 'l', 's', 'e'], .elseWord, .of_word rfl (List.all_eq_true.mp rfl) rfl⟩

end Piece

theorem isName_thisComp : IsName "thisComp" := ⟨⟨'t', rfl, rfl⟩, List.all_eq_true.mp rfl, by decide⟩
theorem isName_comp : IsName "comp" := ⟨⟨'c', rfl, rfl⟩, List.all_eq_true.mp rfl, by decide⟩
theorem isName_layer : IsName "layer" := ⟨⟨'l', rfl, rfl⟩, List.all_eq_true.mp rfl, by decide⟩
theorem isName_effect : IsName "effect" := ⟨⟨'e', rfl, rfl⟩, List.all_eq_true.mp rfl, by decide⟩
theorem isName_value : IsName "value" := ⟨⟨'v', rfl, rfl⟩, List.all_eq_true.mp rfl, by decide⟩
theorem isName_mul : IsName "$bm_mul" := ⟨⟨'$', rfl, rfl⟩, List.all_eq_true.mp rfl, by decide⟩
theorem isName_div : IsName "$bm_div" := ⟨⟨'$', rfl, rfl⟩, List.all_eq_true.mp rfl, by decide⟩

def applied (callee args : List Piece) : List Piece := callee ++ .leftParen :: (args ++ [.rightParen])

def method (object : List Piece) (property : String) (h : IsName property) (arg : List Piece) :
    List Piece :=
  applied (object ++ [.dot, .name property h]) arg

inductive WritesRoot : List Piece → Composition → Prop
  | this : WritesRoot [.name "thisComp" isName_thisComp] .this
  | named (q : Quote) (s : String) :
      WritesRoot (applied [.name "comp" isName_comp] [.quoted q s]) (.named s)

inductive WritesSelector : Piece → Selector → Prop
  | name (q : Quote) (s : String) : WritesSelector (.quoted q s) (.name s)
  | index (x : Numeral) {n : Nat} (hx : Stands x.value n) (hn : 1 ≤ n) (hlt : n < 2 ^ 64) :
      WritesSelector (.number x) (.index n)

inductive WritesReference : List Piece → Reference → Prop
  | chain {root : List Piece} {selector : Piece} {composition : Composition} {effect : Selector}
      (q q' : Quote) (layer channel : String) (hroot : WritesRoot root composition)
      (heffect : WritesSelector selector effect) :
      WritesReference
        (applied
          (method (method root "layer" isName_layer [.quoted q layer]) "effect" isName_effect [selector])
          [.quoted q' channel])
        ⟨composition, layer, effect, channel⟩

inductive WritesValue : List Piece → Compiled → Prop
  | compColor {ps : List Piece} {c l e : String}
      (hr : WritesReference ps ⟨.named c, l, .name e, "Color"⟩) :
      WritesValue ps (.compColor ⟨.named c, l, .name e, "Color"⟩)
  | scaledStroke {ps : List Piece} {c l e ch : String} (d : Numeral)
      (hr : WritesReference ps ⟨.named c, l, .name e, ch⟩) :
      WritesValue
        (applied [.name "$bm_mul" isName_mul]
          (applied [.name "$bm_div" isName_div] [.name "value" isName_value, .comma, .number d] ++
            .comma :: ps))
        (.scaledStroke d.value ⟨.named c, l, .name e, ch⟩)
  | legacyScaled {ps : List Piece} {l ch : String} {effect : Selector} (m : Numeral)
      (hr : WritesReference ps ⟨.this, l, effect, ch⟩) :
      WritesValue (applied [.name "$bm_mul" isName_mul] (ps ++ [.comma, .number m]))
        (.legacyScaled ⟨.this, l, effect, ch⟩ m.value)
  | legacyScale {ps : List Piece} {l : String} (hl : l ≠ watermarkLayer)
      (hr : WritesReference ps ⟨.this, l, .name "Scale", "Slider"⟩) :
      WritesValue ps (.legacyScale ⟨.this, l, .name "Scale", "Slider"⟩)
  | legacyAxis {ps : List Piece} {l : String} (hl : l ≠ watermarkLayer)
      (hr : WritesReference ps ⟨.this, l, .name "Axis", "Point"⟩) :
      WritesValue ps (.legacyAxis ⟨.this, l, .name "Axis", "Point"⟩)
  | legacyColor {ps : List Piece} {l e : String} (hl : l ≠ watermarkLayer)
      (hr : WritesReference ps ⟨.this, l, .name e, "Color"⟩) :
      WritesValue ps (.legacyColor ⟨.this, l, .name e, "Color"⟩)
  | watermark {ps : List Piece} {e ch : String}
      (hr : WritesReference ps ⟨.this, "02092020", .name e, ch⟩) : WritesValue ps .watermark

inductive WritesEnd : List Piece → Prop
  | bare : WritesEnd []
  | semicolon : WritesEnd [.semicolon]

def result (ps : List Piece) : List Piece := .name Shape.resultName isName_resultName :: .assign :: ps

def resultBlock (x : Numeral) (close : List Piece) : List Piece :=
  .leftBrace :: (result (.number x :: close) ++ [.rightBrace])

/-- The instances of the idioms. Names may be declared in front of them. -/
inductive Writes : List Piece → Compiled → Prop
  | behind {ps : List Piece} {c : Compiled} (name : String) (hname : IsName name) (h : Writes ps c) :
      Writes (.varWord :: .name name hname :: .semicolon :: ps) c
  | bare {ps close : List Piece} {c : Compiled} (h : WritesValue ps c) (hclose : WritesEnd close) :
      Writes (ps ++ close) c
  | assigned {ps close : List Piece} {c : Compiled} (h : WritesValue ps c) (hclose : WritesEnd close) :
      Writes (result (ps ++ close)) c
  | declared {ps close : List Piece} {c : Compiled} (h : WritesValue ps c) (hclose : WritesEnd close) :
      Writes (.varWord :: result (ps ++ close)) c
  | menuSwitch {ps close close' : List Piece} {l e : String} (n a b : Numeral) {i j k : Nat}
      (hr : WritesReference ps ⟨.this, l, .name e, "Menu"⟩) (hn : Stands n.value i)
      (ha : Stands a.value j) (hb : Stands b.value k) (hclose : WritesEnd close)
      (hclose' : WritesEnd close') :
      Writes
        (.ifWord :: .leftParen :: (ps ++ .equal :: .number n :: .rightParen ::
          (resultBlock a close ++ .elseWord :: resultBlock b close')))
        (.menuSwitch ⟨.this, l, .name e, "Menu"⟩ n.value a.value b.value)

theorem Laid.blank {ps : List Piece} {c : Char} {cs : List Char} (hc : c ∈ blanks) (h : Laid ps cs) :
    Laid ps (c :: cs) := by
  cases h with
  | nil hgap => exact .nil (.blank hc hgap)
  | cons hgap hapart hrest => exact .cons (.blank hc hgap) hapart hrest

theorem laid_spaced (ps : List Piece) : Laid ps (spaced ps).toList := by
  rw [spaced, String.toList_ofList]
  induction ps with
  | nil => exact .nil .nil
  | cons p ps ih =>
    have hblank : ' ' ∈ blanks := by decide
    have hapart : Apart p.token (' ' :: ps.flatMap fun p => p.text ++ [' ']) :=
      apart_cons (takes_of_isBlank (isBlank_iff.mpr hblank) p.token)
    rw [List.flatMap_cons, List.append_assoc]
    exact .cons .nil hapart (ih.blank hblank)

/-- Whether no text runs into the one behind it. -/
def dense : List Piece → Bool
  | [] => true
  | p :: ps => (ps.flatMap Piece.text).head?.all (!p.token.takes ·) && dense ps

theorem laid_dense {ps : List Piece} (h : dense ps) : Laid ps (ps.flatMap Piece.text) := by
  induction ps with
  | nil => exact .nil .nil
  | cons p ps ih =>
    obtain ⟨hhead, hrest⟩ := Bool.and_eq_true_iff.mp h
    have hapart : Apart p.token (ps.flatMap Piece.text) := by
      simpa [Apart, Option.all_eq_true] using hhead
    exact .cons .nil hapart (ih hrest)

theorem kinds_laid {ps : List Piece} {cs : List Char} (h : Laid ps cs) :
    kinds cs = some (ps.map Piece.token ++ [.eof]) := by
  induction h with
  | @nil gap hgap =>
    have hkinds := kinds_trivia hgap []
    rwa [List.append_nil, kinds_nil] at hkinds
  | @cons gap rest p ps hgap hapart _ ih =>
    rw [kinds_trivia hgap, kinds_spells p.spells hapart, ih]
    rfl

theorem isNegative_value (x : Numeral) : isNegative x.value = false := by
  unfold isNegative
  rw [Numeral.value, Precision.sign?_toFloat_literal]

/-- The pieces are the tokens of an expression that holds together, nested so deep at most. -/
structure Denotes (ps : List Piece) (e : Expr) (n : Nat) : Prop where
  tokens : ps.map Piece.token = e.print
  proper : e.Proper
  tight : e.looseness = 0
  nesting : e.nesting ≤ n

structure DenotesAll (ps : List Piece) (es : List Expr) (n : Nat) : Prop where
  tokens : ps.map Piece.token = Expr.printAll es
  proper : ∀ e ∈ es, e.Proper
  nesting : Expr.nestingAll es ≤ n

section

variable {ps qs : List Piece} {e e' : Expr} {es : List Expr} {n n' : Nat}

theorem denotes_name (s : String) (h : IsName s) : Denotes [.name s h] (.ident s) 0 :=
  ⟨rfl, .ident s, rfl, Nat.le_refl 0⟩

theorem denotes_quoted (q : Quote) (s : String) : Denotes [.quoted q s] (.text s) 0 :=
  ⟨rfl, .text s, rfl, Nat.le_refl 0⟩

theorem denotes_number (x : Numeral) : Denotes [.number x] (.number x.value) 0 := by
  have hx : ¬ isNegative x.value := by simp [isNegative_value]
  refine ⟨?_, .number _, ?_, ?_⟩
  · rw [Expr.print, if_neg hx]
    rfl
  · rw [Expr.looseness, if_neg hx]
  · rw [Expr.nesting, if_neg hx]

namespace Denotes

theorem mono (h : Denotes ps e n) (hn : n ≤ n') : Denotes ps e n' :=
  ⟨h.tokens, h.proper, h.tight, Nat.le_trans h.nesting hn⟩

theorem group_eq (h : Denotes ps e n) (k : Nat) : e.group k e.print = ps.map Piece.token := by
  rw [Expr.group, if_pos (h.tight ▸ Nat.zero_le k), h.tokens]

theorem groupNesting_le (h : Denotes ps e n) (k : Nat) : e.groupNesting k e.nesting ≤ n := by
  rw [Expr.groupNesting, if_pos (h.tight ▸ Nat.zero_le k)]
  exact h.nesting

theorem single (h : Denotes ps e n) : DenotesAll ps [e] (n + 1) := by
  refine ⟨h.tokens, ?_, ?_⟩
  · intro e' he'
    obtain rfl := List.mem_singleton.mp he'
    exact h.proper
  · simpa [Expr.nestingAll] using h.nesting

theorem cons (h : Denotes ps e n) (hqs : DenotesAll qs (e' :: es) (n + 1)) :
    DenotesAll (ps ++ .comma :: qs) (e :: e' :: es) (n + 1) := by
  refine ⟨?_, ?_, ?_⟩
  · rw [List.map_append, List.map_cons, h.tokens, hqs.tokens]
    rfl
  · exact List.forall_mem_cons.mpr ⟨h.proper, hqs.proper⟩
  · rw [Expr.nestingAll]
    exact Nat.max_le.mpr ⟨Nat.succ_le_succ h.nesting, hqs.nesting⟩

theorem member (h : Denotes ps e n) (s : String) (hs : IsName s) :
    Denotes (ps ++ [.dot, .name s hs]) (.member e s) n := by
  refine ⟨?_, .member s h.proper, rfl, ?_⟩
  · rw [Expr.print, h.group_eq, List.map_append]
    rfl
  · rw [Expr.nesting]
    exact h.groupNesting_le 0

theorem call (h : Denotes ps e n) (hqs : DenotesAll qs es n) : Denotes (applied ps qs) (.call e es) n := by
  refine ⟨?_, .call h.proper hqs.proper, rfl, ?_⟩
  · rw [Expr.print, h.group_eq, ← hqs.tokens]
    simp only [applied, List.map_append, List.map_cons]
    rfl
  · rw [Expr.nesting]
    exact Nat.max_le.mpr ⟨h.groupNesting_le 0, hqs.nesting⟩

theorem method (h : Denotes ps e (n + 1)) (s : String) (hs : IsName s) (harg : Denotes qs e' n) :
    Denotes (method ps s hs qs) (.call (.member e s) [e']) (n + 1) :=
  (h.member s hs).call harg.single

end Denotes

end

section

variable {ps : List Piece} {c : Compiled}

theorem WritesRoot.exists_expr {composition : Composition} (h : WritesRoot ps composition) :
    ∃ e, Denotes ps e 1 ∧ Roots e composition := by
  cases h with
  | this => exact ⟨_, (denotes_name _ isName_thisComp).mono (Nat.zero_le 1), .this⟩
  | named q s =>
    have hname := (denotes_name _ isName_comp).mono (Nat.zero_le 1)
    exact ⟨_, hname.call (denotes_quoted q s).single, .named s⟩

theorem WritesSelector.exists_expr {p : Piece} {effect : Selector} (h : WritesSelector p effect) :
    ∃ e, Denotes [p] e 0 ∧ Selects e effect := by
  cases h with
  | name q s => exact ⟨_, denotes_quoted q s, .name s⟩
  | @index x n hx hn hlt =>
    have hselects : Selects _ (.index (min n (2 ^ 64 - 1))) := .index hx hn
    rw [Nat.min_eq_left (Nat.le_sub_one_of_lt hlt)] at hselects
    exact ⟨_, denotes_number x, hselects⟩

theorem WritesReference.exists_expr {r : Reference} (h : WritesReference ps r) :
    ∃ e, Denotes ps e 1 ∧ Refers e r := by
  obtain ⟨q, q', layer, channel, hroot, heffect⟩ := h
  obtain ⟨root, hdenotes, hroots⟩ := hroot.exists_expr
  obtain ⟨selector, hdenotes', hselects⟩ := heffect.exists_expr
  have hlayer := hdenotes.method "layer" isName_layer (denotes_quoted q layer)
  have heffect := hlayer.method "effect" isName_effect hdenotes'
  exact ⟨_, heffect.call (denotes_quoted q' channel).single, .chain layer channel hroots hselects⟩

theorem Numeral.zero_le (x : Numeral) : 0.0 ≤ x.value :=
  Precision.zero_le_of_sign? (Precision.sign?_toFloat_literal x.literal)

theorem WritesValue.exists_expr (h : WritesValue ps c) :
    ∃ e, Denotes ps e 2 ∧ InIdiom (.value e) c := by
  have hmul : Denotes _ _ 2 := (denotes_name _ isName_mul).mono (Nat.zero_le 2)
  cases h with
  | compColor hr =>
    obtain ⟨e, he, hrefers⟩ := hr.exists_expr
    exact ⟨e, he.mono (Nat.le_succ 1), .compColor hrefers rfl rfl rfl⟩
  | scaledStroke d hr =>
    obtain ⟨e, he, hrefers⟩ := hr.exists_expr
    have hdiv : Denotes _ _ 1 := (denotes_name _ isName_div).mono (Nat.zero_le 1)
    have hquotient := hdiv.call ((denotes_name _ isName_value).cons (denotes_number d).single)
    exact ⟨_, hmul.call (hquotient.cons he.single), .scaledStroke d.zero_le hrefers rfl rfl⟩
  | legacyScaled m hr =>
    obtain ⟨e, he, hrefers⟩ := hr.exists_expr
    have hfactor : Denotes _ _ 1 := (denotes_number m).mono (Nat.zero_le 1)
    exact ⟨_, hmul.call (he.cons hfactor.single), .legacyScaled hrefers rfl m.zero_le⟩
  | legacyScale hl hr =>
    obtain ⟨e, he, hrefers⟩ := hr.exists_expr
    exact ⟨e, he.mono (Nat.le_succ 1), .legacyScale hrefers rfl hl rfl rfl⟩
  | legacyAxis hl hr =>
    obtain ⟨e, he, hrefers⟩ := hr.exists_expr
    exact ⟨e, he.mono (Nat.le_succ 1), .legacyAxis hrefers rfl hl rfl rfl⟩
  | legacyColor hl hr =>
    obtain ⟨e, he, hrefers⟩ := hr.exists_expr
    exact ⟨e, he.mono (Nat.le_succ 1), .legacyColor hrefers rfl rfl hl rfl⟩
  | watermark hr =>
    obtain ⟨e, he, hrefers⟩ := hr.exists_expr
    exact ⟨e, he.mono (Nat.le_succ 1), .watermark hrefers rfl rfl rfl⟩

end

namespace Parser

variable {bound depth : Nat} {stop : Token → Prop} {t : Token} {ts : List Token} {s : Stmt}

theorem reads_single_block {p : Parser (Option Stmt)} (h : Reads bound stop p (t :: ts) (some s))
    (ht : t.begins) (hstop : stop .rightBrace) :
    Reads bound (fun _ => True) (branchWith bound p) (.leftBrace :: (t :: ts ++ [.rightBrace])) [s] := by
  intro t' rest _ hbound
  simp only [List.length_append, List.length_cons, List.length_nil] at hbound
  obtain ⟨turns, rfl⟩ : ∃ n, bound = n + 1 + 1 := ⟨bound - 2, by omega⟩
  have hstep : block p (turns + 1 + 1) [] _ =
      block p (turns + 1) [s] (placed (.rightBrace :: t' :: rest)) :=
    block_step h ht hstop (by simp; omega)
  simp only [List.cons_append, List.append_assoc, List.nil_append] at hstep ⊢
  rw [branchWith, token_peek_placed, if_pos rfl, advance_placed, hstep, block_close]
  rfl

end Parser

theorem parseTokens_single {stop : Token → Prop} {t : Token} {ts : List Token} {s : Stmt}
    (ht : t.begins) (hstop : stop .eof)
    (h : ∀ bound, Parser.Reads bound stop (Parser.stmt bound maxDepth) (t :: ts) (some s)) :
    parseTokens (t :: ts ++ [.eof]) = some [s] := by
  have hlength : (placed (t :: ts ++ [.eof])).length = ts.length + 1 + 1 := by simp [placed]
  rw [parseTokens, toOption_eq_some, parseLexemes, hlength,
    Parser.stmts_step (h _) ht hstop (by simp), Parser.stmts_eof]
  rfl

section

variable {ps close : List Piece} {e : Expr} {n : Nat} {t : Token}

theorem WritesEnd.ends (h : WritesEnd close) (ht : t = .eof ∨ t = .rightBrace) :
    Parser.Ends (close.map Piece.token) t := by
  cases h with
  | bare => exact .inr ⟨rfl, ht⟩
  | semicolon => exact .inl rfl

theorem Denotes.reads {bound depth : Nat} (h : Denotes ps e n) (hn : n + 1 ≤ depth) :
    Parser.Reads bound (Parser.Stops 6) (Parser.expr bound depth) e.print e :=
  (Parser.readable_of_proper h.proper).reads_expr (Nat.le_trans (Nat.succ_le_succ h.nesting) hn)

theorem parseTokens_expr (h : Denotes ps e 2) (hclose : WritesEnd close) :
    parseTokens ((ps ++ close).map Piece.token ++ [.eof]) = some [.expr e] := by
  obtain ⟨t, ts, hts, hopens⟩ := h.proper.exists_cons
  have hreads (bound : Nat) : Parser.Reads bound (Parser.Ends (close.map Piece.token))
      (Parser.stmt bound maxDepth) (e.print ++ close.map Piece.token) (some (.expr e)) :=
    Parser.reads_expr_stmt (h.reads (by decide)) h.proper
  rw [List.map_append, h.tokens]
  rw [hts] at hreads ⊢
  exact parseTokens_single (by simp [Token.begins, hopens]) (hclose.ends (.inl rfl)) hreads

theorem parseTokens_result (h : Denotes ps e 2) (hclose : WritesEnd close) :
    parseTokens ((result (ps ++ close)).map Piece.token ++ [.eof]) =
      some [.assign Shape.resultName e] := by
  have hreads (bound : Nat) : Parser.Reads bound (Parser.Ends (close.map Piece.token))
      (Parser.stmt bound maxDepth) _ (some (.assign Shape.resultName e)) :=
    Parser.reads_assign (h.reads (by decide)) Shape.resultName
  rw [result, List.map_cons, List.map_cons, List.map_append, h.tokens]
  exact parseTokens_single rfl (hclose.ends (.inl rfl)) hreads

theorem parseTokens_declared (h : Denotes ps e 2) (hclose : WritesEnd close) :
    parseTokens ((.varWord :: result (ps ++ close)).map Piece.token ++ [.eof]) =
      some [.declare Shape.resultName (some e)] := by
  have hreads (bound : Nat) : Parser.Reads bound (Parser.Ends (close.map Piece.token))
      (Parser.stmt bound maxDepth) _ (some (.declare Shape.resultName (some e))) :=
    Parser.reads_declare (h.reads (by decide)) Shape.resultName
  rw [result, List.map_cons, List.map_cons, List.map_cons, List.map_append, h.tokens]
  exact parseTokens_single rfl (hclose.ends (.inl rfl)) hreads

theorem reads_resultBlock {bound depth : Nat} (x : Numeral) (hclose : WritesEnd close)
    (hdepth : 1 ≤ depth) :
    Parser.Reads bound (fun _ => True) (Parser.branchWith bound (Parser.stmt bound depth))
      ((resultBlock x close).map Piece.token) [.assign Shape.resultName (.number x.value)] := by
  have hx := denotes_number x
  have hassign : Parser.Reads bound (Parser.Ends (close.map Piece.token)) (Parser.stmt bound depth) _
      (some (.assign Shape.resultName (.number x.value))) :=
    Parser.reads_assign (hx.reads hdepth) Shape.resultName
  have htokens : (resultBlock x close).map Piece.token =
      .leftBrace :: (.ident Shape.resultName :: .assign ::
        ((Expr.number x.value).print ++ close.map Piece.token) ++ [.rightBrace]) := by
    rw [← hx.tokens]
    simp only [resultBlock, result, List.map_append, List.map_cons]
    rfl
  rw [htokens]
  exact Parser.reads_single_block hassign rfl (hclose.ends (.inr rfl))

theorem Denotes.equal (h : Denotes ps e n) (x : Numeral) :
    (Expr.binary .eq e (.number x.value)).Proper ∧
      (Expr.binary .eq e (.number x.value)).print = (ps ++ [Piece.equal, Piece.number x]).map Piece.token ∧
      (Expr.binary .eq e (.number x.value)).nesting ≤ n := by
  have hx := denotes_number x
  refine ⟨.binary .eq h.proper hx.proper, ?_, ?_⟩
  · rw [Expr.print, h.group_eq, hx.group_eq, List.map_append]
    rfl
  · rw [Expr.nesting]
    exact Nat.max_le.mpr ⟨h.groupNesting_le _, Nat.le_trans (hx.groupNesting_le _) (Nat.zero_le n)⟩

theorem parseTokens_menu {close' : List Piece} (h : Denotes ps e 1) (x a b : Numeral)
    (hclose : WritesEnd close) (hclose' : WritesEnd close') :
    parseTokens ((.ifWord :: .leftParen :: (ps ++ .equal :: .number x :: .rightParen ::
        (resultBlock a close ++ .elseWord :: resultBlock b close'))).map Piece.token ++ [.eof]) =
      some [.branch (.binary .eq e (.number x.value)) [.assign Shape.resultName (.number a.value)]
        [.assign Shape.resultName (.number b.value)]] := by
  obtain ⟨hproper, hprint, hnesting⟩ := h.equal x
  have hreads (bound : Nat) : Parser.Reads bound (fun _ => True) (Parser.stmt bound maxDepth) _ _ :=
    Parser.reads_branch
      ((Parser.readable_of_proper hproper).reads_expr (Nat.le_trans (Nat.succ_le_succ hnesting) (by decide)))
      (reads_resultBlock a hclose (by decide)) (reads_resultBlock b hclose' (by decide))
  simp only [hprint, List.map_append, List.map_cons, List.append_assoc] at hreads ⊢
  exact parseTokens_single rfl trivial hreads

end

theorem Writes.exists_result {ps : List Piece} {c : Compiled} (h : Writes ps c) :
    ∃ program s, parseTokens (ps.map Piece.token ++ [.eof]) = some program ∧
      Shape.ofProgram? program = some s ∧ InIdiom s c := by
  induction h with
  | @behind ps _ name hname _ ih =>
    obtain ⟨program, s, hparse, hresult, hidiom⟩ := ih
    have hclosed : (ps.map Piece.token ++ [Token.eof]).getLast? = some .eof := List.getLast?_concat
    have hbare := parseTokens_bare name hclosed
    rw [hparse] at hbare
    exact ⟨_, s, hbare, hresult, hidiom⟩
  | bare h hclose =>
    obtain ⟨e, he, hidiom⟩ := h.exists_expr
    exact ⟨_, _, parseTokens_expr he hclose, rfl, hidiom⟩
  | assigned h hclose =>
    obtain ⟨e, he, hidiom⟩ := h.exists_expr
    exact ⟨_, _, parseTokens_result he hclose, rfl, hidiom⟩
  | declared h hclose =>
    obtain ⟨e, he, hidiom⟩ := h.exists_expr
    exact ⟨_, _, parseTokens_declared he hclose, rfl, hidiom⟩
  | @menuSwitch ps close close' l _ n a b _ _ _ hr hn ha hb hclose hclose' =>
    obtain ⟨e, he, hrefers⟩ := hr.exists_expr
    exact ⟨_, _, parseTokens_menu he n a b hclose hclose', rfl, .menuSwitch hrefers rfl rfl rfl hn ha hb⟩

/-- Every instance of an idiom is compiled to it with its names and numbers, however it is laid out. -/
theorem compile_written {ps : List Piece} {c : Compiled} (h : Writes ps c) :
    compile (spaced ps) = .ok c ∧ ∀ source, Laid ps source.toList → compile source = .ok c := by
  obtain ⟨program, s, hparse, hresult, hidiom⟩ := h.exists_result
  have hcompile (source : String) (hsource : Laid ps source.toList) : compile source = .ok c := by
    have hprogram := parse_of_kinds (kinds_laid hsource) hparse
    have hshape : shape source = .ok s := by simp only [shape, hprogram, hresult]
    exact compile_eq_ok.mpr ⟨s, hshape, hidiom⟩
  exact ⟨hcompile _ (laid_spaced ps), hcompile⟩

def three : Numeral where
  text := ['3']
  literal := ⟨['3'], [], 0⟩
  spells := .parts (List.all_eq_true.mp (show ['3'].all Char.isDigit from rfl)) .none .none (.inl nofun)

def threeHalves : Numeral where
  text := ['1', '.', '5']
  literal := ⟨['1'], ['5'], 0⟩
  spells := by
    have hwhole : ∀ d ∈ ['1'], d.isDigit := List.all_eq_true.mp rfl
    have hfraction : ∀ d ∈ ['5'], d.isDigit := List.all_eq_true.mp rfl
    exact .parts hwhole (.point (by decide) hfraction) .none (.inl (by decide))

theorem stands_three : Stands three.value 3 := by
  have hthree : three.value.toModel.unpack = .finite .positive (3 * 2 ^ 51) (-51) (by decide) := by rfl
  rw [Stands, hthree]
  norm_num

def oddSource : String :=
  "$bm_rt=$bm_mul(thisComp.layer(\"it's \\\"é\\\"\\\\\").effect(3)('Slider'),1.5);"

def oddReference : Reference := ⟨.this, "it's \"é\"\\", .index 3, "Slider"⟩

theorem compile_written_of_oddSource :
    compile oddSource = .ok (.legacyScaled oddReference threeHalves.value) := by
  have hreference := WritesReference.chain .double .single "it's \"é\"\\" "Slider" .this
    (.index three stands_three (by decide) (by decide))
  have hwrites := Writes.assigned (.legacyScaled threeHalves hreference) .semicolon
  exact (compile_written hwrites).2 oddSource (laid_dense rfl)

end IconMotion.Expression
