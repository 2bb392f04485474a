import IconMotion.Proofs.Placement
import IconMotion.Proofs.Spelling

namespace IconMotion.Expression

open String (utf8Len)

inductive Trivia : List Char → Prop
  | nil : Trivia []
  | blank {c : Char} {cs : List Char} (hc : c ∈ blanks) (h : Trivia cs) : Trivia (c :: cs)
  | line {body cs : List Char} (hbody : '\n' ∉ body) (h : Trivia cs) :
      Trivia ('/' :: '/' :: (body ++ '\n' :: cs))
  | block {body cs : List Char} (hbody : ¬ ['*', '/'] <:+: body) (h : Trivia cs) :
      Trivia ('/' :: '*' :: (body ++ '*' :: '/' :: cs))

/-- A gap that keeps lexemes apart. -/
structure Separates (gap : String) : Prop where
  trivia : Trivia gap.toList
  blank : ∃ c ∈ gap.toList.head?, c ∈ blanks

def Lexeme.text (source : String) (l : Lexeme) : String :=
  String.Pos.Raw.extract source ⟨l.start⟩ ⟨l.stop⟩

/-- Lexemes of a source, with a gap behind each. -/
def relaid (source : String) : List Lexeme → List String → String
  | l :: ls, gap :: gaps => l.text source ++ gap ++ relaid source ls gaps
  | _, _ => ""

variable {pos : Nat} {gap : Gap} {c : Char} {t : Token} {cs text rest body : List Char}

theorem skipGap_blank (hc : isBlank c) : skipGap .plain pos (c :: cs) = skipGap .plain (pos + 1) cs := by
  have hslash : c ≠ '/' := by
    rintro rfl
    cases hc
  rw [skipGap, if_pos hc]
  · exact fun _ h => (hslash h).elim
  · exact fun _ h => (hslash h).elim

theorem skipGap_line (hbody : '\n' ∉ body) :
    skipGap .line pos (body ++ '\n' :: cs) = skipGap .plain (pos + utf8Len body + 1) cs := by
  induction body generalizing pos with
  | nil => rfl
  | cons c body ih =>
    obtain ⟨hc, hbody⟩ := not_or.mp (mt List.mem_cons.mpr hbody)
    rw [List.cons_append, skipGap, if_neg (Ne.symm hc), ih hbody, String.utf8Len_cons]
    congr 1
    omega

theorem skipGap_block {start : Nat} (hbody : ¬ ['*', '/'] <:+: body) :
    skipGap (.block start) pos (body ++ '*' :: '/' :: cs) =
      skipGap .plain (pos + utf8Len body + 2) cs := by
  induction body generalizing pos with
  | nil => rfl
  | cons c body ih =>
    have htail : ¬ ['*', '/'] <:+: body := fun h => hbody (h.trans (List.suffix_cons c body).isInfix)
    rw [List.cons_append, skipGap, ih htail, String.utf8Len_cons]
    · congr 1
      omega
    · -- The comment is not closed by a star of its body.
      rintro cs' rfl hclose
      cases body with
      | nil => cases hclose
      | cons d body =>
        obtain rfl : d = '/' := (List.cons.inj hclose).1
        exact hbody ⟨[], body, rfl⟩

theorem skipGap_trivia {g : List Char} (h : Trivia g) :
    skipGap .plain pos (g ++ cs) = skipGap .plain (pos + utf8Len g) cs := by
  induction h generalizing pos with
  | nil => rfl
  | @blank c g hc _ ih =>
    have hlen := utf8Size_of_mem_blanks c hc
    rw [List.cons_append, skipGap_blank (isBlank_iff.mpr hc), ih, String.utf8Len_cons, hlen]
    congr 1
    omega
  | @line body g hbody _ ih =>
    have hlen : utf8Len ('/' :: '/' :: (body ++ '\n' :: g)) = 2 + utf8Len body + 1 + utf8Len g := by
      simp only [String.utf8Len_cons, String.utf8Len_append, show '/'.utf8Size = 1 from rfl,
        show '\n'.utf8Size = 1 from rfl]
      omega
    rw [hlen, List.cons_append, List.cons_append, skipGap, List.append_assoc, List.cons_append,
      skipGap_line hbody, ih]
    congr 1
    omega
  | @block body g hbody _ ih =>
    have hlen : utf8Len ('/' :: '*' :: (body ++ '*' :: '/' :: g)) = 2 + utf8Len body + 2 + utf8Len g := by
      simp only [String.utf8Len_cons, String.utf8Len_append, show '/'.utf8Size = 1 from rfl,
        show '*'.utf8Size = 1 from rfl]
      omega
    rw [hlen, List.cons_append, List.cons_append, skipGap, List.append_assoc, List.cons_append,
      List.cons_append, skipGap_block hbody, ih]
    congr 1
    omega

theorem exists_gap {r : Nat × List Char} (h : skipGap gap pos cs = .ok r) :
    ∃ g, cs = g ++ r.2 ∧ r.1 = pos + utf8Len g := by
  fun_induction skipGap gap pos cs with
  | case1 | case6 =>
    cases h
    exact ⟨[], rfl, rfl⟩
  | case5 pos c cs =>
    cases h
    exact ⟨[], rfl, rfl⟩
  | case8 => cases h
  | case2 pos cs ih =>
    obtain ⟨g, rfl, hpos⟩ := ih h
    exact ⟨'/' :: '/' :: g, rfl, by simp [hpos, show '/'.utf8Size = 1 from rfl]; omega⟩
  | case3 pos cs ih =>
    obtain ⟨g, rfl, hpos⟩ := ih h
    exact ⟨'/' :: '*' :: g, rfl, by
      simp [hpos, show '/'.utf8Size = 1 from rfl, show '*'.utf8Size = 1 from rfl]; omega⟩
  | case4 pos c cs _ _ hc ih =>
    obtain ⟨g, rfl, hpos⟩ := ih h
    have hlen := utf8Size_of_mem_blanks c (isBlank_iff.mp hc)
    exact ⟨c :: g, rfl, by simp [hpos, hlen]; omega⟩
  | case7 pos c cs ih =>
    obtain ⟨g, rfl, hpos⟩ := ih h
    exact ⟨c :: g, rfl, by simp [hpos]; omega⟩
  | case9 _ pos cs ih =>
    obtain ⟨g, rfl, hpos⟩ := ih h
    exact ⟨'*' :: '/' :: g, rfl, by
      simp [hpos, show '/'.utf8Size = 1 from rfl, show '*'.utf8Size = 1 from rfl]; omega⟩
  | case10 _ pos c cs _ ih =>
    obtain ⟨g, rfl, hpos⟩ := ih h
    exact ⟨c :: g, rfl, by simp [hpos]; omega⟩

theorem lexFrom_eq (pos : Nat) (cs : List Char) (read : List Lexeme) :
    lexFrom pos cs read = match skipGap .plain pos cs with
      | .error e => .error e
      | .ok (pos, []) => .ok (⟨.eof, pos, pos⟩ :: read).reverse
      | .ok (pos, c :: rest) => match token pos c rest with
        | .error e => .error e
        | .ok (t, width, rest) => lexFrom (pos + width) rest (⟨t, pos, pos + width⟩ :: read) := by
  rw [lexFrom]
  split
  next h => rw [h]
  next h => rw [h]
  next h =>
    rw [h]
    dsimp only
    split
    next h => rw [h]
    next h => rw [h]

/-- The gap at a later place. -/
def Gap.later (n : Nat) : Gap → Gap
  | .plain => .plain
  | .line => .line
  | .block start => .block (start + n)

theorem toOption_skipGap_later (gap : Gap) (pos n : Nat) (cs : List Char) :
    (skipGap (gap.later n) (pos + n) cs).toOption =
      (skipGap gap pos cs).toOption.map fun r => (r.1 + n, r.2) := by
  fun_induction skipGap gap pos cs with
  | case1 | case5 | case6 | case8 => simp [skipGap, Gap.later, Except.toOption, *]
  | case2 | case3 | case4 | case9 | case10 =>
    simp_all [skipGap, Gap.later, Nat.add_right_comm _ n]
  | case7 pos c cs ih =>
    rw [Gap.later, skipGap, Nat.add_right_comm, ← ih]
    split <;> rfl

theorem toOption_exponentOf (pos pos' : Nat) (cs : List Char) :
    (exponentOf pos cs).toOption = (exponentOf pos' cs).toOption := by
  unfold exponentOf
  split
  next => rfl
  next =>
    split
    next =>
      dsimp only
      split <;> rfl
    next => rfl

theorem toOption_number (pos pos' : Nat) (cs : List Char) :
    (number pos cs).toOption = (number pos' cs).toOption := by
  obtain ⟨whole, behind, hdigits⟩ : ∃ whole behind, digitsOf cs = (whole, behind) := ⟨_, _, rfl⟩
  obtain ⟨ds, width, rest, hfraction⟩ : ∃ ds width rest, fractionOf behind = (ds, width, rest) :=
    ⟨_, _, _, rfl⟩
  simp only [number, hdigits, hfraction]
  have h := toOption_exponentOf (pos + (whole.length + width)) (pos' + (whole.length + width)) rest
  generalize exponentOf (pos + (whole.length + width)) rest = a at *
  generalize exponentOf (pos' + (whole.length + width)) rest = b at *
  cases a <;> cases b <;> cases h <;> rfl

theorem toOption_token (pos pos' : Nat) (c : Char) (cs : List Char) :
    (token pos c cs).toOption = (token pos' c cs).toOption := by
  unfold token
  split
  next => exact toOption_number pos pos' (c :: cs)
  next =>
    split
    next => split <;> rfl
    next =>
      split
      next => rfl
      next => split <;> rfl

theorem toOption_lexFrom_eq (pos : Nat) (cs : List Char) (read : List Lexeme) :
    (lexFrom pos cs read).toOption = match (skipGap .plain pos cs).toOption with
      | none => none
      | some (pos, []) => some (⟨.eof, pos, pos⟩ :: read).reverse
      | some (pos, c :: rest) => match (token 0 c rest).toOption with
        | none => none
        | some (t, width, rest) =>
          (lexFrom (pos + width) rest (⟨t, pos, pos + width⟩ :: read)).toOption := by
  rw [lexFrom_eq]
  split
  next h => rw [h]; rfl
  next h => rw [h]; rfl
  next p c rest h =>
    have htoken := toOption_token 0 p c rest
    rw [h]
    split
    next h' => rw [h'] at htoken; simp only [Except.toOption] at *; simp only [htoken]
    next h' => rw [h'] at htoken; simp only [Except.toOption] at *; simp only [htoken]

def kinds (cs : List Char) : Option (List Token) := (lexFrom 0 cs []).toOption.map tokens

/-- Which tokens a text has depends neither on its place nor on what has been read. -/
theorem toOption_lexFrom (pos : Nat) (cs : List Char) (read : List Lexeme) :
    (lexFrom pos cs read).toOption.map tokens = (kinds cs).map ((tokens read).reverse ++ ·) := by
  suffices h : ∃ found : Option (List Token), ∀ pos read,
      (lexFrom pos cs read).toOption.map tokens = found.map ((tokens read).reverse ++ ·) by
    obtain ⟨found, hfound⟩ := h
    have hkinds : kinds cs = found := by
      rw [kinds, hfound]
      simp [tokens]
    rw [hfound, hkinds]
  induction hn : cs.length using Nat.strong_induction_on generalizing cs with
  | _ n ih =>
    have hgap (pos : Nat) : (skipGap .plain pos cs).toOption =
        (skipGap .plain 0 cs).toOption.map fun r => (r.1 + pos, r.2) := by
      rw [← toOption_skipGap_later, Gap.later, Nat.zero_add]
    cases hskip : (skipGap .plain 0 cs).toOption with
    | none =>
      refine ⟨none, fun pos read => ?_⟩
      rw [toOption_lexFrom_eq, hgap, hskip]
      rfl
    | some r =>
      obtain ⟨p, - | ⟨c, rest⟩⟩ := r
      · refine ⟨some [.eof], fun pos read => ?_⟩
        rw [toOption_lexFrom_eq, hgap, hskip]
        simp [tokens]
      · cases htoken : (token 0 c rest).toOption with
        | none =>
          refine ⟨none, fun pos read => ?_⟩
          rw [toOption_lexFrom_eq, hgap, hskip]
          simp [htoken]
        | some r =>
          obtain ⟨t, width, behind⟩ := r
          have hlength := length_skipGap (toOption_eq_some.mp hskip)
          have hlength' := length_token (toOption_eq_some.mp htoken)
          simp only [List.length_cons] at hlength hlength'
          obtain ⟨found, hfound⟩ := ih behind.length (by omega) behind rfl
          refine ⟨found.map (t :: ·), fun pos read => ?_⟩
          rw [toOption_lexFrom_eq, hgap, hskip]
          simp only [Option.map_some, htoken, hfound, Option.map_map]
          congr 1
          funext ts
          simp [tokens]

theorem kinds_nil : kinds [] = some [.eof] := by
  rw [kinds, lexFrom_eq]
  rfl

theorem kinds_trivia {g : List Char} (h : Trivia g) (cs : List Char) : kinds (g ++ cs) = kinds cs := by
  have hskip : lexFrom 0 (g ++ cs) [] = lexFrom (utf8Len g) cs [] := by
    rw [lexFrom_eq, skipGap_trivia h, Nat.zero_add, ← lexFrom_eq]
  rw [kinds, hskip, toOption_lexFrom]
  simp [tokens]

theorem kinds_spells (h : Spells text t) (hrest : Apart t rest) :
    kinds (text ++ rest) = (kinds rest).map (t :: ·) := by
  obtain ⟨c, cs, hcons, hskip, htoken⟩ := h.exists_cons hrest
  have hstep : lexFrom 0 (text ++ rest) [] =
      lexFrom (0 + utf8Len text) rest [⟨t, 0, 0 + utf8Len text⟩] := by
    rw [hcons, lexFrom_eq, hskip]
    simp only [htoken]
  rw [kinds, hstep, toOption_lexFrom]
  simp [tokens]

/-- Behind the lexemes read there come those that the source spells, and its end. -/
theorem exists_lexemes {source : String} {before : List Char} {read ls : List Lexeme}
    (hsource : source.toList = before ++ cs) (hpos : pos = utf8Len before)
    (h : lexFrom pos cs read = .ok ls) :
    ∃ more stop, ls = read.reverse ++ (more ++ [⟨.eof, stop, stop⟩]) ∧
      ∀ l ∈ more, Spells (l.text source).toList l.token := by
  fun_induction lexFrom pos cs read generalizing before with
  | case1 => cases h
  | case2 pos cs read stop =>
    cases h
    exact ⟨[], stop, by simp, by simp⟩
  | case3 => cases h
  | case4 pos cs read start c rest hskip t width behind htoken ih =>
    obtain ⟨g, rfl, hstart⟩ := exists_gap hskip
    obtain ⟨text, hspells, hcons, rfl⟩ := exists_spells htoken
    dsimp only at hstart hsource
    rw [hcons] at hsource
    obtain ⟨more, stop, rfl, hmore⟩ := ih
      (show source.toList = (before ++ g ++ text) ++ behind by simpa using hsource)
      (by simp [hstart, hpos, Nat.add_assoc]) h
    refine ⟨⟨t, start, start + utf8Len text⟩ :: more, stop, by simp, ?_⟩
    have htext : Lexeme.text source ⟨t, start, start + utf8Len text⟩ = String.ofList text := by
      have hsource : source = String.ofList (before ++ g ++ text ++ behind) := by
        rw [List.append_assoc, List.append_assoc, ← hsource, String.ofList_toList]
      rw [Lexeme.text, hstart, hpos, ← String.utf8Len_append, hsource]
      exact String.extract_of_valid (before ++ g) text behind
    rintro l (- | ⟨-, hl⟩)
    · rw [htext, String.toList_ofList]
      exact hspells
    · exact hmore l hl

theorem kinds_relaid {source : String} {ls : List Lexeme} {gaps : List String} {stop : Nat}
    (hls : ∀ l ∈ ls, Spells (l.text source).toList l.token) (hgaps : ∀ gap ∈ gaps, Separates gap)
    (hlength : gaps.length = ls.length) :
    kinds (relaid source (ls ++ [⟨.eof, stop, stop⟩]) gaps).toList = some (tokens ls ++ [.eof]) := by
  induction ls generalizing gaps with
  | nil =>
    obtain rfl := List.length_eq_zero_iff.mp hlength
    exact kinds_nil
  | cons l ls ih =>
    obtain - | ⟨gap, gaps⟩ := gaps
    · cases hlength
    · obtain ⟨htrivia, c, hc, hblank⟩ := hgaps gap (by simp)
      have ih := ih (fun l hl => hls l (by simp [hl]))
        (fun gap hgap => hgaps gap (List.mem_cons_of_mem _ hgap))
        (by simpa using hlength)
      rw [List.cons_append, relaid, String.toList_append, String.toList_append, List.append_assoc,
        kinds_spells (hls l (by simp)), kinds_trivia htrivia, ih]
      · rfl
      · obtain ⟨cs, hcs⟩ := List.head?_eq_some_iff.mp hc
        intro d hd
        rw [hcs] at hd
        obtain rfl := Option.some.inj hd
        exact takes_of_isBlank (isBlank_iff.mpr hblank) _

theorem kinds_of_lex {source : String} {ls : List Lexeme} (h : lex source = .ok ls) :
    kinds source.toList = some (tokens ls) := by
  have hls : lexFrom 0 source.toList [] = .ok ls := h
  rw [kinds, hls]
  rfl

theorem exists_lexemes_of_lex {source : String} {ls : List Lexeme} (h : lex source = .ok ls) :
    ∃ more stop, ls = more ++ [⟨.eof, stop, stop⟩] ∧ ∀ l ∈ more, Spells (l.text source).toList l.token := by
  have hsource : source.toList = [] ++ source.toList := rfl
  exact exists_lexemes hsource rfl h

theorem toOption_parse (source : String) :
    (parse source).toOption = (kinds source.toList).bind parseTokens := by
  unfold parse
  cases h : lex source with
  | error e =>
    have h : lexFrom 0 source.toList [] = .error e := h
    rw [kinds, h]
    rfl
  | ok ls =>
    obtain ⟨more, stop, rfl, -⟩ := exists_lexemes_of_lex h
    rw [kinds_of_lex h]
    exact toOption_parseLexemes (by simp [tokens])

theorem toOption_shape (source : String) :
    (shape source).toOption = (parse source).toOption.bind Shape.ofProgram? := by
  unfold shape
  cases parse source with
  | error e => rfl
  | ok program =>
    cases h : Shape.ofProgram? program with
    | none => simp [Except.toOption, h]
    | some s => simp [Except.toOption, h]

theorem toOption_compile (source : String) :
    (compile source).toOption = (shape source).toOption.bind fun s =>
      idioms.findSome? fun (_, recognize) => recognize s := by
  unfold compile
  cases shape source with
  | error e => rfl
  | ok s =>
    cases h : idioms.findSome? fun (_, recognize) => recognize s with
    | none => simp [Except.toOption, h]
    | some c => simp [Except.toOption, h]

theorem matching_eq (source : String) :
    matching source = match (shape source).toOption with
      | none => []
      | some s => (idioms.filter fun (_, recognize) => (recognize s).isSome).map (·.1) := by
  unfold matching
  cases shape source with
  | error e => rfl
  | ok s => rfl

structure IsName (name : String) : Prop where
  start : ∃ c ∈ name.toList.head?, isIdentStart c
  parts : ∀ c ∈ name.toList, isIdentPart c
  plain : name ∉ ["true", "false", "var", "let", "const", "if", "else"]

theorem IsName.spells {name : String} (h : IsName name) : Spells name.toList (.ident name) := by
  obtain ⟨⟨c, hc, hstart⟩, hparts, hplain⟩ := h
  obtain ⟨cs, hcs⟩ := List.head?_eq_some_iff.mp hc
  have htoken : wordToken name = .ident name := by
    simp only [List.mem_cons, List.not_mem_nil, or_false, not_or] at hplain
    simp [wordToken, hplain]
  have hspells := Spells.word hstart fun d hd => hparts d (by rw [hcs]; exact List.mem_cons_of_mem c hd)
  rwa [← hcs, String.ofList_toList, htoken] at hspells

theorem apart_cons (h : t.takes c = false) : Apart t (c :: rest) := by
  intro d hd
  obtain rfl := Option.some.inj hd
  exact h

theorem trivia_space : Trivia [' '] := .blank (by decide) .nil

theorem spells_var : Spells ['v', 'a', 'r'] .declare := .of_word rfl (List.all_eq_true.mp rfl) rfl

theorem isName_resultName : IsName Shape.resultName :=
  ⟨⟨'$', rfl, rfl⟩, List.all_eq_true.mp rfl, by decide⟩

theorem kinds_bare {name : String} (hname : IsName name) (source : String) :
    kinds ("var " ++ name ++ ";" ++ source).toList =
      (kinds source.toList).map (.declare :: .ident name :: .semicolon :: ·) := by
  have hsource : ("var " ++ name ++ ";" ++ source).toList =
      ['v', 'a', 'r'] ++ ([' '] ++ (name.toList ++ ([';'] ++ source.toList))) := by
    simp [String.toList_append]
  have hsemicolon : Spells [';'] .semicolon := .mark (by decide)
  rw [hsource, kinds_spells spells_var, kinds_trivia trivia_space, kinds_spells hname.spells,
    kinds_spells hsemicolon]
  · simp only [Option.map_map]
    rfl
  · exact fun _ _ => rfl
  · exact apart_cons rfl
  · exact apart_cons rfl

theorem kinds_assign {name : String} (hname : IsName name) (source : String) :
    kinds (name ++ " = " ++ source).toList = (kinds source.toList).map (.ident name :: .assign :: ·) := by
  have hsource : (name ++ " = " ++ source).toList =
      name.toList ++ ([' '] ++ (['='] ++ ([' '] ++ source.toList))) := by
    simp [String.toList_append]
  have hassign : Spells ['='] .assign := .mark (by decide)
  rw [hsource, kinds_spells hname.spells, kinds_trivia trivia_space, kinds_spells hassign,
    kinds_trivia trivia_space]
  · simp only [Option.map_map]
    rfl
  · exact apart_cons rfl
  · exact apart_cons rfl

theorem kinds_var (source : String) :
    kinds ("var " ++ source).toList = (kinds source.toList).map (.declare :: ·) := by
  have hsource : ("var " ++ source).toList = ['v', 'a', 'r'] ++ ([' '] ++ source.toList) := by
    simp [String.toList_append]
  rw [hsource, kinds_spells spells_var, kinds_trivia trivia_space]
  exact apart_cons rfl

theorem getLast?_tokens {source : String} {ls : List Lexeme} (h : lex source = .ok ls) :
    (tokens ls).getLast? = some .eof := by
  obtain ⟨more, stop, rfl, -⟩ := exists_lexemes_of_lex h
  simp [tokens]

theorem exists_lex_of_kinds {source : String} {ts : List Token} (h : kinds source.toList = some ts) :
    ∃ ls, lex source = .ok ls ∧ tokens ls = ts := by
  obtain ⟨ls, hls, hts⟩ := Option.map_eq_some_iff.mp h
  exact ⟨ls, toOption_eq_some.mp hls, hts⟩

theorem toOption_compile_bare {name : String} (hname : IsName name) (source : String) :
    (compile ("var " ++ name ++ ";" ++ source)).toOption = (compile source).toOption := by
  have hparse : (parse ("var " ++ name ++ ";" ++ source)).toOption =
      (parse source).toOption.map (.declare name none :: ·) := by
    rw [toOption_parse, toOption_parse, kinds_bare hname]
    cases hkinds : kinds source.toList with
    | none => rfl
    | some ts =>
      obtain ⟨ls, hls, rfl⟩ := exists_lex_of_kinds hkinds
      exact parseTokens_bare name (getLast?_tokens hls)
  rw [toOption_compile, toOption_compile, toOption_shape, toOption_shape, hparse]
  cases (parse source).toOption with
  | none => rfl
  | some program => rfl

theorem compile_eq_of_parse {source source' : String} {program program' : List Stmt}
    (h : parse source = .ok program) (h' : parse source' = .ok program')
    (hresult : Shape.ofProgram? program = Shape.ofProgram? program') :
    compile source = compile source' := by
  have hshape : shape source = shape source' := by
    simp only [shape, h, h', hresult]
  simp only [compile, hshape]

theorem parse_of_kinds {source : String} {ts : List Token} {program : List Stmt}
    (hkinds : kinds source.toList = some ts) (h : parseTokens ts = some program) :
    parse source = .ok program := by
  rw [← toOption_eq_some, toOption_parse, hkinds]
  exact h

theorem compile_named {source : String} {ls : List Lexeme} {e : Expr} (hls : lex source = .ok ls)
    (hparse : parse source = .ok [.expr e]) (hpeek : (peek ls).token ≠ .semicolon) :
    compile ("$bm_rt = " ++ source) = compile source ∧
      compile ("var $bm_rt = " ++ source) = compile source := by
  have hkinds := kinds_of_lex hls
  have htokens : parseTokens (tokens ls) = some [.expr e] := by
    have hparse := toOption_eq_some.mpr hparse
    rwa [toOption_parse, hkinds] at hparse
  have hpeek' : (peek (placed (tokens ls))).token ≠ .semicolon := by
    cases ls with
    | nil => nofun
    | cons l ls => exact hpeek
  obtain ⟨hassign, hdeclare⟩ :=
    parseTokens_named Shape.resultName (getLast?_tokens hls) hpeek' htokens
  have hassigned := kinds_assign isName_resultName source
  have hdeclared := kinds_var (Shape.resultName ++ " = " ++ source)
  rw [hassigned, hkinds] at hdeclared
  rw [hkinds] at hassigned
  have happend : "var " ++ (Shape.resultName ++ " = " ++ source) = "var $bm_rt = " ++ source := by
    rw [← String.append_assoc, ← String.append_assoc]
    rfl
  rw [happend] at hdeclared
  exact ⟨compile_eq_of_parse (parse_of_kinds hassigned hassign) hparse rfl,
    compile_eq_of_parse (parse_of_kinds hdeclared hdeclare) hparse rfl⟩

/-- What a source is compiled to depends neither on its layout, nor on declarations without a value in
front of it, nor on whether the expression that it is is given to the result by name. -/
theorem respelling_keeps_compile (source : String) :
    (∀ ls first gaps, lex source = .ok ls → Trivia first.toList → (∀ gap ∈ gaps, Separates gap) →
        gaps.length + 1 = ls.length →
        (∃ ls', lex (first ++ relaid source ls gaps) = .ok ls' ∧ tokens ls' = tokens ls) ∧
          (compile (first ++ relaid source ls gaps)).toOption = (compile source).toOption ∧
          matching (first ++ relaid source ls gaps) = matching source) ∧
      (∀ name, IsName name →
        (compile ("var " ++ name ++ ";" ++ source)).toOption = (compile source).toOption) ∧
      ∀ ls e, lex source = .ok ls → parse source = .ok [.expr e] → (peek ls).token ≠ .semicolon →
        compile ("$bm_rt = " ++ source) = compile source ∧
          compile ("var $bm_rt = " ++ source) = compile source := by
  refine ⟨?_, fun name hname => toOption_compile_bare hname source, fun ls e => compile_named⟩
  intro ls first gaps hls hfirst hgaps hlength
  obtain ⟨more, stop, rfl, hmore⟩ := exists_lexemes_of_lex hls
  have hkinds : kinds (first ++ relaid source (more ++ [⟨.eof, stop, stop⟩]) gaps).toList =
      kinds source.toList := by
    rw [String.toList_append, kinds_trivia hfirst, kinds_relaid hmore hgaps (by simpa using hlength),
      kinds_of_lex hls]
    simp [tokens]
  have hshape := (toOption_shape source).symm
  rw [toOption_parse, ← hkinds, ← toOption_parse, ← toOption_shape] at hshape
  refine ⟨exists_lex_of_kinds (hkinds.trans (kinds_of_lex hls)), ?_, ?_⟩
  · rw [toOption_compile, toOption_compile, hshape]
  · rw [matching_eq, matching_eq, hshape]

def markSource : String := "thisComp.layer('02092020').effect('m')('x')"

def markLexemes : List Lexeme :=
  [⟨.ident "thisComp", 0, 8⟩, ⟨.dot, 8, 9⟩, ⟨.ident "layer", 9, 14⟩, ⟨.leftParen, 14, 15⟩,
    ⟨.text "02092020", 15, 25⟩, ⟨.rightParen, 25, 26⟩, ⟨.dot, 26, 27⟩, ⟨.ident "effect", 27, 33⟩,
    ⟨.leftParen, 33, 34⟩, ⟨.text "m", 34, 37⟩, ⟨.rightParen, 37, 38⟩, ⟨.leftParen, 38, 39⟩,
    ⟨.text "x", 39, 42⟩, ⟨.rightParen, 42, 43⟩, ⟨.eof, 43, 43⟩]

def markGaps : List String := List.replicate 13 "\n" ++ [" // */ é\n/* // **/"]

theorem separates_markGaps : ∀ gap ∈ markGaps, Separates gap := by
  intro gap hgap
  obtain ⟨-, rfl⟩ | rfl : (13 ≠ 0 ∧ gap = "\n") ∨ gap = " // */ é\n/* // **/" := by
    simpa [markGaps] using hgap
  · exact ⟨.blank (by decide) .nil, '\n', rfl, by decide⟩
  · have hblock : Trivia ('/' :: '*' :: (" // *".toList ++ '*' :: '/' :: [])) := .block (by decide) .nil
    have hline : Trivia ('/' :: '/' :: (" */ é".toList ++ '\n' :: _)) := .line (by decide) hblock
    exact ⟨.blank (by decide) hline, ' ', rfl, by decide⟩

theorem respelling_keeps_compile_of_mark :
    lex markSource = .ok markLexemes ∧
      (compile ("/* */" ++ relaid markSource markLexemes markGaps)).toOption = some .watermark ∧
      matching ("/* */" ++ relaid markSource markLexemes markGaps) = [.watermark] ∧
      (compile ("var " ++ "$x" ++ ";" ++ markSource)).toOption = some .watermark ∧
      compile ("$bm_rt = " ++ markSource) = .ok .watermark ∧
      compile ("var $bm_rt = " ++ markSource) = .ok .watermark := by
  have hlex : lex markSource = .ok markLexemes := by cbv
  have hmark : compile markSource = .ok .watermark := by cbv
  have hmatching : matching markSource = [.watermark] := by cbv
  have hparse : parse markSource = .ok [.expr (.call (.call (.member (.call
      (.member (.ident "thisComp") "layer") [.text "02092020"]) "effect") [.text "m"]) [.text "x"])] := by
    cbv
  have hfirst : Trivia ('/' :: '*' :: (" ".toList ++ '*' :: '/' :: [])) := .block (by decide) .nil
  obtain ⟨hlayout, hbare, hnamed⟩ := respelling_keeps_compile markSource
  obtain ⟨-, hcompile, hmatches⟩ := hlayout markLexemes "/* */" markGaps hlex hfirst separates_markGaps rfl
  obtain ⟨hassigned, hdeclared⟩ := hnamed markLexemes _ hlex hparse (by decide)
  refine ⟨hlex, ?_, hmatches.trans hmatching, ?_, hassigned.trans hmark, hdeclared.trans hmark⟩
  · rw [hcompile, hmark]
    rfl
  · rw [hbare "$x" ⟨⟨'$', rfl, rfl⟩, List.all_eq_true.mp rfl, by decide⟩, hmark]
    rfl

end IconMotion.Expression
