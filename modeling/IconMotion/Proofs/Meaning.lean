import IconMotion.Expression.Evaluation
import IconMotion.Proofs.Idioms

namespace IconMotion.Expression

/-- What a value means as a scale: the same in both directions. -/
def Value.both (channel : String) : Value → Except EvalError Value
  | .number x => .ok (.vector [x, x])
  | .vector [x] => .ok (.vector [x, x])
  | .vector _ => .error (.typeMismatch (.notScalar channel))

def Value.matches (x : Float) : Value → Bool
  | .number y => y == x
  | .vector [y] => y == x
  | .vector _ => false

def Reference.IsScale (r : Reference) : Prop :=
  r.composition = .this ∧ r.layer ≠ watermarkLayer ∧ r.effect = .name "Scale" ∧ r.channel = "Slider"

def Reference.IsMark (r : Reference) : Prop := r.composition = .this ∧ r.layer = watermarkLayer

def Context.function? (ctx : Context) : String → Option (Value → Value → Except EvalError Value)
  | "$bm_mul" => some ctx.mul
  | "$bm_div" => some ctx.div
  | _ => none

inductive Expr.Means (ctx : Context) : Expr → Except EvalError Value → Prop
  | value : Means ctx (.ident "value") ctx.value
  | number (x : Float) : Means ctx (.number x) (.ok (.number x))
  | call {name : String} {f : Value → Value → Except EvalError Value} {a b : Expr}
      {u v : Except EvalError Value} (hf : ctx.function? name = some f) (ha : Means ctx a u)
      (hb : Means ctx b v) : Means ctx (.call (.ident name) [a, b]) (do f (← u) (← v))
  | channel {e : Expr} {r : Reference} (hr : Refers e r) : Means ctx e (ctx.channel r)

/-- The outcome that a result has in a context. Two references do not mean their channel when they are
the whole result. -/
inductive Shape.Means (ctx : Context) : Shape → Except EvalError Value → Prop
  | value {e : Expr} {v : Except EvalError Value} (hv : e.Means ctx v)
      (hplain : ∀ r, Refers e r → ¬ r.IsScale ∧ ¬ r.IsMark) : Means ctx (.value e) v
  | scale {e : Expr} {r : Reference} (hr : Refers e r) (hscale : r.IsScale) :
      Means ctx (.value e) (do (← ctx.channel r).both r.channel)
  | mark {e : Expr} {r : Reference} (hr : Refers e r) (hmark : r.IsMark) :
      Means ctx (.value e) (.ok (.number 0.0))
  | choice {e a b : Expr} {r : Reference} {x : Float} {u v : Except EvalError Value} (hr : Refers e r)
      (hu : a.Means ctx u) (hv : b.Means ctx v) :
      Means ctx (.choice (.binary .eq e (.number x)) a b)
        (do if (← ctx.channel r).matches x then u else v)

inductive Yields : Stmt → Shape → Prop
  | expr (e : Expr) : Yields (.expr e) (.value e)
  | assign (e : Expr) : Yields (.assign "$bm_rt" e) (.value e)
  | declare (e : Expr) : Yields (.declare "$bm_rt" (some e)) (.value e)
  | branch (condition a b : Expr) :
      Yields (.branch condition [.assign "$bm_rt" a] [.assign "$bm_rt" b]) (.choice condition a b)

variable {ctx : Context} {e : Expr} {s : Shape} {c : Compiled} {v w : Except EvalError Value}

theorem Expr.Means.unique (hv : e.Means ctx v) (hw : e.Means ctx w) : v = w := by
  induction hv generalizing w with
  | value =>
    cases hw with
    | value => rfl
    | channel hr => nomatch hr
  | number x =>
    cases hw with
    | number => rfl
    | channel hr => nomatch hr
  | call hf ha hb iha ihb =>
    cases hw with
    | call hf' ha' hb' =>
      obtain rfl := Option.some.inj (hf.symm.trans hf')
      rw [iha ha', ihb hb']
    | channel hr => nomatch hr
  | channel hr =>
    cases hw with
    | value => nomatch hr
    | number => nomatch hr
    | call => nomatch hr
    | channel hr' => rw [hr.unique hr']

theorem Reference.IsScale.not_isMark {r : Reference} (h : r.IsScale) : ¬ r.IsMark :=
  fun hmark => h.2.1 hmark.2

theorem Shape.Means.unique (hv : s.Means ctx v) (hw : s.Means ctx w) : v = w := by
  cases hv with
  | value hv hplain =>
    cases hw with
    | value hw _ => exact hv.unique hw
    | scale hr hscale => exact ((hplain _ hr).1 hscale).elim
    | mark hr hmark => exact ((hplain _ hr).2 hmark).elim
  | scale hr hscale =>
    cases hw with
    | value _ hplain => exact ((hplain _ hr).1 hscale).elim
    | scale hr' _ => rw [hr.unique hr']
    | mark hr' hmark => exact (hscale.not_isMark (hr.unique hr' ▸ hmark)).elim
  | mark hr hmark =>
    cases hw with
    | value _ hplain => exact ((hplain _ hr).2 hmark).elim
    | scale hr' hscale => exact (hscale.not_isMark (hr.unique hr' ▸ hmark)).elim
    | mark => rfl
  | choice hr hu hv =>
    cases hw with
    | choice hr' hu' hv' => rw [hr.unique hr', hu.unique hu', hv.unique hv']

theorem Value.any_scalar?_eq_matches (x : Float) (v : Value) :
    v.scalar?.any (· == x) = v.matches x := by
  rcases v with y | (- | ⟨y, - | ⟨z, ys⟩⟩) <;> rfl

theorem Value.both_eq (channel : String) (v : Value) :
    v.both channel = match v.scalar? with
      | some x => .ok (.vector [x, x])
      | none => .error (.typeMismatch (.notScalar channel)) := by
  rcases v with y | (- | ⟨y, - | ⟨z, ys⟩⟩) <;> rfl

theorem means_channel {r : Reference} (hr : Refers e r) (hscale : ¬ r.IsScale) (hmark : ¬ r.IsMark) :
    (Shape.value e).Means ctx (ctx.channel r) :=
  .value (.channel hr) fun r' hr' => by rw [← hr.unique hr']; exact ⟨hscale, hmark⟩

theorem means_call {name : String} {args : List Expr} (h : (Expr.call (.ident name) args).Means ctx v) :
    (Shape.value (.call (.ident name) args)).Means ctx v :=
  .value h fun _ hr => nomatch hr

theorem Reference.composition_eq_this {r : Reference} : r.composition = .this ↔ r.isForeign = false := by
  unfold isForeign
  cases r.composition <;> simp

/-- What is compiled has the outcome that its result means. -/
theorem InIdiom.means_evaluate (h : InIdiom s c) (ctx : Context) : s.Means ctx (c.evaluate ctx) := by
  cases h with
  | compColor hr hforeign hnamed hchannel =>
    refine means_channel hr (fun h => ?_) (fun h => ?_)
    · simp [Reference.composition_eq_this.mp h.1] at hforeign
    · simp [Reference.composition_eq_this.mp h.1] at hforeign
  | @scaledStroke e r divisor hdivisor hr hforeign hnamed =>
    refine means_call ?_
    have hquotient : (Expr.call (.ident "$bm_div") [.ident "value", .number divisor]).Means ctx
        (ctx.value >>= fun v => ctx.div v (.number divisor)) := .call rfl .value (.number divisor)
    have hproduct := Expr.Means.call (show ctx.function? "$bm_mul" = some ctx.mul from rfl) hquotient
      (.channel hr)
    rw [bind_assoc] at hproduct
    exact hproduct
  | @menuSwitch e r threshold whenEqual otherwise _ _ _ hr =>
    have hwhenEqual : (Expr.number whenEqual).Means ctx _ := .number whenEqual
    have hotherwise : (Expr.number otherwise).Means ctx _ := .number otherwise
    have hchoice := Shape.Means.choice (x := threshold) hr hwhenEqual hotherwise
    simp only [← Value.any_scalar?_eq_matches] at hchoice
    exact hchoice
  | @legacyScaled e r factor hr =>
    have hfactor : (Expr.number factor).Means ctx _ := .number factor
    exact means_call (.call (show ctx.function? "$bm_mul" = some ctx.mul from rfl) (.channel hr) hfactor)
  | @legacyScale e r hr hforeign hlayer heffect hchannel =>
    have hscale : (Shape.value e).Means ctx _ :=
      .scale hr ⟨Reference.composition_eq_this.mpr hforeign, hlayer, heffect, hchannel⟩
    simp only [Value.both_eq] at hscale
    exact hscale
  | legacyAxis hr hforeign hlayer heffect hchannel =>
    refine means_channel hr (fun h => ?_) (fun h => hlayer h.2)
    exact absurd (hchannel.symm.trans h.2.2.2) (by decide)
  | legacyColor hr hforeign hnamed hlayer hchannel =>
    refine means_channel hr (fun h => ?_) (fun h => hlayer h.2)
    exact absurd (hchannel.symm.trans h.2.2.2) (by decide)
  | watermark hr hforeign hnamed hlayer =>
    exact .mark hr ⟨Reference.composition_eq_this.mpr hforeign, hlayer⟩

theorem assigned?_eq_some {branch : List Stmt} :
    Shape.assigned? branch = some e ↔ branch = [.assign Shape.resultName e] := by
  unfold Shape.assigned?
  split
  next name e' => by_cases hname : name = Shape.resultName <;> simp [hname]
  next hno =>
    constructor
    · exact nofun
    · exact fun he => (hno _ _ he).elim

theorem yields_of_ofStmt? {s : Stmt} {result : Shape} (h : Shape.ofStmt? s = some result) :
    Yields s result := by
  cases s with
  | expr e =>
    cases h
    exact .expr e
  | assign name e =>
    have h : (if name = Shape.resultName then some (Shape.value e) else none) = some result := h
    split at h
    next hname =>
      cases h
      exact hname ▸ .assign e
    next => cases h
  | declare name value =>
    cases value with
    | none => cases h
    | some e =>
      have h : (if name = Shape.resultName then some (Shape.value e) else none) = some result := h
      split at h
      next hname =>
        cases h
        exact hname ▸ .declare e
      next => cases h
  | branch condition thens elses =>
    obtain ⟨a, ha, h⟩ := Option.bind_eq_some_iff.mp h
    obtain ⟨b, hb, h⟩ := Option.bind_eq_some_iff.mp h
    cases h
    obtain rfl := assigned?_eq_some.mp ha
    obtain rfl := assigned?_eq_some.mp hb
    exact .branch condition a b

theorem exists_yields_of_shape {source : String} (h : shape source = .ok s) :
    ∃ program stmt, parse source = .ok program ∧
      program.filter (fun t => !Shape.isBare t) = [stmt] ∧ Yields stmt s := by
  unfold shape at h
  split at h
  · cases h
  next program hparse =>
    split at h
    next result hresult =>
      cases h
      unfold Shape.ofProgram? at hresult
      split at hresult
      next stmt hfilter => exact ⟨program, stmt, hparse, hfilter, yields_of_ofStmt? hresult⟩
      next => cases hresult
    next => cases h

/-- A compiled source is one statement with one result, bare declarations aside, and evaluating it has
the outcome that this result means, and no other. -/
theorem compile_preserves_meaning {source : String} {c : Compiled} (h : compile source = .ok c) :
    ∃ program stmt result, parse source = .ok program ∧
      program.filter (fun t => !Shape.isBare t) = [stmt] ∧ Yields stmt result ∧
      ∀ ctx v, result.Means ctx v ↔ v = c.evaluate ctx := by
  obtain ⟨result, hshape, hidiom⟩ := compile_eq_ok.mp h
  obtain ⟨program, stmt, hparse, hfilter, hyields⟩ := exists_yields_of_shape hshape
  refine ⟨program, stmt, result, hparse, hfilter, hyields, fun ctx v => ⟨fun hv => ?_, ?_⟩⟩
  · exact hv.unique (hidiom.means_evaluate ctx)
  · rintro rfl
    exact hidiom.means_evaluate ctx

def scaleSource : String := "var $bm_rt;\n$bm_rt = thisComp.layer('ctrl').effect('Scale')('Slider');"

theorem compile_preserves_meaning_of_scale :
    compile scaleSource = .ok (.legacyScale ⟨.this, "ctrl", .name "Scale", "Slider"⟩) ∧
      ∃ program stmt result, parse scaleSource = .ok program ∧
        program.filter (fun t => !Shape.isBare t) = [stmt] ∧ Yields stmt result ∧
        ∀ ctx v, result.Means ctx v ↔
          v = (Compiled.legacyScale ⟨.this, "ctrl", .name "Scale", "Slider"⟩).evaluate ctx := by
  have h : compile scaleSource = .ok (.legacyScale ⟨.this, "ctrl", .name "Scale", "Slider"⟩) := by cbv
  exact ⟨h, compile_preserves_meaning h⟩

end IconMotion.Expression
