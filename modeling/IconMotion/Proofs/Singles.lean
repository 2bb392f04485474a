import IconMotion.Expression.Evaluation

namespace IconMotion.Expression

namespace Value

inductive Equivalent : Value → Value → Prop
  | refl (v : Value) : Equivalent v v
  | number (x : Float) : Equivalent (number x) (vector [x])
  | vector (x : Float) : Equivalent (vector [x]) (number x)

inductive EquivalentOutcome : Except EvalError Value → Except EvalError Value → Prop
  | ok {u v : Value} (h : Equivalent u v) : EquivalentOutcome (.ok u) (.ok v)
  | error (e : EvalError) : EquivalentOutcome (.error e) (.error e)

variable {u u' v v' : Value}

theorem Equivalent.scalar?_eq (h : Equivalent u v) : u.scalar? = v.scalar? := by
  cases h with
  | refl | number | vector => rfl

theorem Equivalent.eq_of_scalar?_eq_none (h : Equivalent u v) (hu : u.scalar? = none) : u = v := by
  cases h with
  | refl => rfl
  | number | vector => cases hu

theorem mul_congr (hu : Equivalent u u') (hv : Equivalent v v') : u.mul v = u'.mul v' := by
  have hscalar := hu.scalar?_eq
  have hscalar' := hv.scalar?_eq
  unfold mul
  rw [← hscalar, ← hscalar']
  cases hx : u.scalar? with
  | some x =>
    cases hy : v.scalar? with
    | some y => rfl
    | none => rw [hv.eq_of_scalar?_eq_none hy]
  | none =>
    obtain rfl := hu.eq_of_scalar?_eq_none hx
    cases hy : v.scalar? with
    | some y => rfl
    | none => rfl

theorem div_congr (hu : Equivalent u u') (hv : Equivalent v v') : u.div v = u'.div v' := by
  have hscalar := hu.scalar?_eq
  unfold div
  rw [← hv.scalar?_eq, ← hscalar]
  cases hx : u.scalar? with
  | some x => rfl
  | none => rw [hu.eq_of_scalar?_eq_none hx]

/-- A computation that treats equivalent values alike has one outcome behind equivalent outcomes. -/
theorem EquivalentOutcome.bind_eq {a b : Except EvalError Value} {f g : Value → Except EvalError Value}
    (h : EquivalentOutcome a b) (hfg : ∀ {u v : Value}, Equivalent u v → f u = g v) :
    a >>= f = b >>= g := by
  cases h with
  | ok huv => exact hfg huv
  | error e => rfl

end Value

structure Context.Equivalent (ctx ctx' : Context) : Prop where
  value : Value.EquivalentOutcome ctx.value ctx'.value
  channel (r : Reference) : Value.EquivalentOutcome (ctx.channel r) (ctx'.channel r)
  mul : ctx.mul = Value.mul := by rfl
  mul' : ctx'.mul = Value.mul := by rfl
  div : ctx.div = Value.div := by rfl
  div' : ctx'.div = Value.div := by rfl

def computing : List Idiom := [.scaledStroke, .menuSwitch, .legacyScaled, .legacyScale]

/-- An expression that computes has the same outcome in contexts with equivalent answers, also if that
is an error. -/
theorem evaluate_eq_of_equivalent {c : Compiled} {ctx ctx' : Context} (hc : c.idiom ∈ computing)
    (h : ctx.Equivalent ctx') : c.evaluate ctx = c.evaluate ctx' := by
  obtain ⟨hvalue, hchannel, hmul, hmul', hdiv, hdiv'⟩ := h
  cases c with
  | scaledStroke divisor r =>
    simp only [Compiled.evaluate, hmul, hmul', hdiv, hdiv']
    refine hvalue.bind_eq fun huv => ?_
    rw [Value.div_congr huv (.refl (.number divisor))]
    refine congrArg _ (funext fun scaled => ?_)
    exact (hchannel r).bind_eq fun hstroke => Value.mul_congr (.refl scaled) hstroke
  | menuSwitch r threshold whenEqual otherwise =>
    simp only [Compiled.evaluate]
    refine (hchannel r).bind_eq fun huv => ?_
    rw [huv.scalar?_eq]
  | legacyScaled r factor =>
    simp only [Compiled.evaluate, hmul, hmul']
    exact (hchannel r).bind_eq fun huv => Value.mul_congr huv (.refl (.number factor))
  | legacyScale r =>
    simp only [Compiled.evaluate]
    refine (hchannel r).bind_eq fun huv => ?_
    rw [huv.scalar?_eq]
  | compColor | legacyAxis | legacyColor | watermark => simp [Compiled.idiom, computing] at hc

def strokeReference : Reference := ⟨.named "icon", "Controls", .name "Stroke", "Slider"⟩

theorem evaluate_eq_of_equivalent_on_stroke :
    (Compiled.scaledStroke 4.0 strokeReference).evaluate
        { channel := fun _ => .ok (.vector [3.0]), value := .ok (.number 6.0) } =
      (Compiled.scaledStroke 4.0 strokeReference).evaluate
        { channel := fun _ => .ok (.number 3.0), value := .ok (.vector [6.0]) } ∧
    (Compiled.scaledStroke 4.0 strokeReference).evaluate
        { channel := fun _ => .ok (.number 3.0), value := .ok (.vector [6.0]) } =
      .ok (.number 4.5) := by
  refine ⟨evaluate_eq_of_equivalent (by decide) ?_, rfl⟩
  exact { value := .ok (.number 6.0), channel := fun _ => .ok (.vector 3.0) }

end IconMotion.Expression
