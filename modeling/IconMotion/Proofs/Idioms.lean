import IconMotion.Proofs.Exclusion
import IconMotion.Proofs.WholeNumbers

namespace IconMotion.Expression

open Precision (Stands)

inductive Roots : Expr → Composition → Prop
  | this : Roots (.ident "thisComp") .this
  | named (name : String) : Roots (.call (.ident "comp") [.text name]) (.named name)

/-- An expression that names an effect, or numbers it. Numbers beyond the last are the last. -/
inductive Selects : Expr → Selector → Prop
  | name (s : String) : Selects (.text s) (.name s)
  | index {x : Float} {n : Nat} (hx : Stands x n) (hn : 1 ≤ n) :
      Selects (.number x) (.index (min n (2 ^ 64 - 1)))

inductive Refers : Expr → Reference → Prop
  | chain {root selector : Expr} {composition : Composition} {effect : Selector}
      (layer channel : String) (hroot : Roots root composition) (heffect : Selects selector effect) :
      Refers
        (.call (.call (.member (.call (.member root "layer") [.text layer]) "effect") [selector])
          [.text channel])
        ⟨composition, layer, effect, channel⟩

namespace Expr

theorem call?_eq_some {e : Expr} {name : String} {args : List Expr} :
    e.call? name = some args ↔ e = .call (.ident name) args := by
  unfold call?
  split
  next f args' =>
    by_cases hf : f = name
    · simp [hf]
    · simp [hf]
  next hno =>
    constructor
    · exact nofun
    · exact fun he => (hno _ _ he).elim

theorem composition?_eq_some {e : Expr} {composition : Composition} :
    e.composition? = some composition ↔ Roots e composition := by
  constructor
  · intro h
    unfold composition? at h
    split at h
    next name =>
      split at h
      next hname =>
        cases h
        exact hname ▸ .this
      next => cases h
    next hident =>
      split at h
      next name hcall =>
        cases h
        exact call?_eq_some.mp hcall ▸ .named name
      next => cases h
  · rintro (_ | name)
    · rfl
    · rfl

theorem positive?_eq_some {e : Expr} {x : Float} :
    e.positive? = some x ↔ e = .number x ∧ 0.0 ≤ x := by
  unfold positive?
  rw [Option.filter_eq_some_iff, decide_eq_true_eq]
  refine and_congr_left fun _ => ?_
  cases e <;> simp [number?]

theorem whole?_eq_some {e : Expr} {x : Float} :
    e.whole? = some x ↔ e = .number x ∧ ∃ n, Stands x n := by
  unfold whole?
  rw [Option.filter_eq_some_iff, positive?_eq_some]
  constructor
  · rintro ⟨⟨rfl, hpos⟩, hwhole⟩
    exact ⟨rfl, Precision.exists_stands hpos hwhole⟩
  · rintro ⟨rfl, n, hn⟩
    exact ⟨⟨rfl, hn.zero_le⟩, hn.isWhole⟩

theorem selector?_eq_some {e : Expr} {effect : Selector} :
    e.selector? = some effect ↔ Selects e effect := by
  constructor
  · intro h
    unfold selector? at h
    split at h
    next s hs =>
      cases h
      cases e <;> cases hs
      exact .name _
    next =>
      obtain ⟨x, hx, rfl⟩ := Option.map_eq_some_iff.mp h
      obtain ⟨hx, hone⟩ := Option.filter_eq_some_iff.mp hx
      obtain ⟨rfl, n, hn⟩ := whole?_eq_some.mp hx
      rw [Precision.toUInt64_of_stands hn]
      exact .index hn (hn.one_le.mp (of_decide_eq_true hone))
  · rintro (s | ⟨hx, hn⟩)
    · rfl
    next x n =>
      have hwhole : (Expr.number x).whole? = some x := whole?_eq_some.mpr ⟨rfl, n, hx⟩
      simp [selector?, text?, hwhole, hx.one_le.mpr hn, Precision.toUInt64_of_stands hx]

theorem reference?_eq_some {e : Expr} {r : Reference} : e.reference? = some r ↔ Refers e r := by
  constructor
  · intro h
    unfold reference? at h
    split at h
    next callee channel =>
      obtain ⟨⟨object, selector⟩, hmethod, h⟩ := Option.bind_eq_some_iff.mp h
      obtain ⟨effect, heffect, h⟩ := Option.bind_eq_some_iff.mp h
      obtain ⟨⟨root, arg⟩, hlayer, h⟩ := Option.bind_eq_some_iff.mp h
      obtain ⟨layer, hname, h⟩ := Option.bind_eq_some_iff.mp h
      obtain ⟨composition, hroot, h⟩ := Option.bind_eq_some_iff.mp h
      cases h
      obtain rfl := method?_eq_some.mp hmethod
      obtain rfl := method?_eq_some.mp hlayer
      cases arg <;> cases hname
      exact .chain _ _ (composition?_eq_some.mp hroot) (selector?_eq_some.mp heffect)
    next => cases h
  · rintro ⟨layer, channel, hroot, heffect⟩
    have hroot := composition?_eq_some.mpr hroot
    have heffect := selector?_eq_some.mpr heffect
    simp [reference?, method?, text?, hroot, heffect]

end Expr

theorem Refers.unique {e : Expr} {r r' : Reference} (h : Refers e r) (h' : Refers e r') : r = r' :=
  Option.some.inj ((Expr.reference?_eq_some.mpr h).symm.trans (Expr.reference?_eq_some.mpr h'))

/-- The results that are in an idiom, with what they are compiled to. -/
inductive InIdiom : Shape → Compiled → Prop
  | compColor {e : Expr} {r : Reference} (hr : Refers e r) (hforeign : r.isForeign = true)
      (hnamed : r.isNamed = true) (hchannel : r.channel = "Color") :
      InIdiom (.value e) (.compColor r)
  | scaledStroke {e : Expr} {r : Reference} {divisor : Float} (hdivisor : 0.0 ≤ divisor)
      (hr : Refers e r) (hforeign : r.isForeign = true) (hnamed : r.isNamed = true) :
      InIdiom
        (.value (.call (.ident "$bm_mul")
          [.call (.ident "$bm_div") [.ident "value", .number divisor], e]))
        (.scaledStroke divisor r)
  | menuSwitch {e : Expr} {r : Reference} {threshold whenEqual otherwise : Float} {n a b : Nat}
      (hr : Refers e r) (hforeign : r.isForeign = false) (hnamed : r.isNamed = true)
      (hchannel : r.channel = "Menu") (hthreshold : Stands threshold n)
      (hwhenEqual : Stands whenEqual a) (hotherwise : Stands otherwise b) :
      InIdiom (.choice (.binary .eq e (.number threshold)) (.number whenEqual) (.number otherwise))
        (.menuSwitch r threshold whenEqual otherwise)
  | legacyScaled {e : Expr} {r : Reference} {factor : Float} (hr : Refers e r)
      (hforeign : r.isForeign = false) (hfactor : 0.0 ≤ factor) :
      InIdiom (.value (.call (.ident "$bm_mul") [e, .number factor])) (.legacyScaled r factor)
  | legacyScale {e : Expr} {r : Reference} (hr : Refers e r) (hforeign : r.isForeign = false)
      (hlayer : r.layer ≠ watermarkLayer) (heffect : r.effect = .name "Scale")
      (hchannel : r.channel = "Slider") : InIdiom (.value e) (.legacyScale r)
  | legacyAxis {e : Expr} {r : Reference} (hr : Refers e r) (hforeign : r.isForeign = false)
      (hlayer : r.layer ≠ watermarkLayer) (heffect : r.effect = .name "Axis")
      (hchannel : r.channel = "Point") : InIdiom (.value e) (.legacyAxis r)
  | legacyColor {e : Expr} {r : Reference} (hr : Refers e r) (hforeign : r.isForeign = false)
      (hnamed : r.isNamed = true) (hlayer : r.layer ≠ watermarkLayer) (hchannel : r.channel = "Color") :
      InIdiom (.value e) (.legacyColor r)
  | watermark {e : Expr} {r : Reference} (hr : Refers e r) (hforeign : r.isForeign = false)
      (hnamed : r.isNamed = true) (hlayer : r.layer = watermarkLayer) : InIdiom (.value e) .watermark

namespace Shape

variable {s : Shape} {c : Compiled} {r : Reference}

theorem reference?_eq_some : s.reference? = some r ↔ ∃ e, s = value e ∧ Refers e r := by
  cases s with
  | value e => simp [reference?, Expr.reference?_eq_some]
  | choice => simp [reference?]

theorem legacy?_eq_some : s.legacy? = some r ↔ (∃ e, s = value e ∧ Refers e r) ∧
    r.isForeign = false ∧ r.isNamed = true ∧ r.layer ≠ watermarkLayer := by
  unfold legacy?
  rw [Option.filter_eq_some_iff, reference?_eq_some]
  simp [and_assoc]

theorem inIdiom_of_compColor? (h : s.compColor? = some c) : InIdiom s c := by
  obtain ⟨r, hr, rfl⟩ := Option.map_eq_some_iff.mp h
  obtain ⟨hreference, hform⟩ := Option.filter_eq_some_iff.mp hr
  obtain ⟨e, rfl, hrefers⟩ := reference?_eq_some.mp hreference
  simp only [Bool.and_eq_true, decide_eq_true_eq] at hform
  exact .compColor hrefers hform.1.1 hform.1.2 hform.2

theorem inIdiom_of_scaledStroke? (h : s.scaledStroke? = some c) : InIdiom s c := by
  unfold scaledStroke? at h
  split at h
  next e =>
    split at h
    next scaled referenced hproduct =>
      split at h
      next name divisor hquotient =>
        split at h
        next hname =>
          obtain ⟨x, hx, h⟩ := Option.bind_eq_some_iff.mp h
          obtain ⟨r, hr, h⟩ := Option.bind_eq_some_iff.mp h
          cases h
          obtain ⟨hr, hform⟩ := Option.filter_eq_some_iff.mp hr
          obtain ⟨rfl, hpos⟩ := Expr.positive?_eq_some.mp hx
          simp only [Bool.and_eq_true] at hform
          obtain rfl := Expr.call?_eq_some.mp hproduct
          obtain rfl := Expr.call?_eq_some.mp hquotient
          subst hname
          exact .scaledStroke hpos (Expr.reference?_eq_some.mp hr) hform.1 hform.2
        next => cases h
      next => cases h
    next => cases h
  next => cases h

theorem inIdiom_of_menuSwitch? (h : s.menuSwitch? = some c) : InIdiom s c := by
  unfold menuSwitch? at h
  split at h
  next left right thens elses =>
    obtain ⟨r, hr, h⟩ := Option.bind_eq_some_iff.mp h
    obtain ⟨threshold, hthreshold, h⟩ := Option.bind_eq_some_iff.mp h
    obtain ⟨whenEqual, hwhenEqual, h⟩ := Option.bind_eq_some_iff.mp h
    obtain ⟨otherwise, hotherwise, h⟩ := Option.bind_eq_some_iff.mp h
    cases h
    obtain ⟨hr, hform⟩ := Option.filter_eq_some_iff.mp hr
    simp only [Bool.and_eq_true, Bool.not_eq_true', decide_eq_true_eq] at hform
    obtain ⟨rfl, n, hn⟩ := Expr.whole?_eq_some.mp hthreshold
    obtain ⟨rfl, a, ha⟩ := Expr.whole?_eq_some.mp hwhenEqual
    obtain ⟨rfl, b, hb⟩ := Expr.whole?_eq_some.mp hotherwise
    exact .menuSwitch (Expr.reference?_eq_some.mp hr) hform.1.1 hform.1.2 hform.2 hn ha hb
  next => cases h

theorem inIdiom_of_legacyScaled? (h : s.legacyScaled? = some c) : InIdiom s c := by
  unfold legacyScaled? at h
  split at h
  next e =>
    split at h
    next referenced factor hproduct =>
      obtain ⟨r, hr, h⟩ := Option.bind_eq_some_iff.mp h
      obtain ⟨x, hx, h⟩ := Option.bind_eq_some_iff.mp h
      cases h
      obtain ⟨hr, hform⟩ := Option.filter_eq_some_iff.mp hr
      obtain ⟨rfl, hpos⟩ := Expr.positive?_eq_some.mp hx
      obtain rfl := Expr.call?_eq_some.mp hproduct
      exact .legacyScaled (Expr.reference?_eq_some.mp hr) (by simpa using hform) hpos
    next => cases h
  next => cases h

theorem inIdiom_of_legacyScale? (h : s.legacyScale? = some c) : InIdiom s c := by
  obtain ⟨r, hr, rfl⟩ := Option.map_eq_some_iff.mp h
  obtain ⟨hlegacy, hform⟩ := Option.filter_eq_some_iff.mp hr
  obtain ⟨⟨e, rfl, hrefers⟩, hforeign, -, hlayer⟩ := legacy?_eq_some.mp hlegacy
  simp only [Bool.and_eq_true, decide_eq_true_eq] at hform
  exact .legacyScale hrefers hforeign hlayer hform.1 hform.2

theorem inIdiom_of_legacyAxis? (h : s.legacyAxis? = some c) : InIdiom s c := by
  obtain ⟨r, hr, rfl⟩ := Option.map_eq_some_iff.mp h
  obtain ⟨hlegacy, hform⟩ := Option.filter_eq_some_iff.mp hr
  obtain ⟨⟨e, rfl, hrefers⟩, hforeign, -, hlayer⟩ := legacy?_eq_some.mp hlegacy
  simp only [Bool.and_eq_true, decide_eq_true_eq] at hform
  exact .legacyAxis hrefers hforeign hlayer hform.1 hform.2

theorem inIdiom_of_legacyColor? (h : s.legacyColor? = some c) : InIdiom s c := by
  obtain ⟨r, hr, rfl⟩ := Option.map_eq_some_iff.mp h
  obtain ⟨hlegacy, hform⟩ := Option.filter_eq_some_iff.mp hr
  obtain ⟨⟨e, rfl, hrefers⟩, hforeign, hnamed, hlayer⟩ := legacy?_eq_some.mp hlegacy
  exact .legacyColor hrefers hforeign hnamed hlayer (of_decide_eq_true hform)

theorem inIdiom_of_watermark? (h : s.watermark? = some c) : InIdiom s c := by
  obtain ⟨r, hr, rfl⟩ := Option.map_eq_some_iff.mp h
  obtain ⟨hreference, hform⟩ := Option.filter_eq_some_iff.mp hr
  obtain ⟨e, rfl, hrefers⟩ := reference?_eq_some.mp hreference
  simp only [Bool.and_eq_true, Bool.not_eq_true', decide_eq_true_eq] at hform
  exact .watermark hrefers hform.1.1 hform.1.2 hform.2

end Shape

variable {s : Shape} {c : Compiled}

theorem inIdiom_of_mem_idioms {p : Idiom × (Shape → Option Compiled)} (hp : p ∈ idioms)
    (h : p.2 s = some c) : InIdiom s c := by
  simp only [idioms, List.mem_cons, List.not_mem_nil, or_false] at hp
  rcases hp with rfl | rfl | rfl | rfl | rfl | rfl | rfl | rfl
  · exact Shape.inIdiom_of_compColor? h
  · exact Shape.inIdiom_of_scaledStroke? h
  · exact Shape.inIdiom_of_menuSwitch? h
  · exact Shape.inIdiom_of_legacyScaled? h
  · exact Shape.inIdiom_of_legacyScale? h
  · exact Shape.inIdiom_of_legacyAxis? h
  · exact Shape.inIdiom_of_legacyColor? h
  · exact Shape.inIdiom_of_watermark? h

theorem InIdiom.exists_mem_idioms (h : InIdiom s c) : ∃ p ∈ idioms, p.2 s = some c := by
  cases h with
  | compColor hr hforeign hnamed hchannel =>
    refine ⟨(.compColor, Shape.compColor?), by simp [idioms], ?_⟩
    simp [Shape.compColor?, Shape.reference?, Expr.reference?_eq_some.mpr hr, hforeign, hnamed, hchannel]
  | scaledStroke hdivisor hr hforeign hnamed =>
    refine ⟨(.scaledStroke, Shape.scaledStroke?), by simp [idioms], ?_⟩
    simp [Shape.scaledStroke?, Option.filter, Expr.call?, Expr.reference?_eq_some.mpr hr, hforeign, hnamed,
      Expr.positive?_eq_some.mpr ⟨rfl, hdivisor⟩]
  | menuSwitch hr hforeign hnamed hchannel hthreshold hwhenEqual hotherwise =>
    refine ⟨(.menuSwitch, Shape.menuSwitch?), by simp [idioms], ?_⟩
    simp [Shape.menuSwitch?, Option.filter, Expr.reference?_eq_some.mpr hr, hforeign, hnamed, hchannel,
      Expr.whole?_eq_some.mpr ⟨rfl, _, hthreshold⟩, Expr.whole?_eq_some.mpr ⟨rfl, _, hwhenEqual⟩,
      Expr.whole?_eq_some.mpr ⟨rfl, _, hotherwise⟩]
  | legacyScaled hr hforeign hfactor =>
    refine ⟨(.legacyScaled, Shape.legacyScaled?), by simp [idioms], ?_⟩
    simp [Shape.legacyScaled?, Option.filter, Expr.call?, Expr.reference?_eq_some.mpr hr, hforeign,
      Expr.positive?_eq_some.mpr ⟨rfl, hfactor⟩]
  | legacyScale hr hforeign hlayer heffect hchannel =>
    refine ⟨(.legacyScale, Shape.legacyScale?), by simp [idioms], ?_⟩
    have hlegacy := Shape.legacy?_eq_some.mpr
      ⟨⟨_, rfl, hr⟩, hforeign, by simp [Reference.isNamed, heffect], hlayer⟩
    simp [Shape.legacyScale?, hlegacy, heffect, hchannel]
  | legacyAxis hr hforeign hlayer heffect hchannel =>
    refine ⟨(.legacyAxis, Shape.legacyAxis?), by simp [idioms], ?_⟩
    have hlegacy := Shape.legacy?_eq_some.mpr
      ⟨⟨_, rfl, hr⟩, hforeign, by simp [Reference.isNamed, heffect], hlayer⟩
    simp [Shape.legacyAxis?, hlegacy, heffect, hchannel]
  | legacyColor hr hforeign hnamed hlayer hchannel =>
    refine ⟨(.legacyColor, Shape.legacyColor?), by simp [idioms], ?_⟩
    have hlegacy := Shape.legacy?_eq_some.mpr ⟨⟨_, rfl, hr⟩, hforeign, hnamed, hlayer⟩
    simp [Shape.legacyColor?, hlegacy, hchannel]
  | watermark hr hforeign hnamed hlayer =>
    refine ⟨(.watermark, Shape.watermark?), by simp [idioms], ?_⟩
    simp [Shape.watermark?, Shape.reference?, Expr.reference?_eq_some.mpr hr, hforeign, hnamed, hlayer]

theorem findSome?_idioms_eq_some :
    (idioms.findSome? fun (_, recognize) => recognize s) = some c ↔ InIdiom s c := by
  constructor
  · intro h
    obtain ⟨p, hp, hc⟩ := List.exists_of_findSome?_eq_some h
    exact inIdiom_of_mem_idioms hp hc
  · intro h
    obtain ⟨p, hp, hc⟩ := h.exists_mem_idioms
    have hmem : c ∈ Table.readings idioms s := List.mem_filterMap.mpr ⟨p, hp, hc⟩
    have hlength := length_readings s
    have hhead : (idioms.findSome? fun p => p.2 s) = (Table.readings idioms s).head? :=
      List.head?_filterMap.symm
    rw [hhead]
    rcases hr : Table.readings idioms s with - | ⟨c', - | ⟨c'', cs⟩⟩
    · simp [hr] at hmem
    · simpa [hr, eq_comm] using hmem
    · simp [hr] at hlength

theorem compile_eq_ok {source : String} :
    compile source = .ok c ↔ ∃ s, shape source = .ok s ∧ InIdiom s c := by
  cases hs : shape source with
  | error e => simp [compile, hs]
  | ok s =>
    simp only [compile, hs, Except.ok.injEq, exists_eq_left', ← findSome?_idioms_eq_some]
    cases hc : idioms.findSome? fun (_, recognize) => recognize s with
    | none => simp
    | some c' => simp

end IconMotion.Expression
