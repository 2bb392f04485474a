import IconMotion.Proofs.Hosting
import IconMotion.Proofs.Parallel

namespace IconMotion

open Control Expression

section Lists

variable {α β : Type} {P : α → Prop} {l l' : List α} {i : Nat} {x : α}

/-- `x` is the first thing in the list that has a property, and stands at place `i`. -/
def IsFirst (P : α → Prop) (l : List α) (i : Nat) (x : α) : Prop :=
  l[i]? = some x ∧ P x ∧ ∀ j < i, ∀ y, l[j]? = some y → ¬ P y

theorem find?_eq_some_iff_isFirst [DecidablePred P] :
    l.find? (fun x => decide (P x)) = some x ↔ ∃ i, IsFirst P l i x := by
  rw [List.find?_eq_some_iff_getElem]
  constructor
  · rintro ⟨hP, i, hi, rfl, hbefore⟩
    refine ⟨i, List.getElem?_eq_getElem hi, by simpa using hP, fun j hj y hy => ?_⟩
    obtain ⟨hlength, rfl⟩ := List.getElem?_eq_some_iff.mp hy
    simpa using hbefore j hj
  · rintro ⟨i, hx, hP, hbefore⟩
    obtain ⟨hi, rfl⟩ := List.getElem?_eq_some_iff.mp hx
    refine ⟨by simpa using hP, i, hi, rfl, fun j hj => ?_⟩
    simpa using hbefore j hj _ (List.getElem?_eq_getElem (Nat.lt_trans hj hi))

/-- A property that shows in an image of the lists picks the same place from both. -/
theorem IsFirst.of_map_eq {f : α → β} (hP : ∀ x y, f x = f y → P x → P y) (hl : l.map f = l'.map f)
    (h : IsFirst P l i x) : ∃ x', IsFirst P l' i x' ∧ f x' = f x := by
  obtain ⟨hx, hpx, hbefore⟩ := h
  have himage (j : Nat) : (l[j]?).map f = (l'[j]?).map f := by
    rw [← List.getElem?_map, hl, List.getElem?_map]
  obtain ⟨x', hx', hf⟩ : ∃ x', l'[i]? = some x' ∧ f x' = f x := by
    have hi := himage i
    rw [hx] at hi
    exact Option.map_eq_some_iff.mp hi.symm
  refine ⟨x', ⟨hx', hP x x' hf.symm hpx, fun j hj y' hy' hpy' => ?_⟩, hf⟩
  obtain ⟨y, hy, hfy⟩ : ∃ y, l[j]? = some y ∧ f y = f y' := by
    have hj := himage j
    rw [hy'] at hj
    exact Option.map_eq_some_iff.mp hj
  exact hbefore j hj y hy (hP y' y hfy.symm hpy')

end Lists

namespace Live

def Picks (effects : List Effect) (j : Nat) (e : Effect) : Selector → Prop
  | .name name => IsFirst (fun e => e.name = some name ∨ e.matchName = some name) effects j e
  | .index n => n = j + 1 ∧ effects[j]? = some e

namespace Names

variable {names names' : Names} {r : Reference} {i j k : Nat} {c : Channel}

/-- A reference means channel `k` of effect `j` of layer `i`. -/
def Means (names : Names) (r : Reference) (i j k : Nat) (c : Channel) : Prop :=
  (r.composition = .this ∨ ∃ name, r.composition = .named name ∧ names.composition = some name) ∧
  ∃ l e, IsFirst (fun l => l.name = some r.layer) names.tree i l ∧ Picks l.effects j e r.effect ∧
    IsFirst (fun c => c.name = some r.channel ∨ c.matchName = some r.channel) e.channels k c

theorem channel?_of_means (h : names.Means r i j k c) : names.tree.channel? i j k = some c := by
  obtain ⟨-, l, e, ⟨hl, -⟩, he, hc, -⟩ := h
  have he : l.effects[j]? = some e := by
    cases hr : r.effect with
    | name name =>
      rw [hr] at he
      exact he.1
    | index n =>
      rw [hr] at he
      exact he.2
  simp [Tree.channel?, hl, he, hc]

theorem effect?_eq_some_iff {l : Layer} {e : Effect} {s : Selector} :
    effect? l s = some e ↔ ∃ j, Picks l.effects j e s := by
  cases s with
  | name name =>
    simp only [effect?, Effect.hasName, Picks, ← find?_eq_some_iff_isFirst, Bool.decide_or]
  | index n =>
    cases n with
    | zero => simp [effect?, Picks]
    | succ n =>
      simp only [effect?, Picks, Nat.add_right_cancel_iff]
      exact ⟨fun h => ⟨n, rfl, h⟩, fun ⟨j, hj, h⟩ => hj ▸ h⟩

theorem channel_eq_ok_of_means (h : names.Means r i j k c) : names.channel r = .ok c := by
  obtain ⟨hcomposition, l, e, hl, he, hc⟩ := h
  have hlayer : names.tree.layer? r.layer = some l := find?_eq_some_iff_isFirst.mpr ⟨i, hl⟩
  have heffect : effect? l r.effect = some e := effect?_eq_some_iff.mpr ⟨j, he⟩
  have hchannel : e.channels.find? (·.hasName r.channel) = some c := by
    simp only [Channel.hasName, ← Bool.decide_or]
    exact find?_eq_some_iff_isFirst.mpr ⟨k, hc⟩
  unfold channel
  obtain hthis | ⟨name, hname, hsame⟩ := hcomposition
  · simp only [hthis, hlayer, heffect, hchannel]
    rfl
  · simp only [hname, hsame, hlayer, heffect, hchannel, ne_eq, not_true_eq_false, if_false]
    rfl

theorem means_of_channel_eq_ok (h : names.channel r = .ok c) : ∃ i j k, names.Means r i j k c := by
  unfold channel at h
  -- what follows the check of the composition is the same for both its forms
  extract_lets found at h
  obtain ⟨hcomposition, hrest⟩ : (r.composition = .this ∨
      ∃ name, r.composition = .named name ∧ names.composition = some name) ∧
        found () = .ok c := by
    split at h
    next name hname =>
      split at h
      · cases h
      next hsame => exact ⟨.inr ⟨name, hname, Decidable.not_not.mp hsame⟩, h⟩
    next hthis => exact ⟨.inl hthis, h⟩
  dsimp only [found] at hrest
  split at hrest
  · cases hrest
  next l hl =>
    split at hrest
    · cases hrest
    next e he =>
      split at hrest
      · cases hrest
      next c' hc =>
        cases hrest
        obtain ⟨i, hi⟩ := find?_eq_some_iff_isFirst.mp hl
        obtain ⟨j, hj⟩ := effect?_eq_some_iff.mp he
        simp only [Channel.hasName, ← Bool.decide_or] at hc
        obtain ⟨k, hk⟩ := find?_eq_some_iff_isFirst.mp hc
        exact ⟨i, j, k, hcomposition, l, e, hi, hj, hk⟩

theorem Picks.of_bare {effects effects' : List Effect} {e : Effect} {s : Selector}
    (heffects : effects.map Effect.bare = effects'.map Effect.bare) (h : Picks effects j e s) :
    ∃ e', Picks effects' j e' s ∧ e'.bare = e.bare := by
  cases s with
  | name name =>
    refine IsFirst.of_map_eq (fun x y hxy hx => ?_) heffects h
    have hname : x.name = y.name := (congrArg Effect.name hxy :)
    have hmatchName : x.matchName = y.matchName := (congrArg Effect.matchName hxy :)
    rwa [← hname, ← hmatchName]
  | index n =>
    obtain ⟨hn, he⟩ := h
    have hj : (effects[j]?).map Effect.bare = (effects'[j]?).map Effect.bare := by
      rw [← List.getElem?_map, heffects, List.getElem?_map]
    rw [he] at hj
    obtain ⟨e', he', hbare⟩ := Option.map_eq_some_iff.mp hj.symm
    exact ⟨e', ⟨hn, he'⟩, hbare⟩

theorem Means.of_form (hcomposition : names'.composition = names.composition)
    (hform : names'.tree.form = names.tree.form) (h : names.Means r i j k c) :
    ∃ c', names'.Means r i j k c' := by
  obtain ⟨hnamed, l, e, hl, he, hc⟩ := h
  obtain ⟨l', hl', hlbare⟩ := hl.of_map_eq (f := Layer.bare) (fun x y hxy hx => by
    have hname : x.name = y.name := (congrArg Layer.name hxy :)
    rwa [← hname]) hform.symm
  obtain ⟨e', he', hebare⟩ := Picks.of_bare (congrArg Layer.effects hlbare).symm he
  obtain ⟨c', hc', -⟩ := hc.of_map_eq (f := Channel.bare) (fun x y hxy hx => by
    have hname : x.name = y.name := (congrArg Channel.name hxy :)
    have hmatchName : x.matchName = y.matchName := (congrArg Channel.matchName hxy :)
    rwa [← hname, ← hmatchName]) (congrArg Effect.channels hebare).symm
  rw [← hcomposition] at hnamed
  exact ⟨c', hnamed, l', e', hl', he', hc'⟩

end Names

end Live

namespace Expression.Compiled

variable {ctx ctx' : Context} {compiled : Compiled}

theorem evaluate_congr (hvalue : ctx.value = ctx'.value) (hmul : ctx.mul = ctx'.mul)
    (hdiv : ctx.div = ctx'.div)
    (hchannel : ∀ r, compiled.reference? = some r → ctx.channel r = ctx'.channel r) :
    compiled.evaluate ctx = compiled.evaluate ctx' := by
  cases compiled with
  | watermark => rfl
  | _ => simp only [evaluate, hvalue, hmul, hdiv, hchannel _ rfl]

theorem exists_evaluate_eq_error {r : Reference} {e : EvalError}
    (hr : compiled.reference? = some r) (h : ctx.channel r = .error e) :
    ∃ e', compiled.evaluate ctx = .error e' := by
  cases compiled with
  | scaledStroke divisor r =>
    cases hr
    -- The value and its quotient come first and may be what fails.
    cases hvalue : ctx.value with
    | error e' => exact ⟨e', by simp only [evaluate, hvalue]; rfl⟩
    | ok v => cases hdiv : ctx.div v (.number divisor) with
      | error e' => exact ⟨e', by simp only [evaluate, hvalue, ok_bind, hdiv]; rfl⟩
      | ok q => exact ⟨e, by simp only [evaluate, hvalue, ok_bind, hdiv, h]; rfl⟩
  | watermark => cases hr
  | compColor | legacyAxis | legacyColor =>
    cases hr
    exact ⟨e, h⟩
  | menuSwitch | legacyScaled | legacyScale =>
    cases hr
    exact ⟨e, by simp only [evaluate, h]; rfl⟩

end Expression.Compiled

namespace Live

/-- What an expression can ask for when its channel holds `held` and its property has the value `base`. -/
def slotContext (r : Reference) (held base : Json) : Context where
  channel _ := match Value.ofJson? held with
    | some v => .ok v
    | none => .error (.typeMismatch (.notNumeric r.channel))
  value := match Value.ofJson? base with
    | some v => .ok v
    | none => .error (.missingMember "value")

namespace Binding

def follow (b : Binding) (compiled : Compiled) (r : Reference) (frame : Float32) (held : Json) :
    Sample where
  path := b.path
  idiom := some compiled.idiom
  value := match compiled.evaluate (slotContext r held (b.base frame)) with
    | .ok v => v.toJson
    | .error _ => b.base frame

/-- The source is an expression that refers to channel `k` of effect `j` of layer `i`. -/
structure Follows (b : Binding) (names : Names) (compiled : Compiled) (r : Reference) (i j k : Nat) :
    Prop where
  compiles : compile b.source = .ok compiled
  reference : compiled.reference? = some r
  means : ∃ c, names.Means r i j k c

variable {b : Binding} {names names' : Names} {compiled : Compiled} {r : Reference} {i j k : Nat}

theorem Follows.sample_eq (frame : Float32) (h : b.Follows names compiled r i j k) :
    ∃ held, names.tree.slot? i j k = some held ∧
      (b.sample names frame (compile b.source).toOption).1 = b.follow compiled r frame held := by
  obtain ⟨hcompile, hr, c, hmeans⟩ := h
  refine ⟨c.value, by simp [Tree.slot?, Names.channel?_of_means hmeans], ?_⟩
  have hevaluate : compiled.evaluate (names.context (b.base frame)) =
      compiled.evaluate (slotContext r c.value (b.base frame)) := by
    refine Compiled.evaluate_congr rfl rfl rfl fun r' hr' => ?_
    cases hr.symm.trans hr'
    simp only [Names.context, Names.value, Names.channel_eq_ok_of_means hmeans, slotContext]
    rfl
  simp only [hcompile, Except.toOption, sample, follow, hevaluate]
  split <;> simp_all

theorem sample_of_not_means (frame : Float32) (hr : compiled.reference? = some r)
    (h : ∀ i j k c, ¬ names.Means r i j k c) :
    (b.sample names frame (some compiled)).1 = ⟨b.path, some compiled.idiom, b.base frame⟩ := by
  obtain ⟨e, hchannel⟩ : ∃ e, names.channel r = .error e := by
    cases hchannel : names.channel r with
    | error e => exact ⟨e, rfl⟩
    | ok c =>
      obtain ⟨i, j, k, hmeans⟩ := Names.means_of_channel_eq_ok hchannel
      exact absurd hmeans (h i j k c)
  have hvalue : (names.context (b.base frame)).channel r = .error e := by
    simp only [Names.context, Names.value, hchannel]
    rfl
  obtain ⟨e', hevaluate⟩ := Compiled.exists_evaluate_eq_error hr hvalue
  simp only [sample, hevaluate]

theorem sample_of_not_follows (frame : Float32)
    (h : ∀ compiled r i j k, ¬ b.Follows names compiled r i j k)
    (h' : ∀ compiled r i j k, ¬ b.Follows names' compiled r i j k) :
    (b.sample names frame (compile b.source).toOption).1 =
      (b.sample names' frame (compile b.source).toOption).1 := by
  cases hcompile : compile b.source with
  | error refusal => rfl
  | ok compiled =>
    simp only [Except.toOption]
    cases hr : compiled.reference? with
    | none =>
      have hevaluate : compiled.evaluate (names.context (b.base frame)) =
          compiled.evaluate (names'.context (b.base frame)) :=
        Compiled.evaluate_congr rfl rfl rfl fun r hr' => by cases hr.symm.trans hr'
      simp only [sample, hevaluate]
    | some r =>
      rw [sample_of_not_means frame hr fun i j k c hmeans => h _ _ _ _ _ ⟨hcompile, hr, c, hmeans⟩,
        sample_of_not_means frame hr fun i j k c hmeans => h' _ _ _ _ _ ⟨hcompile, hr, c, hmeans⟩]

theorem Follows.of_form (hcomposition : names'.composition = names.composition)
    (hform : names'.tree.form = names.tree.form) (h : b.Follows names compiled r i j k) :
    b.Follows names' compiled r i j k :=
  ⟨h.compiles, h.reference, h.means.elim fun _ hmeans => hmeans.of_form hcomposition hform⟩

end Binding

end Live

open Live

namespace Player

def names (p : Player) : Names := ⟨p.name, p.tree⟩

variable {p p' p₁ p₂ : Player} {n : Nat} {b : Binding}

theorem SameBuild.follows_iff {compiled : Compiled} {r : Reference} {i j k : Nat}
    (h : SameBuild p p') :
    b.Follows p'.names compiled r i j k ↔ b.Follows p.names compiled r i j k := by
  have hcomposition : p'.names.composition = p.names.composition := h.name
  have hform : p'.names.tree.form = p.names.tree.form := h.form
  exact ⟨fun hfollows => hfollows.of_form hcomposition.symm hform.symm,
    fun hfollows => hfollows.of_form hcomposition hform⟩

theorem sound_of_load {document : Json} (h : load document = .ok p) : p.cache.Sound := by
  obtain ⟨a, -, -, rfl⟩ := load_eq_ok.mp h
  exact Cache.sound_empty

theorem getElem?_samples (hsound : p.cache.Sound) (hb : p.bindings[n]? = some b) :
    p.samples.1[n]? =
      some (b.sample p.names p.playhead.frame (compile b.source).toOption).1 := by
  rw [samples_of_sound hsound, List.getElem?_map, hb]
  rfl

/-- The sample of a binding whose expression refers to a slot is a function of the frame and of what that
slot holds; a binding whose expression refers to none is the same at a frame whatever is written. -/
theorem sample_follows_one_slot {document : Json} {commands₁ commands₂ : List Command}
    (hload : load document = .ok p) (hb : p.bindings[n]? = some b)
    (h₁ : p.serve commands₁ = some p₁) (h₂ : p.serve commands₂ = some p₂) :
    (∀ compiled r i j k, b.Follows p.names compiled r i j k → ∃ held,
      p₁.tree.slot? i j k = some held ∧
      p₁.samples.1[n]? = some (b.follow compiled r p₁.playhead.frame held) ∧
      (p₂.playhead.frame = p₁.playhead.frame → p₂.tree.slot? i j k = some held →
        p₂.samples.1[n]? = p₁.samples.1[n]?)) ∧
    ((∀ compiled r i j k, ¬ b.Follows p.names compiled r i j k) →
      (p₂.playhead.frame = p₁.playhead.frame → p₂.samples.1[n]? = p₁.samples.1[n]?) ∧
      ∀ command p', command.isWrite = true → p₁.execute command = some p' →
        p'.samples.1[n]? = p₁.samples.1[n]?) := by
  have hsound : p.cache.Sound := sound_of_load hload
  have hsample {commands : List Command} {p' : Player} (h : p.serve commands = some p') :
      p'.samples.1[n]? =
        some (b.sample p'.names p'.playhead.frame (compile b.source).toOption).1 :=
    getElem?_samples (sound_serve hsound h) ((sameBuild_serve h).bindings ▸ hb)
  have hfollow {commands : List Command} {p' : Player} (h : p.serve commands = some p')
      {compiled : Compiled} {r : Reference} {i j k : Nat} (hb : b.Follows p.names compiled r i j k) :
      ∃ held, p'.tree.slot? i j k = some held ∧
        p'.samples.1[n]? = some (b.follow compiled r p'.playhead.frame held) := by
    obtain ⟨held, hheld, hvalue⟩ :=
      ((sameBuild_serve h).follows_iff.mpr hb).sample_eq p'.playhead.frame
    exact ⟨held, hheld, by rw [hsample h, hvalue]⟩
  have hstill {commands : List Command} {p' : Player} (h : p.serve commands = some p')
      (hnone : ∀ compiled r i j k, ¬ b.Follows p.names compiled r i j k)
      (hframe : p'.playhead.frame = p₁.playhead.frame) :
      p'.samples.1[n]? = p₁.samples.1[n]? := by
    rw [hsample h, hsample h₁, hframe]
    refine congrArg some (Binding.sample_of_not_follows _ ?_ ?_)
    · exact fun _ _ _ _ _ hfollows => hnone _ _ _ _ _ ((sameBuild_serve h).follows_iff.mp hfollows)
    · exact fun _ _ _ _ _ hfollows => hnone _ _ _ _ _ ((sameBuild_serve h₁).follows_iff.mp hfollows)
  refine ⟨fun compiled r i j k hb => ?_, fun hnone => ⟨hstill h₂ hnone, ?_⟩⟩
  · obtain ⟨held, hheld, hvalue⟩ := hfollow h₁ hb
    refine ⟨held, hheld, hvalue, fun hframe hheld₂ => ?_⟩
    obtain ⟨held₂, hheld₂', hvalue₂⟩ := hfollow h₂ hb
    cases hheld₂.symm.trans hheld₂'
    rw [hvalue₂, hvalue, hframe]
  · intro command p' hwrite hexecute
    have hserve : p.serve (commands₁ ++ [command]) = some p' := by
      simp only [serve, List.foldlM_append, List.foldlM_cons, List.foldlM_nil] at h₁ ⊢
      simp only [h₁, Option.bind_eq_bind, Option.bind_some, hexecute]
      rfl
    obtain ⟨tree, rfl, -⟩ := rewritten_execute hwrite hexecute
    exact hstill hserve hnone rfl

def scaledShape : Json :=
  .obj [("fr", .num (.int 10)), ("h", .num (.int 8)), ("ip", .num (.int 0)),
    ("layers", .arr [
      .obj [("ef", .arr [.obj [
          ("ef", .arr [.obj [("nm", .str "Slider"), ("v", .obj [("k", .num (.int 3))])]]),
          ("nm", .str "Scale")]]),
        ("nm", .str "Controls")],
      .obj [("ks", .obj [
          ("r", .obj [("k", .num (.int 0)), ("x", .str "wiggle(2)")]),
          ("s", .obj [("k", .arr [.num (.int 100), .num (.int 100)]),
            ("x", .str "thisComp.layer('Controls').effect('Scale')('Slider')")])]),
        ("nm", .str "Shape")]]),
    ("op", .num (.int 20)), ("w", .num (.int 8))]

def sliderReference : Reference := ⟨.this, "Controls", .name "Scale", "Slider"⟩

theorem sample_follows_one_slot_of_scaledShape : ∃ p p₁ p₂ p₃ : Player, ∃ wiggle scale : Binding,
    load scaledShape = .ok p ∧ p.bindings = [wiggle, scale] ∧
    p.serve [.set (Scope.liveTree.address 0 0) (.num (.int 7)), .move (.advance 0.5)] = some p₁ ∧
    p.serve [.sample, .move (.goTo 5.0), .set (Scope.liveTree.address 0 0) (.num (.int 7))] =
      some p₂ ∧
    p₁.execute (.set (Scope.liveTree.address 0 0) (.num (.int 9))) = some p₃ ∧
    p₁.samples.1[1]? = some (scale.follow (.legacyScale sliderReference) sliderReference
      p₁.playhead.frame (.num (.int 7))) ∧
    p₂.samples.1[1]? = p₁.samples.1[1]? ∧ p₃.samples.1[0]? = p₁.samples.1[0]? := by
  obtain ⟨p, p₁, p₂, p₃, wiggle, scale, hload, hbindings, h₁, h₂, h₃, hframe, hheld₁, hheld₂,
      hwiggle, hscale, hnamed⟩ : ∃ p p₁ p₂ p₃ : Player, ∃ wiggle scale : Binding,
      load scaledShape = .ok p ∧ p.bindings = [wiggle, scale] ∧
      p.serve [.set (Scope.liveTree.address 0 0) (.num (.int 7)), .move (.advance 0.5)] = some p₁ ∧
      p.serve [.sample, .move (.goTo 5.0), .set (Scope.liveTree.address 0 0) (.num (.int 7))] =
        some p₂ ∧
      p₁.execute (.set (Scope.liveTree.address 0 0) (.num (.int 9))) = some p₃ ∧
      p₂.playhead.frame = p₁.playhead.frame ∧
      p₁.tree.slot? 0 0 0 = some (.num (.int 7)) ∧ p₂.tree.slot? 0 0 0 = some (.num (.int 7)) ∧
      wiggle.source = "wiggle(2)" ∧
      scale.source = "thisComp.layer('Controls').effect('Scale')('Slider')" ∧
      ∃ c, p.names.Means sliderReference 0 0 0 c :=
    ⟨_, _, _, _, _, _, rfl, rfl, rfl, rfl, rfl, by decide +kernel, rfl, rfl, rfl, rfl, _, .inl rfl, _, _,
      ⟨rfl, rfl, nofun⟩, ⟨rfl, .inl rfl, nofun⟩, rfl, .inl rfl, nofun⟩
  have hrefused : (compile wiggle.source).toOption = none := by
    rw [hwiggle]
    decide +kernel
  have hcompiles : compile scale.source = .ok (.legacyScale sliderReference) := by
    rw [hscale, ← toOption_eq_some]
    decide +kernel
  have hnone compiled r i j k : ¬ wiggle.Follows p.names compiled r i j k := by
    intro hfollows
    rw [hfollows.compiles] at hrefused
    cases hrefused
  have hsecond : p.bindings[1]? = some scale := by rw [hbindings]; rfl
  have hfirst : p.bindings[0]? = some wiggle := by rw [hbindings]; rfl
  obtain ⟨hfollow, -⟩ := sample_follows_one_slot hload hsecond h₁ h₂
  obtain ⟨held, hheld, hvalue, hsame⟩ := hfollow _ _ _ _ _ ⟨hcompiles, rfl, hnamed⟩
  cases hheld₁.symm.trans hheld
  obtain ⟨-, hstill⟩ := sample_follows_one_slot hload hfirst h₁ h₂
  exact ⟨p, p₁, p₂, p₃, wiggle, scale, hload, hbindings, h₁, h₂, h₃, hvalue, hsame hframe hheld₂,
    (hstill hnone).2 _ _ rfl h₃⟩

end Player

end IconMotion
