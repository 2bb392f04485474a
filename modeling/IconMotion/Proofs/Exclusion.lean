import IconMotion.Expression.Idiom

namespace IconMotion.Expression

namespace Expr

theorem method?_eq_some {e object arg : Expr} {name : String} :
    e.method? name = some (object, arg) ↔ e = .call (.member object name) [arg] := by
  unfold method?
  split
  next object' property arg' =>
    by_cases hf : property = name
    · simp [hf]
    · simp [hf]
  next hno =>
    constructor
    · exact nofun
    · exact fun he => (hno _ _ _ he).elim

theorem exists_of_reference? {e : Expr} {r : Reference} (h : e.reference? = some r) :
    ∃ object selector channel,
      e = .call (.call (.member object "effect") [selector]) [.text channel] := by
  unfold reference? at h
  split at h
  next callee channel =>
    obtain ⟨⟨object, selector⟩, hmethod, -⟩ := Option.bind_eq_some_iff.mp h
    obtain rfl := method?_eq_some.mp hmethod
    exact ⟨object, selector, channel, rfl⟩
  next => cases h

theorem call?_of_reference? {e : Expr} {r : Reference} (h : e.reference? = some r) (name : String) :
    e.call? name = none := by
  obtain ⟨object, selector, channel, rfl⟩ := exists_of_reference? h
  rfl

theorem reference?_of_call? {e : Expr} {name : String} {args : List Expr}
    (h : e.call? name = some args) : e.reference? = none := by
  cases hr : e.reference? with
  | none => rfl
  | some r =>
    rw [call?_of_reference? hr] at h
    cases h

end Expr

def Reference.family (r : Reference) : Idiom :=
  if r.isForeign then .compColor
  else if r.layer = watermarkLayer then .watermark
  else if r.channel = "Slider" then .legacyScale
  else if r.channel = "Point" then .legacyAxis
  else .legacyColor

namespace Shape

/-- The only idiom that a result can be in. A product is in the older form if its first factor is a
reference. -/
def family : Shape → Idiom
  | choice .. => .menuSwitch
  | value e => match e.reference? with
    | some r => r.family
    | none => match e.call? "$bm_mul" with
      | some (first :: _) => if first.reference?.isSome then .legacyScaled else .scaledStroke
      | _ => .scaledStroke

variable {s : Shape} {c : Compiled} {r : Reference}

theorem family_of_reference? (h : s.reference? = some r) : s.family = r.family := by
  cases s with
  | value e =>
    have he : e.reference? = some r := h
    simp only [family, he]
  | choice => cases h

theorem family_of_product {e first second : Expr} (h : e.call? "$bm_mul" = some [first, second]) :
    (value e).family = if first.reference?.isSome then .legacyScaled else .scaledStroke := by
  simp only [family, Expr.reference?_of_call? h, h]

/-- What the older forms have in common: a reference that is decided by its channel. -/
theorem exists_of_legacy? {f : Reference → Bool} {build : Reference → Compiled}
    (h : (s.legacy?.filter f).map build = some c) :
    ∃ r, f r = true ∧ c = build r ∧ s.family = if r.channel = "Slider" then .legacyScale
      else if r.channel = "Point" then .legacyAxis
      else .legacyColor := by
  obtain ⟨r, hr, rfl⟩ := Option.map_eq_some_iff.mp h
  obtain ⟨hlegacy, hf⟩ := Option.filter_eq_some_iff.mp hr
  obtain ⟨hr, hform⟩ := Option.filter_eq_some_iff.mp hlegacy
  simp only [Bool.and_eq_true, Bool.not_eq_true', decide_eq_true_eq] at hform
  refine ⟨r, hf, rfl, ?_⟩
  rw [family_of_reference? hr, Reference.family, if_neg (by simp [hform.1.1]), if_neg hform.2]

theorem compColor?_eq_some (h : s.compColor? = some c) :
    s.family = .compColor ∧ c.idiom = .compColor := by
  obtain ⟨r, hr, rfl⟩ := Option.map_eq_some_iff.mp h
  obtain ⟨hr, hform⟩ := Option.filter_eq_some_iff.mp hr
  simp only [Bool.and_eq_true, decide_eq_true_eq] at hform
  refine ⟨?_, rfl⟩
  rw [family_of_reference? hr, Reference.family, if_pos hform.1.1]

theorem scaledStroke?_eq_some (h : s.scaledStroke? = some c) :
    s.family = .scaledStroke ∧ c.idiom = .scaledStroke := by
  unfold scaledStroke? at h
  split at h
  next e =>
    split at h
    next scaled referenced hproduct =>
      split at h
      next name divisor hquotient =>
        split at h
        · obtain ⟨divisor, -, h⟩ := Option.bind_eq_some_iff.mp h
          obtain ⟨r, -, h⟩ := Option.bind_eq_some_iff.mp h
          cases h
          refine ⟨?_, rfl⟩
          rw [family_of_product hproduct, Expr.reference?_of_call? hquotient]
          rfl
        · cases h
      next => cases h
    next => cases h
  next => cases h

theorem menuSwitch?_eq_some (h : s.menuSwitch? = some c) :
    s.family = .menuSwitch ∧ c.idiom = .menuSwitch := by
  unfold menuSwitch? at h
  split at h
  next left right thens elses =>
    obtain ⟨r, -, h⟩ := Option.bind_eq_some_iff.mp h
    obtain ⟨threshold, -, h⟩ := Option.bind_eq_some_iff.mp h
    obtain ⟨whenEqual, -, h⟩ := Option.bind_eq_some_iff.mp h
    obtain ⟨otherwise, -, h⟩ := Option.bind_eq_some_iff.mp h
    cases h
    exact ⟨rfl, rfl⟩
  next => cases h

theorem legacyScaled?_eq_some (h : s.legacyScaled? = some c) :
    s.family = .legacyScaled ∧ c.idiom = .legacyScaled := by
  unfold legacyScaled? at h
  split at h
  next e =>
    split at h
    next referenced factor hproduct =>
      obtain ⟨r, hr, h⟩ := Option.bind_eq_some_iff.mp h
      obtain ⟨hr, -⟩ := Option.filter_eq_some_iff.mp hr
      obtain ⟨factor, -, h⟩ := Option.bind_eq_some_iff.mp h
      cases h
      refine ⟨?_, rfl⟩
      rw [family_of_product hproduct, hr]
      rfl
    next => cases h
  next => cases h

theorem legacyScale?_eq_some (h : s.legacyScale? = some c) :
    s.family = .legacyScale ∧ c.idiom = .legacyScale := by
  obtain ⟨r, hform, rfl, hfamily⟩ := exists_of_legacy? h
  simp only [Bool.and_eq_true, decide_eq_true_eq] at hform
  rw [hfamily, hform.2]
  exact ⟨rfl, rfl⟩

theorem legacyAxis?_eq_some (h : s.legacyAxis? = some c) :
    s.family = .legacyAxis ∧ c.idiom = .legacyAxis := by
  obtain ⟨r, hform, rfl, hfamily⟩ := exists_of_legacy? h
  simp only [Bool.and_eq_true, decide_eq_true_eq] at hform
  rw [hfamily, hform.2]
  exact ⟨rfl, rfl⟩

theorem legacyColor?_eq_some (h : s.legacyColor? = some c) :
    s.family = .legacyColor ∧ c.idiom = .legacyColor := by
  obtain ⟨r, hform, rfl, hfamily⟩ := exists_of_legacy? h
  rw [decide_eq_true_eq] at hform
  rw [hfamily, hform]
  exact ⟨rfl, rfl⟩

theorem watermark?_eq_some (h : s.watermark? = some c) :
    s.family = .watermark ∧ c.idiom = .watermark := by
  obtain ⟨r, hr, rfl⟩ := Option.map_eq_some_iff.mp h
  obtain ⟨hr, hform⟩ := Option.filter_eq_some_iff.mp hr
  simp only [Bool.and_eq_true, Bool.not_eq_true', decide_eq_true_eq] at hform
  refine ⟨?_, rfl⟩
  rw [family_of_reference? hr]
  simp [Reference.family, hform.1.1, hform.2]

end Shape

abbrev Table := List (Idiom × (Shape → Option Compiled))

namespace Table

def readings (table : Table) (s : Shape) : List Compiled := table.filterMap fun p => p.2 s

def compile (table : Table) (source : String) : Except Refusal Compiled :=
  match shape source with
  | .error e => .error e
  | .ok s => match table.findSome? fun (_, recognize) => recognize s with
    | some c => .ok c
    | none => .error .unrecognized

end Table

theorem idiom_of_mem_idioms {p : Idiom × (Shape → Option Compiled)} {s : Shape} {c : Compiled}
    (hp : p ∈ idioms) (h : p.2 s = some c) : s.family = p.1 ∧ c.idiom = p.1 := by
  simp only [idioms, List.mem_cons, List.not_mem_nil, or_false] at hp
  rcases hp with rfl | rfl | rfl | rfl | rfl | rfl | rfl | rfl
  · exact Shape.compColor?_eq_some h
  · exact Shape.scaledStroke?_eq_some h
  · exact Shape.menuSwitch?_eq_some h
  · exact Shape.legacyScaled?_eq_some h
  · exact Shape.legacyScale?_eq_some h
  · exact Shape.legacyAxis?_eq_some h
  · exact Shape.legacyColor?_eq_some h
  · exact Shape.watermark?_eq_some h

theorem length_readings (s : Shape) : (Table.readings idioms s).length ≤ 1 := by
  have hnames : (idioms.map Prod.fst).Nodup := by decide
  -- Two entries that take the same result have its family for their idiom, and no two have the same.
  have hnone : (Table.readings idioms s).Pairwise fun _ _ => False := by
    refine List.pairwise_filterMap.mpr ((List.pairwise_map.mp hnames).imp_of_mem ?_)
    intro p q hp hq hne c hc c' hc'
    exact hne ((idiom_of_mem_idioms hp hc).1.symm.trans (idiom_of_mem_idioms hq hc').1)
  rcases hr : Table.readings idioms s with - | ⟨c, - | ⟨c', cs⟩⟩
  · simp
  · simp
  · rw [hr] at hnone
    exact ((List.pairwise_cons.mp hnone).1 c' (by simp)).elim

theorem Table.map_filter_eq_readings {table : Table} (htable : ∀ p ∈ table, p ∈ idioms) (s : Shape) :
    (table.filter fun p => (p.2 s).isSome).map Prod.fst = (table.readings s).map Compiled.idiom := by
  induction table with
  | nil => rfl
  | cons p table ih =>
    have ih := ih fun q hq => htable q (by simp [hq])
    cases hc : p.2 s with
    | none => simpa [readings, hc] using ih
    | some c =>
      have hidiom := (idiom_of_mem_idioms (htable p (by simp)) hc).2
      simpa [readings, hc, hidiom] using ih

theorem matching_eq_readings {source : String} {s : Shape} (h : shape source = .ok s) :
    matching source = (Table.readings idioms s).map Compiled.idiom := by
  simp only [matching, h]
  exact Table.map_filter_eq_readings (fun _ hp => hp) s

theorem Table.compile_eq_readings {table : Table} {source : String} {s : Shape}
    (h : shape source = .ok s) :
    table.compile source = match (table.readings s).head? with
      | some c => .ok c
      | none => .error .unrecognized := by
  simp only [Table.compile, h, Table.readings, List.head?_filterMap]

theorem Table.readings_of_perm {table : Table} (h : table.Perm idioms) (s : Shape) :
    table.readings s = Table.readings idioms s := by
  have hperm : (table.readings s).Perm (Table.readings idioms s) := h.filterMap _
  have hlength := length_readings s
  rcases hr : Table.readings idioms s with - | ⟨c, - | ⟨c', cs⟩⟩
  · rw [hr] at hperm
    exact hperm.eq_nil
  · rw [hr] at hperm
    exact List.perm_singleton.mp hperm
  · simp [hr] at hlength

theorem Table.compile_of_perm {table : Table} (h : table.Perm idioms) (source : String) :
    table.compile source = Expression.compile source := by
  cases hs : shape source with
  | error e => simp only [Table.compile, Expression.compile, hs]
  | ok s =>
    have hcompile : Expression.compile source = Table.compile idioms source := rfl
    rw [hcompile, compile_eq_readings hs, compile_eq_readings hs, readings_of_perm h]

theorem matching_cases (source : String) :
    (∃ c, matching source = [c.idiom] ∧ compile source = .ok c) ∨
      (matching source = [] ∧ ∃ why, compile source = .error why) := by
  cases hs : shape source with
  | error e => exact .inr ⟨by simp only [matching, hs], e, by simp only [compile, hs]⟩
  | ok s =>
    have hmatching := matching_eq_readings hs
    have hcompile : compile source = match (Table.readings idioms s).head? with
        | some c => .ok c
        | none => .error .unrecognized := Table.compile_eq_readings hs
    have hlength := length_readings s
    rcases hr : Table.readings idioms s with - | ⟨c, - | ⟨c', cs⟩⟩
    · rw [hr] at hmatching hcompile
      exact .inr ⟨hmatching, _, hcompile⟩
    · rw [hr] at hmatching hcompile
      exact .inl ⟨c, hmatching, hcompile⟩
    · simp [hr] at hlength

/-- A source is in one idiom at most: in the one that it is compiled by, and in none if it is refused.
The order in which idioms are tried makes no difference. -/
theorem matching_at_most_one (source : String) :
    (matching source).length ≤ 1 ∧
      (∀ k, matching source = [k] ↔ ∃ c, compile source = .ok c ∧ c.idiom = k) ∧
      (matching source = [] ↔ ∃ why, compile source = .error why) ∧
      ∀ table : Table, table.Perm idioms → table.compile source = compile source := by
  have horder := fun (table : Table) (h : table.Perm idioms) => Table.compile_of_perm h source
  rcases matching_cases source with ⟨c, hmatching, hcompile⟩ | ⟨hmatching, why, hcompile⟩
  · refine ⟨?_, fun k => ?_, ?_, horder⟩
    · simp [hmatching]
    · simp [hmatching, hcompile]
    · simp [hmatching, hcompile]
  · refine ⟨?_, fun k => ?_, ?_, horder⟩
    · simp [hmatching]
    · simp [hmatching, hcompile]
    · simp [hmatching, hcompile]

end IconMotion.Expression
