import Mathlib.Data.List.Basic
import IconMotion.Control.Basic
import IconMotion.Json.Decode

namespace IconMotion

namespace Step

theorem ofDigits?_eq_some {ds : List Char} {i : Nat} : ofDigits? ds = some i ↔
    ds ≠ [] ∧ (∀ c ∈ ds, c.isDigit = true) ∧ Nat.ofDigitChars 10 ds 0 = i ∧ i ≤ maxIndex := by
  have hvalue : ds.foldl (fun n c => 10 * n + (c.toNat - 48)) 0 = Nat.ofDigitChars 10 ds 0 := rfl
  simp only [ofDigits?, hvalue]
  split
  next h =>
    have hdigits : ds = [] ∨ ¬ ∀ c ∈ ds, c.isDigit = true := by simpa using h
    simp only [reduceCtorEq, false_iff]
    exact fun hi => hdigits.elim hi.1 fun hnot => hnot hi.2.1
  next h =>
    have hdigits : ds ≠ [] ∧ ∀ c ∈ ds, c.isDigit = true := by simpa using h
    split
    next hle =>
      simp only [Option.some.injEq]
      exact ⟨fun hi => ⟨hdigits.1, hdigits.2, hi, hi ▸ hle⟩, fun hi => hi.2.2.1⟩
    next hle =>
      simp only [reduceCtorEq, false_iff]
      exact fun hi => hle (hi.2.2.1 ▸ hi.2.2.2)

def IsNumeral (cs : List Char) : Prop :=
  ∃ ds, (cs = ds ∨ cs = '+' :: ds) ∧ ds ≠ [] ∧ (∀ c ∈ ds, c.isDigit = true) ∧
    Nat.ofDigitChars 10 ds 0 ≤ maxIndex

theorem isSome_readIndex? {cs : List Char} : (readIndex? cs).isSome ↔ IsNumeral cs := by
  have hdigits : ∀ ds, (ofDigits? ds).isSome ↔
      ds ≠ [] ∧ (∀ c ∈ ds, c.isDigit = true) ∧ Nat.ofDigitChars 10 ds 0 ≤ maxIndex := by
    simp [Option.isSome_iff_exists, ofDigits?_eq_some]
  unfold readIndex? IsNumeral
  split
  next ds =>
    rw [hdigits]
    constructor
    · exact fun h => ⟨ds, .inr rfl, h⟩
    · rintro ⟨ds', rfl | heq, h⟩
      · -- The plus sign itself is no digit.
        exact absurd (h.2.1 '+' List.mem_cons_self) (by decide)
      · cases heq
        exact h
  next hplus =>
    rw [hdigits]
    constructor
    · exact fun h => ⟨cs, .inl rfl, h⟩
    · rintro ⟨ds, rfl | heq, h⟩
      · exact h
      · exact absurd heq (hplus ds)

instance : DecidablePred IsNumeral := fun _ => decidable_of_iff _ isSome_readIndex?

theorem readIndex?_digits {i : Nat} (h : i ≤ maxIndex) : readIndex? (digits i) = some i := by
  have hdigit : ∀ c ∈ digits i, c.isDigit = true :=
    fun c hc => Nat.isDigit_of_mem_toDigits (by decide) (by decide) hc
  have hread : ofDigits? (digits i) = some i :=
    ofDigits?_eq_some.mpr ⟨Nat.toDigits_ne_nil, hdigit, Nat.ofDigitChars_ten_toDigits, h⟩
  unfold readIndex?
  split
  next ds heq => exact absurd (hdigit '+' (heq ▸ List.mem_cons_self)) (by decide)
  next => exact hread

/-- A step that stands for itself in the text of a path. An index of more than 64 bits is in no array
that can be stored. -/
def Plain : Step → Prop
  | key name => name ≠ "" ∧ '.' ∉ name.toList ∧ ¬ IsNumeral name.toList
  | index i => i ≤ maxIndex

instance : DecidablePred Plain
  | key name => inferInstanceAs (Decidable (name ≠ "" ∧ '.' ∉ name.toList ∧ ¬ IsNumeral name.toList))
  | index i => inferInstanceAs (Decidable (i ≤ maxIndex))

theorem ofSegment_text {s : Step} (h : s.Plain) : ofSegment s.text.toList = s := by
  cases s with
  | key name =>
    have hnone : readIndex? name.toList = none :=
      Option.not_isSome_iff_eq_none.mp fun hsome => h.2.2 (isSome_readIndex?.mp hsome)
    simp only [text, ofSegment, hnone, String.ofList_toList]
  | index i => simp only [text, ofSegment, String.toList_ofList, readIndex?_digits h]

theorem text_of_plain {s : Step} (h : s.Plain) : s.text.toList ≠ [] ∧ '.' ∉ s.text.toList := by
  cases s with
  | key name => exact ⟨fun hnil => h.1 (String.toList_eq_nil_iff.mp hnil), h.2.1⟩
  | index i =>
    rw [text, String.toList_ofList]
    refine ⟨Nat.toDigits_ne_nil, fun hdot => ?_⟩
    exact absurd (Nat.isDigit_of_mem_toDigits (by decide) (by decide) hdot) (by decide)

theorem ofDigits?_le_maxIndex {ds : List Char} {i : Nat} (h : ofDigits? ds = some i) : i ≤ maxIndex :=
  (ofDigits?_eq_some.mp h).2.2.2

theorem plain_ofSegment {cs : List Char} (hne : cs ≠ []) (hdot : '.' ∉ cs) : (ofSegment cs).Plain := by
  unfold ofSegment
  split
  next i hi =>
    unfold readIndex? at hi
    split at hi
    · exact ofDigits?_le_maxIndex hi
    · exact ofDigits?_le_maxIndex hi
  next hnone =>
    refine ⟨fun h => hne (by simpa using h), by simpa using hdot, fun hnumeral => ?_⟩
    rw [String.toList_ofList] at hnumeral
    have hsome := isSome_readIndex?.mpr hnumeral
    rw [hnone] at hsome
    cases hsome

end Step

namespace Path

theorem segments_eq_splitOn (cs : List Char) : segments cs = cs.splitOn '.' := by
  induction cs with
  | nil => rfl
  | cons c cs ih =>
    rw [List.splitOn_eq_splitOnP] at ih ⊢
    rw [List.splitOnP_cons_eq_if_modifyHead, segments, ih]
    by_cases hc : c = '.'
    · simp [hc]
    · simp only [hc, beq_iff_eq, if_false]
      cases h : cs.splitOnP (· == '.') with
      | nil => exact absurd h (List.splitOnP_ne_nil _ _)
      | cons s ss => rfl

theorem renderChars_eq_intercalate (p : Path) :
    p.renderChars = ['.'].intercalate (p.map fun s => s.text.toList) := by
  induction p with
  | nil => rfl
  | cons s p ih =>
    cases p with
    | nil => simp [renderChars]
    | cons t p => simp [renderChars, ih]

def Plain (p : Path) : Prop := ∀ s ∈ p, s.Plain

instance (p : Path) : Decidable p.Plain := inferInstanceAs (Decidable (∀ s ∈ p, s.Plain))

theorem parse_render {p : Path} (h : p.Plain) : parse p.render = p := by
  cases p with
  | nil => rfl
  | cons s p =>
    have hdots : ∀ cs ∈ (s :: p).map fun s => s.text.toList, '.' ∉ cs := by
      simp only [List.forall_mem_map]
      exact fun t ht => (Step.text_of_plain (h t ht)).2
    have hsegments : segments (renderChars (s :: p)) = (s :: p).map fun s => s.text.toList := by
      rw [segments_eq_splitOn, renderChars_eq_intercalate]
      exact List.splitOn_intercalate '.' hdots (List.cons_ne_nil _ _)
    have hfilter : ((s :: p).map fun s => s.text.toList).filter (!·.isEmpty) =
        (s :: p).map fun s => s.text.toList := by
      refine List.filter_eq_self.mpr ?_
      simp only [List.forall_mem_map]
      exact fun t ht => by simpa using (Step.text_of_plain (h t ht)).1
    rw [parse, render, String.toList_ofList, hsegments, hfilter, List.map_map]
    exact (List.map_congr_left fun t ht => Step.ofSegment_text (h t ht)).trans (List.map_id _)

theorem dot_not_mem_segments {cs : List Char} : ∀ seg ∈ segments cs, '.' ∉ seg := by
  induction cs with
  | nil => simp [segments]
  | cons c cs ih =>
    rw [segments]
    split
    · simpa using ih
    next hc =>
      cases hsegments : segments cs with
      | nil => simpa using Ne.symm hc
      | cons first rest =>
        rw [hsegments] at ih
        obtain ⟨hfirst, hrest⟩ := List.forall_mem_cons.mp ih
        exact List.forall_mem_cons.mpr ⟨by simp [Ne.symm hc, hfirst], hrest⟩

theorem plain_parse (s : String) : (parse s).Plain := by
  intro step hstep
  obtain ⟨seg, hseg, rfl⟩ := List.mem_map.mp hstep
  obtain ⟨hmem, hne⟩ := List.mem_filter.mp hseg
  exact Step.plain_ofSegment (by simpa using hne) (dot_not_mem_segments seg hmem)

theorem parse_render_iff {p : Path} : parse p.render = p ↔ p.Plain :=
  ⟨fun h => h ▸ plain_parse p.render, parse_render⟩

/-- Which paths those are: an empty key, a key with a dot and a key that reads as an index have no text
of their own, and neither has an index that does not fit in 64 bits. -/
theorem plain_iff {p : Path} : p.Plain ↔
    (∀ name, .key name ∈ p → name ≠ "" ∧ '.' ∉ name.toList ∧ ¬ Step.IsNumeral name.toList) ∧
    ∀ i, .index i ∈ p → i ≤ Step.maxIndex := by
  constructor
  · exact fun h => ⟨fun name hname => h _ hname, fun i hi => h _ hi⟩
  · rintro ⟨hkeys, hindices⟩ (name | i) hstep
    · exact hkeys name hstep
    · exact hindices i hstep

theorem render_ne_empty {p : Path} (h : p.Plain) (hne : p ≠ []) : p.render ≠ "" := by
  intro hempty
  have hparse := parse_render h
  rw [hempty] at hparse
  exact hne hparse.symm

theorem path_render_iff {p : Path} :
    Decoder.path (.str p.render) = .ok p ↔ p.Plain ∧ p ≠ [] := by
  by_cases hempty : p.render = ""
  · have hrefused : Decoder.path (.str p.render) = .error .emptyPath := by rw [hempty]; rfl
    rw [hrefused]
    refine ⟨nofun, fun ⟨hplain, hne⟩ => absurd hempty (render_ne_empty hplain hne)⟩
  · have hread : Decoder.path (.str p.render) = .ok (parse p.render) := by
      simp [Decoder.path, String.isEmpty_iff, hempty]
    rw [hread, Except.ok.injEq, parse_render_iff]
    refine ⟨fun hplain => ⟨hplain, ?_⟩, And.left⟩
    rintro rfl
    exact hempty rfl

theorem plain_address (scope : Control.Scope) (layer field : Nat) :
    (scope.address layer field).Plain ↔ layer ≤ Step.maxIndex ∧ field ≤ Step.maxIndex := by
  have hkeys : ∀ name ∈ ["layers", "ef", "v", "k", "renderer", "elements", "effectsManager",
      "effectElements", "p"], (Step.key name).Plain := by decide
  have hzero : (Step.index 0).Plain := by decide
  cases scope
  all_goals
    simp only [List.forall_mem_cons] at hkeys
    simp only [Control.Scope.address, Plain, List.forall_mem_cons, hkeys, hzero, true_and]
    simp [Step.Plain]

/-- Reading the text of a path that was read changes nothing. Of the other paths, exactly those are read
back from their text in which every key stands for itself, and a decoder reads them back unless they are
empty; the addresses of controls are among them. -/
theorem text_is_canonical :
    (∀ s : String, parse (parse s).render = parse s) ∧
    (∀ p : Path,
      (parse p.render = p ↔
        (∀ name, .key name ∈ p → name ≠ "" ∧ '.' ∉ name.toList ∧ ¬ Step.IsNumeral name.toList) ∧
        ∀ i, .index i ∈ p → i ≤ Step.maxIndex) ∧
      (Decoder.path (.str p.render) = .ok p ↔ parse p.render = p ∧ p ≠ [])) ∧
    ∀ (scope : Control.Scope) (layer field : Nat),
      Decoder.path (.str (scope.address layer field).render) = .ok (scope.address layer field) ↔
        layer ≤ Step.maxIndex ∧ field ≤ Step.maxIndex := by
  refine ⟨fun s => parse_render (plain_parse s), fun p => ⟨?_, ?_⟩, fun scope layer field => ?_⟩
  · exact parse_render_iff.trans plain_iff
  · exact path_render_iff.trans (and_congr_left' parse_render_iff.symm)
  · have hne : scope.address layer field ≠ [] := by cases scope <;> exact List.cons_ne_nil _ _
    rw [path_render_iff, plain_address]
    exact and_iff_left hne

example : (parse "layers.+007..v").render = "layers.7.v" := by decide

end Path

end IconMotion
