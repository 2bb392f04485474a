import IconMotion.Json.Printer
import IconMotion.Proofs.Encoding
import IconMotion.Proofs.Parts

namespace IconMotion

open Decoder

namespace Json

/-- What stands for `v` in the values of the effects of the layers of a document. -/
def effectSources (document : Json) : List Json :=
  (document.parts "layers" 7).flatMap fun layer =>
    (layer.parts "ef" 6).flatMap fun effect =>
      (effect.parts "ef" 5).filterMap (·.part? "v" 4)

def unwrapped : Json → Json
  | .arr [x] => x
  | j => j

end Json

namespace Decoder

variable {j : Json}

theorem toEffectProperty_of_effectProperty {p : Property Json}
    (h : effectProperty j = .ok (some p)) : p = toEffectProperty j := by
  cases j with
  | null => cases h
  | _ =>
    cases h
    rfl

theorem property_of_effectValue {v : EffectValue} {p : Property Json} (h : effectValue j = .ok v)
    (hp : v.property = some p) : ∃ x, j.part? "v" 4 = some x ∧ p = toEffectProperty x := by
  have hgiven : ∃ x, given? effectProperty (j.part? "v" 4) = .ok x ∧ x.join = some p := by
    cases j with
    | obj ms =>
      have h : effectValueOfMembers ms = .ok v := h
      simp only [effectValueOfMembers, bind_eq_ok, pure_eq_ok] at h
      obtain ⟨index, -, matchName, -, name, -, type, -, value, hvalue, rfl⟩ := h
      exact ⟨value, hvalue, hp⟩
    | arr xs =>
      have h : effectValueOfItems xs = .ok v := h
      simp only [effectValueOfItems, bind_eq_ok, pure_eq_ok] at h
      obtain ⟨type, -, name, -, matchName, -, index, -, value, hvalue, -, -, rfl⟩ := h
      exact ⟨value, hvalue, hp⟩
    | _ => cases h
  obtain ⟨x, hx, hjoin⟩ := hgiven
  obtain rfl := Option.join_eq_some_iff.mp hjoin
  obtain ⟨y, hy, hread⟩ := given?_eq_ok_some hx
  exact ⟨y, hy, toEffectProperty_of_effectProperty hread⟩

theorem exists_source {a : Animation} {p : Property Json} (h : animation j = .ok a)
    (hp : p ∈ a.properties) : ∃ x ∈ j.effectSources, p = toEffectProperty x := by
  obtain ⟨l, hl, hp⟩ := List.mem_flatMap.mp hp
  obtain ⟨e, he, hp⟩ := List.mem_flatMap.mp hp
  obtain ⟨v, hv, hp⟩ := List.mem_filterMap.mp hp
  obtain ⟨jl, hjl, hl⟩ := mem_layers h hl
  obtain ⟨je, hje, he⟩ := mem_effects hl he
  obtain ⟨jv, hjv, hv⟩ := mem_values he hv
  obtain ⟨x, hx, rfl⟩ := property_of_effectValue hv hp
  exact ⟨x, List.mem_flatMap.mpr ⟨jl, hjl, List.mem_flatMap.mpr ⟨je, hje,
    List.mem_filterMap.mpr ⟨jv, hjv, hx⟩⟩⟩, rfl⟩

theorem ne_null_of_frameValue {j? : Option Json} {x : Option (Option Json)}
    (h : given? (frameValue json) j? = .ok x) : x.join ≠ some .null := by
  intro hnull
  obtain rfl := Option.join_eq_some_iff.mp hnull
  obtain ⟨j, -, hj⟩ := given?_eq_ok_some h
  cases j with
  | _ => cases hj

theorem ne_null_of_keyframe {k : Keyframe Float32 Json} (h : keyframe json j = .ok k) :
    k.start ≠ some .null ∧ k.stop ≠ some .null := by
  cases j with
  | obj ms =>
    have h : keyframeOfMembers json ms = .ok k := h
    simp only [keyframeOfMembers, bind_eq_ok, pure_eq_ok] at h
    obtain ⟨stop, hstop, hold, -, easeIn, -, easeOut, -, start, hstart, time, -, tangentIn, -,
      tangentOut, -, time', -, rfl⟩ := h
    exact ⟨ne_null_of_frameValue hstart, ne_null_of_frameValue hstop⟩
  | arr xs =>
    have h : keyframeOfItems json xs = .ok k := h
    simp only [keyframeOfItems, bind_eq_ok, pure_eq_ok] at h
    obtain ⟨time, -, start, hstart, stop, hstop, easeIn, -, easeOut, -, tangentOut, -, tangentIn, -,
      hold, -, -, -, rfl⟩ := h
    exact ⟨ne_null_of_frameValue hstart, ne_null_of_frameValue hstop⟩
  | _ => cases h

theorem readable_toTrack (j : Json) : (toTrack json j).Readable := by
  rcases toTrack_cases j with ⟨-, h⟩ | h | ⟨ks, h, hlist, hks⟩
  · rw [h]
    trivial
  · rw [h]
    change (toTrack json j).isKeyed = false
    rw [h]
    rfl
  · rw [h]
    obtain ⟨x, xs, rfl, -⟩ := isKeyframeList_eq_true hlist
    obtain ⟨k, -, ks', -, rfl⟩ := mapM_cons_eq_ok.mp hks
    refine ⟨List.cons_ne_nil k ks', fun k' hk' => ?_⟩
    obtain ⟨y, -, hy⟩ := exists_mem_of_mapM hks hk'
    exact ne_null_of_keyframe hy

theorem readable_property {p : Property Json} (h : property json j = .ok p) : p.track.Readable := by
  have hgiven : ∃ x j?, given? (track json) j? = .ok x ∧ p.track = x.getD .empty := by
    cases j with
    | obj ms =>
      have h : propertyOfMembers json ms = .ok p := h
      simp only [propertyOfMembers, bind_eq_ok, pure_eq_ok] at h
      obtain ⟨animated, -, values, hvalues, index, -, expression, -, rfl⟩ := h
      exact ⟨values, _, hvalues, rfl⟩
    | arr xs =>
      have h : propertyOfItems json xs = .ok p := h
      simp only [propertyOfItems, bind_eq_ok, pure_eq_ok] at h
      obtain ⟨animated, -, values, hvalues, index, -, expression, -, -, -, rfl⟩ := h
      exact ⟨values, _, hvalues, rfl⟩
    | _ => cases h
  obtain ⟨x, j?, hx, htrack⟩ := hgiven
  rw [htrack]
  cases x with
  | none => trivial
  | some t =>
    obtain ⟨j', -, ht⟩ := given?_eq_ok_some hx
    cases ht
    exact readable_toTrack j'

theorem toEffectProperty_cases (j : Json) :
    property json j.unwrapped = .ok (toEffectProperty j) ∨
      toEffectProperty j = .constant j.unwrapped := by
  unfold toEffectProperty
  extract_lets u
  change property json u = _ ∨ _ = Property.constant u
  split
  · cases property json u with
    | ok p => exact .inl rfl
    | error e => exact .inr rfl
  · exact .inr rfl

theorem readable_toEffectProperty (h : isKeyframeList j.unwrapped = false) :
    (toEffectProperty j).track.Readable := by
  rcases toEffectProperty_cases j with hj | hj
  · exact readable_property hj
  · rw [hj]
    change (toTrack json j.unwrapped).isKeyed = false
    rcases toTrack_cases j.unwrapped with ⟨-, ht⟩ | ht | ⟨ks, -, hlist, -⟩
    · rw [ht]
      rfl
    · rw [ht]
      rfl
    · rw [h] at hlist
      cases hlist

end Decoder

/-- An animation that is read, with finite singles and no keyframes for the value of an effect, is
written, and read again it has settled: a fixed value that is `null` has become no value. The settled
animation is written in the same way. -/
theorem encoding_is_normal {j : Json} {a : Animation} (h : Decoder.animation j = .ok a)
    (hfinite : ∀ x ∈ a.singles, x.isFinite = true)
    (hsources : ∀ x ∈ j.effectSources, isKeyframeList x.unwrapped = false) :
    Decoder.animation (Encoder.animation a) = .ok a.settled ∧
      Encoder.animation a.settled = Encoder.animation a := by
  refine ⟨Decoder.animation_encoded hfinite fun p hp => ?_, Encoder.animation_settled a⟩
  obtain ⟨x, hx, rfl⟩ := Decoder.exists_source h hp
  exact Decoder.readable_toEffectProperty (hsources x hx)

/-- Records by name and by position, keyframes with and without values, and values that stand for
nothing. -/
def Json.variedForms : Json :=
  .obj [("fr", .num (.int 10)), ("h", .num (.int 8)), ("ip", .num (.int 0)),
    ("layers", .arr [
      .obj [("ef", .arr [
        .obj [("ef", .arr [
          .obj [("v", .obj [("k", .arr [
            .obj [("o", .obj [("x", .arr [.num (.float 0.25)]), ("y", .num (.float 0.1))]),
              ("s", .arr [.num (.int 3)]), ("t", .num (.int 0)), ("to", .arr [.num (.int 1)])],
            .obj [("h", .num (.int 1)), ("s", .null), ("t", .num (.float 9.5))]])])],
          .obj [("v", .arr [.null])],
          .arr [.num (.int 5), .str "Value", .null, .num (.int 3), .arr [.num (.int 7)]]])],
        .arr [.null, .str "Axis"]])],
      .arr [.num (.int 4), .null, .str "Controls", .num (.int 0), .num (.int 10)]]),
    ("op", .num (.int 20)), ("w", .num (.int 8))]

def Json.variedText : String :=
  .ofList ([
    "\x7b\"fr\":10.0,\"h\":8,\"ip\":0.0,",
    "\"layers\":[\x7b\"ef\":[\x7b\"ef\":[\x7b\"ix\":null,",
    "\"mn\":null,\"nm\":null,\"ty\":null,",
    "\"v\":\x7b\"a\":0,\"ix\":null,",
    "\"k\":[\x7b\"e\":null,\"h\":null,\"i\":null,",
    "\"o\":[0.25,0.10000000149011612],\"s\":[3],",
    "\"t\":0.0,\"ti\":null,\"to\":[1.0]\x7d,",
    "\x7b\"e\":null,\"h\":1,\"i\":null,\"o\":null,",
    "\"s\":null,\"t\":9.5,\"ti\":null,",
    "\"to\":null\x7d],\"x\":null\x7d\x7d,",
    "\x7b\"ix\":null,\"mn\":null,\"nm\":null,",
    "\"ty\":null,\"v\":\x7b\"a\":0,\"ix\":null,",
    "\"k\":null,\"x\":null\x7d\x7d,\x7b\"ix\":3,",
    "\"mn\":null,\"nm\":\"Value\",\"ty\":5,",
    "\"v\":\x7b\"a\":0,\"ix\":null,\"k\":7,",
    "\"x\":null\x7d\x7d],\"en\":null,\"ix\":null,",
    "\"mn\":null,\"nm\":null,\"ty\":null\x7d,",
    "\x7b\"ef\":null,\"en\":null,\"ix\":null,",
    "\"mn\":null,\"nm\":\"Axis\",\"ty\":null\x7d],",
    "\"ind\":null,\"ip\":0.0,\"nm\":null,",
    "\"op\":0.0,\"st\":0.0,\"ty\":0\x7d,",
    "\x7b\"ef\":null,\"ind\":null,\"ip\":0.0,",
    "\"nm\":\"Controls\",\"op\":10.0,\"st\":0.0,",
    "\"ty\":4\x7d],\"nm\":null,\"op\":20.0,",
    "\"v\":null,\"w\":8\x7d"].flatMap String.toList)

set_option maxRecDepth 4096 in
theorem encoding_is_normal_for_varied_forms : ∃ a, Decoder.animation Json.variedForms = .ok a ∧
    (∀ x ∈ a.singles, x.isFinite = true) ∧
    (∀ x ∈ Json.variedForms.effectSources, isKeyframeList x.unwrapped = false) ∧
    (Encoder.animation a).render = Json.variedText ∧
    Decoder.animation (Encoder.animation a) = .ok a.settled ∧
      Encoder.animation a.settled = Encoder.animation a := by
  obtain ⟨a, h, hfinite, htext⟩ : ∃ a, Decoder.animation Json.variedForms = .ok a ∧
      (∀ x ∈ a.singles, x.isFinite = true) ∧ (Encoder.animation a).render = Json.variedText :=
    ⟨_, rfl, by decide +kernel, rfl⟩
  have hsources : ∀ x ∈ Json.variedForms.effectSources, isKeyframeList x.unwrapped = false := by
    decide
  exact ⟨a, h, hfinite, hsources, htext, encoding_is_normal h hfinite hsources⟩

end IconMotion
