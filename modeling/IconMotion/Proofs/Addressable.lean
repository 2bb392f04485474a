import Mathlib.Data.List.Basic
import Mathlib.Tactic.SplitIfs
import IconMotion.Proofs.Discovering

namespace IconMotion.Control

def standardNames : List String :=
  ["ADBE Color Control", "ADBE Slider Control", "ADBE Point Control", "ADBE Checkbox Control"]

def IsControlName (mn : String) : Prop := mn ∈ standardNames ∨ "Pseudo/".toList <+: mn.toList

theorem isSome_ofMatchName? {mn : String} : (Kind.ofMatchName? mn).isSome ↔ IsControlName mn := by
  unfold Kind.ofMatchName? IsControlName standardNames
  split_ifs <;> simp_all

def FieldAt (document : Json) (i j : Nat) (layer field : Json) : Prop :=
  document.LayerAt i layer ∧
    ∃ fields, layer.member? "ef" = some (.arr fields) ∧ fields[j]? = some field

/-- Field `j` of layer `i` is a control: the layer has a name that is not empty, and the field has a
name, a match name of a control and a value. -/
def IsControl (document : Json) (i j : Nat) : Prop :=
  ∃ layer field layerName name mn, FieldAt document i j layer field ∧
    layer.member? "nm" = some (.str layerName) ∧ layerName ≠ "" ∧
    field.member? "nm" = some (.str name) ∧
    field.member? "mn" = some (.str mn) ∧ IsControlName mn ∧
    (Target.get? field (Path.parse "ef.0.v.k")).isSome

theorem valuePath_eq_parse : valuePath = Path.parse "ef.0.v.k" := by decide

theorem isNamed_iff {layer : Json} :
    isNamed layer = true ↔ ∃ nm, layer.member? "nm" = some (.str nm) ∧ nm ≠ "" := by
  simp [isNamed, Option.any_eq_true, Option.bind_eq_some_iff, text?_eq_some]

theorem isControl_iff {document : Json} {scope : Scope} {i j : Nat} :
    IsControl document i j ↔ ∃ d ∈ discover document scope, d.layer = i ∧ d.field = j := by
  constructor
  · rintro ⟨layer, field, layerName, name, mn,
      ⟨⟨layers, hlayers, hlayer⟩, fields, hef, hfield⟩, hnamed, hne, hname, hmn, hcontrol, hvalue⟩
    obtain ⟨root, rfl, hlayers⟩ := Json.member?_eq_some.mp hlayers
    obtain ⟨ms, rfl, hef⟩ := Json.member?_eq_some.mp hef
    obtain ⟨kind, hkind⟩ := Option.isSome_iff_exists.mp (isSome_ofMatchName?.mpr hcontrol)
    obtain ⟨v, hv⟩ := Option.isSome_iff_exists.mp hvalue
    rw [← valuePath_eq_parse] at hv
    let d : Descriptor := ⟨Text.lower name, kind, scope, i, j, scope.address i j, v⟩
    have hd : ofField? scope i field j = some d :=
      ofField?_eq_some.mpr ⟨name, mn, kind, v, hname, hmn, hkind, hv, rfl⟩
    refine ⟨d, mem_discover.mpr ?_, rfl, rfl⟩
    exact ⟨root, layers, ms, fields, field, rfl, hlayers, hlayer, hef,
      isNamed_iff.mpr ⟨layerName, hnamed, hne⟩, hfield, hd⟩
  · rintro ⟨d, hd, rfl, rfl⟩
    obtain ⟨root, layers, ms, fields, field, rfl, hlayers, hlayer, hef, hnamed, hfield, hd⟩ :=
      mem_discover.mp hd
    obtain ⟨layerName, hlayerName, hne⟩ := isNamed_iff.mp hnamed
    obtain ⟨name, mn, kind, v, hname, hmn, hkind, hv, -⟩ := ofField?_eq_some.mp hd
    have hcontrol : IsControlName mn := isSome_ofMatchName?.mp (by rw [hkind]; rfl)
    refine ⟨.obj ms, field, layerName, name, mn, ⟨⟨layers, hlayers, hlayer⟩, fields, hef, hfield⟩,
      hlayerName, hne, hname, hmn, hcontrol, ?_⟩
    rw [← valuePath_eq_parse]
    exact Option.isSome_iff_exists.mpr ⟨v, hv⟩

def Describes (document : Json) (scope : Scope) (d : Descriptor) : Prop :=
  d.scope = scope ∧ d.path = scope.address d.layer d.field ∧
    ∃ layer field name mn, FieldAt document d.layer d.field layer field ∧
      field.member? "nm" = some (.str name) ∧ d.name = Text.lower name ∧
      field.member? "mn" = some (.str mn) ∧ Kind.ofMatchName? mn = some d.kind

theorem describes_of_mem_discover {document : Json} {scope : Scope} {d : Descriptor}
    (h : d ∈ discover document scope) : Describes document scope d := by
  obtain ⟨root, layers, ms, fields, field, rfl, hlayers, hlayer, hef, -, hfield, hd⟩ :=
    mem_discover.mp h
  obtain ⟨name, mn, kind, v, hname, hmn, hkind, -, heq⟩ := ofField?_eq_some.mp hd
  rw [heq]
  exact ⟨rfl, rfl, .obj ms, field, name, mn, ⟨⟨layers, hlayers, hlayer⟩, fields, hef, hfield⟩, hname,
    rfl, hmn, hkind⟩

theorem ofField?_inScope (scope scope' : Scope) (layer i : Nat) (field : Json) :
    ofField? scope' layer field i = (ofField? scope layer field i).map (·.inScope scope') := by
  unfold ofField?
  cases (field.member? "nm").bind Json.text? with
  | none => rfl
  | some name =>
    cases ((field.member? "mn").bind Json.text?).bind Kind.ofMatchName? with
    | none => rfl
    | some kind => cases field.get? valuePath <;> rfl

theorem ofLayer_inScope (scope scope' : Scope) (layer : Json) (i : Nat) :
    ofLayer scope' layer i = (ofLayer scope layer i).map (·.inScope scope') := by
  unfold ofLayer
  split
  · rfl
  · split
    · simp only [List.map_filterMap, ofField?_inScope scope scope']
    · rfl

theorem discover_inScope (document : Json) (scope scope' : Scope) :
    discover document scope' = (discover document scope).map (·.inScope scope') := by
  unfold discover
  split
  · rfl
  · rw [List.map_flatMap]
    exact List.flatMap_congr fun x _ => ofLayer_inScope scope scope' x.1 x.2

structure Finds (document : Json) (scope : Scope) (ds : List Descriptor) : Prop where
  covers : ∀ i j, IsControl document i j ↔ ∃ d ∈ ds, d.layer = i ∧ d.field = j
  once : (ds.map Descriptor.key).Nodup
  ascending : ds.Pairwise fun a b => a.layer < b.layer ∨ a.layer = b.layer ∧ a.field < b.field
  values : ∀ d ∈ ds, Target.get? document (Scope.document.address d.layer d.field) = some d.value
  described : ∀ d ∈ ds, Describes document scope d

/-- In every document exactly the controls are found, each once and in the order of layers and fields,
with the values at their addresses; and for another scope the same ones, addressed there. -/
theorem finds_discover (document : Json) :
    (∀ scope, Finds document scope (discover document scope)) ∧
    ∀ scope scope', discover document scope' = (discover document scope).map (·.inScope scope') := by
  refine ⟨fun scope => ?_, discover_inScope document⟩
  exact {
    covers := fun _ _ => isControl_iff
    once := nodup_keys_discover document scope
    ascending := pairwise_discover document scope
    values := fun _ hd => get?_of_mem_discover hd
    described := fun _ hd => describes_of_mem_discover hd }

end IconMotion.Control
