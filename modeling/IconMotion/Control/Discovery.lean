import IconMotion.Control.Basic
import IconMotion.Text.Case

namespace IconMotion.Control

def valuePath : Path := [.key "ef", .index 0, .key "v", .key "k"]

def ofField? (scope : Scope) (layer : Nat) (field : Json) (i : Nat) : Option Descriptor := do
  let name ← (field.member? "nm").bind Json.text?
  let kind ← ((field.member? "mn").bind Json.text?).bind Kind.ofMatchName?
  let value ← field.get? valuePath
  some ⟨Text.lower name, kind, scope, layer, i, scope.address layer i, value⟩

def isNamed (layer : Json) : Bool :=
  ((layer.member? "nm").bind Json.text?).any (!·.isEmpty)

def ofLayer (scope : Scope) (layer : Json) (i : Nat) : List Descriptor :=
  match (layer.member? "ef").bind Json.items? with
  | none => []
  | some fields =>
    if isNamed layer then fields.zipIdx.filterMap fun (field, j) => ofField? scope i field j
    else []

/-- Every control of a document, by layer and then by field. A layer needs a name that is not empty; a
field needs a name, a known match name and a value. All else is passed over. -/
def discover (document : Json) (scope : Scope) : List Descriptor :=
  match (document.member? "layers").bind Json.items? with
  | none => []
  | some layers => layers.zipIdx.flatMap fun (layer, i) => ofLayer scope layer i

end IconMotion.Control
