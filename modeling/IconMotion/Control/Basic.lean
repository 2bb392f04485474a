import IconMotion.Path.Walk

namespace IconMotion.Control

inductive Kind where
  | color | slider | point | checkbox
  | feature
deriving DecidableEq

namespace Kind

def name : Kind → String
  | color => "color"
  | slider => "slider"
  | point => "point"
  | checkbox => "checkbox"
  | feature => "feature"

def all : List Kind := [color, slider, point, checkbox, feature]

def ofMatchName? (mn : String) : Option Kind :=
  if mn = "ADBE Color Control" then some color
  else if mn = "ADBE Slider Control" then some slider
  else if mn = "ADBE Point Control" then some point
  else if mn = "ADBE Checkbox Control" then some checkbox
  else if "Pseudo/".toList.isPrefixOf mn.toList then some feature
  else none

end Kind

/-- A control has its value at the same place in the document and in the live tree. -/
inductive Scope where
  | document | liveTree
deriving DecidableEq

namespace Scope

def name : Scope → String
  | document => "document"
  | liveTree => "live_tree"

def all : List Scope := [document, liveTree]

def address (layer field : Nat) : Scope → Path
  | document =>
    [.key "layers", .index layer, .key "ef", .index field, .key "ef", .index 0, .key "v", .key "k"]
  | liveTree =>
    [.key "renderer", .key "elements", .index layer, .key "effectsManager", .key "effectElements",
      .index field, .key "effectElements", .index 0, .key "p", .key "v"]

end Scope

/-- A control as it was found. The value is the one at that time. -/
structure Descriptor where
  name : String
  kind : Kind
  scope : Scope
  layer : Nat
  field : Nat
  path : Path
  value : Json

namespace Descriptor

def inScope (d : Descriptor) (scope : Scope) : Descriptor :=
  { d with scope := scope, path := scope.address d.layer d.field }

def members (d : Descriptor) : List (String × Json) :=
  [("name", .str d.name), ("type", .str d.kind.name), ("scope", .str d.scope.name),
    ("layer_index", .ofNat d.layer), ("field_index", .ofNat d.field), ("path", .str d.path.render),
    ("value", d.value)]

/-- One of several named things: its name, or an object that maps the name to nothing. -/
def choice? {τ : Type} (name : τ → String) (all : List τ) : Json → Option τ
  | .str s => all.find? (name · = s)
  | .obj [(s, .null)] => all.find? (name · = s)
  | _ => none

def index? : Json → Option Nat
  | .num (.int n) => if 0 ≤ n ∧ n ≤ Step.maxIndex then some n.toNat else none
  | _ => none

def path? : Json → Option Path
  | .str s => if s.isEmpty then none else some (Path.parse s)
  | _ => none

def ofFields? : List Json → Option Descriptor
  | [name, kind, scope, layer, field, path, value] => do
    let name ← name.text?
    let kind ← choice? Kind.name Kind.all kind
    let scope ← choice? Scope.name Scope.all scope
    some ⟨name, kind, scope, ← index? layer, ← index? field, ← path? path, value⟩
  | _ => none

def ofJson? : Json → Option Descriptor
  | .arr xs => ofFields? xs
  | .obj ms => do
    let fields ← ["name", "type", "scope", "layer_index", "field_index", "path", "value"].mapM
      (SortedMap.find? ms ·)
    ofFields? fields
  | _ => none

end Descriptor

end IconMotion.Control
