import IconMotion.Animation.Decode
import IconMotion.Expression.Evaluation
import IconMotion.Live.Tree

namespace IconMotion.Live

structure Binding where
  path : Path
  source : String
  startTime : Float32
  property : Property Json

def driven? (ms : List (String × Json)) : Option String :=
  if SortedMap.contains ms "k" then (SortedMap.find? ms "x").bind Json.text? else none

mutual

/-- The bindings in a value, which is at `path`. A driven property is not searched further. -/
def bindings (startTime : Float32) (path : Path) : Json → List Binding
  | .obj ms => match driven? ms with
    | some source => match Decoder.property .json (.obj ms) with
      | .ok property => [⟨path, source, startTime, property⟩]
      | .error _ => []
    | none => bindingsOfMembers startTime path ms
  | .arr xs => bindingsOfItems startTime path 0 xs
  | _ => []

def bindingsOfItems (startTime : Float32) (path : Path) (i : Nat) : List Json → List Binding
  | [] => []
  | x :: xs =>
    bindings startTime (path ++ [.index i]) x ++ bindingsOfItems startTime path (i + 1) xs

def bindingsOfMembers (startTime : Float32) (path : Path) : List (String × Json) → List Binding
  | [] => []
  | (k, x) :: ms =>
    bindings startTime (path ++ [.key k]) x ++ bindingsOfMembers startTime path ms

end

def startTime (layer : Json) : Float32 := ((layer.member? "st").map Json.coordinate).getD 0.0

def findBindings (document : Json) : List Binding :=
  match (document.member? "layers").bind Json.items? with
  | none => []
  | some layers => layers.zipIdx.flatMap fun (layer, i) =>
    bindings (startTime layer) [.key "layers", .index i] layer

structure Names where
  composition : Option String
  tree : Tree

namespace Names

open Expression

def effect? (l : Layer) : Selector → Option Effect
  | .name name => l.effects.find? (·.hasName name)
  | .index 0 => none
  | .index (i + 1) => l.effects[i]?

def channel (names : Names) (r : Reference) : Except EvalError Channel := do
  match r.composition with
  | .named name => if names.composition ≠ some name then throw (.unknownComposition name)
  | .this => pure ()
  match names.tree.layer? r.layer with
  | none => throw (.unknownLayer r.layer)
  | some l => match effect? l r.effect with
    | none => throw (.unknownEffect r.layer r.effect.text)
    | some e => match e.channels.find? (·.hasName r.channel) with
      | none => throw (.unknownChannel r.effect.text r.channel)
      | some c => return c

def value (names : Names) (r : Reference) : Except EvalError Value := do
  let c ← names.channel r
  match Value.ofJson? c.value with
  | some v => return v
  | none => throw (.typeMismatch (.notNumeric r.channel))

def context (names : Names) (base : Json) : Context where
  channel := names.value
  value := match Value.ofJson? base with
    | some v => .ok v
    | none => .error (.missingMember "value")

end Names

structure Sample where
  path : Path
  idiom : Option Expression.Idiom
  value : Json

def Sample.members (s : Sample) : List (String × Json) :=
  [("path", .str s.path.render),
    ("template", match s.idiom with
      | some idiom => .str idiom.name
      | none => .null),
    ("value", s.value)]

inductive Remark where
  | refused (why : Expression.Refusal)
  | failed (path : Path) (why : Expression.EvalError)

def Remark.message : Remark → String
  | refused why => why.message
  | failed path why =>
    "expression failed, using keyframes; path=" ++ path.render ++ "; err=" ++ why.message

namespace Binding

def base (b : Binding) (frame : Float32) : Json :=
  b.property.track.sample (frame - b.startTime) id .null

/-- The sample at a frame, given what the source compiles to. Where that has no value, it is the value of
the keyframes. -/
def sample (b : Binding) (names : Names) (frame : Float32) :
    Option Expression.Compiled → Sample × List Remark
  | none => (⟨b.path, none, b.base frame⟩, [])
  | some compiled => match compiled.evaluate (names.context (b.base frame)) with
    | .ok v => (⟨b.path, some compiled.idiom, v.toJson⟩, [])
    | .error e => (⟨b.path, some compiled.idiom, b.base frame⟩, [.failed b.path e])

def sampleAll (names : Names) (frame : Float32) (cache : Expression.Cache) :
    List Binding → List Sample × List Remark × Expression.Cache
  | [] => ([], [], cache)
  | b :: bs =>
    let (compiled, refusals, cache) := cache.get b.source
    let (s, failures) := b.sample names frame compiled
    let (samples, remarks, cache) := sampleAll names frame cache bs
    (s :: samples, refusals.map .refused ++ failures ++ remarks, cache)

end Binding

end IconMotion.Live
