import IconMotion.Control.Basic
import IconMotion.Color

namespace IconMotion.Control

inductive Action where
  | write | reset
  | bake
deriving DecidableEq

def Action.failure : Action → String
  | write => "skipping parameter write"
  | reset => "skipping parameter reset"
  | bake => "could not export control"

structure Skip where
  action : Action
  name : String
  error : PathError

def Skip.message (s : Skip) : String :=
  s.action.failure ++ "; name=" ++ s.name ++ "; err=" ++ s.error.message

def unitJson (c : Unit3 Float) : Json := Json.ofFloats [c.r, c.g, c.b]

def number? (ms : List (String × Json)) (key : String) : Option Float :=
  (SortedMap.find? ms key).bind Json.toFloat?

def colorValue? : Json → Option Json
  | .str hex => some (unitJson (Color.unitOfHex hex))
  | .arr xs => if 3 ≤ xs.length then some (.arr xs) else none
  | .obj ms => do
    let r ← number? ms "r"
    let g ← number? ms "g"
    let b ← number? ms "b"
    some (unitJson (Color.normalize ⟨r, g, b⟩))
  | _ => none

def pointValues? : Json → Option (Json × Json)
  | .arr [x, y] => some (x, y)
  | .obj ms => do some (← SortedMap.find? ms "x", ← SortedMap.find? ms "y")
  | _ => none

namespace Descriptor

/-- What a value comes to be written as: places and what is put there. Empty if the control does not
take the value. -/
def slots (d : Descriptor) (value : Json) : List (Path × Json) :=
  match d.kind with
  | .color => match colorValue? value with
    | some v => [(d.path, v)]
    | none => []
  | .point => match pointValues? value with
    | some (x, y) => [(d.path ++ [.index 0], x), (d.path ++ [.index 1], y)]
    | none => []
  | .slider | .checkbox | .feature => [(d.path, value)]

end Descriptor

variable {τ : Type} [Target τ]

/-- Puts values in their places, up to the first place that cannot be reached. -/
def putAll (t : τ) : List (Path × Json) → τ × Option PathError
  | [] => (t, none)
  | (p, v) :: slots => match Target.set t p v with
    | .ok t => putAll t slots
    | .error e => (t, some e)

def skips (action : Action) (d : Descriptor) (error : Option PathError) : List Skip :=
  error.toList.map fun e => ⟨action, d.name, e⟩

def write (t : τ) (ds : List Descriptor) (value : Json) : τ × List Skip :=
  match ds with
  | [] => (t, [])
  | d :: ds =>
    let (t, error) := putAll t (d.slots value)
    let (t, later) := write t ds value
    (t, skips .write d error ++ later)

def reset (t : τ) (ds : List Descriptor) : τ × List Skip :=
  match ds with
  | [] => (t, [])
  | d :: ds =>
    let (t, error) := putAll t [(d.path, d.value)]
    let (t, later) := reset t ds
    (t, skips .reset d error ++ later)

end IconMotion.Control
