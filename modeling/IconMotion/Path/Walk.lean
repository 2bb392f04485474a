import IconMotion.Path.Basic
import IconMotion.Json.Basic

namespace IconMotion

inductive Obstacle where
  | notIndexable (found : Json.Kind)
  | missing
deriving DecidableEq

inductive PathError where
  | notIndexable (path : Path) (step : Nat) (found : Json.Kind)
  | missing (path : Path) (step : Nat) (key : String)
  | unaddressable (path : Path)
deriving DecidableEq

def PathError.message : PathError → String
  | notIndexable path step found =>
    "cannot index into " ++ found.name ++ " at step " ++ toString step ++ " of `" ++ path.render ++ "`"
  | missing path step key =>
    "missing `" ++ key ++ "` at step " ++ toString step ++ " of `" ++ path.render ++ "`"
  | unaddressable path => "`" ++ path.render ++ "` does not address a slot of the live tree"

def Obstacle.toError (path : Path) (step : Nat) : Obstacle → PathError
  | notIndexable found => .notIndexable path step found
  | missing => .missing path step ((path[step]?.map Step.text).getD "")

namespace Json

def child : Json → Step → Except Obstacle Json
  | obj ms, s => match SortedMap.find? ms s.text with
    | some j => .ok j
    | none => .error .missing
  | arr xs, .index i => match xs[i]? with
    | some j => .ok j
    | none => .error .missing
  | arr _, .key _ => .error .missing
  | j, _ => .error (.notIndexable j.kind)

def put : Json → Step → Json → Except Obstacle Json
  | obj ms, s, v => .ok (obj (SortedMap.insert ms s.text v))
  | arr xs, .index i, v =>
    if i < xs.length then .ok (arr (xs.set i v))
    else if i = xs.length then .ok (arr (xs ++ [v]))
    else .error .missing
  | arr _, .key _, _ => .error .missing
  | j, _, _ => .error (.notIndexable j.kind)

def get? : Json → Path → Option Json
  | j, [] => some j
  | j, s :: p => match j.child s with
    | .ok c => get? c p
    | .error _ => none

/-- The last step may name a new member of an object or the place behind the last item of an array; all
steps before it must exist. -/
def set : Json → Path → Json → Except (Nat × Obstacle) Json
  | _, [], v => .ok v
  | j, [s], v => (j.put s v).mapError fun o => (0, o)
  | j, s :: t :: p, v => match j.child s with
    | .error o => .error (0, o)
    | .ok c => match set c (t :: p) v with
      | .error (n, o) => .error (n + 1, o)
      | .ok c => (j.put s c).mapError fun o => (0, o)

end Json

structure Slot (τ : Type) where
  value : Json
  put : Json → τ
  rest : Path

/-- Things that paths lead into. They take the first steps of a path themselves. -/
class Target (τ : Type) where
  locate : τ → Path → Except PathError (Slot τ)

namespace Target

variable {τ : Type} [Target τ]

def get? (t : τ) (p : Path) : Option Json :=
  match locate t p with
  | .ok slot => slot.value.get? slot.rest
  | .error _ => none

def getD (t : τ) (p : Path) (fallback : Json) : Json := (get? t p).getD fallback

def has (t : τ) (p : Path) : Bool := (get? t p).isSome

def set (t : τ) (p : Path) (v : Json) : Except PathError τ :=
  match locate t p with
  | .error e => .error e
  | .ok slot => match slot.value.set slot.rest v with
    | .ok j => .ok (slot.put j)
    | .error (n, o) => .error (o.toError p (p.length - slot.rest.length + n))

end Target

instance : Target Json where
  locate j p := .ok ⟨j, id, p⟩

end IconMotion
