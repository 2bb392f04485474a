import IconMotion.Expression.Error
import IconMotion.Json.Basic

namespace IconMotion.Expression

inductive Value where
  | number (x : Float)
  | vector (xs : List Float)
deriving DecidableEq

namespace Value

def ofJson? : Json → Option Value
  | .num n => some (number n.toFloat)
  | .bool b => some (number (if b then 1.0 else 0.0))
  | .arr xs => (xs.mapM Json.toFloat?).map vector
  | _ => none

def toJson : Value → Json
  | number x => .ofFloat x
  | vector xs => .ofFloats xs

def scalar? : Value → Option Float
  | number x => some x
  | vector [x] => some x
  | vector _ => none

def map (f : Float → Float) : Value → Value
  | number x => number (f x)
  | vector xs => vector (xs.map f)

def mul (a b : Value) : Except EvalError Value :=
  match a.scalar?, b.scalar? with
  | some x, some y => .ok (number (x * y))
  | none, some y => .ok (a.map (· * y))
  | some x, none => .ok (b.map (x * ·))
  | none, none => .error (.typeMismatch .twoVectors)

def nan : Float := 0.0 / 0.0

/-- The quotient by a scalar. A vector divided by zero has no numbers left. -/
def div (a b : Value) : Except EvalError Value :=
  match b.scalar? with
  | none => .error (.typeMismatch .vectorDivisor)
  | some y => match a.scalar? with
    | some x => .ok (number (x / y))
    | none => if y == 0.0 then .ok (a.map fun _ => nan) else .ok (a.map (· / y))

end Value

end IconMotion.Expression
