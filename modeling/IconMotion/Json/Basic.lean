import IconMotion.SortedMap
import IconMotion.Number.Precision

namespace IconMotion

inductive Number where
  | int (value : Int)
  | float (value : Float)
deriving DecidableEq

namespace Number

def toFloat : Number → Float
  | .int n => Float.ofInt n
  | .float x => x

/-- At single precision. A whole number is rounded once, not by way of a double. -/
def toFloat32 : Number → Float32
  | .int n => Float32.ofInt n
  | .float x => Precision.narrow x

def same : Number → Number → Bool
  | .int a, .int b => a == b
  | .float a, .float b => a == b
  | _, _ => false

end Number

/-- A JSON value. Members of an object are in ascending order of their keys, each key once. -/
inductive Json where
  | null
  | bool (value : Bool)
  | num (value : Number)
  | str (text : String)
  | arr (items : List Json)
  | obj (members : List (String × Json))
deriving Inhabited

namespace Json

inductive Kind where
  | null | boolean | number | string | array | object
deriving DecidableEq

def Kind.name : Kind → String
  | null => "null"
  | boolean => "a boolean"
  | number => "a number"
  | string => "a string"
  | array => "an array"
  | object => "an object"

def kind : Json → Kind
  | null => .null
  | bool _ => .boolean
  | num _ => .number
  | str _ => .string
  | arr _ => .array
  | obj _ => .object

def isNull : Json → Bool
  | null => true
  | _ => false

def member? : Json → String → Option Json
  | obj ms, key => SortedMap.find? ms key
  | _, _ => none

def text? : Json → Option String
  | str s => some s
  | _ => none

def items? : Json → Option (List Json)
  | arr xs => some xs
  | _ => none

def toFloat? : Json → Option Float
  | num n => some n.toFloat
  | _ => none

/-- A double as a value; one that is not finite has no number. -/
def ofFloat (x : Float) : Json := if x.isFinite then num (.float x) else null

def ofFloat32 (x : Float32) : Json := ofFloat (Precision.widen x)

def ofNat (n : Nat) : Json := num (.int n)

def ofFloats (xs : List Float) : Json := arr (xs.map ofFloat)

mutual

def same : Json → Json → Bool
  | null, null => true
  | bool a, bool b => a == b
  | num a, num b => a.same b
  | str a, str b => a == b
  | arr a, arr b => sameItems a b
  | obj a, obj b => sameMembers a b
  | _, _ => false

def sameItems : List Json → List Json → Bool
  | [], [] => true
  | a :: as, b :: bs => same a b && sameItems as bs
  | _, _ => false

def sameMembers : List (String × Json) → List (String × Json) → Bool
  | [], [] => true
  | (k, a) :: as, (l, b) :: bs => k == l && same a b && sameMembers as bs
  | _, _ => false

end

instance : BEq Json := ⟨same⟩

mutual

def Ordered : Json → Prop
  | arr xs => OrderedItems xs
  | obj ms => SortedMap.Sorted ms ∧ OrderedMembers ms
  | _ => True

def OrderedItems : List Json → Prop
  | [] => True
  | x :: xs => Ordered x ∧ OrderedItems xs

def OrderedMembers : List (String × Json) → Prop
  | [] => True
  | (_, x) :: ms => Ordered x ∧ OrderedMembers ms

end

end Json

end IconMotion
