import IconMotion.Json.Printer
import IconMotion.Path.Basic
import IconMotion.Text.Quoted

namespace IconMotion

inductive Expected where
  | float32
  | byte
  | word32
  | string
  | sequence
  | record (name : String)

def Expected.name : Expected → String
  | float32 => "f32"
  | byte => "u8"
  | word32 => "u32"
  | string => "a string"
  | sequence => "a sequence"
  | record name => "struct " ++ name

inductive DecodeError where
  | wrongType (found : Json) (expected : Expected)
  | outOfRange (found : Int) (expected : Expected)
  | tooShort (position : Nat) (record : String) (fields : Nat)
  | tooLong (length : Nat)
  | missingField (name : String)
  | notAHandle
  | emptyPath

namespace DecodeError

def found : Json → String
  | .null => "null"
  | .bool b => "boolean `" ++ toString b ++ "`"
  | .num (.int n) => "integer `" ++ toString n ++ "`"
  | .num (.float x) => "floating point `" ++ (Json.num (.float x)).render ++ "`"
  | .str s => "string " ++ Text.quoted s
  | .arr _ => "sequence"
  | .obj _ => "map"

def message : DecodeError → String
  | wrongType j expected => "invalid type: " ++ found j ++ ", expected " ++ expected.name
  | outOfRange n expected =>
    "invalid value: " ++ found (.num (.int n)) ++ ", expected " ++ expected.name
  | tooShort position record fields =>
    "invalid length " ++ toString position ++ ", expected struct " ++ record ++ " with " ++
      toString fields ++ " elements"
  | tooLong length =>
    "invalid length " ++ toString length ++ ", expected fewer elements in array"
  | missingField name => "missing field `" ++ name ++ "`"
  | notAHandle => "expected easing handle object or pair"
  | emptyPath => "empty addressing path"

end DecodeError

/-- Of several faults the first in the order of visit is reported: for an object the ascending order of
its keys, then the missing fields in the order of declaration; for an array its own order. -/
abbrev Decoder (τ : Type) := Json → Except DecodeError τ

namespace Decoder

variable {τ : Type}

def json : Decoder Json := .ok

def float32 : Decoder Float32
  | .num n => .ok n.toFloat32
  | j => .error (.wrongType j .float32)

def natBelow (bound : Nat) (expected : Expected) : Decoder Nat
  | .num (.int n) =>
    if 0 ≤ n ∧ n < bound then .ok n.toNat else .error (.outOfRange n expected)
  | j => .error (.wrongType j expected)

def byte : Decoder UInt8 := fun j => UInt8.ofNat <$> natBelow UInt8.size .byte j

def word32 : Decoder UInt32 := fun j => UInt32.ofNat <$> natBelow UInt32.size .word32 j

def string : Decoder String
  | .str s => .ok s
  | j => .error (.wrongType j .string)

def optional (d : Decoder τ) : Decoder (Option τ)
  | .null => .ok none
  | j => some <$> d j

def list (d : Decoder τ) : Decoder (List τ)
  | .arr xs => xs.mapM d
  | j => .error (.wrongType j .sequence)

def path : Decoder Path
  | .str s => if s.isEmpty then .error .emptyPath else .ok (Path.parse s)
  | j => .error (.wrongType j .string)

def field? (members : List (String × Json)) (name : String) (d : Decoder τ) :
    Except DecodeError (Option τ) :=
  match SortedMap.find? members name with
  | some j => some <$> d j
  | none => .ok none

def present (name : String) : Option τ → Except DecodeError τ
  | some x => .ok x
  | none => .error (.missingField name)

def item? (items : List Json) (position : Nat) (d : Decoder τ) : Except DecodeError (Option τ) :=
  match items[position]? with
  | some j => some <$> d j
  | none => .ok none

def item (items : List Json) (position : Nat) (record : String) (fields : Nat) (d : Decoder τ) :
    Except DecodeError τ :=
  match items[position]? with
  | some j => d j
  | none => .error (.tooShort position record fields)

/-- The end of an array that stands for a record. -/
def fits (items : List Json) (fields : Nat) : Except DecodeError Unit :=
  if items.length ≤ fields then .ok () else .error (.tooLong items.length)

def record (name : String) (ofMembers : List (String × Json) → Except DecodeError τ)
    (ofItems : List Json → Except DecodeError τ) : Decoder τ
  | .obj ms => ofMembers ms
  | .arr xs => ofItems xs
  | j => .error (.wrongType j (.record name))

end Decoder

end IconMotion
