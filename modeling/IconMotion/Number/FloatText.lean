import IconMotion.Number.Literal

namespace IconMotion

namespace Literal

def readExponent? (cs : List Char) : Option Int :=
  let (negative, ds) := match cs with
    | '-' :: ds => (true, ds)
    | '+' :: ds => (false, ds)
    | ds => (false, ds)
  if ds.isEmpty || !ds.all Char.isDigit then none
  else some (if negative then -(digitsValue ds : Int) else digitsValue ds)

def splitFraction : List Char → List Char × List Char
  | '.' :: cs => spanDigits cs
  | cs => ([], cs)

def read? (cs : List Char) : Option Literal :=
  let (whole, cs) := spanDigits cs
  let (fraction, cs) := splitFraction cs
  if whole.isEmpty && fraction.isEmpty then none
  else match cs with
    | [] => some ⟨whole, fraction, 0⟩
    | c :: cs => if c = 'e' ∨ c = 'E' then (readExponent? cs).map (⟨whole, fraction, ·⟩) else none

end Literal

/-- A number as typed, without its sign. -/
inductive FloatText where
  | infinite
  | nan
  | finite (literal : Literal)

namespace FloatText

def readUnsigned? (cs : List Char) : Option FloatText :=
  let name := String.ofList (cs.map Char.toLower)
  if name = "inf" ∨ name = "infinity" then some infinite
  else if name = "nan" then some nan
  else (Literal.read? cs).map finite

def read? (s : String) : Option (Bool × FloatText) :=
  match s.toList with
  | '-' :: cs => (readUnsigned? cs).map (true, ·)
  | '+' :: cs => (readUnsigned? cs).map (false, ·)
  | cs => (readUnsigned? cs).map (false, ·)

def toFloat : FloatText → Float
  | infinite => 1.0 / 0.0
  | nan => 0.0 / 0.0
  | finite l => l.toFloat

def toFloat32 : FloatText → Float32
  | infinite => 1.0 / 0.0
  | nan => 0.0 / 0.0
  | finite l => l.toFloat32

def readFloat? (s : String) : Option Float :=
  (read? s).map fun (negative, t) => if negative then -t.toFloat else t.toFloat

def readFloat32? (s : String) : Option Float32 :=
  (read? s).map fun (negative, t) => if negative then -t.toFloat32 else t.toFloat32

end FloatText

end IconMotion
