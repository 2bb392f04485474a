import IconMotion.Number.Scalar

namespace IconMotion

structure Literal where
  whole : List Char
  fraction : List Char
  exponent : Int

namespace Literal

def digitValue (c : Char) : Nat := c.toNat - '0'.toNat

def digitsValue (ds : List Char) : Nat :=
  ds.foldl (fun n c => 10 * n + digitValue c) 0

def spanDigits (cs : List Char) : List Char × List Char := cs.span Char.isDigit

def significand (l : Literal) : Nat := digitsValue (l.whole ++ l.fraction)

def scale (l : Literal) : Int := l.exponent - l.fraction.length

def toFloat (l : Literal) : Float :=
  Float.ofScientific l.significand (l.scale < 0) l.scale.natAbs

def toFloat32 (l : Literal) : Float32 :=
  Float32.ofScientific l.significand (l.scale < 0) l.scale.natAbs

def maxWord : Nat := UInt64.size - 1

def takeWord (n : Nat) : List Char → Nat × Nat
  | [] => (n, 0)
  | c :: cs =>
    let m := 10 * n + digitValue c
    if m ≤ maxWord then takeWord m cs else (n, cs.length + 1)

def powerOfTen (n : Nat) : Float := Float.ofScientific 1 false n

def scaleDown (x : Float) (n : Nat) : Float :=
  if n ≤ 308 then x / powerOfTen n
  else if x == 0.0 then x
  else scaleDown (x / powerOfTen 308) (n - 308)
termination_by n

def scaled? (n : Nat) (e : Int) : Option Float :=
  let x := Float.ofNat n
  if e < 0 then some (scaleDown x e.natAbs)
  else if e ≤ 308 then
    let y := x * powerOfTen e.natAbs
    if y.isInf then none else some y
  else if n = 0 then some x
  else none

def maxExponent : Nat := 2147483647

/-- The double a document's literal is read as. Digits that do not fit in 64 bits only count: before
the point they raise the exponent, behind it they are dropped. -/
def quick? (l : Literal) : Option Float :=
  let (n, extra) := takeWord 0 l.whole
  let (n, unread) := takeWord n l.fraction
  let shift : Int := extra - (l.fraction.length - unread : Nat)
  if maxExponent < l.exponent.natAbs then
    if n ≠ 0 ∧ 0 < l.exponent then none else some 0.0
  else scaled? n (shift + l.exponent)

end Literal

end IconMotion
