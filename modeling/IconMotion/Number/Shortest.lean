namespace IconMotion

structure Decimal where
  digits : Nat
  exponent : Int
deriving DecidableEq, Repr

namespace Decimal

/-- A positive double with the ends of the interval that rounds to it, over one denominator. The
ends belong to the interval iff the mantissa is even. -/
structure Interval where
  value : Nat
  low : Nat
  high : Nat
  den : Nat
  closed : Bool

/-- The interval of `m * 2 ^ e`. Below the least mantissa of a binade the grid is twice as fine. -/
def Interval.ofBinary (m : Nat) (e : Int) : Interval :=
  let up := Nat.pow 2 e.toNat
  let below := if m = 4503599627370496 ∧ -1074 < e then 1 else 2
  ⟨4 * m * up, (4 * m - below) * up, (4 * m + 2) * up, 4 * Nat.pow 2 (-e).toNat, m % 2 == 0⟩

def Interval.holds (i : Interval) (c scale : Nat) : Bool :=
  let x := c * i.den
  if i.closed then i.low * scale ≤ x && x ≤ i.high * scale
  else i.low * scale < x && x < i.high * scale

def leadingZeros (d : Nat) : (fuel n : Nat) → Nat
  | 0, _ => 0
  | fuel + 1, n => if d ≤ n then 0 else leadingZeros d fuel (10 * n) + 1

def Interval.magnitude (i : Interval) : Int :=
  if i.den ≤ i.value then ((Nat.toDigits 10 (i.value / i.den)).length : Int)
  else 1 - (leadingZeros i.den 400 i.value : Int)

inductive Tie where
  | even
  | up
deriving DecidableEq

def Tie.takesLess (tie : Tie) (c : Nat) : Bool :=
  match tie with
  | even => c % 2 == 0
  | up => false

def Tie.prefersLess (tie : Tie) (c below above : Nat) : Bool :=
  below < above || below == above && tie.takesLess c

def Interval.onGrid? (i : Interval) (tie : Tie) (n : Nat) : Option Decimal :=
  let g := i.magnitude - n
  let scale := Nat.pow 10 (-g).toNat
  let step := Nat.pow 10 g.toNat
  let num := i.value * scale
  let den := i.den * step
  let c := num / den
  let below := i.holds (c * step) scale
  let above := i.holds ((c + 1) * step) scale
  if below && (!above || tie.prefersLess c (num - c * den) ((c + 1) * den - num)) then some ⟨c, g⟩
  else if above then some ⟨c + 1, g⟩
  else none

def trim (d : Decimal) : Decimal :=
  if d.digits % 10 = 0 then ⟨d.digits / 10, d.exponent + 1⟩ else d

def shortest (tie : Tie) (m : Nat) (e : Int) : Decimal :=
  let i := Interval.ofBinary m e
  trim (((List.range' 1 17).findSome? (i.onGrid? tie)).getD ⟨m, e⟩)

end Decimal

end IconMotion
