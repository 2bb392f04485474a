import IconMotion.Number.Precision

namespace IconMotion

/-- Arithmetic that is rounded after every operation (`Float32`, `Float`) or exact (`Rat`). -/
class Scalar (α : Type) extends
    Add α, Sub α, Mul α, Div α, Neg α, LT α, LE α, OfScientific α where
  decLt : DecidableLT α
  decLe : DecidableLE α
  round : α → α
  rem : α → α → α
  toByte : α → UInt8

namespace Scalar

attribute [reducible, instance] decLt decLe

variable {α : Type} [Scalar α]

def abs (x : α) : α := if x < 0.0 then -x else x

def hold (lo hi x : α) : α :=
  let y := if x < lo then lo else x
  if hi < y then hi else y

def clamp? (lo hi x : α) : Option α := if lo ≤ hi then some (hold lo hi x) else none

def wrap (x m : α) : α :=
  let r := rem x m
  if r < 0.0 then r + abs m else r

end Scalar

instance : Scalar Float32 where
  decLt := inferInstance
  decLe := inferInstance
  round x := Precision.toSingle (Precision.roundWhole x.toModel.unpack)
  rem x y := Precision.toSingle (Precision.remainder x.toModel.unpack y.toModel.unpack)
  toByte := Float32.toUInt8

instance : Scalar Float where
  decLt := inferInstance
  decLe := inferInstance
  round x := Precision.toDouble (Precision.roundWhole x.toModel.unpack)
  rem x y := Precision.toDouble (Precision.remainder x.toModel.unpack y.toModel.unpack)
  toByte := Float.toUInt8

instance : Scalar Rat where
  decLt := inferInstance
  decLe := inferInstance
  round x := if x < 0 then -((1 / 2 - x).floor : Int) else (x + 1 / 2).floor
  rem x y :=
    let q := x / y
    x - y * (if q < 0 then -((-q).floor : Int) else q.floor : Int)
  toByte x := UInt8.ofNat (min x.floor.toNat 255)

end IconMotion
