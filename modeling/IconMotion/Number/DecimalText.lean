import IconMotion.Number.Shortest

namespace IconMotion

structure DecimalText where
  /-- The least exponent of the leading digit that is written positionally. -/
  least : Int
  greatest : Int
  plus : List Char
  tie : Decimal.Tie

namespace DecimalText

def zeros (n : Nat) : List Char := List.replicate n '0'

def positional (ds : List Char) (point : Int) : List Char :=
  if point ≤ 0 then '0' :: '.' :: (zeros (-point).toNat ++ ds)
  else
    let n := point.toNat
    if ds.length ≤ n then ds ++ zeros (n - ds.length) ++ ['.', '0']
    else ds.take n ++ '.' :: ds.drop n

def exponential (plus : List Char) (ds : List Char) (lead : Int) : List Char :=
  let fraction := if ds.length ≤ 1 then [] else '.' :: ds.drop 1
  let sign := if lead < 0 then ['-'] else plus
  ds.take 1 ++ fraction ++ 'e' :: (sign ++ Nat.toDigits 10 lead.natAbs)

def ofDecimal (style : DecimalText) (d : Decimal) : List Char :=
  let ds := Nat.toDigits 10 d.digits
  let point := d.exponent + ds.length
  if style.least ≤ point - 1 ∧ point - 1 ≤ style.greatest then positional ds point
  else exponential style.plus ds (point - 1)

open Float.Model in
def sign : UnpackedFloat.Sign → List Char
  | .positive => []
  | .negative => ['-']

def render (style : DecimalText) (x : Float) : List Char :=
  match x.toModel.unpack with
  | .notANumber => ['N', 'a', 'N']
  | .infinity s => sign s ++ ['i', 'n', 'f']
  | .zero s => sign s ++ ['0', '.', '0']
  | .finite s m e _ => sign s ++ style.ofDecimal (.shortest style.tie m e)

end DecimalText

end IconMotion
