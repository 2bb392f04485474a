namespace IconMotion.Precision

open Float.Model

/-- A result is rounded once, to nearest with ties to even. -/
def fit (spec : Format) : UnpackedFloat → UnpackedFloat
  | .finite s m e _ => UnpackedFloat.round spec s m e
  | x => x

def toSingle (x : UnpackedFloat) : Float32 := .ofModel (.pack (fit .binary32 x))

def toDouble (x : UnpackedFloat) : Float := .ofModel (.pack (fit .binary64 x))

def widen (x : Float32) : Float := toDouble x.toModel.unpack

def narrow (x : Float) : Float32 := toSingle x.toModel.unpack

def signed (s : UnpackedFloat.Sign) (n : Nat) (e : Int) : UnpackedFloat :=
  if h : 0 < n then .finite s n e h else .zero s

def roundWhole : UnpackedFloat → UnpackedFloat
  | .finite s m e h =>
    if 0 ≤ e then .finite s m e h
    else
      let unit := Nat.pow 2 (-e).toNat
      signed s ((m + unit / 2) / unit) 0
  | x => x

/-- What is left after taking away `y` as often as it fits, with the sign of `x`. -/
def remainder : UnpackedFloat → UnpackedFloat → UnpackedFloat
  | .finite s m e _, .finite _ n f _ =>
    let low := min e f
    signed s ((m <<< (e - low).toNat) % (n <<< (f - low).toNat)) low
  | .zero s, .finite .. => .zero s
  | .zero s, .infinity _ => .zero s
  | .finite s m e h, .infinity _ => .finite s m e h
  | _, _ => .notANumber

def isWhole : UnpackedFloat → Bool
  | .zero _ => true
  | .finite _ m e _ => 0 ≤ e || m % Nat.pow 2 (-e).toNat == 0
  | _ => false

end IconMotion.Precision
