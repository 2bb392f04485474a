import IconMotion.Animation.Keyframe
import IconMotion.Number.Scalar

namespace IconMotion.Easing

variable {α : Type} [Scalar α]

def curve (a b t : α) : α :=
  let u := 1.0 - t
  3.0 * u * u * t * a + 3.0 * u * t * t * b + t * t * t

def slope (a b t : α) : α :=
  let u := 1.0 - t
  3.0 * u * u * a + 6.0 * u * t * (b - a) + 3.0 * t * t * (1.0 - b)

def refine (a b x : α) : (steps : Nat) → α → α
  | 0, t => t
  | steps + 1, t =>
    let err := curve a b t - x
    if Scalar.abs err < 1e-4 then t
    else
      let d := slope a b t
      if Scalar.abs d < 1e-6 then t else refine a b x steps (t - err / d)

/-- The share of change at the share `x` of time. At most eight Newton steps lead to its parameter. -/
def solve (p q : Pair α) (x : α) : α :=
  if x ≤ 0.0 then 0.0
  else if 1.0 ≤ x then 1.0
  else curve p.y q.y (refine p.x q.x x 8 x)

end IconMotion.Easing
