import IconMotion.Animation.Keyframe
import IconMotion.Json.Basic
import IconMotion.Number.Scalar

namespace IconMotion

class Mix (α τ : Type) where
  mix : τ → τ → α → τ
  mixAlong : τ → τ → α → (tangentIn tangentOut : Option (List α)) → τ

namespace Mix

variable {α : Type} [Scalar α]

def even (a b t : α) : α := a + (b - a) * t

instance : Mix α α where
  mix := even
  mixAlong a b t _ _ := even a b t

def tangent : Option (List α) → Pair α
  | some (x :: y :: _) => ⟨x, y⟩
  | _ => ⟨0.0, 0.0⟩

def cubic (a b c d t : α) : α :=
  let u := 1.0 - t
  let u2 := u * u
  let u3 := u2 * u
  let t2 := t * t
  let t3 := t2 * t
  a * u3 + b * 3.0 * u2 * t + c * 3.0 * u * t2 + d * t3

/-- The tangents are relative to the end they belong to. -/
def alongPath (a b : Pair α) (t : α) (tangentIn tangentOut : Option (List α)) : Pair α :=
  let leave := tangent tangentOut
  let arrive := tangent tangentIn
  ⟨cubic a.x (a.x + leave.x) (b.x + arrive.x) b.x t,
    cubic a.y (a.y + leave.y) (b.y + arrive.y) b.y t⟩

instance : Mix α (Pair α) where
  mix a b t := ⟨even a.x b.x t, even a.y b.y t⟩
  mixAlong := alongPath

end Mix

namespace Json

def components? : Json → Option (List Float32)
  | num n => some [Precision.narrow n.toFloat]
  | arr xs => xs.mapM fun x => x.toFloat?.map Precision.narrow
  | _ => none

def ofComponents : Json → List Float32 → Json
  | num _, c :: _ => ofFloat32 c
  | _, cs => arr (cs.map ofFloat32)

/-- The first value until the change is complete. -/
def stay (a b : Json) (t : Float32) : Json := if t < 1.0 then a else b

def mixAlong (a b : Json) (t : Float32) (tangentIn tangentOut : Option (List Float32)) : Json :=
  match a.components?, b.components? with
  | some xs, some ys =>
    if xs.length ≠ ys.length ∨ xs.isEmpty then stay a b t
    else match xs, ys with
      | [x, y], [z, w] =>
        if tangentIn.isSome || tangentOut.isSome then
          let p := Mix.alongPath ⟨x, y⟩ ⟨z, w⟩ t tangentIn tangentOut
          ofComponents a [p.x, p.y]
        else ofComponents a [Mix.even x z t, Mix.even y w t]
      | xs, ys => ofComponents a (List.zipWith (Mix.even · · t) xs ys)
  | _, _ => stay a b t

instance : Mix Float32 Json where
  mix a b t := mixAlong a b t none none
  mixAlong := mixAlong

end Json

end IconMotion
