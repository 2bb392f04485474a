import IconMotion.Motion.Easing
import IconMotion.Motion.Mix

namespace IconMotion

/-- Bisection among `size` places from `base` on: the last at which `p` may hold, if `p` holds on the
places before it. -/
def bisect (p : Nat → Bool) (base size : Nat) : Nat :=
  if size ≤ 1 then base
  else
    let half := size / 2
    bisect p (if p (base + half) then base + half else base) (size - half)
termination_by size

def partitionPoint (p : Nat → Bool) (size : Nat) : Nat :=
  if size = 0 then 0
  else
    let last := bisect p 0 size
    if p last then last + 1 else last

namespace Track

variable {α τ υ : Type} [Scalar α] [Mix α υ]

def segment (a b : Keyframe α τ) (frame : α) (convert : τ → υ) (fallback : υ) : υ :=
  let start := (a.start.map convert).getD fallback
  let stop := ((a.stop.map convert).or (b.start.map convert)).getD start
  let duration := b.time - a.time
  if duration ≤ 0.0 then start
  else if a.hold = some 1 then start
  else
    let share := Easing.solve (a.easeOut.getD ⟨0.0, 0.0⟩) (b.easeIn.getD ⟨1.0, 1.0⟩)
      ((frame - a.time) / duration)
    Mix.mixAlong start stop share b.tangentIn a.tangentOut

def tail (k : Keyframe α τ) (convert : τ → υ) (fallback : υ) : υ :=
  ((k.stop.or k.start).map convert).getD fallback

/-- The value among keyframes in the order of their times: the start of the first before it, the end of
the last one after it. What a keyframe lacks is taken from the fallback. -/
def sampleKeys (ks : List (Keyframe α τ)) (frame : α) (convert : τ → υ) (fallback : υ) : υ :=
  let reached i := ks[i]?.any fun k => decide (k.time ≤ frame)
  match partitionPoint reached ks.length with
  | 0 => ((ks.head?.bind (·.start)).map convert).getD fallback
  | i + 1 => match ks[i]?, ks[i + 1]? with
    | some a, some b => segment a b frame convert fallback
    | some a, none => tail a convert fallback
    | none, _ => fallback

def sample (track : Track α τ) (frame : α) (convert : τ → υ) (fallback : υ) : υ :=
  match track with
  | empty => fallback
  | fixed v => convert v
  | keyed ks => sampleKeys ks frame convert fallback

end Track

end IconMotion
