import IconMotion.Number.Scalar

namespace IconMotion

inductive Direction where
  | forward | reverse
deriving DecidableEq

def Direction.name : Direction → String
  | forward => "forward"
  | reverse => "reverse"

def Direction.sign {α : Type} [Scalar α] : Direction → α
  | forward => 1.0
  | reverse => -1.0

structure Playhead (α : Type) where
  frameRate : α
  inPoint : α
  outPoint : α
  frame : α
  speed : α
  direction : Direction
  looping : Bool
  paused : Bool

namespace Playhead

variable {α : Type} [Scalar α]

def start (frameRate inPoint outPoint : α) : Playhead α :=
  { frameRate, inPoint, outPoint, frame := inPoint, speed := 1.0, direction := .forward,
    looping := true, paused := false }

def duration (p : Playhead α) : α := p.outPoint - p.inPoint

/-- Where the playhead comes to after `dt` seconds if there are no ends. -/
def unbounded (p : Playhead α) (dt : α) : α :=
  p.frame + dt * p.frameRate * p.speed * p.direction.sign

def finishes (p : Playhead α) (frame : α) : Bool :=
  match p.direction with
  | .forward => decide (p.outPoint ≤ frame)
  | .reverse => decide (frame ≤ p.inPoint)

def around (p : Playhead α) (frame : α) : α :=
  if p.outPoint ≤ frame ∨ frame < p.inPoint then
    p.inPoint + Scalar.wrap (frame - p.inPoint) p.duration
  else frame

/-- Moves to a frame, held between the ends. There is no such frame if the ends are not in order. -/
def goTo (p : Playhead α) (frame : α) : Option (Playhead α) :=
  (Scalar.clamp? p.inPoint p.outPoint frame).map fun frame => { p with frame }

def move (p : Playhead α) (dt : α) : Option (Playhead α) :=
  let frame := p.unbounded dt
  if p.duration ≤ 0.0 then some { p with frame := p.inPoint }
  else if p.looping then some { p with frame := p.around frame }
  else (p.goTo frame).map fun q => { q with paused := p.paused || p.finishes frame }

def advance (p : Playhead α) (dt : α) : Option (Playhead α) :=
  if p.paused then some p else p.move dt

end Playhead

end IconMotion
