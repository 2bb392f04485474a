namespace IconMotion

structure Pair (α : Type) where
  x : α
  y : α
deriving DecidableEq

structure Keyframe (α τ : Type) where
  time : α
  start : Option τ
  /-- The value that the segment leads to, if it is not the start of the next keyframe. -/
  stop : Option τ
  easeIn : Option (Pair α)
  easeOut : Option (Pair α)
  tangentOut : Option (List α)
  tangentIn : Option (List α)
  /-- One for a value that stays until the next keyframe. -/
  hold : Option UInt8

inductive Track (α τ : Type) where
  | empty
  | fixed (value : τ)
  | keyed (frames : List (Keyframe α τ))

namespace Track

variable {α τ : Type}

def isKeyed : Track α τ → Bool
  | keyed _ => true
  | _ => false

end Track

end IconMotion
