import IconMotion.Animation.Keyframe
import IconMotion.Json.Basic

namespace IconMotion

structure Property (τ : Type) where
  animated : UInt8
  track : Track Float32 τ
  index : Option UInt32
  expression : Option String

namespace Property

variable {τ : Type}

def constant (value : τ) : Property τ := ⟨0, .fixed value, none, none⟩

def absent : Property τ := ⟨0, .empty, none, none⟩

end Property

structure EffectValue where
  type : Option UInt8
  name : Option String
  matchName : Option String
  index : Option UInt32
  property : Option (Property Json)

structure Effect where
  type : Option UInt8
  name : Option String
  matchName : Option String
  index : Option UInt32
  enabled : Option UInt8
  values : Option (List EffectValue)

/-- A layer. Its start time is where its own time is zero. -/
structure Layer where
  type : UInt8
  index : Option UInt32
  name : Option String
  inPoint : Float32
  outPoint : Float32
  startTime : Float32
  effects : Option (List Effect)

structure Animation where
  version : Option String
  name : Option String
  inPoint : Float32
  outPoint : Float32
  frameRate : Float32
  width : UInt32
  height : UInt32
  layers : List Layer

end IconMotion
