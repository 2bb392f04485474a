import IconMotion.Animation.Basic
import IconMotion.Json.Decode

namespace IconMotion

def Json.coordinate (j : Json) : Float32 :=
  match j.toFloat? with
  | some x => Precision.narrow x
  | none => 0.0

namespace Decoder

variable {τ : Type}

def floats32 : Decoder (List Float32) := list float32

def firstCoordinate : Json → Float32
  | .arr (x :: _) => x.coordinate
  | .arr [] => 0.0
  | j => j.coordinate

def coordinateAt (xs : List Json) (i : Nat) : Float32 :=
  match xs[i]? with
  | some x => x.coordinate
  | none => 0.0

def memberCoordinate (ms : List (String × Json)) (key : String) : Float32 :=
  match SortedMap.find? ms key with
  | some j => firstCoordinate j
  | none => 0.0

def handle : Decoder (Pair Float32)
  | .obj ms => .ok ⟨memberCoordinate ms "x", memberCoordinate ms "y"⟩
  | .arr xs => .ok ⟨coordinateAt xs 0, coordinateAt xs 1⟩
  | _ => .error .notAHandle

def lenient? (d : Decoder τ) (j : Json) : Option τ :=
  match d j with
  | .ok v => some v
  | .error _ => match list d j with
    | .ok (v :: _) => some v
    | _ => none

def frameValue (d : Decoder τ) : Decoder (Option τ)
  | .null => .ok none
  | j => .ok (lenient? d j)

def keyframeOfMembers (d : Decoder τ) (ms : List (String × Json)) :
    Except DecodeError (Keyframe Float32 τ) := do
  let stop ← field? ms "e" (frameValue d)
  let hold ← field? ms "h" (optional byte)
  let easeIn ← field? ms "i" (optional handle)
  let easeOut ← field? ms "o" (optional handle)
  let start ← field? ms "s" (frameValue d)
  let time ← field? ms "t" float32
  let tangentIn ← field? ms "ti" (optional floats32)
  let tangentOut ← field? ms "to" (optional floats32)
  let time ← present "t" time
  return ⟨time, start.join, stop.join, easeIn.join, easeOut.join, tangentOut.join, tangentIn.join,
    hold.join⟩

def keyframeOfItems (d : Decoder τ) (xs : List Json) :
    Except DecodeError (Keyframe Float32 τ) := do
  let time ← item xs 0 "Keyframe" 8 float32
  let start ← item? xs 1 (frameValue d)
  let stop ← item? xs 2 (frameValue d)
  let easeIn ← item? xs 3 (optional handle)
  let easeOut ← item? xs 4 (optional handle)
  let tangentOut ← item? xs 5 (optional floats32)
  let tangentIn ← item? xs 6 (optional floats32)
  let hold ← item? xs 7 (optional byte)
  fits xs 8
  return ⟨time, start.join, stop.join, easeIn.join, easeOut.join, tangentOut.join, tangentIn.join,
    hold.join⟩

def keyframe (d : Decoder τ) : Decoder (Keyframe Float32 τ) :=
  record "Keyframe" (keyframeOfMembers d) (keyframeOfItems d)

def hasTime : Json → Bool
  | .obj ms => SortedMap.contains ms "t"
  | _ => false

/-- Keyframes are written as a list, not empty, of objects that all have a time. -/
def isKeyframeList : Json → Bool
  | .arr [] => false
  | .arr xs => xs.all hasTime
  | _ => false

def toTrack (d : Decoder τ) (j : Json) : Track Float32 τ :=
  let still := match lenient? d j with
    | some v => .fixed v
    | none => .empty
  if j.isNull then .empty
  else if isKeyframeList j then
    match list (keyframe d) j with
    | .ok ks => .keyed ks
    | .error _ => still
  else still

def track (d : Decoder τ) : Decoder (Track Float32 τ) := fun j => .ok (toTrack d j)

def propertyOfMembers (d : Decoder τ) (ms : List (String × Json)) :
    Except DecodeError (Property τ) := do
  let animated ← field? ms "a" byte
  let values ← field? ms "k" (track d)
  let index ← field? ms "ix" (optional word32)
  let expression ← field? ms "x" (optional string)
  return ⟨animated.getD 0, values.getD .empty, index.join, expression.join⟩

def propertyOfItems (d : Decoder τ) (xs : List Json) : Except DecodeError (Property τ) := do
  let animated ← item? xs 0 byte
  let values ← item? xs 1 (track d)
  let index ← item? xs 2 (optional word32)
  let expression ← item? xs 3 (optional string)
  fits xs 4
  return ⟨animated.getD 0, values.getD .empty, index.join, expression.join⟩

def property (d : Decoder τ) : Decoder (Property τ) :=
  record "Property" (propertyOfMembers d) (propertyOfItems d)

/-- The value of an effect value: a property if it can be read as one that has `k`, else a constant.
A list of one value stands for the value. -/
def toEffectProperty (j : Json) : Property Json :=
  let j := match j with
    | .arr [x] => x
    | j => j
  if (j.member? "k").isSome then
    match property json j with
    | .ok p => p
    | .error _ => .constant j
  else .constant j

def effectProperty : Decoder (Option (Property Json))
  | .null => .ok none
  | j => .ok (some (toEffectProperty j))

def effectValueOfMembers (ms : List (String × Json)) : Except DecodeError EffectValue := do
  let index ← field? ms "ix" (optional word32)
  let matchName ← field? ms "mn" (optional string)
  let name ← field? ms "nm" (optional string)
  let type ← field? ms "ty" (optional byte)
  let value ← field? ms "v" effectProperty
  return ⟨type.join, name.join, matchName.join, index.join, value.join⟩

def effectValueOfItems (xs : List Json) : Except DecodeError EffectValue := do
  let type ← item? xs 0 (optional byte)
  let name ← item? xs 1 (optional string)
  let matchName ← item? xs 2 (optional string)
  let index ← item? xs 3 (optional word32)
  let value ← item? xs 4 effectProperty
  fits xs 5
  return ⟨type.join, name.join, matchName.join, index.join, value.join⟩

def effectValue : Decoder EffectValue :=
  record "EffectValue" effectValueOfMembers effectValueOfItems

def effectOfMembers (ms : List (String × Json)) : Except DecodeError Effect := do
  let values ← field? ms "ef" (optional (list effectValue))
  let enabled ← field? ms "en" (optional byte)
  let index ← field? ms "ix" (optional word32)
  let matchName ← field? ms "mn" (optional string)
  let name ← field? ms "nm" (optional string)
  let type ← field? ms "ty" (optional byte)
  return ⟨type.join, name.join, matchName.join, index.join, enabled.join, values.join⟩

def effectOfItems (xs : List Json) : Except DecodeError Effect := do
  let type ← item? xs 0 (optional byte)
  let name ← item? xs 1 (optional string)
  let matchName ← item? xs 2 (optional string)
  let index ← item? xs 3 (optional word32)
  let enabled ← item? xs 4 (optional byte)
  let values ← item? xs 5 (optional (list effectValue))
  fits xs 6
  return ⟨type.join, name.join, matchName.join, index.join, enabled.join, values.join⟩

def effect : Decoder Effect := record "Effect" effectOfMembers effectOfItems

def layerOfMembers (ms : List (String × Json)) : Except DecodeError Layer := do
  let effects ← field? ms "ef" (optional (list effect))
  let index ← field? ms "ind" (optional word32)
  let inPoint ← field? ms "ip" float32
  let name ← field? ms "nm" (optional string)
  let outPoint ← field? ms "op" float32
  let startTime ← field? ms "st" float32
  let type ← field? ms "ty" byte
  return ⟨type.getD 0, index.join, name.join, inPoint.getD 0.0, outPoint.getD 0.0,
    startTime.getD 0.0, effects.join⟩

def layerOfItems (xs : List Json) : Except DecodeError Layer := do
  let type ← item? xs 0 byte
  let index ← item? xs 1 (optional word32)
  let name ← item? xs 2 (optional string)
  let inPoint ← item? xs 3 float32
  let outPoint ← item? xs 4 float32
  let startTime ← item? xs 5 float32
  let effects ← item? xs 6 (optional (list effect))
  fits xs 7
  return ⟨type.getD 0, index.join, name.join, inPoint.getD 0.0, outPoint.getD 0.0,
    startTime.getD 0.0, effects.join⟩

def layer : Decoder Layer := record "Layer" layerOfMembers layerOfItems

def animationOfMembers (ms : List (String × Json)) : Except DecodeError Animation := do
  let frameRate ← field? ms "fr" float32
  let height ← field? ms "h" word32
  let inPoint ← field? ms "ip" float32
  let layers ← field? ms "layers" (list layer)
  let name ← field? ms "nm" (optional string)
  let outPoint ← field? ms "op" float32
  let version ← field? ms "v" (optional string)
  let width ← field? ms "w" word32
  let inPoint ← present "ip" inPoint
  let outPoint ← present "op" outPoint
  let frameRate ← present "fr" frameRate
  let width ← present "w" width
  let height ← present "h" height
  return ⟨version.join, name.join, inPoint, outPoint, frameRate, width, height, layers.getD []⟩

def animationOfItems (xs : List Json) : Except DecodeError Animation := do
  let version ← item xs 0 "LottieJson" 8 (optional string)
  let name ← item? xs 1 (optional string)
  let inPoint ← item xs 2 "LottieJson" 8 float32
  let outPoint ← item xs 3 "LottieJson" 8 float32
  let frameRate ← item xs 4 "LottieJson" 8 float32
  let width ← item xs 5 "LottieJson" 8 word32
  let height ← item xs 6 "LottieJson" 8 word32
  let layers ← item? xs 7 (list layer)
  fits xs 8
  return ⟨version, name.join, inPoint, outPoint, frameRate, width, height, layers.getD []⟩

def animation : Decoder Animation := record "LottieJson" animationOfMembers animationOfItems

end Decoder

end IconMotion
