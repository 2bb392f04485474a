import IconMotion.Json.Source

namespace IconMotion

structure Options where
  colors : SortedMap String := []
  stroke : Option Float := none
  loopPlayback : Bool := true
  autoplay : Bool := true
  speed : Float32 := 1.0

namespace Options

open Json (Source)

def color? : Option String × Source → Option (String × String)
  | (some name, .str (some hex)) => some (name, hex)
  | _ => none

def colors? : Source → Option (SortedMap String)
  | .obj ms => (ms.mapM color?).map .ofList
  | _ => none

def stroke? : Source → Option (Option Float)
  | .null => some none
  | .num (some n) => some (some n.toFloat)
  | _ => none

def bool? : Source → Option Bool
  | .bool b => some b
  | _ => none

def speed? : Source → Option Float32
  | .num (some n) => some n.toFloat32
  | _ => none

def given {τ : Type} (field : Option Source) (read : Source → Option τ) (absent : τ) : Option τ :=
  match field with
  | some s => read s
  | none => some absent

def ofFields? (colors stroke loopPlayback autoplay speed : Option Source) : Option Options := do
  let defaults : Options := {}
  let colors ← given colors colors? defaults.colors
  let stroke ← given stroke stroke? defaults.stroke
  let loopPlayback ← given loopPlayback bool? defaults.loopPlayback
  let autoplay ← given autoplay bool? defaults.autoplay
  let speed ← given speed speed? defaults.speed
  some { colors, stroke, loopPlayback, autoplay, speed }

def single? (ms : List (Option String × Source)) (name : String) : Option (Option Source) :=
  match ms.filter (·.1 = some name) with
  | [] => some none
  | [(_, s)] => some (some s)
  | _ => none

def ofMembers? (ms : List (Option String × Source)) : Option Options := do
  let colors ← single? ms "colors"
  let stroke ← single? ms "stroke"
  let loopPlayback ← single? ms "loop_playback"
  let autoplay ← single? ms "autoplay"
  let speed ← single? ms "speed"
  ofFields? colors stroke loopPlayback autoplay speed

/-- Options are given by name or by position. A field given twice is refused, one of an unknown name is
passed over. -/
def ofSource? : Source → Option Options
  | .obj ms => if ms.all (·.1.isSome) then ofMembers? ms else none
  | .arr xs => if xs.length ≤ 5 then ofFields? xs[0]? xs[1]? xs[2]? xs[3]? xs[4]? else none
  | _ => none

def parse? (text : String) : Option Options := (Source.parse? text).bind ofSource?

def ofJson? (j : Json) : Option Options := ofSource? (.ofJson j)

def toJson (o : Options) : Json :=
  .obj [("autoplay", .bool o.autoplay),
    ("colors", .obj (o.colors.map fun (name, hex) => (name, .str hex))),
    ("loop_playback", .bool o.loopPlayback), ("speed", .ofFloat32 o.speed),
    ("stroke", match o.stroke with
      | some width => .ofFloat width
      | none => .null)]

def withOverrides (o : Options) (colors : List (String × String)) (stroke : Option Float) : Options :=
  { o with colors := o.colors.extend colors, stroke := stroke.or o.stroke }

end Options

end IconMotion
