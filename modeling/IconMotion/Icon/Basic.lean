import IconMotion.Control.Discovery
import IconMotion.Control.Write
import IconMotion.Icon.Options
import IconMotion.Live.Player

namespace IconMotion

/-- A document, a player of it, and the controls by which the player is customized. -/
structure Icon where
  document : Json
  player : Player
  controls : List Control.Descriptor
  customized : List (Nat × Nat)

namespace Icon

open Control

def ofDocument (document : Json) : Except LoadError Icon :=
  match Player.load document with
  | .error e => .error e
  | .ok player => .ok ⟨document, player, discover document .liveTree, []⟩

def named (icon : Icon) (name : String) : List Descriptor :=
  icon.controls.filter (·.name = Text.lower name)

def colorsNamed (icon : Icon) (name : String) : List Descriptor :=
  (icon.named name).filter (·.kind = .color)

structure Written where
  icon : Icon
  count : Nat
  skips : List Skip

/-- Writes a value into some controls, which count as customized even if they were passed over. -/
def writeTo (icon : Icon) (ds : List Descriptor) (value : Json) : Written :=
  let (player, skips) := write icon.player ds value
  let customized := icon.customized ++ ds.map fun d => (d.layer, d.field)
  ⟨{ icon with player, customized }, ds.length, skips⟩

def setProperty (icon : Icon) (name : String) (value : Json) : Written :=
  icon.writeTo (icon.named name) value

def setColor (icon : Icon) (name hex : String) : Written :=
  icon.writeTo (icon.colorsNamed name) (.str hex)

def setStroke (icon : Icon) (width : Float) : Written :=
  icon.writeTo (icon.named "stroke") (.ofFloat width)

def color? (icon : Icon) (name : String) : Option String := do
  let d ← (icon.colorsNamed name).head?
  let xs ← (← Target.get? icon.player d.path).items?
  match xs.filterMap Json.toFloat? with
  | r :: g :: b :: _ => some (Color.toHex (⟨r, g, b⟩ : Unit3 Float))
  | _ => none

def resetControls (icon : Icon) : Icon × List Skip :=
  let (player, skips) := reset icon.player icon.controls
  ({ icon with player, customized := [] }, skips)

inductive Note where
  | skipped (skip : Skip)
  | noColorControl (name : String)

def Note.message : Note → String
  | skipped skip => skip.message
  | noColorControl name => "icon has no color control with this name; name=" ++ name

def setColors (icon : Icon) : List (String × String) → Icon × List Note
  | [] => (icon, [])
  | (name, hex) :: colors =>
    let w := icon.setColor name hex
    let (icon, later) := setColors w.icon colors
    let absent := if w.count = 0 then [.noColorControl name] else []
    (icon, w.skips.map .skipped ++ absent ++ later)

def mapPlayer (icon : Icon) (f : Player → Player) : Icon := { icon with player := f icon.player }

/-- Applies options: the stroke, then colors in the order of their names, then playback. -/
def apply (icon : Icon) (o : Options) : Icon × List Note :=
  let (icon, strokeNotes) : Icon × List Note := match o.stroke with
    | some width =>
      let w := icon.setStroke width
      (w.icon, w.skips.map .skipped)
    | none => (icon, [])
  let (icon, colorNotes) := icon.setColors o.colors
  let play (p : Player) := if o.autoplay then p.play else p.pause
  (icon.mapPlayer fun p => play ((p.setLooping o.loopPlayback).setSpeed o.speed),
    strokeNotes ++ colorNotes)

def isCustomized (icon : Icon) (d : Descriptor) : Bool := icon.customized.contains (d.layer, d.field)

def bake (player : Player) (document : Json) : List Descriptor → Json × List Skip
  | [] => (document, [])
  | d :: ds => match Target.get? player d.path with
    | none => bake player document ds
    | some v => match Target.set document (d.inScope .document).path v with
      | .ok document => bake player document ds
      | .error e =>
        let (document, later) := bake player document ds
        (document, ⟨.bake, d.name, e⟩ :: later)

def exportDocument (icon : Icon) : Json × List Skip :=
  bake icon.player icon.document (icon.controls.filter icon.isCustomized)

def samples (icon : Icon) : List Live.Sample × List Live.Remark × Icon :=
  let (samples, remarks, player) := icon.player.samples
  (samples, remarks, { icon with player })

def advance (icon : Icon) (dt : Float32) : Option (List Live.Sample × List Live.Remark × Icon) :=
  (icon.player.advance dt).map fun player => samples { icon with player }

def sampleAt (icon : Icon) (frame : Float32) :
    Option (List Live.Sample × List Live.Remark × Icon) :=
  (icon.player.goTo frame).map fun player => samples { icon with player }

end Icon

end IconMotion
