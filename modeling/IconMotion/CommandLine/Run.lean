import IconMotion.CommandLine.Arguments
import IconMotion.Icon.Loading

namespace IconMotion.CommandLine

inductive Failure where
  | options (why : OptionsError)
  | icon (why : OpenError)
  /-- The ends of the animation are not in order, so that it has no frame to go to. -/
  | noFrame

namespace Failure

def message : Failure → String
  | options why => why.message
  | icon why => why.message
  | noFrame => "animation has no frames"

def exitCode : Failure → UInt32
  | options _ => 1
  | icon _ => 1
  | noFrame => 101

end Failure

structure Report where
  level : Level
  message : String

structure Outcome where
  lines : List String
  file : Option (String × String)
  reports : List Report

def line (members : List (String × Json)) : String := (Json.obj members).render

def ofNote (n : Icon.Note) : Report := ⟨.warn, n.message⟩

def ofRemark (r : Live.Remark) : Report := ⟨.debug, r.message⟩

def ofSkip (s : Control.Skip) : Report := ⟨.warn, s.message⟩

def options (a : Arguments) (text : String → Option String) : Except OptionsError Options := do
  let base ← match a.config with
    | some path => Options.load path (text path)
    | none => .ok {}
  return base.withOverrides a.colors a.stroke

def perform (a : Arguments) (icon : Icon) : Except Failure Outcome :=
  if a.list then .ok ⟨icon.controls.map fun d => line d.members, none, []⟩
  else match a.sampleFrame with
    | some frame => match icon.sampleAt frame with
      | some (samples, remarks, _) =>
        .ok ⟨samples.map fun s => line s.members, none, remarks.map ofRemark⟩
      | none => .error .noFrame
    | none =>
      let (document, skips) := icon.exportDocument
      match a.output with
      | some path => .ok ⟨[], some (path, document.render), skips.map ofSkip⟩
      | none => .ok ⟨[document.render], none, skips.map ofSkip⟩

def run (a : Arguments) (text : String → Option String) : Except Failure Outcome := do
  let o ← (options a text).mapError .options
  let icon ← (Icon.load a.input (text a.input)).mapError .icon
  let absent := if icon.controls.isEmpty then [⟨.warn, "icon exposes no customizable controls"⟩] else []
  let (icon, notes) := icon.apply o
  let outcome ← perform a icon
  return { outcome with reports := absent ++ notes.map ofNote ++ outcome.reports }

def Report.render (format : Format) (r : Report) : String :=
  match format with
  | .pretty => r.level.name ++ ": " ++ r.message
  | .json => line [("level", .str r.level.name), ("message", .str r.message)]

end IconMotion.CommandLine
