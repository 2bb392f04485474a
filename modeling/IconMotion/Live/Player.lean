import IconMotion.Live.Binding
import IconMotion.Motion.Playhead

namespace IconMotion

structure Player where
  name : Option String
  width : UInt32
  height : UInt32
  playhead : Playhead Float32
  tree : Live.Tree
  bindings : List Live.Binding
  cache : Expression.Cache

inductive LoadError where
  | unreadable (why : DecodeError)
  | zeroFrameRate

def LoadError.message : LoadError → String
  | unreadable why => "invalid animation document: " ++ why.message
  | zeroFrameRate => "animation has a zero frame rate"

namespace Player

def ofAnimation (a : Animation) (bindings : List Live.Binding) : Player where
  name := a.name
  width := a.width
  height := a.height
  playhead := .start a.frameRate a.inPoint a.outPoint
  tree := .ofAnimation a
  bindings := bindings
  cache := .empty

def load (document : Json) : Except LoadError Player :=
  match Decoder.animation document with
  | .error e => .error (.unreadable e)
  | .ok a =>
    if a.frameRate == 0.0 then .error .zeroFrameRate
    else .ok (ofAnimation a (Live.findBindings document))

def update (p : Player) : Player := { p with tree := p.tree.update p.playhead.frame }

/-- Moves by `dt` seconds. A paused player does nothing, not even sample. -/
def advance (p : Player) (dt : Float32) : Option Player :=
  if p.playhead.paused then some p
  else (p.playhead.advance dt).map fun playhead => update { p with playhead }

def goTo (p : Player) (frame : Float32) : Option Player :=
  (p.playhead.goTo frame).map fun playhead => update { p with playhead }

def play (p : Player) : Player := { p with playhead.paused := false }

def pause (p : Player) : Player := { p with playhead.paused := true }

def setSpeed (p : Player) (speed : Float32) : Player := { p with playhead.speed := speed }

def setDirection (p : Player) (direction : Direction) : Player :=
  { p with playhead.direction := direction }

def setLooping (p : Player) (looping : Bool) : Player := { p with playhead.looping := looping }

def samples (p : Player) : List Live.Sample × List Live.Remark × Player :=
  let (samples, remarks, cache) :=
    Live.Binding.sampleAll ⟨p.name, p.tree⟩ p.playhead.frame p.cache p.bindings
  (samples, remarks, { p with cache })

end Player

instance : Target Player where
  locate p path := match p.tree.locate path with
    | .ok slot => .ok ⟨slot.value, fun v => { p with tree := slot.put v }, slot.rest⟩
    | .error e => .error e

end IconMotion
