import IconMotion.Animation.Basic
import IconMotion.Motion.Sampling
import IconMotion.Path.Walk

namespace IconMotion.Live

structure Channel where
  name : Option String
  matchName : Option String
  source : Property Json
  value : Json

structure Effect where
  name : Option String
  matchName : Option String
  enabled : Bool
  channels : List Channel

structure Layer where
  name : Option String
  startTime : Float32
  effects : List Effect

/-- The values of all effects as they are at the moment. What is written to a property without keyframes
stays; a value with keyframes is sampled again whenever the frame moves. -/
abbrev Tree := List Layer

namespace Channel

def isKeyed (c : Channel) : Bool := c.source.track.isKeyed

def ofValue (v : IconMotion.EffectValue) : Channel :=
  let source := v.property.getD .absent
  ⟨v.name, v.matchName, source, source.track.sample (0.0 : Float32) id .null⟩

def update (c : Channel) (frame : Float32) : Channel :=
  if c.isKeyed then { c with value := c.source.track.sample frame id c.value } else c

def hasName (c : Channel) (name : String) : Bool :=
  c.name = some name || c.matchName = some name

end Channel

namespace Effect

def ofEffect (e : IconMotion.Effect) : Effect :=
  ⟨e.name, e.matchName, e.enabled.getD 1 ≠ 0, (e.values.getD []).map .ofValue⟩

def update (e : Effect) (frame : Float32) : Effect :=
  { e with channels := e.channels.map (·.update frame) }

def hasName (e : Effect) (name : String) : Bool :=
  e.name = some name || e.matchName = some name

end Effect

namespace Layer

def ofLayer (l : IconMotion.Layer) : Layer :=
  ⟨l.name, l.startTime, (l.effects.getD []).map .ofEffect⟩

def update (l : Layer) (frame : Float32) : Layer :=
  { l with effects := l.effects.map (·.update (frame - l.startTime)) }

end Layer

/-- What a path into the live tree names: a slot, and the steps that go on inside its value. -/
structure Place where
  layer : Nat
  effect : Nat
  channel : Nat
  rest : Path

def Place.keys : List String :=
  ["renderer", "elements", "effectsManager", "effectElements", "effectElements", "p", "v"]

def Place.ofPath? : Path → Option Place
  | renderer :: elements :: .index layer :: manager :: effects :: .index effect :: channels ::
      .index channel :: p :: v :: rest =>
    if [renderer, elements, manager, effects, channels, p, v] = keys.map .key then
      some ⟨layer, effect, channel, rest⟩
    else none
  | _ => none

namespace Tree

def ofAnimation (a : Animation) : Tree := a.layers.map .ofLayer

def update (t : Tree) (frame : Float32) : Tree := t.map (·.update frame)

def layer? (t : Tree) (name : String) : Option Layer := t.find? (·.name = some name)

def put (t : Tree) (place : Place) (value : Json) : Tree :=
  t.modify place.layer fun l =>
    { l with effects := l.effects.modify place.effect fun e =>
      { e with channels := e.channels.modify place.channel fun c => { c with value } } }

def locate (t : Tree) (p : Path) : Except PathError (Slot Tree) :=
  match Place.ofPath? p with
  | none => .error (.unaddressable p)
  | some place => match t[place.layer]? with
    | none => .error (Obstacle.missing.toError p 2)
    | some l => match l.effects[place.effect]? with
      | none => .error (Obstacle.missing.toError p 5)
      | some e => match e.channels[place.channel]? with
        | none => .error (Obstacle.missing.toError p 7)
        | some c => .ok ⟨c.value, t.put place, place.rest⟩

end Tree

instance : Target Tree := ⟨Tree.locate⟩

end IconMotion.Live
