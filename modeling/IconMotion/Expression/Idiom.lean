import IconMotion.Expression.Parser
import IconMotion.Number.Precision

namespace IconMotion.Expression

inductive Composition where
  | this
  | named (name : String)
deriving DecidableEq

inductive Selector where
  | name (name : String)
  | index (n : Nat)
deriving DecidableEq

def Selector.text : Selector → String
  | name s => s
  | index n => "#" ++ toString n

structure Reference where
  composition : Composition
  layer : String
  effect : Selector
  channel : String
deriving DecidableEq

inductive Idiom where
  | compColor | scaledStroke | menuSwitch | legacyScaled | legacyScale | legacyAxis | legacyColor
  | watermark
deriving DecidableEq

def Idiom.name : Idiom → String
  | compColor => "comp_color"
  | scaledStroke => "scaled_stroke"
  | menuSwitch => "menu_switch"
  | legacyScaled => "legacy_scaled"
  | legacyScale => "legacy_scale"
  | legacyAxis => "legacy_axis"
  | legacyColor => "legacy_color"
  | watermark => "watermark"

/-- An expression in one of the idioms, reduced to what it depends on. -/
inductive Compiled where
  | compColor (reference : Reference)
  | scaledStroke (divisor : Float) (reference : Reference)
  | menuSwitch (reference : Reference) (threshold whenEqual otherwise : Float)
  | legacyScaled (reference : Reference) (factor : Float)
  | legacyScale (reference : Reference)
  | legacyAxis (reference : Reference)
  | legacyColor (reference : Reference)
  | watermark
deriving DecidableEq

namespace Compiled

def idiom : Compiled → Idiom
  | compColor _ => .compColor
  | scaledStroke .. => .scaledStroke
  | menuSwitch .. => .menuSwitch
  | legacyScaled .. => .legacyScaled
  | legacyScale _ => .legacyScale
  | legacyAxis _ => .legacyAxis
  | legacyColor _ => .legacyColor
  | watermark => .watermark

def reference? : Compiled → Option Reference
  | compColor r => some r
  | scaledStroke _ r => some r
  | menuSwitch r .. => some r
  | legacyScaled r _ => some r
  | legacyScale r => some r
  | legacyAxis r => some r
  | legacyColor r => some r
  | watermark => none

end Compiled

inductive Shape where
  | value (e : Expr)
  | choice (condition thens elses : Expr)

namespace Shape

def resultName : String := "$bm_rt"

def isBare : Stmt → Bool
  | .declare _ none => true
  | _ => false

def assigned? : List Stmt → Option Expr
  | [.assign name e] => if name = resultName then some e else none
  | _ => none

def ofStmt? : Stmt → Option Shape
  | .expr e => some (value e)
  | .assign name e => if name = resultName then some (value e) else none
  | .declare name (some e) => if name = resultName then some (value e) else none
  | .declare _ none => none
  | .branch condition thens elses => do
    some (choice condition (← assigned? thens) (← assigned? elses))

/-- The result of a program: that of its only statement, bare declarations aside. -/
def ofProgram? (program : List Stmt) : Option Shape :=
  match program.filter (!isBare ·) with
  | [s] => ofStmt? s
  | _ => none

end Shape

namespace Expr

def number? : Expr → Option Float
  | .number x => some x
  | _ => none

def positive? (e : Expr) : Option Float := e.number?.filter (0.0 ≤ ·)

def whole? (e : Expr) : Option Float :=
  e.positive?.filter fun x => Precision.isWhole x.toModel.unpack

def call? (name : String) : Expr → Option (List Expr)
  | .call (.ident f) args => if f = name then some args else none
  | _ => none

def method? (name : String) : Expr → Option (Expr × Expr)
  | .call (.member object property) [arg] => if property = name then some (object, arg) else none
  | _ => none

def text? : Expr → Option String
  | .text s => some s
  | _ => none

def selector? (e : Expr) : Option Selector :=
  match e.text? with
  | some s => some (.name s)
  | none => (e.whole?.filter (1.0 ≤ ·)).map fun n => .index n.toUInt64.toNat

def composition? (e : Expr) : Option Composition :=
  match e with
  | .ident name => if name = "thisComp" then some .this else none
  | e => match e.call? "comp" with
    | some [.text name] => some (.named name)
    | _ => none

def reference? : Expr → Option Reference
  | .call callee [.text channel] => do
    let (layer, selector) ← callee.method? "effect"
    let effect ← selector.selector?
    let (root, name) ← layer.method? "layer"
    let name ← name.text?
    let composition ← root.composition?
    some ⟨composition, name, effect, channel⟩
  | _ => none

end Expr

namespace Reference

def isNamed (r : Reference) : Bool :=
  match r.effect with
  | .name _ => true
  | .index _ => false

def isForeign (r : Reference) : Bool :=
  match r.composition with
  | .named _ => true
  | .this => false

end Reference

/-- The layer whose references are marks without effect. -/
def watermarkLayer : String := "02092020"

namespace Shape

def reference? : Shape → Option Reference
  | value e => e.reference?
  | choice .. => none

def legacy? (s : Shape) : Option Reference :=
  s.reference?.filter fun r => !r.isForeign && r.isNamed && r.layer ≠ watermarkLayer

def compColor? (s : Shape) : Option Compiled :=
  (s.reference?.filter fun r => r.isForeign && r.isNamed && r.channel = "Color").map .compColor

def scaledStroke? : Shape → Option Compiled
  | value e => match e.call? "$bm_mul" with
    | some [scaled, referenced] => match scaled.call? "$bm_div" with
      | some [.ident name, divisor] =>
        if name = "value" then do
          let divisor ← divisor.positive?
          let reference ← referenced.reference?.filter fun r => r.isForeign && r.isNamed
          some (.scaledStroke divisor reference)
        else none
      | _ => none
    | _ => none
  | choice .. => none

def menuSwitch? : Shape → Option Compiled
  | choice (.binary .eq left right) thens elses => do
    let reference ← left.reference?.filter fun r =>
      !r.isForeign && r.isNamed && r.channel = "Menu"
    some (.menuSwitch reference (← right.whole?) (← thens.whole?) (← elses.whole?))
  | _ => none

def legacyScaled? : Shape → Option Compiled
  | value e => match e.call? "$bm_mul" with
    | some [referenced, factor] => do
      let reference ← referenced.reference?.filter fun r => !r.isForeign
      some (.legacyScaled reference (← factor.positive?))
    | _ => none
  | choice .. => none

def legacyScale? (s : Shape) : Option Compiled :=
  (s.legacy?.filter fun r => r.effect = .name "Scale" && r.channel = "Slider").map .legacyScale

def legacyAxis? (s : Shape) : Option Compiled :=
  (s.legacy?.filter fun r => r.effect = .name "Axis" && r.channel = "Point").map .legacyAxis

def legacyColor? (s : Shape) : Option Compiled :=
  (s.legacy?.filter fun r => r.channel = "Color").map .legacyColor

def watermark? (s : Shape) : Option Compiled :=
  (s.reference?.filter fun r =>
    !r.isForeign && r.isNamed && r.layer = watermarkLayer).map fun _ => .watermark

end Shape

/-- The idioms and how each is recognized, in the order in which they are tried. -/
def idioms : List (Idiom × (Shape → Option Compiled)) :=
  [(.compColor, Shape.compColor?), (.scaledStroke, Shape.scaledStroke?),
    (.menuSwitch, Shape.menuSwitch?), (.legacyScaled, Shape.legacyScaled?),
    (.legacyScale, Shape.legacyScale?), (.legacyAxis, Shape.legacyAxis?),
    (.legacyColor, Shape.legacyColor?), (.watermark, Shape.watermark?)]

inductive Refusal where
  | unparsed (error : ParseError)
  | noResult
  | unrecognized

def Refusal.message : Refusal → String
  | unparsed e => "expression did not parse; err=" ++ e.message
  | noResult => "expression does not reduce to a single result"
  | unrecognized => "expression matches no known template"

def shape (source : String) : Except Refusal Shape :=
  match parse source with
  | .error e => .error (.unparsed e)
  | .ok program => match Shape.ofProgram? program with
    | some s => .ok s
    | none => .error .noResult

def compile (source : String) : Except Refusal Compiled :=
  match shape source with
  | .error e => .error e
  | .ok s => match idioms.findSome? fun (_, recognize) => recognize s with
    | some c => .ok c
    | none => .error .unrecognized

def matching (source : String) : List Idiom :=
  match shape source with
  | .error _ => []
  | .ok s => (idioms.filter fun (_, recognize) => (recognize s).isSome).map (·.1)

end IconMotion.Expression
