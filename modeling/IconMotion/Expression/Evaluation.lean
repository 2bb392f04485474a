import IconMotion.Expression.Idiom
import IconMotion.Expression.Value

namespace IconMotion.Expression

structure Context where
  channel : Reference → Except EvalError Value
  value : Except EvalError Value := .error (.missingMember "value")
  mul : Value → Value → Except EvalError Value := Value.mul
  div : Value → Value → Except EvalError Value := Value.div

def Compiled.evaluate (ctx : Context) : Compiled → Except EvalError Value
  | compColor r => ctx.channel r
  | legacyAxis r => ctx.channel r
  | legacyColor r => ctx.channel r
  | scaledStroke divisor r => do
    let value ← ctx.value
    let scaled ← ctx.div value (.number divisor)
    let stroke ← ctx.channel r
    ctx.mul scaled stroke
  | menuSwitch r threshold whenEqual otherwise => do
    let menu ← ctx.channel r
    if menu.scalar?.any (· == threshold) then return .number whenEqual else return .number otherwise
  | legacyScaled r factor => do
    let value ← ctx.channel r
    ctx.mul value (.number factor)
  | legacyScale r => do
    let value ← ctx.channel r
    match value.scalar? with
    | some x => return .vector [x, x]
    | none => .error (.typeMismatch (.notScalar r.channel))
  | watermark => .ok (.number 0.0)

/-- Sources that have been compiled, with the outcome; a refusal is an outcome too. -/
structure Cache where
  entries : List (String × Option Compiled)

namespace Cache

def empty : Cache := ⟨[]⟩

def size (c : Cache) : Nat := c.entries.length

def isEmpty (c : Cache) : Bool := c.entries.isEmpty

def get (c : Cache) (source : String) : Option Compiled × List Refusal × Cache :=
  match c.entries.lookup source with
  | some outcome => (outcome, [], c)
  | none => match compile source with
    | .ok compiled => (some compiled, [], ⟨(source, some compiled) :: c.entries⟩)
    | .error refusal => (none, [refusal], ⟨(source, none) :: c.entries⟩)

end Cache

end IconMotion.Expression
