import IconMotion.Json.Basic
import IconMotion.Number.Literal
import IconMotion.Text.Hex

namespace IconMotion.Json

/-- The structure of a JSON text, with repeated keys in place. What denotes nothing (a number out of
range, half of a surrogate pair) is part of it, and is refused when the value is taken. -/
inductive Source where
  | null
  | bool (value : Bool)
  | num (value : Option Number)
  | str (text : Option String)
  | arr (items : List Source)
  | obj (members : List (Option String × Source))

namespace Source

abbrev Reader (τ : Type) := List Char → Option (τ × List Char)

def isBlank (c : Char) : Bool := c == ' ' || c == '\n' || c == '\t' || c == '\r'

def skipBlanks (cs : List Char) : List Char := cs.dropWhile isBlank

def hexDigits? (ds : List Char) : Option Nat :=
  ds.foldlM (fun n c => (Text.hexDigit? c).map (16 * n + ·)) 0

def escaped? : Char → Option Char
  | '"' => some '"'
  | '\\' => some '\\'
  | '/' => some '/'
  | 'b' => some '\x08'
  | 'f' => some '\x0c'
  | 'n' => some '\n'
  | 'r' => some '\r'
  | 't' => some '\t'
  | _ => none

def isHighSurrogate (n : Nat) : Bool := 0xD800 ≤ n && n < 0xDC00

def isLowSurrogate (n : Nat) : Bool := 0xDC00 ≤ n && n < 0xE000

def joinSurrogates (high low : Nat) : Char :=
  Char.ofNat (0x10000 + (high - 0xD800) * 0x400 + (low - 0xDC00))

/-- The inside of a string, up to the closing quote. `read` holds the characters so far, last first,
and is lost once half of a surrogate pair stands alone. -/
def stringBody (read : Option (List Char)) : Reader (Option String)
  | '"' :: cs => some (read.map (String.ofList ·.reverse), cs)
  | '\\' :: 'u' :: a :: b :: c :: d :: '\\' :: 'u' :: e :: f :: g :: h :: cs => do
    let first ← hexDigits? [a, b, c, d]
    let second ← hexDigits? [e, f, g, h]
    if isHighSurrogate first && isLowSurrogate second then
      stringBody (read.map (joinSurrogates first second :: ·)) cs
    else if isHighSurrogate first || isLowSurrogate first then
      stringBody none ('\\' :: 'u' :: e :: f :: g :: h :: cs)
    else
      stringBody (read.map (Char.ofNat first :: ·)) ('\\' :: 'u' :: e :: f :: g :: h :: cs)
  | '\\' :: 'u' :: a :: b :: c :: d :: cs => do
    let unit ← hexDigits? [a, b, c, d]
    if isHighSurrogate unit || isLowSurrogate unit then stringBody none cs
    else stringBody (read.map (Char.ofNat unit :: ·)) cs
  | '\\' :: c :: cs => do
    let x ← escaped? c
    stringBody (read.map (x :: ·)) cs
  | c :: cs => if c < ' ' then none else stringBody (read.map (c :: ·)) cs
  | [] => none

def wholeDigits : Reader (List Char)
  | '0' :: cs => if (cs.head?.any Char.isDigit) then none else some (['0'], cs)
  | cs =>
    let (ds, cs) := Literal.spanDigits cs
    if ds.isEmpty then none else some (ds, cs)

def someDigits : Reader (List Char) := fun cs =>
  let (ds, cs) := Literal.spanDigits cs
  if ds.isEmpty then none else some (ds, cs)

def fractionDigits : Reader (List Char)
  | '.' :: cs => someDigits cs
  | cs => some ([], cs)

def exponent : Reader (Option Int) := fun cs =>
  match cs with
  | e :: cs' =>
    if e == 'e' || e == 'E' then
      match cs' with
      | '+' :: cs => (someDigits cs).map fun (ds, cs) => (some (Literal.digitsValue ds : Int), cs)
      | '-' :: cs => (someDigits cs).map fun (ds, cs) => (some (-(Literal.digitsValue ds : Int)), cs)
      | cs => (someDigits cs).map fun (ds, cs) => (some (Literal.digitsValue ds : Int), cs)
    else some (none, cs)
  | [] => some (none, [])

/-- What a literal denotes. One without point and exponent is a whole number if 64 bits hold it; a
zero with a sign is a float. -/
def denote (negative : Bool) (l : Literal) (plain : Bool) : Option Number :=
  let n := Literal.digitsValue l.whole
  let float := l.quick?.map fun x => Number.float (if negative then -x else x)
  if !plain then float
  else if negative then
    if n ≠ 0 ∧ n ≤ 9223372036854775808 then some (.int (-n)) else float
  else if n ≤ Literal.maxWord then some (.int n)
  else float

def number : Reader Source := fun cs => do
  let (negative, cs) := match cs with
    | '-' :: cs => (true, cs)
    | cs => (false, cs)
  let (whole, cs) ← wholeDigits cs
  let (fraction, cs) ← fractionDigits cs
  let (exp, cs) ← exponent cs
  let literal := ⟨whole, fraction, exp.getD 0⟩
  some (.num (denote negative literal (fraction.isEmpty && exp.isNone)), cs)

def items (value : Reader Source) : (fuel : Nat) → List Source → Reader (List Source)
  | 0, _, _ => none
  | fuel + 1, read, cs => do
    let (v, cs) ← value cs
    match skipBlanks cs with
    | ',' :: cs => items value fuel (v :: read) cs
    | ']' :: cs => some ((v :: read).reverse, cs)
    | _ => none

def members (value : Reader Source) :
    (fuel : Nat) → List (Option String × Source) → Reader (List (Option String × Source))
  | 0, _, _ => none
  | fuel + 1, read, cs =>
    match skipBlanks cs with
    | '"' :: cs => do
      let (key, cs) ← stringBody (some []) cs
      match skipBlanks cs with
      | ':' :: cs => do
        let (v, cs) ← value cs
        match skipBlanks cs with
        | ',' :: cs => members value fuel ((key, v) :: read) cs
        | '}' :: cs => some (((key, v) :: read).reverse, cs)
        | _ => none
      | _ => none
    | _ => none

def valueWith (fuel : Nat) (inner : Reader Source) : Reader Source := fun cs =>
  match skipBlanks cs with
  | 'n' :: 'u' :: 'l' :: 'l' :: cs => some (.null, cs)
  | 't' :: 'r' :: 'u' :: 'e' :: cs => some (.bool true, cs)
  | 'f' :: 'a' :: 'l' :: 's' :: 'e' :: cs => some (.bool false, cs)
  | '"' :: cs => (stringBody (some []) cs).map fun (s, cs) => (.str s, cs)
  | '[' :: cs =>
    match skipBlanks cs with
    | ']' :: cs => some (.arr [], cs)
    | cs => (items inner fuel [] cs).map fun (xs, cs) => (.arr xs, cs)
  | '{' :: cs =>
    match skipBlanks cs with
    | '}' :: cs => some (.obj [], cs)
    | cs => (members inner fuel [] cs).map fun (ms, cs) => (.obj ms, cs)
  | cs => number cs

def value (fuel : Nat) : (depth : Nat) → Reader Source
  | 0 => fun _ => none
  | depth + 1 => valueWith fuel (value fuel depth)

/-- Reads a whole text. Every level of nesting takes a character, so the length bounds both. -/
def parse? (text : String) : Option Source := do
  let cs := text.toList
  let (v, rest) ← value cs.length (cs.length + 1) cs
  if (skipBlanks rest).isEmpty then some v else none

mutual

def depth : Source → Nat
  | arr xs => depthItems xs + 1
  | obj ms => depthMembers ms + 1
  | _ => 0

def depthItems : List Source → Nat
  | [] => 0
  | x :: xs => max (depth x) (depthItems xs)

def depthMembers : List (Option String × Source) → Nat
  | [] => 0
  | (_, x) :: ms => max (depth x) (depthMembers ms)

end

mutual

def eval? : Source → Option Json
  | null => some .null
  | bool b => some (.bool b)
  | num n => n.map .num
  | str s => s.map .str
  | arr xs => (evalItems? xs).map .arr
  | obj ms => (evalMembers? ms).map fun ms => .obj (SortedMap.ofList ms)

def evalItems? : List Source → Option (List Json)
  | [] => some []
  | x :: xs => do
    let v ← eval? x
    let vs ← evalItems? xs
    some (v :: vs)

def evalMembers? : List (Option String × Source) → Option (List (String × Json))
  | [] => some []
  | (key, x) :: ms => do
    let k ← key
    let v ← eval? x
    let vs ← evalMembers? ms
    some ((k, v) :: vs)

end

mutual

def ofJson : Json → Source
  | .null => null
  | .bool b => bool b
  | .num n => num (some n)
  | .str s => str (some s)
  | .arr xs => arr (ofItems xs)
  | .obj ms => obj (ofMembers ms)

def ofItems : List Json → List Source
  | [] => []
  | x :: xs => ofJson x :: ofItems xs

def ofMembers : List (String × Json) → List (Option String × Source)
  | [] => []
  | (k, x) :: ms => (some k, ofJson x) :: ofMembers ms

end

end Source

def parse? (text : String) : Option Json := do (← Source.parse? text).eval?

def maxDepth : Nat := 127

def parseDocument? (text : String) : Option Json := do
  let source ← Source.parse? text
  if source.depth ≤ maxDepth then source.eval? else none

end IconMotion.Json
