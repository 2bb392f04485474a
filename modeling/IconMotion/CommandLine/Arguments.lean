import IconMotion.Number.FloatText

namespace IconMotion.CommandLine

inductive Level where
  | error | warn | info | debug | trace
deriving DecidableEq

namespace Level

def name : Level → String
  | error => "error"
  | warn => "warn"
  | info => "info"
  | debug => "debug"
  | trace => "trace"

def all : List Level := [error, warn, info, debug, trace]

def shows (limit level : Level) : Bool := all.idxOf level ≤ all.idxOf limit

end Level

inductive Format where
  | pretty | json
deriving DecidableEq

namespace Format

def name : Format → String
  | pretty => "pretty"
  | json => "json"

def all : List Format := [pretty, json]

end Format

inductive Setting where
  | path (path : String)
  | color (name hex : String)
  | stroke (width : Float)
  | config (path : String)
  | list
  | sampleFrame (frame : Float32)
  | logLevel (level : Level)
  | logFormat (format : Format)

inductive Misuse where
  | unknownOption (name : String)
  | unknownArgument (arg : String)
  | missingValue (name : String)
  | unexpectedValue (name : String)
  | badValue (name value : String)
  | emptyPath
  | repeated (name : String)
  | missingInput
  | unexpectedPath (path : String)
deriving DecidableEq

def Misuse.message : Misuse → String
  | unknownOption name => "unknown option --" ++ name
  | unknownArgument arg => "unknown argument " ++ arg
  | missingValue name => "option --" ++ name ++ " needs a value"
  | unexpectedValue name => "option --" ++ name ++ " takes no value"
  | badValue name value => "bad value for --" ++ name ++ ": " ++ value
  | emptyPath => "empty path"
  | repeated name => "option --" ++ name ++ " is given twice"
  | missingInput => "no icon is given"
  | unexpectedPath path => "unexpected argument " ++ path

/-- The parts before and behind the first `=`. -/
def splitEq : List Char → List Char × Option (List Char)
  | [] => ([], none)
  | c :: cs =>
    if c = '=' then ([], some cs)
    else
      let (before, behind) := splitEq cs
      (c :: before, behind)

namespace Setting

def path? (s : String) : Option String := if s.isEmpty then none else some s

def color? (s : String) : Option Setting :=
  match splitEq s.toList with
  | ([], _) => none
  | (name, some hex) => some (color (String.ofList name) (String.ofList hex))
  | (_, none) => none

def reader? : String → Option (String → Option Setting)
  | "color" => some color?
  | "stroke" => some fun v => (FloatText.readFloat? v).map stroke
  | "config" => some fun v => (path? v).map config
  | "sample-frame" => some fun v => (FloatText.readFloat32? v).map sampleFrame
  | "log-level" => some fun v => (Level.all.find? (·.name = v)).map logLevel
  | "log-format" => some fun v => (Format.all.find? (·.name = v)).map logFormat
  | _ => none

def ofOption (name value : String) : Except Misuse Setting :=
  match reader? name with
  | none => .error (.unknownOption name)
  | some read => match read value with
    | some s => .ok s
    | none => .error (.badValue name value)

def bare (name : String) : Misuse :=
  if (reader? name).isSome then .missingValue name else .unknownOption name

def ofPath (s : String) : Except Misuse Setting :=
  match path? s with
  | some p => .ok (path p)
  | none => .error .emptyPath

def looksLikeOption (s : String) : Bool :=
  match s.toList with
  | '-' :: _ :: _ => true
  | _ => false

inductive Form where
  | path
  /-- `--` itself. -/
  | divider
  | option (name : String) (value : Option String)
  | unknown

def form (s : String) : Form :=
  match s.toList with
  | ['-', '-'] => .divider
  | '-' :: '-' :: cs =>
    let (name, value) := splitEq cs
    .option (String.ofList name) (value.map String.ofList)
  | '-' :: _ :: _ => .unknown
  | _ => .path

def readAll : List String → Except Misuse (List Setting)
  | [] => .ok []
  | arg :: args => match form arg with
    | .divider => args.mapM ofPath
    | .path => do return (← ofPath arg) :: (← readAll args)
    | .unknown => .error (.unknownArgument arg)
    | .option "list" none => do return list :: (← readAll args)
    | .option "list" (some _) => .error (.unexpectedValue "list")
    | .option name (some value) => do return (← ofOption name value) :: (← readAll args)
    | .option name none => match args with
      | [] => .error (bare name)
      | value :: args =>
        if looksLikeOption value then .error (bare name)
        else do return (← ofOption name value) :: (← readAll args)

end Setting

structure Arguments where
  input : String
  output : Option String
  colors : List (String × String)
  stroke : Option Float
  config : Option String
  list : Bool
  sampleFrame : Option Float32
  logLevel : Level
  logFormat : Format

namespace Arguments

/-- What is given at most once. -/
def single? {τ : Type} (name : String) (pick : Setting → Option τ) (ss : List Setting) :
    Except Misuse (Option τ) :=
  match ss.filterMap pick with
  | [] => .ok none
  | [x] => .ok (some x)
  | _ => .error (.repeated name)

def ofSettings (ss : List Setting) : Except Misuse Arguments := do
  let colors := ss.filterMap fun
    | .color name hex => some (name, hex)
    | _ => none
  let stroke ← single? "stroke" (fun | .stroke x => some x | _ => none) ss
  let config ← single? "config" (fun | .config p => some p | _ => none) ss
  let list ← single? "list" (fun | .list => some () | _ => none) ss
  let sampleFrame ← single? "sample-frame" (fun | .sampleFrame x => some x | _ => none) ss
  let level ← single? "log-level" (fun | .logLevel l => some l | _ => none) ss
  let format ← single? "log-format" (fun | .logFormat f => some f | _ => none) ss
  let given (input : String) (output : Option String) : Arguments :=
    { input, output, colors, stroke, config, list := list.isSome, sampleFrame,
      logLevel := level.getD .info, logFormat := format.getD .pretty }
  match ss.filterMap (fun | .path p => some p | _ => none) with
  | [] => throw .missingInput
  | [input] => return given input none
  | [input, output] => return given input (some output)
  | _ :: _ :: p :: _ => throw (.unexpectedPath p)

def parse (args : List String) : Except Misuse Arguments := do ofSettings (← Setting.readAll args)

def sources (a : Arguments) : List String := a.config.toList ++ [a.input]

end Arguments

end IconMotion.CommandLine
