import IconMotion.CommandLine.Run

namespace IconMotion.CommandLine

def readText? (path : String) : IO (Option String) := do
  try return some (← IO.FS.readFile path) catch _ => return none

def report (a : Arguments) (r : Report) : IO Unit :=
  if a.logLevel.shows r.level then IO.eprintln (r.render a.logFormat) else pure ()

def finish (a : Arguments) (o : Outcome) : IO UInt32 := do
  o.reports.forM (report a)
  o.lines.forM IO.println
  match o.file with
  | none => return 0
  | some (path, text) =>
    try
      IO.FS.writeFile path text
      report a ⟨.info, "icon written; output=" ++ path⟩
      return 0
    catch _ =>
      report a ⟨.error, "writing " ++ path⟩
      return 1

end IconMotion.CommandLine

open IconMotion.CommandLine in
def main (args : List String) : IO UInt32 := do
  match Arguments.parse args with
  | .error e =>
    IO.eprintln e.message
    return 2
  | .ok a =>
    let texts ← a.sources.mapM fun path => do return (path, ← readText? path)
    match run a fun path => (texts.lookup path).join with
    | .ok o => finish a o
    | .error e =>
      report a ⟨.error, e.message⟩
      return e.exitCode
