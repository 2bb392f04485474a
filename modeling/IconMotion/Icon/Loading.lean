import IconMotion.Icon.Basic

namespace IconMotion

inductive OpenError where
  | unread (path : String)
  | unparsed (path : String)
  | unplayable (why : LoadError)

def OpenError.doing : OpenError → String
  | unread path => "reading animation " ++ path
  | unparsed path => "parsing animation " ++ path
  | unplayable _ => "building animation instance"

def OpenError.message : OpenError → String
  | unplayable why => "building animation instance: " ++ why.message
  | e => e.doing

def Icon.load (path : String) (text : Option String) : Except OpenError Icon :=
  match text with
  | none => .error (.unread path)
  | some text => match Json.parseDocument? text with
    | none => .error (.unparsed path)
    | some document => match Icon.ofDocument document with
      | .error e => .error (.unplayable e)
      | .ok icon => .ok icon

inductive OptionsError where
  | unread (path : String)
  | unparsed (path : String)

def OptionsError.message : OptionsError → String
  | unread path => "reading options from " ++ path
  | unparsed path => "parsing options in " ++ path

def Options.load (path : String) (text : Option String) : Except OptionsError Options :=
  match text with
  | none => .error (.unread path)
  | some text => match Options.parse? text with
    | none => .error (.unparsed path)
    | some o => .ok o

end IconMotion
