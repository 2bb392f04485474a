namespace IconMotion

/-- One step into a container. What reads as a number of 64 bits is an index, all else is a key. -/
inductive Step where
  | key (name : String)
  | index (i : Nat)
deriving DecidableEq

abbrev Path := List Step

namespace Step

def digits (i : Nat) : List Char := Nat.toDigits 10 i

def text : Step → String
  | key name => name
  | index i => String.ofList (digits i)

def maxIndex : Nat := UInt64.size - 1

def ofDigits? (ds : List Char) : Option Nat :=
  if ds.isEmpty || !ds.all Char.isDigit then none
  else
    let n := ds.foldl (fun n c => 10 * n + (c.toNat - 48)) 0
    if n ≤ maxIndex then some n else none

def readIndex? : List Char → Option Nat
  | '+' :: ds => ofDigits? ds
  | ds => ofDigits? ds

def ofSegment (cs : List Char) : Step :=
  match readIndex? cs with
  | some i => index i
  | none => key (String.ofList cs)

end Step

namespace Path

def segments : List Char → List (List Char)
  | [] => [[]]
  | c :: cs =>
    if c = '.' then [] :: segments cs
    else match segments cs with
      | [] => [[c]]
      | s :: ss => (c :: s) :: ss

def parse (s : String) : Path :=
  ((segments s.toList).filter (!·.isEmpty)).map Step.ofSegment

def renderChars : Path → List Char
  | [] => []
  | [s] => s.text.toList
  | s :: t :: p => s.text.toList ++ '.' :: renderChars (t :: p)

def render (p : Path) : String := String.ofList p.renderChars

end Path

end IconMotion
