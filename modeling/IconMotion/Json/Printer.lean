import IconMotion.Json.Basic
import IconMotion.Number.DecimalText

namespace IconMotion.Json

/-- A number between `1e-5` and `1e+16` has no exponent, an exponent has a sign, and of two decimals
equally near the even one is taken. -/
def decimalText : DecimalText := ⟨-5, 15, ['+'], .even⟩

def renderNumber : Number → List Char
  | .int (.ofNat n) => Nat.toDigits 10 n
  | .int (.negSucc n) => '-' :: Nat.toDigits 10 (n + 1)
  | .float x => decimalText.render x

def renderChar (c : Char) : List Char :=
  match c with
  | '"' => ['\\', '"']
  | '\\' => ['\\', '\\']
  | '\n' => ['\\', 'n']
  | '\r' => ['\\', 'r']
  | '\t' => ['\\', 't']
  | '\x08' => ['\\', 'b']
  | '\x0c' => ['\\', 'f']
  | c =>
    if c < ' ' then
      ['\\', 'u', '0', '0', Nat.digitChar (c.toNat / 16), Nat.digitChar (c.toNat % 16)]
    else [c]

def renderString (s : String) : List Char :=
  '"' :: s.toList.flatMap renderChar ++ ['"']

mutual

def renderChars : Json → List Char
  | null => ['n', 'u', 'l', 'l']
  | bool true => ['t', 'r', 'u', 'e']
  | bool false => ['f', 'a', 'l', 's', 'e']
  | num n => renderNumber n
  | str s => renderString s
  | arr [] => ['[', ']']
  | arr (x :: xs) => '[' :: (renderChars x ++ renderItems xs)
  | obj [] => ['{', '}']
  | obj ((k, x) :: ms) => '{' :: (renderString k ++ ':' :: (renderChars x ++ renderMembers ms))

def renderItems : List Json → List Char
  | [] => [']']
  | x :: xs => ',' :: (renderChars x ++ renderItems xs)

def renderMembers : List (String × Json) → List Char
  | [] => ['}']
  | (k, x) :: ms => ',' :: (renderString k ++ ':' :: (renderChars x ++ renderMembers ms))

end

def render (j : Json) : String := String.ofList j.renderChars

end IconMotion.Json
