import IconMotion.Number.Scalar
import IconMotion.Text.Hex

namespace IconMotion

structure Rgb (α : Type) where
  r : α
  g : α
  b : α

structure Unit3 (α : Type) where
  r : α
  g : α
  b : α

namespace Color

/-- The value of the hexadecimal digits a text starts with, after a `#` if there is one. Only the low
32 bits are kept; text without digits is black. -/
def hexValue (hex : List Char) : Nat :=
  let digits := match hex with
    | '#' :: cs => cs
    | cs => cs
  (Text.hexDigits digits).foldl (fun n d => (16 * n + d) % UInt32.size) 0

variable {α : Type} [Scalar α]

def ofNat (n : Nat) : α := OfScientific.ofScientific n false 0

def ofHex (hex : String) : Rgb α :=
  let n := hexValue hex.toList
  ⟨ofNat (n / 65536 % 256), ofNat (n / 256 % 256), ofNat (n % 256)⟩

def toUnit (n : α) : α := Scalar.round (n / 255.0 * 1000.0) / 1000.0

def fromUnit (x : α) : UInt8 := Scalar.toByte (Scalar.hold 0.0 255.0 (Scalar.round (x * 255.0)))

def normalize (c : Rgb α) : Unit3 α := ⟨toUnit c.r, toUnit c.g, toUnit c.b⟩

def unitOfHex (hex : String) : Unit3 α := normalize (ofHex hex)

def toHexChars (c : Unit3 α) : List Char :=
  '#' :: (Text.hexByte (fromUnit c.r) ++ Text.hexByte (fromUnit c.g) ++ Text.hexByte (fromUnit c.b))

def toHex (c : Unit3 α) : String := String.ofList (toHexChars c)

end Color

end IconMotion
