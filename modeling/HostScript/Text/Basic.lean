/-!
# Text

Scripts, names and messages are sequences of bytes.
-/

namespace HostScript

/-- A sequence of bytes. -/
abbrev Text := List UInt8

namespace Text

/-- The UTF-8 bytes of a string. -/
def ofString (literal : String) : Text :=
  literal.toUTF8.toList

instance : Coe String Text where
  coe := ofString

def join (pieces : List Text) : Text :=
  pieces.flatten

def joinWith (separator : Text) : List Text → Text
  | [] => []
  | [piece] => piece
  | piece :: rest => piece ++ separator ++ joinWith separator rest

def byte (c : Char) : UInt8 :=
  c.toNat.toUInt8

/-- A natural number in base ten. -/
def decimal (n : Nat) : Text :=
  (Nat.toDigits 10 n).map byte

/-- An integer in base ten, with a minus sign when it is negative. -/
def integer : Int → Text
  | .ofNat n => decimal n
  | .negSucc n => byte '-' :: decimal (n + 1)

/-- A natural number in base ten, filled with zeros on the left up to a width. -/
def padded (width n : Nat) : Text :=
  let digits := decimal n
  List.replicate (width - digits.length) (byte '0') ++ digits

def filled (width : Nat) (t : Text) : Text :=
  t ++ List.replicate (width - t.length) (byte ' ')

/-- The lower case base sixteen digit of a number below sixteen. -/
def hexDigit (n : Nat) : UInt8 :=
  byte (Nat.digitChar (n % 16))

/-- A number in base sixteen with exactly the given count of digits. -/
def hex : (width : Nat) → (n : Nat) → Text
  | 0, _ => []
  | width + 1, n => hex width (n / 16) ++ [hexDigit n]

def hexBytes (t : Text) : Text :=
  t.flatMap fun b => hex 2 b.toNat

def hexValue? (b : UInt8) : Option Nat :=
  if byte '0' ≤ b ∧ b ≤ byte '9' then some (b.toNat - 48)
  else if byte 'a' ≤ b ∧ b ≤ byte 'f' then some (b.toNat - 87)
  else if byte 'A' ≤ b ∧ b ≤ byte 'F' then some (b.toNat - 55)
  else none

def inQuotes (name : Text) : Text :=
  byte '\'' :: (name ++ [byte '\''])

def compare : Text → Text → Ordering
  | [], [] => .eq
  | [], _ :: _ => .lt
  | _ :: _, [] => .gt
  | a :: as, b :: bs =>
    if a < b then .lt
    else if b < a then .gt
    else compare as bs

/-- An ASCII letter in lower case; any other byte unchanged. -/
def lowerByte (b : UInt8) : UInt8 :=
  if byte 'A' ≤ b ∧ b ≤ byte 'Z' then b + 32 else b

def lower (t : Text) : Text :=
  t.map lowerByte

end Text

end HostScript
