import HostScript.Text.Basic

/-!
# Code points of a text

A text is read as UTF-8.
-/

namespace HostScript

/-- A piece of a text read as UTF-8. -/
inductive Rune where
  /-- A well-formed code point. -/
  | scalar (value : Nat)
  /-- A byte that belongs to no well-formed sequence. -/
  | stray (byte : UInt8)
  deriving Repr, DecidableEq

namespace Rune

def codePoint : Rune → Nat
  | .scalar value => value
  | .stray _ => 0xFFFD

/-- The UTF-8 bytes of a code point below `0x110000`. -/
def encode (value : Nat) : Text :=
  if value < 0x80 then [value.toUInt8]
  else if value < 0x800 then
    [(0xC0 + value / 64).toUInt8, (0x80 + value % 64).toUInt8]
  else if value < 0x10000 then
    [(0xE0 + value / 4096).toUInt8, (0x80 + value / 64 % 64).toUInt8,
      (0x80 + value % 64).toUInt8]
  else
    [(0xF0 + value / 262144).toUInt8, (0x80 + value / 4096 % 64).toUInt8,
      (0x80 + value / 64 % 64).toUInt8, (0x80 + value % 64).toUInt8]

def bytes : Rune → Text
  | .scalar value => encode value
  | .stray b => [b]

end Rune

namespace Text

def isContinuation (b : UInt8) : Bool :=
  0x80 ≤ b && b < 0xC0

def twoByte? (a b : UInt8) : Option Nat :=
  if 0xC2 ≤ a && a < 0xE0 && isContinuation b then
    some ((a.toNat - 0xC0) * 64 + (b.toNat - 0x80))
  else none

/-- The code point of a three-byte sequence; surrogates have none. -/
def threeByte? (a b c : UInt8) : Option Nat :=
  if 0xE0 ≤ a && a < 0xF0 && isContinuation b && isContinuation c then
    let value := (a.toNat - 0xE0) * 4096 + (b.toNat - 0x80) * 64 + (c.toNat - 0x80)
    if value < 0x800 || (0xD800 ≤ value && value < 0xE000) then none else some value
  else none

def fourByte? (a b c d : UInt8) : Option Nat :=
  if 0xF0 ≤ a && a < 0xF5 && isContinuation b && isContinuation c && isContinuation d then
    let value := (a.toNat - 0xF0) * 262144 + (b.toNat - 0x80) * 4096
      + (c.toNat - 0x80) * 64 + (d.toNat - 0x80)
    if value < 0x10000 || 0x110000 ≤ value then none else some value
  else none

def nextRune : (first : UInt8) → (rest : Text) → Rune × Nat
  | a, rest =>
    if a < 0x80 then (.scalar a.toNat, 0)
    else
      match rest with
      | b :: c :: d :: _ =>
        match twoByte? a b, threeByte? a b c, fourByte? a b c d with
        | some value, _, _ => (.scalar value, 1)
        | none, some value, _ => (.scalar value, 2)
        | none, none, some value => (.scalar value, 3)
        | none, none, none => (.stray a, 0)
      | [b, c] =>
        match twoByte? a b, threeByte? a b c with
        | some value, _ => (.scalar value, 1)
        | none, some value => (.scalar value, 2)
        | none, none => (.stray a, 0)
      | [b] =>
        match twoByte? a b with
        | some value => (.scalar value, 1)
        | none => (.stray a, 0)
      | [] => (.stray a, 0)

def runesAfter : (skip : Nat) → Text → List Rune
  | _, [] => []
  | skip + 1, _ :: rest => runesAfter skip rest
  | 0, a :: rest =>
    let (piece, more) := nextRune a rest
    piece :: runesAfter more rest

def runes (t : Text) : List Rune :=
  runesAfter 0 t

/-- Whether every byte belongs to a well-formed sequence. -/
def isUtf8 (t : Text) : Bool :=
  t.runes.all fun
    | .scalar _ => true
    | .stray _ => false

def toString? (t : Text) : Option String :=
  if t.isUtf8 then
    some (String.ofList (t.runes.map fun piece => Char.ofNat piece.codePoint))
  else none

end Text

end HostScript

namespace HostScript.CamelCase

def isUpper (c : Nat) : Bool :=
  65 ≤ c && c ≤ 90

/-- Whether a code point is an ASCII small letter. -/
def isLower (c : Nat) : Bool :=
  97 ≤ c && c ≤ 122

def isDigit (c : Nat) : Bool :=
  48 ≤ c && c ≤ 57

/-- Whether a code point divides words. -/
def isDelimiter (c : Nat) : Bool :=
  [0x2d, 0x5f, 0x20, 0x09, 0x0a, 0x0d].contains c

def isSpace (c : Nat) : Bool :=
  (0x09 ≤ c && c ≤ 0x0d) || (0x2000 ≤ c && c ≤ 0x200a)
    || [0x20, 0x85, 0xa0, 0x1680, 0x2028, 0x2029, 0x202f, 0x205f, 0x3000].contains c

/-- A small letter as a capital. -/
def toUpper (c : Nat) : Nat :=
  if isLower c then c - 32 else c

/-- A capital as a small letter. -/
def toLower (c : Nat) : Nat :=
  if isUpper c then c + 32 else c

/-- What a character becomes between its neighbours; zero stands for no neighbour. -/
def adapt (upper : Bool) (previous current next : Nat) : List Nat :=
  if isDelimiter current then []
  else if isDelimiter previous || (upper && previous = 0) then [toUpper current]
  else if isLower previous then [current]
  else if isUpper previous && isUpper current && isLower next then [current]
  else if isUpper current && isDigit previous then [current]
  else [toLower current]

def adaptFrom (upper : Bool) : (previous current : Nat) → List Nat → List Nat
  | previous, current, [] => adapt upper previous current 0
  | previous, current, next :: rest =>
    if current = 0 then adaptFrom upper 0 next rest
    else adapt upper previous current next ++ adaptFrom upper current next rest

/-- A name in camel case; `upper` says whether it starts with a capital. -/
def ofText (upper : Bool) (name : Text) : Text :=
  let codes := name.runes.map Rune.codePoint
  let trimmed := ((codes.dropWhile isSpace).reverse.dropWhile isSpace).reverse
  match trimmed with
  | [] => []
  | first :: rest => (adaptFrom upper 0 first rest).flatMap Rune.encode

end HostScript.CamelCase
