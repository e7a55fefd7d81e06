import HostScript.Text.Rune

/-!
# Reading JSON

Reads a text that is one JSON value with blanks around it.
-/

namespace HostScript.Json

/-- A JSON value. -/
inductive Item where
  | null
  | bool (value : Bool)
  | number (literal : Text)
  | string (content : Text)
  | array (items : List Item)
  | object (members : List (Text × Item))

/-- How deep values may stand inside others. -/
def depthLimit : Nat :=
  10000

def isBlank (b : UInt8) : Bool :=
  b == Text.byte ' ' || b == Text.byte '\t' || b == Text.byte '\n' || b == Text.byte '\r'

def skipBlanks (t : Text) : Text :=
  t.dropWhile isBlank

def isDigit (b : UInt8) : Bool :=
  Text.byte '0' ≤ b && b ≤ Text.byte '9'

def digits? (t : Text) : Option (Text × Text) :=
  let run := t.takeWhile isDigit
  if run.isEmpty then none else some (run, t.dropWhile isDigit)

def fraction? (t : Text) : Option (Text × Text) :=
  match t with
  | 46 :: rest => (digits? rest).map fun (run, after) => (46 :: run, after)
  | _ => some ([], t)

def exponent? (t : Text) : Option (Text × Text) :=
  match t with
  | first :: rest =>
    if Text.lowerByte first = Text.byte 'e' then
      match rest with
      | sign :: digits =>
        if sign = Text.byte '+' ∨ sign = Text.byte '-' then
          (digits? digits).map fun (run, after) => (first :: sign :: run, after)
        else (digits? rest).map fun (run, after) => (first :: run, after)
      | [] => none
    else some ([], t)
  | [] => some ([], [])

/-- A number without sign, and what follows it; only zero starts with a zero. -/
def unsigned? (t : Text) : Option (Text × Text) := do
  let (whole, afterWhole) ←
    match t with
    | 48 :: rest => some ([48], rest)
    | _ => digits? t
  let (fraction, afterFraction) ← fraction? afterWhole
  let (exponent, rest) ← exponent? afterFraction
  return (whole ++ fraction ++ exponent, rest)

def number? (t : Text) : Option (Text × Text) :=
  match t with
  | 45 :: rest => (unsigned? rest).map fun (literal, after) => (45 :: literal, after)
  | _ => unsigned? t

def isShortEscape (b : UInt8) : Bool :=
  (Text.ofString "\"\\/bfnrt").contains b

def written? : Text → Option (Text × Text)
  | [] => none
  | 34 :: rest => some ([], rest)
  | 92 :: 117 :: a :: b :: c :: d :: rest =>
    if [a, b, c, d].all fun digit => (Text.hexValue? digit).isSome then
      (written? rest).map fun (content, after) =>
        (92 :: 117 :: a :: b :: c :: d :: content, after)
    else none
  | 92 :: escape :: rest =>
    if isShortEscape escape then
      (written? rest).map fun (content, after) => (92 :: escape :: content, after)
    else none
  | b :: rest =>
    if b < 0x20 || b = 92 then none
    else (written? rest).map fun (content, after) => (b :: content, after)

/-- The number that four base sixteen digits write. -/
def unit (a b c d : UInt8) : Nat :=
  [a, b, c, d].foldl (fun value digit => value * 16 + (Text.hexValue? digit).getD 0) 0

def shortEscape (b : UInt8) : UInt8 :=
  if b = Text.byte 'b' then 8
  else if b = Text.byte 'f' then 12
  else if b = Text.byte 'n' then 10
  else if b = Text.byte 'r' then 13
  else if b = Text.byte 't' then 9
  else b

def isHalf (isFirst : Bool) (value : Nat) : Bool :=
  if isFirst then 0xd800 ≤ value && value < 0xdc00 else 0xdc00 ≤ value && value < 0xe000

def decodeUnit (value : Nat) (next? : Option Nat) : Text × Bool :=
  match next? with
  | some next =>
    if isHalf true value && isHalf false next then
      (Rune.encode (0x10000 + (value - 0xd800) * 1024 + (next - 0xdc00)), true)
    else (Rune.encode (if isHalf true value || isHalf false value then 0xfffd else value), false)
  | none =>
    (Rune.encode (if isHalf true value || isHalf false value then 0xfffd else value), false)

def resolve : Text → Text
  | 92 :: 117 :: a :: b :: c :: d :: 92 :: 117 :: e :: f :: g :: h :: rest =>
    match decodeUnit (unit a b c d) (some (unit e f g h)) with
    | (content, true) => content ++ resolve rest
    | (content, false) => content ++ resolve (92 :: 117 :: e :: f :: g :: h :: rest)
  | 92 :: 117 :: a :: b :: c :: d :: rest =>
    (decodeUnit (unit a b c d) none).1 ++ resolve rest
  | 92 :: escape :: rest => shortEscape escape :: resolve rest
  | b :: rest => b :: resolve rest
  | [] => []

def content (raw : Text) : Text :=
  (resolve raw).runes.flatMap fun rune => Rune.encode rune.codePoint

def string? (t : Text) : Option (Text × Text) :=
  (written? t).map fun (raw, rest) => (content raw, rest)

def word? (word t : Text) : Option Text :=
  if word.isPrefixOf t then some (t.drop word.length) else none

mutual

def value? : (steps depth : Nat) → Text → Option (Item × Text)
  | 0, _, _ => none
  | steps + 1, depth, t =>
    match skipBlanks t with
    | 34 :: rest => (string? rest).map fun (content, after) => (.string content, after)
    | 91 :: rest =>
      match depth, skipBlanks rest with
      | 0, _ => none
      | _, 93 :: after => some (.array [], after)
      | depth + 1, inner =>
        (items? steps depth inner).map fun (items, after) => (.array items, after)
    | 123 :: rest =>
      match depth, skipBlanks rest with
      | 0, _ => none
      | _, 125 :: after => some (.object [], after)
      | depth + 1, inner =>
        (members? steps depth inner).map fun (members, after) => (.object members, after)
    | 110 :: rest => (word? "ull" rest).map fun after => (.null, after)
    | 116 :: rest => (word? "rue" rest).map fun after => (.bool true, after)
    | 102 :: rest => (word? "alse" rest).map fun after => (.bool false, after)
    | rest => (number? rest).map fun (literal, after) => (.number literal, after)

def items? : (steps depth : Nat) → Text → Option (List Item × Text)
  | 0, _, _ => none
  | steps + 1, depth, t => do
    let (first, after) ← value? steps depth t
    match skipBlanks after with
    | 44 :: rest =>
      let (items, after) ← items? steps depth rest
      return (first :: items, after)
    | 93 :: rest => return ([first], rest)
    | _ => none

def members? : (steps depth : Nat) → Text → Option (List (Text × Item) × Text)
  | 0, _, _ => none
  | steps + 1, depth, t =>
    match skipBlanks t with
    | 34 :: rest => do
      let (name, afterName) ← string? rest
      match skipBlanks afterName with
      | 58 :: rest =>
        let (first, after) ← value? steps depth rest
        match skipBlanks after with
        | 44 :: rest =>
          let (members, after) ← members? steps depth rest
          return ((name, first) :: members, after)
        | 125 :: rest => return ([(name, first)], rest)
        | _ => none
      | _ => none
    | _ => none

end

def read? (t : Text) : Option Item :=
  match value? (t.length + 1) depthLimit t with
  | some (item, rest) => if (skipBlanks rest).isEmpty then some item else none
  | none => none

/-! Strings between quotes. -/

def isPlain (b : UInt8) : Bool :=
  0x20 ≤ b && b ≤ 0x7f && b != Text.byte '"' && b != Text.byte '\\'

/-- An escape by four digits. -/
def numbered (codePoint : Nat) : Text :=
  "\\u" ++ Text.hex 4 codePoint

/-- A character of a string that is not plain as a whole. -/
def escaped (rune : Rune) : Text :=
  match rune with
  | .stray _ => (Rune.encode 0xfffd)
  | .scalar codePoint =>
    if codePoint = 0x22 then "\\\""
    else if codePoint = 0x5c then "\\\\"
    else if codePoint = 0x08 then "\\b"
    else if codePoint = 0x0c then "\\f"
    else if codePoint = 0x0a then "\\n"
    else if codePoint = 0x0d then "\\r"
    else if codePoint = 0x09 then "\\t"
    else if codePoint < 0x20 || codePoint = 0x3c || codePoint = 0x3e || codePoint = 0x26
        || codePoint = 0x2028 || codePoint = 0x2029 then numbered codePoint
    else Rune.encode codePoint

def quoted (t : Text) : Text :=
  let content := if t.all isPlain then t else t.runes.flatMap escaped
  Text.byte '"' :: (content ++ [Text.byte '"'])

end HostScript.Json
