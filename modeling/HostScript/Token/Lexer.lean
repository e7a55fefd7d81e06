import HostScript.Token.Basic

/-!
# Lexer

The lexer reads one token at a time from a cursor into the source.
-/

namespace HostScript

def isLetter (b : UInt8) : Bool :=
  (Text.byte 'a' ≤ b && b ≤ Text.byte 'z') || (Text.byte 'A' ≤ b && b ≤ Text.byte 'Z')

def isDigit (b : UInt8) : Bool :=
  Text.byte '0' ≤ b && b ≤ Text.byte '9'

def isNameByte (b : UInt8) : Bool :=
  isLetter b || isDigit b

/-- Space, tab, line feed, vertical tab, form feed and carriage return. -/
def isBlank (b : UInt8) : Bool :=
  b == 32 || (9 ≤ b && b ≤ 13)

def Text.isIdentifier : Text → Bool
  | [] => false
  | first :: rest =>
    isLetter first && rest.all isNameByte && (Keyword.ofText? (first :: rest)).isNone

namespace Lexer

/-- A place in a source: its offset and the bytes from there on. -/
structure Cursor where
  offset : Nat
  rest : Text
  deriving Repr, DecidableEq

def Cursor.start (source : Text) : Cursor :=
  { offset := 0, rest := source }

def Cursor.skip (cursor : Cursor) (count : Nat) : Cursor :=
  { offset := cursor.offset + count, rest := cursor.rest.drop count }

/-- Skips blanks and comments; inside a comment everything up to the line feed counts. -/
def skipBlanks : (comment : Bool) → (offset : Nat) → Text → Cursor
  | _, offset, [] => { offset, rest := [] }
  | true, offset, b :: rest => skipBlanks (b != 10) (offset + 1) rest
  | false, offset, b :: rest =>
    if isBlank b then skipBlanks false (offset + 1) rest
    else if b == Text.byte '/' && rest.head? == some (Text.byte '/') then
      skipBlanks true (offset + 1) rest
    else { offset, rest := b :: rest }

def digitsValue (digits : Text) : Nat :=
  digits.foldl (fun value digit => value * 10 + (digit.toNat - 48)) 0

def spoilsNumber : Option UInt8 → Bool
  | some b => b == Text.byte '.' || isLetter b
  | none => false

def wordLexeme (word : Text) : Lexeme :=
  match Keyword.ofText? word with
  | some keyword => .keyword keyword
  | none => .identifier word

def integerLexeme (digits : Text) : Lexeme :=
  let value := digitsValue digits
  if value < Nat.pow 2 31 then .integer (BitVec.ofNat 32 value) else .illegal .integerOverflow

def floatLexeme (whole fraction : Text) : Lexeme :=
  match Binary.single.ofDecimal? (digitsValue (whole ++ fraction)) fraction.length with
  | some bits => .float (BitVec.ofNat 32 bits)
  | none => .illegal .malformedFloat

def number (source : Text) : Lexeme × Nat :=
  let whole := source.takeWhile isDigit
  match source.dropWhile isDigit with
  | [] => (integerLexeme whole, whole.length)
  | next :: after =>
    if next == Text.byte '.' then
      let fraction := after.takeWhile isDigit
      let length := whole.length + 1 + fraction.length
      if spoilsNumber (after.dropWhile isDigit).head? then (.illegal .malformedNumber, length)
      else (floatLexeme whole fraction, length)
    else if isLetter next then (.illegal .malformedNumber, whole.length)
    else (integerLexeme whole, whole.length)

/-- The byte a backslash sequence stands for. -/
def unescape (b : UInt8) : UInt8 :=
  if b == Text.byte 'n' then 10 else b

def string? : Text → Option (Text × Nat)
  | [] => none
  | b :: rest =>
    if b == Text.byte '"' then some ([], 1)
    else if b == Text.byte '\\' then
      match rest with
      | [] => none
      | escaped :: after =>
        (string? after).map fun (value, length) => (unescape escaped :: value, length + 2)
    else (string? rest).map fun (value, length) => (b :: value, length + 1)

def lonelyMark? (b : UInt8) : Option Mark :=
  [Mark.semicolon, .comma, .leftParen, .rightParen, .leftBrace, .rightBrace, .leftBracket,
    .rightBracket, .period, .dollar, .question, .colon, .plus, .minus, .star, .slash,
    .percent].find? fun mark => mark.spelling == [b]

/-- Marks that have a two-byte relative: the first byte, the second, the pair and the single. -/
def pairedMarks : List (Char × Char × Mark × Mark) :=
  [('=', '=', .equal, .assign), ('!', '=', .notEqual, .bang),
    ('<', '=', .lessEqual, .less), ('>', '=', .greaterEqual, .greater),
    ('|', '|', .doubleBar, .bar), ('&', '&', .doubleAmpersand, .ampersand)]

def mark? (first : UInt8) (next : Option UInt8) : Option (Mark × Nat) :=
  match pairedMarks.find? fun entry => Text.byte entry.1 == first with
  | some (_, second, pair, lone) =>
    if next == some (Text.byte second) then some (pair, 2) else some (lone, 1)
  | none => (lonelyMark? first).map fun mark => (mark, 1)

def lexeme (first : UInt8) (rest : Text) : Lexeme × Nat :=
  if isLetter first then
    let word := (first :: rest).takeWhile isNameByte
    (wordLexeme word, word.length)
  else if isDigit first then number (first :: rest)
  else if first == Text.byte '"' then
    match string? rest with
    | some (value, length) => (.string value, length + 1)
    | none => (.illegal .unterminatedString, rest.length + 1)
  else
    match mark? first rest.head? with
    | some (mark, length) => (.mark mark, length)
    | none => (.illegal (.unexpectedCharacter first), 1)

def next (cursor : Cursor) : Token × Cursor :=
  let start := skipBlanks false cursor.offset cursor.rest
  match start.rest with
  | [] => ({ lexeme := .endOfInput, offset := start.offset }, start)
  | first :: rest =>
    let (lexeme, length) := lexeme first rest
    ({ lexeme, offset := start.offset }, start.skip length)

def stream : (steps : Nat) → Cursor → List Token
  | 0, cursor => [(next cursor).1]
  | steps + 1, cursor =>
    let (token, after) := next cursor
    if token.lexeme = .endOfInput then [token] else token :: stream steps after

def legalStream : (steps : Nat) → Cursor → List Token
  | 0, cursor => [(next cursor).1]
  | steps + 1, cursor =>
    let (token, after) := next cursor
    match token.lexeme with
    | .endOfInput => [token]
    | .illegal _ => [token]
    | _ => token :: legalStream steps after

def tokens (source : Text) : List Token :=
  legalStream source.length (.start source)

def tokenize (source : Text) : List Token × Option (Nat × LexicalFault) :=
  let all := tokens source
  match all.getLast? with
  | some { lexeme := .illegal fault, offset } => (all.dropLast, some (offset, fault))
  | _ => (all, none)

end Lexer

/-- One-based line and column of a byte offset; an offset past the end counts as the end. -/
def Text.position (source : Text) (offset : Int) : Nat × Int :=
  let clamped := min offset source.length
  let before := source.take clamped.toNat
  let line := before.count 10 + 1
  let lastLine := before.reverse.takeWhile (· != 10)
  let breakOffset : Int := (before.length : Int) - lastLine.length - 1
  (line, clamped - breakOffset)

end HostScript
