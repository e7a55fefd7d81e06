import HostScript.Text.Printable
import HostScript.Number.Binary

/-!
# Tokens

A token is a lexeme with the offset of its first byte.
-/

namespace HostScript

/-- Reserved words. -/
inductive Keyword where
  | breakWord | continueWord | ifWord | elseWord | falseWord | nullWord | returnWord
  | trueWord | whileWord
  deriving Repr, DecidableEq

/-- Operators and punctuation. -/
inductive Mark where
  | assign | equal | bang | notEqual | bar | doubleBar | ampersand | doubleAmpersand
  | less | lessEqual | greater | greaterEqual | period | dollar | question | colon
  | leftBracket | rightBracket | leftParen | rightParen | leftBrace | rightBrace
  | comma | semicolon | plus | minus | star | slash | percent
  deriving Repr, DecidableEq

/-- Why a piece of source is no lexeme. -/
inductive LexicalFault where
  | unexpectedCharacter (byte : UInt8)
  | malformedNumber
  | malformedFloat
  | integerOverflow
  | unterminatedString
  deriving Repr, DecidableEq

/-- The classes of lexemes. -/
inductive LexemeKind where
  | endOfInput | illegal | identifier | integer | float | string
  | keyword (word : Keyword)
  | mark (symbol : Mark)
  deriving Repr, DecidableEq

/-- A lexeme with its value. -/
inductive Lexeme where
  | endOfInput
  | illegal (fault : LexicalFault)
  | identifier (name : Text)
  | integer (value : BitVec 32)
  | float (bits : BitVec 32)
  | string (value : Text)
  | keyword (word : Keyword)
  | mark (symbol : Mark)
  deriving Repr, DecidableEq

/-- A lexeme at the offset of its first byte. -/
structure Token where
  lexeme : Lexeme
  offset : Nat
  deriving Repr, DecidableEq

def Keyword.all : List Keyword :=
  [.breakWord, .continueWord, .ifWord, .elseWord, .falseWord, .nullWord, .returnWord,
    .trueWord, .whileWord]

def Keyword.spelling : Keyword → Text
  | .breakWord => "break"
  | .continueWord => "continue"
  | .ifWord => "if"
  | .elseWord => "else"
  | .falseWord => "false"
  | .nullWord => "null"
  | .returnWord => "return"
  | .trueWord => "true"
  | .whileWord => "while"

/-- The reserved word with this spelling. -/
def Keyword.ofText? (t : Text) : Option Keyword :=
  Keyword.all.find? fun word => word.spelling == t

def Mark.all : List Mark :=
  [.assign, .equal, .bang, .notEqual, .bar, .doubleBar, .ampersand, .doubleAmpersand,
    .less, .lessEqual, .greater, .greaterEqual, .period, .dollar, .question, .colon,
    .leftBracket, .rightBracket, .leftParen, .rightParen, .leftBrace, .rightBrace,
    .comma, .semicolon, .plus, .minus, .star, .slash, .percent]

def Mark.spelling : Mark → Text
  | .assign => "="
  | .equal => "=="
  | .bang => "!"
  | .notEqual => "!="
  | .bar => "|"
  | .doubleBar => "||"
  | .ampersand => "&"
  | .doubleAmpersand => "&&"
  | .less => "<"
  | .lessEqual => "<="
  | .greater => ">"
  | .greaterEqual => ">="
  | .period => "."
  | .dollar => "$"
  | .question => "?"
  | .colon => ":"
  | .leftBracket => "["
  | .rightBracket => "]"
  | .leftParen => "("
  | .rightParen => ")"
  | .leftBrace => "\x7b"
  | .rightBrace => "\x7d"
  | .comma => ","
  | .semicolon => ";"
  | .plus => "+"
  | .minus => "-"
  | .star => "*"
  | .slash => "/"
  | .percent => "%"

namespace LexemeKind

/-- All classes, in the order of their numbers. -/
def all : List LexemeKind :=
  [.endOfInput, .illegal, .identifier, .integer, .float, .string]
    ++ Keyword.all.map .keyword ++ Mark.all.map .mark

/-- The name of a class in messages. -/
def text : LexemeKind → Text
  | .endOfInput => "end of input"
  | .illegal => "illegal token"
  | .identifier => "identifier"
  | .integer => "integer"
  | .float => "float"
  | .string => "string"
  | .keyword reserved => Text.inQuotes reserved.spelling
  | .mark symbol => Text.inQuotes symbol.spelling

def numberedText (number : Nat) : Text :=
  match all[number]? with
  | some kind => kind.text
  | none => Text.join ["token(", Text.decimal number, ")"]

end LexemeKind

def LexicalFault.text : LexicalFault → Text
  | .unexpectedCharacter b => "unexpected character " ++ Text.quotedCharacter b.toNat
  | .malformedNumber => "malformed numeric literal"
  | .malformedFloat => "malformed float literal"
  | .integerOverflow => "integer overflow in constant"
  | .unterminatedString => "unterminated string"

namespace Lexeme

def kind : Lexeme → LexemeKind
  | .endOfInput => .endOfInput
  | .illegal _ => .illegal
  | .identifier _ => .identifier
  | .integer _ => .integer
  | .float _ => .float
  | .string _ => .string
  | .keyword reserved => .keyword reserved
  | .mark symbol => .mark symbol

def text : Lexeme → Text
  | .identifier name => "identifier " ++ name
  | .integer value => "integer " ++ Text.integer value.toInt
  | .float bits => "float " ++ Binary.single.text Binary.general bits.toNat
  | .string value => "string " ++ value.quoted
  | .illegal fault => Text.join ["illegal token (", fault.text, ")"]
  | lexeme => lexeme.kind.text

end Lexeme

end HostScript
