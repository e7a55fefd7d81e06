import HostScript.Proofs.Machine.Work
import HostScript.Tree.Parser

namespace HostScript.Tree.Grammar

/-!
# The grammar of scripts

Phrases are derived from the front of a token list and leave the rest of it.
-/

/-- The eight levels of binary operators, from the loosest to the tightest. -/
inductive Binds : Nat → Mark → Operator → Prop
  | either : Binds 0 .doubleBar .either
  | both : Binds 1 .doubleAmpersand .both
  | bitOr : Binds 2 .bar .bitOr
  | bitAnd : Binds 3 .ampersand .bitAnd
  | equal : Binds 4 .equal .equal
  | notEqual : Binds 4 .notEqual .notEqual
  | less : Binds 5 .less .less
  | greater : Binds 5 .greater .greater
  | lessEqual : Binds 5 .lessEqual .lessEqual
  | greaterEqual : Binds 5 .greaterEqual .greaterEqual
  | add : Binds 6 .plus .add
  | subtract : Binds 6 .minus .subtract
  | multiply : Binds 7 .star .multiply
  | divide : Binds 7 .slash .divide
  | modulo : Binds 7 .percent .modulo

def levelCount : Nat := 8

/-- A lexeme stands for a literal. -/
inductive Denotes : Lexeme → Literal → Prop
  | integer (value : BitVec 32) : Denotes (.integer value) (.integer value)
  | float (bits : BitVec 32) : Denotes (.float bits) (.float bits)
  | string (value : Text) : Denotes (.string value) (.string value)
  | true : Denotes (.keyword .trueWord) (.boolean true)
  | false : Denotes (.keyword .falseWord) (.boolean false)
  | null : Denotes (.keyword .nullWord) .null

/-- A lexeme can start an operand. -/
inductive OpensOperand : Lexeme → Prop
  | literal {lexeme value} (denotes : Denotes lexeme value) : OpensOperand lexeme
  | name (name : Text) : OpensOperand (.identifier name)
  | leftParen : OpensOperand (.mark .leftParen)
  | minus : OpensOperand (.mark .minus)
  | bang : OpensOperand (.mark .bang)

def Next (holds : Lexeme → Prop) (tokens : List Token) : Prop :=
  ∃ token rest, tokens = token :: rest ∧ holds token.lexeme

/-- A list starts with a name between parentheses. -/
inductive NameInParens : List Token → Prop
  | mk (start nameOffset close : Nat) (name : Text) (rest : List Token) :
      NameInParens (⟨.mark .leftParen, start⟩ :: ⟨.identifier name, nameOffset⟩ ::
        ⟨.mark .rightParen, close⟩ :: rest)

/-- What is derived inside of an expression. -/
inductive Phrase where
  | expression (tree : Expr)
  /-- Operands with operators of a level and tighter ones between them. -/
  | chain (level : Nat) (tree : Expr)
  | operand (tree : Expr)
  /-- A member with index lists after it. -/
  | indexed (tree : Expr)
  /-- A primary with member accesses after it. -/
  | member (tree : Expr)
  | primary (tree : Expr)
  | arguments (trees : List Expr)
  /-- One or more expressions between commas. -/
  | listed (trees : List Expr)

/-- A phrase is derived from a list of tokens up to a rest. -/
inductive Spells : Phrase → List Token → List Token → Prop
  | plain {tree tokens rest} (chain : Spells (.chain 0 tree) tokens rest) :
      Spells (.expression tree) tokens rest
  | conditional {condition yes no question colon tokens second third rest}
      (first : Spells (.chain 0 condition) tokens (⟨.mark .question, question⟩ :: second))
      (branch : Spells (.expression yes) second (⟨.mark .colon, colon⟩ :: third))
      (other : Spells (.expression no) third rest) :
      Spells (.expression (.conditional question condition yes no)) tokens rest
  | tightest {tree tokens rest} (operand : Spells (.operand tree) tokens rest) :
      Spells (.chain levelCount tree) tokens rest
  | tighter {level tree tokens rest} (within : level < levelCount)
      (chain : Spells (.chain (level + 1) tree) tokens rest) :
      Spells (.chain level tree) tokens rest
  | operator {level offset symbol op left right tokens second rest}
      (first : Spells (.chain level left) tokens (⟨.mark symbol, offset⟩ :: second))
      (binds : Binds level symbol op) (last : Spells (.chain (level + 1) right) second rest) :
      Spells (.chain level (.operator offset op left right)) tokens rest
  | negation {offset tree tokens rest} (operand : Spells (.operand tree) tokens rest) :
      Spells (.operand (.unary offset .negate tree)) (⟨.mark .minus, offset⟩ :: tokens) rest
  | complement {offset tree tokens rest} (operand : Spells (.operand tree) tokens rest) :
      Spells (.operand (.unary offset .complement tree)) (⟨.mark .bang, offset⟩ :: tokens) rest
  | cast {start nameOffset close name tree tokens rest}
      (operand : Spells (.operand tree) tokens rest) :
      Spells (.operand (.cast start ⟨name, nameOffset⟩ tree))
        (⟨.mark .leftParen, start⟩ :: ⟨.identifier name, nameOffset⟩ ::
          ⟨.mark .rightParen, close⟩ :: tokens) rest
  | bare {start nameOffset close name rest}
      (ends : ¬Next OpensOperand rest) :
      Spells (.operand (.reference nameOffset name))
        (⟨.mark .leftParen, start⟩ :: ⟨.identifier name, nameOffset⟩ ::
          ⟨.mark .rightParen, close⟩ :: rest) rest
  | access {tree tokens rest} (other : ¬NameInParens tokens)
      (indexed : Spells (.indexed tree) tokens rest) :
      Spells (.operand tree) tokens rest
  | unindexed {tree tokens rest} (member : Spells (.member tree) tokens rest) :
      Spells (.indexed tree) tokens rest
  | index {target indices offset close tokens second rest}
      (first : Spells (.indexed target) tokens (⟨.mark .leftBracket, offset⟩ :: second))
      (listed : Spells (.listed indices) second (⟨.mark .rightBracket, close⟩ :: rest)) :
      Spells (.indexed (.index offset target indices)) tokens rest
  | memberless {tree tokens rest} (primary : Spells (.primary tree) tokens rest) :
      Spells (.member tree) tokens rest
  | property {target offset nameOffset name tokens rest}
      (first : Spells (.member target) tokens
        (⟨.mark .period, offset⟩ :: ⟨.identifier name, nameOffset⟩ :: rest)) :
      Spells (.member (.property offset target ⟨name, nameOffset⟩)) tokens rest
  | lateProperty {target offset nameOffset name tokens rest}
      (first : Spells (.member target) tokens
        (⟨.mark .dollar, offset⟩ :: ⟨.identifier name, nameOffset⟩ :: rest)) :
      Spells (.member (.lateProperty offset target ⟨name, nameOffset⟩)) tokens rest
  | invocation {target offset nameOffset name given tokens second rest}
      (first : Spells (.member target) tokens
        (⟨.mark .period, offset⟩ :: ⟨.identifier name, nameOffset⟩ :: second))
      (arguments : Spells (.arguments given) second rest) :
      Spells (.member (.invocation offset target ⟨name, nameOffset⟩ given)) tokens rest
  | lateInvocation {target offset nameOffset name given tokens second rest}
      (first : Spells (.member target) tokens
        (⟨.mark .dollar, offset⟩ :: ⟨.identifier name, nameOffset⟩ :: second))
      (arguments : Spells (.arguments given) second rest) :
      Spells (.member (.lateInvocation offset target ⟨name, nameOffset⟩ given)) tokens rest
  | literal {lexeme value offset rest} (denotes : Denotes lexeme value) :
      Spells (.primary (.literal offset value)) (⟨lexeme, offset⟩ :: rest) rest
  | name {name offset rest} :
      Spells (.primary (.reference offset name)) (⟨.identifier name, offset⟩ :: rest) rest
  | call {name nameOffset offset given tokens rest}
      (arguments : Spells (.arguments given) (⟨.mark .leftParen, offset⟩ :: tokens) rest) :
      Spells (.primary (.call offset ⟨name, nameOffset⟩ given))
        (⟨.identifier name, nameOffset⟩ :: ⟨.mark .leftParen, offset⟩ :: tokens) rest
  | parenthesized {tree start close tokens rest}
      (inner : Spells (.expression tree) tokens (⟨.mark .rightParen, close⟩ :: rest)) :
      Spells (.primary tree) (⟨.mark .leftParen, start⟩ :: tokens) rest
  | noArguments {start close rest} :
      Spells (.arguments []) (⟨.mark .leftParen, start⟩ :: ⟨.mark .rightParen, close⟩ :: rest) rest
  | someArguments {start close given tokens rest}
      (listed : Spells (.listed given) tokens (⟨.mark .rightParen, close⟩ :: rest)) :
      Spells (.arguments given) (⟨.mark .leftParen, start⟩ :: tokens) rest
  | one {tree tokens rest} (only : Spells (.expression tree) tokens rest) :
      Spells (.listed [tree]) tokens rest
  | more {tree others comma tokens second rest}
      (first : Spells (.expression tree) tokens (⟨.mark .comma, comma⟩ :: second))
      (following : Spells (.listed others) second rest) :
      Spells (.listed (tree :: others)) tokens rest

/-- What is derived outside of expressions. -/
inductive Passage where
  | statement (tree : Statement)
  | block (tree : Block)
  | statements (trees : List Statement)

/-- A passage is derived from a list of tokens up to a rest. -/
inductive Says : Passage → List Token → List Token → Prop
  | ifThen {offset start close condition yes tokens second rest}
      (decides : Spells (.expression condition) tokens (⟨.mark .rightParen, close⟩ :: second))
      (branch : Says (.block yes) second rest) (ends : ¬Next (· = .keyword .elseWord) rest) :
      Says (.statement (.ifThen offset condition yes))
        (⟨.keyword .ifWord, offset⟩ :: ⟨.mark .leftParen, start⟩ :: tokens) rest
  | ifElse {offset start close elseOffset condition yes no tokens second third rest}
      (decides : Spells (.expression condition) tokens (⟨.mark .rightParen, close⟩ :: second))
      (branch : Says (.block yes) second (⟨.keyword .elseWord, elseOffset⟩ :: third))
      (other : Says (.block no) third rest) :
      Says (.statement (.ifElse offset condition yes no))
        (⟨.keyword .ifWord, offset⟩ :: ⟨.mark .leftParen, start⟩ :: tokens) rest
  | whileLoop {offset start close condition body tokens second rest}
      (decides : Spells (.expression condition) tokens (⟨.mark .rightParen, close⟩ :: second))
      (repeated : Says (.block body) second rest) :
      Says (.statement (.whileLoop offset condition body))
        (⟨.keyword .whileWord, offset⟩ :: ⟨.mark .leftParen, start⟩ :: tokens) rest
  | breakLoop {offset close rest} :
      Says (.statement (.breakLoop offset))
        (⟨.keyword .breakWord, offset⟩ :: ⟨.mark .semicolon, close⟩ :: rest) rest
  | continueLoop {offset close rest} :
      Says (.statement (.continueLoop offset))
        (⟨.keyword .continueWord, offset⟩ :: ⟨.mark .semicolon, close⟩ :: rest) rest
  | leave {offset close rest} :
      Says (.statement (.leave offset))
        (⟨.keyword .returnWord, offset⟩ :: ⟨.mark .semicolon, close⟩ :: rest) rest
  | declaration {offset typeOffset nameOffset close type name value tokens rest}
      (given : Spells (.expression value) tokens (⟨.mark .semicolon, close⟩ :: rest)) :
      Says (.statement (.declaration offset ⟨type, typeOffset⟩ ⟨name, nameOffset⟩ value))
        (⟨.identifier type, typeOffset⟩ :: ⟨.identifier name, nameOffset⟩ ::
          ⟨.mark .assign, offset⟩ :: tokens) rest
  | persistent {offset typeOffset nameOffset close type name rest} :
      Says (.statement (.persistent offset ⟨type, typeOffset⟩ ⟨name, nameOffset⟩))
        (⟨.identifier type, typeOffset⟩ :: ⟨.mark .bang, offset⟩ ::
          ⟨.identifier name, nameOffset⟩ :: ⟨.mark .semicolon, close⟩ :: rest) rest
  | assignment {offset close target value tokens second rest}
      (place : Spells (.indexed target) tokens (⟨.mark .assign, offset⟩ :: second))
      (isAssignable : target.isAssignable = true)
      (given : Spells (.expression value) second (⟨.mark .semicolon, close⟩ :: rest)) :
      Says (.statement (.assignment offset target value)) tokens rest
  | call {offset close name given tokens rest}
      (called : Spells (.indexed (.call offset name given)) tokens
        (⟨.mark .semicolon, close⟩ :: rest)) :
      Says (.statement (.callStatement offset (.call offset name given))) tokens rest
  | invocation {offset close target name given tokens rest}
      (called : Spells (.indexed (.invocation offset target name given)) tokens
        (⟨.mark .semicolon, close⟩ :: rest)) :
      Says (.statement (.invocationStatement offset (.invocation offset target name given)))
        tokens rest
  | lateInvocation {offset close target name given tokens rest}
      (called : Spells (.indexed (.lateInvocation offset target name given)) tokens
        (⟨.mark .semicolon, close⟩ :: rest)) :
      Says (.statement (.invocationStatement offset (.lateInvocation offset target name given)))
        tokens rest
  | braces {start close body tokens rest}
      (inner : Says (.statements body) tokens (⟨.mark .rightBrace, close⟩ :: rest)) :
      Says (.block (.mk start body)) (⟨.mark .leftBrace, start⟩ :: tokens) rest
  | single {only first tokens rest} (statement : Says (.statement only) (first :: tokens) rest) :
      Says (.block (.mk first.offset [only])) (first :: tokens) rest
  | done {rest} : Says (.statements []) rest rest
  | further {first others tokens second rest} (statement : Says (.statement first) tokens second)
      (following : Says (.statements others) second rest) :
      Says (.statements (first :: others)) tokens rest

/-- A list of tokens is a program: statements up to the end of input. -/
def IsProgram (tokens : List Token) (tree : Block) : Prop :=
  ∃ body offset, Says (.statements body) tokens [⟨.endOfInput, offset⟩] ∧ tree = .mk 0 body

theorem Spells.length_lt (spells : Spells phrase ts rest) : rest.length < ts.length := by
  induction spells <;> grind

end HostScript.Tree.Grammar

namespace HostScript.Tree

open Grammar

/-!
# The tokens in front of a reader

How the tests that the parser makes on the tokens in front of it agree with the grammar.
-/

variable {level : Nat}

theorem Grammar.Binds.lt (binds : Binds level sym op) : level < levelCount := by
  cases binds <;> decide

namespace Parser

/-! The table of operators and the classes of lexemes agree with the grammar. -/

variable {lex : Lexeme}

theorem operatorAt?_eq_some :
    operatorAt? level lex = some op ↔ ∃ sym, lex = .mark sym ∧ Binds level sym op := by
  constructor
  · intro found
    cases lex with
    | mark sym =>
      refine ⟨sym, rfl, ?_⟩
      match level with
      | 0 | 1 | 2 | 3 | 4 | 5 | 6 | 7 =>
        cases sym <;> cases found <;> constructor
      | _ + 8 => cases found
    | _ => cases found
  · rintro ⟨sym, rfl, binds⟩
    cases binds <;> rfl

theorem literal?_eq_some : literal? lex = some val ↔ Denotes lex val := by
  constructor
  · intro found
    cases lex with
    | integer | float | string =>
      cases found
      constructor
    | keyword word => cases word <;> cases found <;> constructor
    | _ => cases found
  · intro denotes
    cases denotes <;> rfl

theorem startsUnary_kind {lex} : startsUnary lex.kind ↔ OpensOperand lex := by
  constructor
  · intro starts
    cases lex with
    | identifier name => exact .name name
    | integer val => exact .literal (.integer val)
    | float bits => exact .literal (.float bits)
    | string val => exact .literal (.string val)
    | keyword word =>
      cases word with
      | trueWord => exact .literal .true
      | falseWord => exact .literal .false
      | nullWord => exact .literal .null
      | _ => cases starts
    | mark sym =>
      cases sym with
      | leftParen => exact .leftParen
      | minus => exact .minus
      | bang => exact .bang
      | _ => cases starts
    | endOfInput | illegal => cases starts
  · intro opens
    cases opens with
    | literal denotes => cases denotes <;> rfl
    | _ => rfl

theorem kind_eq_mark {sym} : lex.kind = .mark sym ↔ lex = .mark sym := by
  cases lex <;> simp [Lexeme.kind]

theorem kind_eq_keyword {word} : lex.kind = .keyword word ↔ lex = .keyword word := by
  cases lex <;> simp [Lexeme.kind]

theorem kind_eq_identifier {lex : Lexeme} :
    lex.kind = .identifier ↔ ∃ name, lex = .identifier name := by
  cases lex <;> simp [Lexeme.kind]

theorem eq_cons_of_current (front : (current ts).lexeme = lex) (notEnd : lex ≠ .endOfInput) :
    ts = ⟨lex, (current ts).offset⟩ :: ts.drop 1 := by
  cases ts with
  | nil => exact absurd front.symm notEnd
  | cons _ _ =>
    cases front
    rfl

theorem ahead_zero : ahead 0 ts = (current ts).lexeme.kind := by
  cases ts <;> rfl

theorem ahead_eq_mark : ahead 0 ts = .mark sym ↔ (current ts).lexeme = .mark sym := by
  rw [ahead_zero, kind_eq_mark]

theorem next_iff (notEnd : ¬holds .endOfInput) : Next holds ts ↔ holds (current ts).lexeme := by
  cases ts with
  | nil => exact ⟨nofun, fun atEnd => absurd atEnd notEnd⟩
  | cons first others =>
    constructor
    · rintro ⟨_, _, ⟨⟩, known⟩
      exact known
    · exact fun known => ⟨first, others, rfl, known⟩

theorem nameInParens_iff (front : (current ts).lexeme = .mark .leftParen) :
    NameInParens ts ↔ ahead 1 ts = .identifier ∧ ahead 2 ts = .mark .rightParen := by
  constructor
  · rintro ⟨⟩
    exact ⟨rfl, rfl⟩
  · rintro ⟨second, third⟩
    match ts with
    | [] => cases second
    | [_] => cases second
    | [_, _] => cases third
    | ⟨first, _⟩ :: ⟨name, _⟩ :: ⟨last, _⟩ :: others =>
      cases front
      obtain ⟨name, rfl⟩ := kind_eq_identifier.mp second
      cases kind_eq_mark.mp third
      exact .mk _ _ _ _ _

end Parser

end HostScript.Tree
