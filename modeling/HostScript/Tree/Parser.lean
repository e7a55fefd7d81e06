import HostScript.Tree.Basic
import HostScript.Token.Lexer
import HostScript.Failure

/-!
# Parser

A recursive descent reader of token lists.  It looks at most two tokens ahead.
-/

namespace HostScript

/-- Why a source is no program. -/
inductive ReadFault where
  | lexical (offset : Nat) (fault : LexicalFault)
  | expected (kind : LexemeKind) (found : Token)
  | unexpected (found : Token)
  | notAssignable (offset : Nat)
  deriving Repr, DecidableEq

namespace ReadFault

def stage : ReadFault → Stage
  | .lexical _ _ => .lexical
  | _ => .syntactic

def offset : ReadFault → Nat
  | .lexical offset _ => offset
  | .expected _ found => found.offset
  | .unexpected found => found.offset
  | .notAssignable offset => offset

def text : ReadFault → Text
  | .lexical _ fault => fault.text
  | .expected kind found => Text.join ["expected ", kind.text, ", found ", found.lexeme.text]
  | .unexpected found => "unexpected " ++ found.lexeme.text
  | .notAssignable _ => "left side of assignment is not assignable"

end ReadFault

namespace Tree

/-- A reader of a token list. -/
abbrev Reader (α : Type) := List Token → Except ReadFault (α × List Token)

namespace Parser

/-- The token at the front; past the end there is only the end of input. -/
def current : List Token → Token
  | token :: _ => token
  | [] => { lexeme := .endOfInput, offset := 0 }

def ahead (distance : Nat) (tokens : List Token) : LexemeKind :=
  match tokens[distance]? with
  | some token => token.lexeme.kind
  | none => .endOfInput

def arrive (value : α) (tokens : List Token) : Except ReadFault (α × List Token) :=
  match current tokens with
  | { lexeme := .illegal fault, offset } => .error (.lexical offset fault)
  | _ => .ok (value, tokens)

def advance : Reader Unit := fun tokens =>
  arrive () (tokens.drop 1)

def refuse : Reader α := fun tokens =>
  .error (.unexpected (current tokens))

def expect (kind : LexemeKind) : Reader Nat := fun tokens =>
  let token := current tokens
  if token.lexeme.kind = kind then
    arrive token.offset (tokens.drop 1)
  else .error (.expected kind token)

def identifier : Reader Ident := fun tokens =>
  match current tokens with
  | { lexeme := .identifier name, offset } => arrive { name, offset } (tokens.drop 1)
  | token => .error (.expected .identifier token)

def terminated (statement : Statement) : Reader Statement := fun tokens => do
  let (_, tokens) ← expect (.mark .semicolon) tokens
  return (statement, tokens)

def levels : List (List (Mark × Operator)) :=
  [[(.doubleBar, .either)],
    [(.doubleAmpersand, .both)],
    [(.bar, .bitOr)],
    [(.ampersand, .bitAnd)],
    [(.equal, .equal), (.notEqual, .notEqual)],
    [(.less, .less), (.greater, .greater), (.lessEqual, .lessEqual),
      (.greaterEqual, .greaterEqual)],
    [(.plus, .add), (.minus, .subtract)],
    [(.star, .multiply), (.slash, .divide), (.percent, .modulo)]]

def operatorAt? (level : Nat) : Lexeme → Option Operator
  | .mark symbol => (levels[level]?.getD []).lookup symbol
  | _ => none

def startsUnary : LexemeKind → Bool
  | .identifier | .integer | .float | .string => true
  | .keyword .trueWord | .keyword .falseWord | .keyword .nullWord => true
  | .mark .leftParen | .mark .minus | .mark .bang => true
  | _ => false

def literal? : Lexeme → Option Literal
  | .integer value => some (.integer value)
  | .float bits => some (.float bits)
  | .string value => some (.string value)
  | .keyword .trueWord => some (.boolean true)
  | .keyword .falseWord => some (.boolean false)
  | .keyword .nullWord => some .null
  | _ => none

mutual

def expression : (calls : Nat) → Reader Expr
  | 0, tokens => refuse tokens
  | calls + 1, tokens => do
    let (condition, tokens) ← binary calls 0 tokens
    let token := current tokens
    if token.lexeme = .mark .question then
      let (_, tokens) ← advance tokens
      let (yes, tokens) ← expression calls tokens
      let (_, tokens) ← expect (.mark .colon) tokens
      let (no, tokens) ← expression calls tokens
      return (.conditional token.offset condition yes no, tokens)
    else return (condition, tokens)

def binary : (calls : Nat) → (level : Nat) → Reader Expr
  | 0, _, tokens => refuse tokens
  | calls + 1, level, tokens => do
    if level < levels.length then
      let (left, tokens) ← binary calls (level + 1) tokens
      binaryRest calls level left tokens
    else unary calls tokens

def binaryRest : (calls : Nat) → (level : Nat) → (left : Expr) → Reader Expr
  | 0, _, _, tokens => refuse tokens
  | calls + 1, level, left, tokens => do
    let token := current tokens
    match operatorAt? level token.lexeme with
    | none => return (left, tokens)
    | some op =>
      let (_, tokens) ← advance tokens
      let (right, tokens) ← binary calls (level + 1) tokens
      binaryRest calls level (.operator token.offset op left right) tokens

def unary : (calls : Nat) → Reader Expr
  | 0, tokens => refuse tokens
  | calls + 1, tokens => do
    let token := current tokens
    match token.lexeme with
    | .mark .minus =>
      let (_, tokens) ← advance tokens
      let (operand, tokens) ← unary calls tokens
      return (.unary token.offset .negate operand, tokens)
    | .mark .bang =>
      let (_, tokens) ← advance tokens
      let (operand, tokens) ← unary calls tokens
      return (.unary token.offset .complement operand, tokens)
    | .mark .leftParen =>
      if ahead 1 tokens = .identifier ∧ ahead 2 tokens = .mark .rightParen then
        let (_, tokens) ← advance tokens
        let (name, tokens) ← identifier tokens
        let (_, tokens) ← advance tokens
        if startsUnary (ahead 0 tokens) then
          let (operand, tokens) ← unary calls tokens
          return (.cast token.offset name operand, tokens)
        else return (.reference name.offset name.name, tokens)
      else postfixChain calls tokens
    | _ => postfixChain calls tokens

def postfixChain : (calls : Nat) → Reader Expr
  | 0, tokens => refuse tokens
  | calls + 1, tokens => do
    let (base, tokens) ← primary calls tokens
    let (target, tokens) ← members calls base tokens
    indexLists calls target tokens

def members : (calls : Nat) → (target : Expr) → Reader Expr
  | 0, _, tokens => refuse tokens
  | calls + 1, target, tokens => do
    let token := current tokens
    if token.lexeme = .mark .period ∨ token.lexeme = .mark .dollar then
      let (_, tokens) ← advance tokens
      let (name, tokens) ← identifier tokens
      let late : Bool := token.lexeme = .mark .dollar
      if ahead 0 tokens = .mark .leftParen then
        let (arguments, tokens) ← arguments calls tokens
        let next :=
          if late then Expr.lateInvocation token.offset target name arguments
          else Expr.invocation token.offset target name arguments
        members calls next tokens
      else
        let next :=
          if late then Expr.lateProperty token.offset target name
          else Expr.property token.offset target name
        members calls next tokens
    else return (target, tokens)

def indexLists : (calls : Nat) → (target : Expr) → Reader Expr
  | 0, _, tokens => refuse tokens
  | calls + 1, target, tokens => do
    let token := current tokens
    if token.lexeme = .mark .leftBracket then
      let (_, tokens) ← advance tokens
      let (indices, tokens) ← expressions calls tokens
      let (_, tokens) ← expect (.mark .rightBracket) tokens
      indexLists calls (.index token.offset target indices) tokens
    else return (target, tokens)

def arguments : (calls : Nat) → Reader (List Expr)
  | 0, tokens => refuse tokens
  | calls + 1, tokens => do
    let (_, tokens) ← expect (.mark .leftParen) tokens
    if ahead 0 tokens = .mark .rightParen then
      let (_, tokens) ← advance tokens
      return ([], tokens)
    else
      let (values, tokens) ← expressions calls tokens
      let (_, tokens) ← expect (.mark .rightParen) tokens
      return (values, tokens)

def expressions : (calls : Nat) → Reader (List Expr)
  | 0, tokens => refuse tokens
  | calls + 1, tokens => do
    let (first, tokens) ← expression calls tokens
    if ahead 0 tokens = .mark .comma then
      let (_, tokens) ← advance tokens
      let (rest, tokens) ← expressions calls tokens
      return (first :: rest, tokens)
    else return ([first], tokens)

def primary : (calls : Nat) → Reader Expr
  | 0, tokens => refuse tokens
  | calls + 1, tokens => do
    let token := current tokens
    match token.lexeme with
    | .identifier name =>
      if ahead 1 tokens = .mark .leftParen then
        let (callee, tokens) ← identifier tokens
        let opening := current tokens
        let (arguments, tokens) ← arguments calls tokens
        return (.call opening.offset callee arguments, tokens)
      else arrive (.reference token.offset name) (tokens.drop 1)
    | .mark .leftParen => parenthesized calls tokens
    | lexeme =>
      match literal? lexeme with
      | some value => arrive (.literal token.offset value) (tokens.drop 1)
      | none => refuse tokens

def parenthesized : (calls : Nat) → Reader Expr
  | 0, tokens => refuse tokens
  | calls + 1, tokens => do
    let (_, tokens) ← expect (.mark .leftParen) tokens
    let (value, tokens) ← expression calls tokens
    let (_, tokens) ← expect (.mark .rightParen) tokens
    return (value, tokens)

end

def simpleStatement (calls : Nat) : Reader Statement := fun tokens => do
  let (target, tokens) ← postfixChain calls tokens
  let token := current tokens
  match token.lexeme with
  | .mark .assign =>
    if target.isAssignable then
      let (_, tokens) ← advance tokens
      let (value, tokens) ← expression calls tokens
      terminated (.assignment token.offset target value) tokens
    else .error (.notAssignable token.offset)
  | .mark .semicolon =>
    match target with
    | .call offset _ _ => terminated (.callStatement offset target) tokens
    | .invocation offset _ _ _ => terminated (.invocationStatement offset target) tokens
    | .lateInvocation offset _ _ _ => terminated (.invocationStatement offset target) tokens
    | _ => refuse tokens
  | _ => refuse tokens

def declaration (calls : Nat) : Reader Statement := fun tokens => do
  let (type, tokens) ← identifier tokens
  let (name, tokens) ← identifier tokens
  let (offset, tokens) ← expect (.mark .assign) tokens
  let (value, tokens) ← expression calls tokens
  terminated (.declaration offset type name value) tokens

/-- A variable that is kept between runs. -/
def persistentDeclaration : Reader Statement := fun tokens => do
  let (type, tokens) ← identifier tokens
  let (offset, tokens) ← expect (.mark .bang) tokens
  let (name, tokens) ← identifier tokens
  terminated (.persistent offset type name) tokens

mutual

def statements : (calls : Nat) → (stop : LexemeKind) → Reader (List Statement)
  | 0, _, tokens => refuse tokens
  | calls + 1, stop, tokens => do
    if ahead 0 tokens = stop then return ([], tokens)
    else
      let (first, tokens) ← statement calls tokens
      let (rest, tokens) ← statements calls stop tokens
      return (first :: rest, tokens)

def block : (calls : Nat) → Reader Block
  | 0, tokens => refuse tokens
  | calls + 1, tokens => do
    let token := current tokens
    if token.lexeme = .mark .leftBrace then
      let (_, tokens) ← advance tokens
      let (body, tokens) ← statements calls (.mark .rightBrace) tokens
      let (_, tokens) ← advance tokens
      return (.mk token.offset body, tokens)
    else
      let (only, tokens) ← statement calls tokens
      return (.mk token.offset [only], tokens)

def statement : (calls : Nat) → Reader Statement
  | 0, tokens => refuse tokens
  | calls + 1, tokens => do
    let token := current tokens
    match token.lexeme with
    | .keyword .ifWord =>
      let (_, tokens) ← advance tokens
      let (condition, tokens) ← parenthesized calls tokens
      let (yes, tokens) ← block calls tokens
      if ahead 0 tokens = .keyword .elseWord then
        let (_, tokens) ← advance tokens
        let (no, tokens) ← block calls tokens
        return (.ifElse token.offset condition yes no, tokens)
      else return (.ifThen token.offset condition yes, tokens)
    | .keyword .whileWord =>
      let (_, tokens) ← advance tokens
      let (condition, tokens) ← parenthesized calls tokens
      let (body, tokens) ← block calls tokens
      return (.whileLoop token.offset condition body, tokens)
    | .keyword .breakWord =>
      let (_, tokens) ← advance tokens
      terminated (.breakLoop token.offset) tokens
    | .keyword .continueWord =>
      let (_, tokens) ← advance tokens
      terminated (.continueLoop token.offset) tokens
    | .keyword .returnWord =>
      let (_, tokens) ← advance tokens
      terminated (.leave token.offset) tokens
    | .identifier _ =>
      if ahead 1 tokens = .identifier then declaration calls tokens
      else if ahead 1 tokens = .mark .bang then persistentDeclaration tokens
      else simpleStatement calls tokens
    | _ => simpleStatement calls tokens

end

def callBound (tokens : List Token) : Nat :=
  16 * (tokens.length + 2)

def program (tokens : List Token) : Except ReadFault Block := do
  let ((), tokens) ← arrive () tokens
  let (body, _) ← statements (callBound tokens) .endOfInput tokens
  return .mk 0 body

end Parser

def parse (source : Text) : Except ReadFault Block :=
  Parser.program (Lexer.tokens source)

end Tree

end HostScript
