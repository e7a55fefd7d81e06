import HostScript.Proofs.Grammar.Basic
import HostScript.Proofs.Token.Stream

namespace HostScript.Tree.Recognizer

/-!
# A recogniser of programs

The recogniser takes one lexeme after the other and never looks ahead.
-/

open HostScript.Tree.Parser

/-- What a statement may do with a phrase. -/
inductive Role where
  | place | call | other
  deriving DecidableEq

def role : Expr → Role
  | .reference _ _ | .property _ _ _ | .lateProperty _ _ _ | .index _ _ _ => .place
  | .call _ _ _ | .invocation _ _ _ _ | .lateInvocation _ _ _ _ => .call
  | _ => .other

/-- What an expression is part of, and so what it is ended by. -/
inductive Closer where
  | parenthesis | argument | subscript | branch | value
  deriving DecidableEq

namespace Closer

def last : Closer → Mark
  | .parenthesis | .argument => .rightParen
  | .subscript => .rightBracket
  | .branch => .colon
  | .value => .semicolon

/-- Whether more expressions may follow after commas. -/
def isList : Closer → Bool
  | .argument | .subscript => true
  | _ => false

def role (inner : Role) : Closer → Role
  | .parenthesis => inner
  | .argument => .call
  | .subscript => .place
  | .branch | .value => .other

end Closer

/-- Where a postfix stands: at the start of a statement, or in an expression, of which it may be
all so far. -/
inductive Context where
  | statement
  | inside (plain : Bool) (closer : Closer)
  deriving DecidableEq

/-- Something that is open. -/
inductive Frame where
  | braces | block | otherwise
  | mark (symbol : Mark)
  | identifier
  | first
  | operand (plain : Bool) (closer : Closer)
  | opened (plain : Bool) (closer : Closer)
  | openedName (plain : Bool) (closer : Closer)
  | cast (plain : Bool) (closer : Closer)
  | name (context : Context)
  | named (context : Context)
  | arguments
  | after (accessible : Bool) (context : Context)
  deriving DecidableEq

/-- What is open, and the role of the last phrase. -/
structure State where
  stack : List Frame
  role : Role

/-- The role of an expression that may have more than its last operand. -/
def masked (plain : Bool) (role : Role) : Role :=
  if plain then role else .other

def expects (symbol : Mark) (role : Role) (stack : List Frame) (lexeme : Lexeme) : Option State :=
  if lexeme = .mark symbol then some ⟨stack, role⟩ else none

def expectsName (stack : List Frame) (lexeme : Lexeme) : Option State :=
  if lexeme.kind = .identifier then some ⟨stack, .other⟩ else none

/-- The end of an expression, with nothing more of its list. -/
def finish (closer : Closer) (role : Role) (stack : List Frame) : Lexeme → Option State :=
  expects closer.last (closer.role role) stack

/-- The end of an expression. -/
def close (closer : Closer) (role : Role) (stack : List Frame) (lexeme : Lexeme) : Option State :=
  if closer.isList ∧ lexeme = .mark .comma then some ⟨.operand false closer :: stack, .other⟩
  else finish closer role stack lexeme

def isOperator (level : Nat) (lexeme : Lexeme) : Bool :=
  (List.range level).any fun lower => (operatorAt? lower lexeme).isSome

/-- What may follow an operand when no operator of the given level or above does. -/
def settle (level : Nat) (closer : Closer) (role : Role) (stack : List Frame) (lexeme : Lexeme) :
    Option State :=
  if isOperator level lexeme then some ⟨.operand false closer :: stack, .other⟩
  else if lexeme = .mark .question then
    some ⟨.operand false .branch :: .operand false closer :: stack, .other⟩
  else close closer role stack lexeme

/-- What may follow a postfix. -/
def conclude (context : Context) (role : Role) (stack : List Frame) (lexeme : Lexeme) :
    Option State :=
  match context with
  | .inside plain closer => settle levels.length closer (masked plain role) stack lexeme
  | .statement =>
    if lexeme = .mark .assign ∧ role = .place then some ⟨.operand false .value :: stack, .other⟩
    else if lexeme = .mark .semicolon ∧ role = .call then some ⟨stack, .other⟩
    else none

/-- What may follow a part of a postfix. -/
def follow (accessible : Bool) (context : Context) (role : Role) (stack : List Frame)
    (lexeme : Lexeme) : Option State :=
  if accessible ∧ (lexeme = .mark .period ∨ lexeme = .mark .dollar) then
    some ⟨.name context :: stack, .other⟩
  else if lexeme = .mark .leftBracket then
    some ⟨.operand false .subscript :: .after false context :: stack, .other⟩
  else conclude context role stack lexeme

def followName (context : Context) (stack : List Frame) (lexeme : Lexeme) : Option State :=
  if lexeme = .mark .leftParen then some ⟨.arguments :: .after true context :: stack, .other⟩
  else follow true context .place stack lexeme

/-- The start of a postfix. -/
def begin (context : Context) (stack : List Frame) : Lexeme → Option State
  | .identifier _ => some ⟨.named context :: stack, .other⟩
  | .mark .leftParen => some ⟨.operand true .parenthesis :: .after true context :: stack, .other⟩
  | lexeme => if (literal? lexeme).isSome then some ⟨.after true context :: stack, .other⟩ else none

def beginOperand (plain : Bool) (closer : Closer) (stack : List Frame) : Lexeme → Option State
  | .mark .minus | .mark .bang => some ⟨.operand false closer :: stack, .other⟩
  | .mark .leftParen => some ⟨.opened plain closer :: stack, .other⟩
  | lexeme => begin (.inside plain closer) stack lexeme

def start (stack : List Frame) : Lexeme → Option State
  | .keyword .ifWord =>
    some ⟨.mark .leftParen :: .operand false .parenthesis :: .block :: .otherwise :: stack, .other⟩
  | .keyword .whileWord =>
    some ⟨.mark .leftParen :: .operand false .parenthesis :: .block :: stack, .other⟩
  | .keyword .breakWord | .keyword .continueWord | .keyword .returnWord =>
    some ⟨.mark .semicolon :: stack, .other⟩
  | .identifier _ => some ⟨.first :: stack, .other⟩
  | lexeme => begin .statement stack lexeme

def followFirst (stack : List Frame) (lexeme : Lexeme) : Option State :=
  if lexeme.kind = .identifier then
    some ⟨.mark .assign :: .operand false .value :: stack, .other⟩
  else if lexeme = .mark .bang then some ⟨.identifier :: .mark .semicolon :: stack, .other⟩
  else followName .statement stack lexeme

def step : (stack : List Frame) → Role → Lexeme → Option State
  | [], _, lexeme => start [] lexeme
  | .braces :: stack, _, lexeme =>
    if lexeme = .mark .rightBrace then some ⟨stack, .other⟩ else start (.braces :: stack) lexeme
  | .block :: stack, _, lexeme =>
    if lexeme = .mark .leftBrace then some ⟨.braces :: stack, .other⟩ else start stack lexeme
  | .otherwise :: stack, role, lexeme =>
    if lexeme = .keyword .elseWord then some ⟨.block :: stack, .other⟩ else step stack role lexeme
  | .mark symbol :: stack, _, lexeme => expects symbol .other stack lexeme
  | .identifier :: stack, _, lexeme => expectsName stack lexeme
  | .first :: stack, _, lexeme => followFirst stack lexeme
  | .operand plain closer :: stack, _, lexeme => beginOperand plain closer stack lexeme
  | .opened plain closer :: stack, _, lexeme =>
    if lexeme.kind = .identifier then some ⟨.openedName plain closer :: stack, .other⟩
    else beginOperand true .parenthesis (.after true (.inside plain closer) :: stack) lexeme
  | .openedName plain closer :: stack, _, lexeme =>
    if lexeme = .mark .rightParen then some ⟨.cast plain closer :: stack, .other⟩
    else followName (.inside true .parenthesis) (.after true (.inside plain closer) :: stack) lexeme
  | .cast plain closer :: stack, _, lexeme =>
    if startsUnary lexeme.kind then beginOperand false closer stack lexeme
    else settle levels.length closer (masked plain .place) stack lexeme
  | .name context :: stack, _, lexeme => expectsName (.named context :: stack) lexeme
  | .named context :: stack, _, lexeme => followName context stack lexeme
  | .arguments :: stack, _, lexeme =>
    if lexeme = .mark .rightParen then some ⟨stack, .call⟩
    else beginOperand false .argument stack lexeme
  | .after accessible context :: stack, role, lexeme =>
    follow accessible context role stack lexeme

/-- Whether a program may end. -/
def State.isDone (state : State) : Bool :=
  state.stack.all (· == .otherwise)

def scan : State → List Token → Option Token
  | state, [] => if state.isDone then none else some (current [])
  | state, token :: tokens =>
    match step state.stack state.role token.lexeme with
    | some next => scan next tokens
    | none => if token.lexeme = .endOfInput ∧ state.isDone then none else some token

/-- The first such token when the next lexeme leads on as given. -/
def resume (onward : Lexeme → Option State) (tokens : List Token) : Option Token :=
  match onward (current tokens).lexeme with
  | some next => scan next (tokens.drop 1)
  | none => some (current tokens)

/-! Lexemes at which reading stops stand nowhere in a program. -/

section

variable {lex : Lexeme} (stops : lex.stops)

include stops

theorem ne_mark_of_stops (sym : Mark) : lex ≠ .mark sym := by
  rintro rfl
  cases stops

variable (stack : List Frame)

theorem beginOperand_of_stops (plain : Bool) (closer : Closer) :
    beginOperand plain closer stack lex = none := by
  cases lex <;> first | rfl | cases stops

theorem start_of_stops : start stack lex = none := by
  cases lex <;> first | rfl | cases stops

theorem settle_of_stops (level : Nat) (closer : Closer) (role : Role) :
    settle level closer role stack lex = none := by
  have noOperator : isOperator level lex = false := by
    have nowhere : ∀ lower, operatorAt? lower lex = none := by
      cases lex <;> first | exact fun _ => rfl | cases stops
    simp [isOperator, nowhere]
  simp [settle, close, finish, expects, noOperator, ne_mark_of_stops stops]

theorem follow_of_stops (accessible : Bool) (ctx : Context) (role : Role) :
    follow accessible ctx role stack lex = none := by
  cases ctx <;>
    simp [follow, conclude, ne_mark_of_stops stops, settle_of_stops stops]

theorem followName_of_stops (ctx : Context) : followName ctx stack lex = none := by
  unfold followName
  rw [if_neg (ne_mark_of_stops stops _), follow_of_stops stops]

theorem step_of_stops (role : Role) : step stack role lex = none := by
  have noName : ¬lex.kind = .identifier := by
    cases lex with
    | identifier _ => cases stops
    | _ => exact nofun
  have noUnary : startsUnary lex.kind = false := by
    cases lex <;> first | rfl | cases stops
  have noElse : lex ≠ .keyword .elseWord := by
    rintro rfl
    cases stops
  induction stack with
  | nil => exact start_of_stops stops []
  | cons frame stack ih =>
    cases frame <;>
      simp [step, expects, expectsName, followFirst, ne_mark_of_stops stops, noName, noUnary,
        noElse, ih, beginOperand_of_stops stops, start_of_stops stops, settle_of_stops stops,
        follow_of_stops stops, followName_of_stops stops]

end

end HostScript.Tree.Recognizer
