import HostScript.Proofs.Emission.Code

namespace HostScript

/-!
# Evaluation of typed trees

What a script means, told on its tree without code, stack or labels.
-/

/-- The result of a binary operation that no type overloads. -/
def Operator.compute? : Operator → Option (Value → Value → Except ArithmeticFault Value)
  | .add => some (Arith.apply .add)
  | .subtract => some (Arith.apply .subtract)
  | .multiply => some (Arith.apply .multiply)
  | .divide => some (Arith.apply .divide)
  | .modulo => some (Arith.apply .remainder)
  | .bitAnd => some (Arith.apply .bitAnd)
  | .bitOr => some (Arith.apply .bitOr)
  | .equal => some fun left right => .ok (.bool (left.equals right))
  | .notEqual => some fun left right => .ok (.bool !(left.equals right))
  | .less => some fun left right => do return .bool ((← left.order right) == .lt)
  | .greater => some fun left right => do return .bool ((← left.order right) == .gt)
  | .lessEqual => some fun left right => do return .bool !((← left.order right) == .gt)
  | .greaterEqual => some fun left right => do return .bool !((← left.order right) == .lt)
  | _ => none

namespace Evaluation

open Typed (Expr)

/-- A world, and what was asked of its host so far. -/
structure Scene (H : Type) where
  world : World H
  log : List Interaction := []

/-- Evaluation of an expression. -/
abbrev Evaluator (H : Type) := ExceptT Trouble (StateM (Scene H))

/-- Acts in the world; `seen` is what that asks of the host. -/
def act (seen : World H → List Interaction) (action : Act H α) : Evaluator H α :=
  fun scene =>
    let (result, world) := action scene.world
    (result, { world, log := scene.log ++ seen scene.world })

/-- Acts in the world without the host. -/
def quietly (action : Act H α) : Evaluator H α :=
  act (fun _ => []) action

def onReceiver (access : Access) (receiver : Value) (operands : List Value)
    (use : Value → Act H α) : Evaluator H α :=
  act (fun _ => Interaction.on access receiver operands) (Act.onTarget receiver use)

/-- Uses a member that belongs to no instance. -/
def apart (access : Access) (operands : List Value) (action : Act H α) : Evaluator H α :=
  act (fun _ => Interaction.apart access operands) action

/-- The host as a script sees it. -/
def self : Evaluator H Value :=
  fun scene => (.ok (if scene.world.isHosted then .host else .null), scene)

def converted (host : Host H) (types : Universe) (source target : Ty) (value : Value) :
    Act H Value :=
  if source.isValue && target.isReference then return value
  else if source.isReference && target.isValue then Act.unboxed target value
  else if source.isReference then
    if types.isAssignable target source then return value
    else Act.classChecked host target value
  else Act.lift .value (value.convertToKind (types.kind target).number)

def readField (host : Host H) (field : Field) : Evaluator H Value :=
  match field.literal with
  | some value => return value
  | none =>
    if field.shared then apart (.readField field) [] (host.loadField field .null)
    else do onReceiver (.readField field) (← self) [] (host.loadField field)

def readStatic (host : Host H) : DataMember → Evaluator H Value
  | .field field => apart (.readField field) [] (host.loadField field .null)
  | .property property =>
    apart (.readProperty property) [] (host.getProperty property .null [])

def readMember (host : Host H) (receiver : Value) : DataMember → Evaluator H Value
  | .field field => onReceiver (.readField field) receiver [] (host.loadField field)
  | .property property =>
    onReceiver (.readProperty property) receiver [] fun target =>
      host.getProperty property target []

def writeStatic (host : Host H) (value : Value) : DataMember → Evaluator H Unit
  | .field field => apart (.writeField field) [value] (host.storeField field .null value)
  | .property property =>
    apart (.writeProperty property) [value] (host.setProperty property .null [] value)

def writeMember (host : Host H) (receiver value : Value) : DataMember → Evaluator H Unit
  | .field field =>
    onReceiver (.writeField field) receiver [value] fun target => host.storeField field target value
  | .property property =>
    onReceiver (.writeProperty property) receiver [value] fun target =>
      host.setProperty property target [] value

/-- Calls a static method; without a result the null reference stands for it. -/
def callStatic (host : Host H) (method : Method) (operands : List Value) : Evaluator H Value := do
  let result ← apart (.call method) operands (host.call method .null operands)
  return if method.returnsValue then result else .null

def callOn (host : Host H) (method : Method) (receiver : Value) (operands : List Value) :
    Evaluator H Value := do
  let result ← onReceiver (.call method) receiver operands fun target =>
    host.call method target operands
  return if method.returnsValue then result else .null

section

variable (host : Host H) (types : Universe) (slots : Array Value)

mutual

def value : Expr → Evaluator H Value
  | .literal _ literal => return literal.value
  | .reference _ _ (some (.variable decl)) => return slots.getD decl.slot .null
  | .reference _ _ (some (.field _ field)) => readField host field
  | .reference _ _ _ => return .null
  | .operator _ op left right overload _ => do
    match overload with
    | some method =>
      let first ← value left
      let second ← value right
      callStatic host method [first, second]
    | none =>
      if op = .both ∨ op = .either then
        -- the right operand is needed only when the left one does not decide
        let first ← value left
        let decided ← quietly (Act.boolean host first)
        if decided = decide (op = .either) then return .bool decided else value right
      else
        let first ← value left
        let second ← value right
        match op.compute? with
        | some compute => quietly (Act.lift .arithmetic (compute first second))
        | none => return .null
  | .unary _ op operand _ => do
    let given ← value operand
    if op = .negate then quietly (Act.lift .arithmetic given.negated)
    else return .bool !(← quietly (Act.boolean host given))
  | .conditional _ cond yes no _ => do
    let given ← value cond
    let chosen ← quietly (Act.boolean host given)
    if chosen then value yes else value no
  | .cast _ _ target operand => do
    let given ← value operand
    quietly (converted host types operand.type target given)
  | .call _ _ method args => do
    if method.isStatic then
      let operands ← values args
      callStatic host method operands
    else
      let receiver ← self
      let operands ← values args
      callOn host method receiver operands
  | .expansion _ _ _ _ _ => return .null
  | .invocation _ target _ args method => do
    if method.isStatic then
      let operands ← values args
      callStatic host method operands
    else
      let receiver ← value target
      let operands ← values args
      callOn host method receiver operands
  | .lateInvocation _ target name args => do
    -- the arguments are put into a list one by one, before the target is evaluated
    let list ← quietly (Act.makeArray .object (Value.int32 args.length))
    listed list 0 args
    let receiver ← value target
    act (fun world => Interaction.on (.lateCall name.name) receiver
        (world.seen (.lateCall name.name) [list]))
      (Act.callLate host name.name receiver list)
  | .property _ target _ mem => do
    match mem with
    | .field { literal := some constant, .. } => return constant
    | _ =>
      if mem.isStatic then readStatic host mem
      else
        let receiver ← value target
        readMember host receiver mem
  | .lateProperty _ target name => do
    let receiver ← value target
    onReceiver (.lateRead name.name) receiver [] fun found => host.lateGet found name.name
  | .index _ target indices indexer _ => do
    match indexer with
    | none =>
      let array ← value target
      let index ← values indices
      quietly (Act.readPlace array index)
    | some property =>
      if property.isStatic then
        let index ← values indices
        apart (.readProperty property) index (host.getProperty property .null index)
      else
        let receiver ← value target
        let index ← values indices
        onReceiver (.readProperty property) receiver index fun found =>
          host.getProperty property found index

def values : List Expr → Evaluator H (List Value)
  | [] => return []
  | first :: rest => do
    let given ← value first
    let following ← values rest
    return given :: following

def listed (list : Value) (index : Nat) : List Expr → Evaluator H Unit
  | [] => return ()
  | first :: rest => do
    let given ← value first
    quietly (Act.writePlace host.types list [Value.int32 index] given)
    listed list (index + 1) rest

end

theorem value_literal (off : Nat) (literal : Literal) :
    value host types slots (.literal off literal) = pure literal.value := by
  rw [value]

/-- An assignment to anything but a variable. -/
def assigned (target : Expr) (given : Expr) : Evaluator H Unit := do
  match target with
  | .reference _ _ (some (.field _ field)) =>
    if field.shared then
      let stored ← value host types slots given
      apart (.writeField field) [stored] (host.storeField field .null stored)
    else
      let receiver ← self
      let stored ← value host types slots given
      onReceiver (.writeField field) receiver [stored] fun found =>
        host.storeField field found stored
  | .property _ owner _ mem =>
    if mem.isStatic then
      let stored ← value host types slots given
      writeStatic host stored mem
    else
      let receiver ← value host types slots owner
      let stored ← value host types slots given
      writeMember host receiver stored mem
  | .lateProperty _ owner name =>
    let receiver ← value host types slots owner
    let stored ← value host types slots given
    onReceiver (.lateWrite name.name) receiver [stored] fun found =>
      host.lateSet found name.name stored
  | .index _ owner indices indexer _ =>
    match indexer with
    | none =>
      let array ← value host types slots owner
      let index ← values host types slots indices
      let stored ← value host types slots given
      quietly (Act.writePlace host.types array index stored)
    | some property =>
      if property.isStatic then
        let index ← values host types slots indices
        let stored ← value host types slots given
        apart (.writeProperty property) (index ++ [stored])
          (host.setProperty property .null index stored)
      else
        let receiver ← value host types slots owner
        let index ← values host types slots indices
        let stored ← value host types slots given
        onReceiver (.writeProperty property) receiver (index ++ [stored]) fun found =>
          host.setProperty property found index stored
  | _ => return ()

end

/-- How a statement hands on control. -/
inductive Signal where
  | passed | broke | continued | returned
  deriving Repr, DecidableEq

/-- The values of the variables by slot, and the scene. -/
structure Moment (H : Type) where
  slots : Array Value
  scene : Scene H

/-- Evaluation of a statement; none if its loops need more rounds. -/
abbrev Performance (H : Type) := Moment H → Option (Except Trouble Signal × Moment H)

namespace Performance

/-- Hands on control at once. -/
def give (signal : Signal) : Performance H :=
  fun moment => some (.ok signal, moment)

/-- Evaluates something with the variables as they are, and goes on with it. -/
def after (evaluated : Array Value → Evaluator H α) (next : α → Performance H) :
    Performance H :=
  fun moment =>
    match evaluated moment.slots moment.scene with
    | (.ok given, scene) => next given { moment with scene }
    | (.error trouble, scene) => some (.error trouble, { moment with scene })

/-- Changes a variable. -/
def put (slot : Nat) (given : Value) : Performance H :=
  fun moment => some (.ok .passed, { moment with slots := moment.slots.setIfInBounds slot given })

/-- Goes on with a second statement if the first one ends in the usual way. -/
def andThen (first second : Performance H) : Performance H :=
  fun moment =>
    match first moment with
    | some (.ok .passed, between) => second between
    | other => other

/-- Repeats the rounds of a loop until one breaks it, up to a count. -/
def repeated (round : Performance H) : Nat → Performance H
  | 0, _ => none
  | rounds + 1, moment =>
    match round moment with
    | some (.ok .passed, between) | some (.ok .continued, between) =>
      repeated round rounds between
    | some (.ok .broke, between) => some (.ok .passed, between)
    | other => other

end Performance

section

open Performance

variable (host : Host H) (types : Universe)

def assignment (target given : Expr) : Performance H :=
  match target with
  | .reference _ _ (some (.variable decl)) =>
    after (fun slots => value host types slots given) (put decl.slot)
  | _ => after (fun slots => assigned host types slots target given) fun _ => give .passed

def choice (cond : Expr) (yes no : Performance H) : Performance H :=
  after (fun slots => do quietly (Act.boolean host (← value host types slots cond)))
    fun chosen => if chosen then yes else no

variable (rounds : Nat)

mutual

def statement : Typed.Statement → Performance H
  | .block body => block body
  | .assignment _ target given => assignment host types target given
  | .declaration _ _ _ decl given =>
    after (fun slots => value host types slots given) (put decl.slot)
  | .persistent _ _ _ _ => give .passed
  | .ifThen _ cond yes => choice host types cond (block yes) (give .passed)
  | .ifElse _ cond yes no => choice host types cond (block yes) (block no)
  | .whileLoop _ cond body =>
    repeated (choice host types cond (block body) (give .broke)) rounds
  | .breakLoop _ => give .broke
  | .continueLoop _ => give .continued
  | .leave _ => give .returned
  | .callStatement _ call | .invocationStatement _ call =>
    after (fun slots => value host types slots call) fun _ => give .passed

def block : Typed.Block → Performance H
  | .mk _ _ body => statements body

def statements : List Typed.Statement → Performance H
  | [] => give .passed
  | first :: rest => andThen (statement first) (statements rest)

end

def loaded (holder : Value) : List Variable → Performance H
  | [] => give .passed
  | decl :: rest =>
    andThen (after (fun _ => act
          (fun _ => Interaction.on (.readState decl.type) holder [.string decl.name])
          (Act.readState host decl.type holder (.string decl.name)))
        (put decl.slot))
      (loaded holder rest)

def saved (holder : Value) : List Variable → Performance H
  | [] => give .passed
  | decl :: rest =>
    andThen (after (fun slots => act (fun _ => Interaction.on .writeState holder
            [.string decl.name, slots.getD decl.slot .null])
          (Act.writeState holder (.string decl.name) (slots.getD decl.slot .null)))
        fun _ => give .passed)
      (saved holder rest)

/-- Evaluates a statement and then another, whatever came of it; trouble in the second counts. -/
def ensuring (body handler : Performance H) : Performance H :=
  fun moment =>
    match body moment with
    | none => none
    | some (result, between) =>
      match handler between with
      | some (.ok _, after) => some (result, after)
      | other => other

/-- Evaluates a script: its body, between reading and writing the persistent variables. -/
def script (state : Option Field) (analysed : Typed.Script) : Performance H :=
  match state with
  | none => block host types rounds analysed.body
  | some field =>
    after (fun _ => do onReceiver (.readField field) (← self) [] (host.loadField field))
      fun holder =>
        andThen (loaded host holder analysed.persistent)
          (ensuring (block host types rounds analysed.body) (saved holder analysed.persistent))

end

end Evaluation

end HostScript
