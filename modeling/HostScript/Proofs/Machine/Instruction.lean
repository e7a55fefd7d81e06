import HostScript.Proofs.Assembly.Layout
import HostScript.Proofs.Machine.Work

namespace HostScript

open Interaction (apart on)
open List

/-!
# One instruction

What a round of the machine does when a known instruction is next and its operands are on the
stack.
-/

theorem Op.ofCode?_code (op : Op) : Op.ofCode? op.code = some op := by
  cases op <;> rfl

theorem Method.returnsValue_eq (meth : Method) :
    meth.returnsValue = !decide (meth.type = .void) := by
  rcases meth with ⟨_, _, _ | res, _, _⟩
  · rfl
  · cases res <;> rfl

/-- The operation on two values that an operation of the machine stands for. -/
def Op.binary? : Op → Option (Value → Value → Except ArithmeticFault Value)
  | .add => some (Arith.apply .add)
  | .subtract => some (Arith.apply .subtract)
  | .multiply => some (Arith.apply .multiply)
  | .divide => some (Arith.apply .divide)
  | .remainder => some (Arith.apply .remainder)
  | .bitAnd => some (Arith.apply .bitAnd)
  | .bitOr => some (Arith.apply .bitOr)
  | .equal => some fun left right => .ok (.bool (left.equals right))
  | .greater => some fun left right => do return .bool ((← left.order right) == .gt)
  | .less => some fun left right => do return .bool ((← left.order right) == .lt)
  | _ => none

namespace Configuration

/-- A configuration after an instruction, or in the middle of one. -/
def moved (cfg : Configuration H) (next : Nat) (stack : List Value) (world : World H) :
    Configuration H :=
  { frame :=
      { cfg.frame with
        operations := cfg.frame.operations + 1
        position := cfg.frame.next
        next, stack }
    world }

def stored (cfg : Configuration H) (slot : Nat) (value : Value) :
    Configuration H :=
  { cfg with
    frame :=
      { cfg.frame with
        locals := cfg.frame.locals.setIfInBounds slot value } }

/-- A configuration at the start of an instruction, its operation taken. -/
def begun (cfg : Configuration H) : Configuration H :=
  cfg.moved (cfg.frame.next + 1) cfg.frame.stack cfg.world

section Moved

variable (cfg : Configuration H) (next : Nat) (stack : List Value) (world : World H)

@[simp] theorem moved_next : (cfg.moved next stack world).frame.next = next := rfl

@[simp] theorem moved_stack : (cfg.moved next stack world).frame.stack = stack := rfl

@[simp] theorem moved_world : (cfg.moved next stack world).world = world := rfl

@[simp] theorem moved_locals : (cfg.moved next stack world).frame.locals = cfg.frame.locals := rfl

@[simp] theorem moved_regions :
    (cfg.moved next stack world).frame.regions = cfg.frame.regions := rfl

@[simp] theorem moved_completions :
    (cfg.moved next stack world).frame.completions = cfg.frame.completions := rfl

@[simp] theorem moved_position : (cfg.moved next stack world).frame.position = cfg.frame.next := rfl

end Moved

theorem look_of_isPlain (cfg : Configuration H) (isPlain : val.isPlain) : cfg.look val = val := by
  cases val <;> first | rfl | cases isPlain

end Configuration

open Configuration (begun moved_world moved_regions moved_completions moved_position
  moved_next moved_stack moved_locals)

variable {prog : Program}

namespace Step

/-! The parts of an instruction on a configuration in the middle of it. -/

section Moved

variable (cfg : Configuration H) (next : Nat) (stack : List Value) (world : World H)

theorem push_moved (val : Value) :
    push val (cfg.moved next stack world) = (.ok (), cfg.moved next (val :: stack) world) := rfl

theorem pop_moved (val : Value) :
    pop (cfg.moved next (val :: stack) world) = (.ok val, cfg.moved next stack world) := rfl

theorem peek_moved (val : Value) :
    peek (cfg.moved next (val :: stack) world) =
      (.ok val, cfg.moved next (val :: stack) world) := rfl

theorem act_moved (action : Act H α) :
    act action (cfg.moved next stack world) =
      ((action world).1, cfg.moved next stack (action world).2) := rfl

theorem popMany_moved (args : List Value) :
    popMany args.length (cfg.moved next (args.reverse ++ stack) world) =
      (.ok args, cfg.moved next stack world) := by
  simp only [popMany, bind_apply, frame, get_apply, pure_apply]
  rw [if_neg (by simp)]
  simp only [bind_apply, modifyFrame, modify_apply, pure_apply, moved_stack]
  congr 1
  · rw [← length_reverse, take_left, reverse_reverse]
  · rw [← length_reverse, drop_left]
    rfl

theorem operand_moved (word : prog.word? next = some argument) :
    operand prog (cfg.moved next stack world) =
      (.ok argument, cfg.moved (next + 2) stack world) := by
  simp only [operand, bind_apply, frame, get_apply, pure_apply, moved_next, word]
  rfl

theorem entry_moved (word : prog.word? next = some idx) (present : pool[idx]? = some found) :
    entry prog pool (cfg.moved next stack world) =
      (.ok found, cfg.moved (next + 2) stack world) := by
  simp only [entry, bind_apply, operand_moved _ _ _ _ word, present, pure_apply]

theorem dereference_moved (val : Value) :
    dereference val (cfg.moved next stack cfg.world) =
      (.ok (cfg.look val), cfg.moved next stack cfg.world) := by
  cases val <;> rfl

theorem receiver_moved (pushed : Value) :
    receiver (cfg.moved next (pushed :: stack) cfg.world) =
      if cfg.look pushed = .null then
        (.error (.failed (.cause .nullReference)), cfg.moved next stack cfg.world)
      else
        (.ok (cfg.look pushed), cfg.moved next stack cfg.world) := by
  simp only [receiver, bind_apply, pop_moved, dereference_moved]
  split <;> rfl

theorem popBoolean_moved (host : Host H) (val : Value) :
    popBoolean host (cfg.moved next (val :: stack) world) =
      ((Act.boolean host val world).1, cfg.moved next stack world) := by
  cases val <;> rfl

theorem lift_apply (wrap : ε → RunFault) (res : Except ε α) :
    lift wrap res cfg = ((Act.lift wrap res world).1, cfg) := by
  cases res <;> rfl

theorem mapM_toIndex (vals : List Value) :
    (vals.mapM fun val => (lift .value val.toIndex : Step H Int)) cfg =
      ((Act.lift .value (Value.positions vals) world).1, cfg) := by
  induction vals with
  | nil => rfl
  | cons val vals ih =>
    rw [mapM_cons, bind_apply, lift_apply _ world]
    cases first : val.toIndex with
    | error fault =>
      simp only [Value.positions, first]
      rfl
    | ok _ =>
      simp only [Act.lift, pure_apply, bind_apply, ih]
      cases rest : Value.positions vals with
      | error fault =>
        simp only [Value.positions, first, rest]
        rfl
      | ok _ =>
        simp only [Value.positions, first, rest]
        rfl

/-- A part of an operation takes values from the stack and finds what an action does. -/
def Finds (before after : List Value) (first : Step H α) (find : Act H α) : Prop :=
  ∃ left, first (cfg.moved next before cfg.world) =
    match (find cfg.world).1 with
    | .ok found => (.ok found, cfg.moved next after cfg.world)
    | .error trouble => (.error trouble, cfg.moved next left cfg.world)

/-- An access by index finds the array and the positions, or ends like the action. -/
theorem element_moved (args : List Value) (pushed : Value) :
    Finds cfg next (args.reverse ++ pushed :: stack) stack
      (element args.length) (Act.place (cfg.look pushed) args) := by
  simp only [Finds, element, bind_apply, popMany_moved, mapM_toIndex _ cfg.world, Act.place]
  cases located : Value.positions args with
  | error _ => exact ⟨pushed :: stack, rfl⟩
  | ok positions =>
    refine ⟨stack, ?_⟩
    simp only [Act.lift, pure_apply, receiver_moved, Act.onTarget]
    by_cases isNull : cfg.look pushed = .null
    · simp only [isNull, if_true]
      rfl
    · simp only [isNull, if_false]
      cases cfg.look pushed <;> rfl

theorem stateReference_moved (holder name : Value) :
    Finds cfg next (name :: holder :: stack) stack stateReference (Act.stateKey holder name) := by
  simp only [Finds, stateReference, bind_apply, pop_moved]
  cases name <;> first | exact ⟨holder :: stack, rfl⟩ | skip
  simp only [bind_apply, pop_moved]
  refine ⟨stack, ?_⟩
  cases holder <;> rfl

end Moved

end Step

open Step (entry_moved push_moved pop_moved act_moved operand_moved lift_apply popMany_moved)

theorem Failure.isClassified_classifyUnless (stage : Stage) (off : Int) (ctx : Reason)
    (fail : Failure Reason) : (fail.classifyUnless stage off ctx).isClassified := by
  unfold Failure.classifyUnless
  split
  · assumption
  · rfl

namespace Machine

def Stops (host : Host H) (prog : Program) (cfg : Configuration H) (trouble : Trouble)
    (world : World H) : Prop :=
  ∃ (op : Op) (next : Nat) (stack : List Value), prog.code[cfg.frame.next]? = some op.code ∧
      Step.perform host prog op cfg.begun = (.error trouble, cfg.moved next stack world)

/--
The next instruction does some work: its results are put on the rest of the stack,
or it stops.
-/
structure Yields (host : Host H) (prog : Program) (cfg : Configuration H) (next : Nat)
    (rest : List Value) (seen : List Interaction) (work : Act H (List Value)) : Prop where
  observed : observe prog cfg = seen
  continues : ∀ results world, work cfg.world = (.ok results, world) → cycle host prog {} cfg =
      .continues (cfg.moved next (results.reverse ++ rest) world)
  stops : ∀ trouble world, work cfg.world = (.error trouble, world) →
    Stops host prog cfg trouble world

variable {cfg : Configuration H} {op : Op} {rest : List Value}

theorem cycle_eq (host : Host H) (code : prog.code[cfg.frame.next]? = some op.code) :
    cycle host prog {} cfg =
      match Step.perform host prog op cfg.begun with
      | (.ok false, after) => .continues after
      | (.ok true, after) => .ends (.ok ()) after
      | (.error trouble, after) =>
        match raise (classify op.code after.frame.position trouble) after.frame with
        | some raised => .continues { after with frame := raised }
        | none => .ends (.error (classify op.code after.frame.position trouble)) after := by
  simp only [cycle, code, obstacle?, Step.performByte, Op.ofCode?_code]
  rfl

variable {host : Host H} {next : Nat} {seen : List Interaction}

section

variable (code : prog.code[cfg.frame.next]? = some op.code)

include code

theorem Yields.of_perform (observed : observe prog cfg = seen)
    (performed : ∃ stopNext stopStack, Step.perform host prog op cfg.begun =
        match work cfg.world with
        | (.ok results, world) =>
          (.ok false, cfg.moved next (results.reverse ++ rest) world)
        | (.error trouble, world) =>
          (.error trouble, cfg.moved stopNext stopStack world)) :
    Yields host prog cfg next rest seen work := by
  obtain ⟨stopNext, stopStack, performed⟩ := performed
  refine ⟨observed, ?_, ?_⟩
  · intro results world worked
    rw [cycle_eq host code, performed, worked]
  · intro trouble world worked
    refine ⟨op, stopNext, stopStack, code, ?_⟩
    rw [performed, worked]

theorem access?_of_code :
    access? prog cfg.frame.next = op.access? prog ((prog.word? (cfg.frame.next + 1)).getD 0) := by
  simp only [access?, code, Op.ofCode?_code]

theorem observe_silent
    (silent : op.access? prog ((prog.word? (cfg.frame.next + 1)).getD 0) = none) :
    observe prog cfg = [] := by
  simp only [observe, access?_of_code code, silent]

/-- An instruction that leaves the host alone and cannot fail puts values on the stack. -/
theorem Yields.of_put (silent : op.access? prog ((prog.word? (cfg.frame.next + 1)).getD 0) = none)
    (performed : Step.perform host prog op cfg.begun =
      (.ok false, cfg.moved next (results.reverse ++ rest) cfg.world)) :
    Yields host prog cfg next rest [] (pure results) :=
  .of_perform code (observe_silent code silent) ⟨0, [], performed⟩

end

/-- The next instruction asks nothing of the host, and its round ends so. -/
abbrev Silently (host : Host H) (prog : Program) (cfg : Configuration H) (round : Round H) : Prop :=
  observe prog cfg = [] ∧ cycle host prog {} cfg = round

theorem Silently.of_perform (code : prog.code[cfg.frame.next]? = some op.code)
    (silent : op.access? prog ((prog.word? (cfg.frame.next + 1)).getD 0) = none)
    (performed : Step.perform host prog op cfg.begun = (.ok false, last)) :
    Silently host prog cfg (.continues last) := by
  refine ⟨observe_silent code silent, ?_⟩
  rw [cycle_eq host code, performed]

theorem Yields.of_parts (first : Step H β) (follow : β → Step H Bool)
    (code : prog.code[cfg.frame.next]? = some op.code) (observed : observe prog cfg = seen)
    (performed : Step.perform host prog op cfg.begun =
      (first >>= follow) (cfg.moved next stack cfg.world))
    (finds : Step.Finds cfg next stack rest first find) (kept : (find cfg.world).2 = cfg.world)
    (followed : ∀ found, follow found (cfg.moved next rest cfg.world) =
      match work found cfg.world with
      | (.ok results, world) =>
        (.ok false, cfg.moved next (results.reverse ++ rest) world)
      | (.error trouble, world) => (.error trouble, cfg.moved next rest world)) :
    Yields host prog cfg next rest seen (find >>= work) := by
  obtain ⟨left, located⟩ := finds
  rcases shape : find cfg.world with ⟨trouble | found, world⟩
  · rw [shape] at located kept
    subst kept
    refine .of_perform code observed ⟨next, left, ?_⟩
    simp only [performed, bind_apply, located, shape]
  · rw [shape] at located kept
    subst kept
    refine .of_perform code observed ⟨next, rest, ?_⟩
    simp only [performed, bind_apply, located, shape, followed]

section Observed

theorem access?_of_instruction (instr : prog.HasInstruction cfg.frame.next op idx) :
    access? prog cfg.frame.next = op.access? prog idx := by
  rw [access?_of_code instr.code, instr.word]
  rfl

variable {access : Access}

theorem observe_on (made : access? prog cfg.frame.next = some (access, true))
    (args : List Value) (stack : cfg.frame.stack = args.reverse ++ pushed :: rest)
    (count : args.length = access.operands) :
    observe prog cfg = on access (cfg.look pushed) (cfg.world.seen access args) := by
  have length : args.reverse.length = access.operands := by
    rw [length_reverse, count]
  simp only [observe, made, stack, if_true]
  rw [← length, take_left, reverse_reverse]
  congr 2
  simp [List.getD]

theorem observe_apart (made : access? prog cfg.frame.next = some (access, false))
    (args : List Value) (stack : cfg.frame.stack = args.reverse ++ rest)
    (count : args.length = access.operands) :
    observe prog cfg = apart access (cfg.world.seen access args) := by
  have length : args.reverse.length = access.operands := by
    rw [length_reverse, count]
  simp only [observe, made, stack]
  rw [← length, take_left, reverse_reverse]
  rfl

end Observed

section Instructions

variable (host : Host H)

/-! Instructions that put a value on the stack. -/

theorem yields_constant (instr : prog.HasInstruction cfg.frame.next Op.push idx)
    (present : prog.constants[idx]? = some val) :
    Yields host prog cfg (cfg.frame.next + 3) cfg.frame.stack [] (pure [val]) :=
  .of_put instr.code rfl (bind_ok (entry_moved _ _ _ _ instr.word present))

theorem yields_loadHost (code : prog.code[cfg.frame.next]? = some Op.loadHost.code) :
    Yields host prog cfg (cfg.frame.next + 1) cfg.frame.stack []
      (pure [if cfg.world.isHosted then .host else .null]) :=
  .of_put code rfl rfl

theorem yields_loadLocal (instr : prog.HasInstruction cfg.frame.next Op.loadLocal idx)
    (present : cfg.frame.locals[idx]? = some val) :
    Yields host prog cfg (cfg.frame.next + 3) cfg.frame.stack [] (pure [val]) :=
  .of_put instr.code rfl (bind_ok (entry_moved _ _ _ _ instr.word present))

theorem yields_pop (code : prog.code[cfg.frame.next]? = some Op.pop.code)
    (stack : cfg.frame.stack = val :: rest) :
    Yields host prog cfg (cfg.frame.next + 1) rest [] (pure []) := by
  refine .of_put code rfl ?_
  rw [begun, stack]
  rfl

/-! Accesses to the host. -/

/--
The access that a directive asks for, on a receiver or apart from any, with the operands that
it takes from the stack, what is done to the target, and what is left of the result.
-/
inductive Asks (host : Host H) :
    Directive → (onReceiver : Bool) → Access → (operands : List Value) →
      {α : Type} → (Value → Act H α) → (α → List Value) → Prop
  | loadField (onReceiver : Bool) (field : Field) :
      Asks host (.field (bif onReceiver then Op.loadField else Op.loadStaticField) field)
        onReceiver (.readField field) [] (host.loadField field) fun given => [given]
  | storeField (onReceiver : Bool) (field : Field) (value : Value) :
      Asks host (.field (bif onReceiver then Op.storeField else Op.storeStaticField) field)
        onReceiver (.writeField field) [value]
        (fun target => host.storeField field target value) fun _ => []
  | getProperty (onReceiver : Bool) {property operands}
      (count : operands.length = property.params.length) :
      Asks host (.property (bif onReceiver then Op.getProperty else Op.getStaticProperty) property)
        onReceiver (.readProperty property) operands
        (fun target => host.getProperty property target operands) fun given => [given]
  | setProperty (onReceiver : Bool) {property operands}
      (count : operands.length = property.params.length) (value : Value) :
      Asks host (.property (bif onReceiver then Op.setProperty else Op.setStaticProperty) property)
        onReceiver (.writeProperty property) (operands ++ [value])
        (fun target => host.setProperty property target operands value) fun _ => []
  | call (onReceiver : Bool) {method operands} (count : operands.length = method.params.length) :
      Asks host (.method (bif onReceiver then Op.callVirtual else Op.call) method) onReceiver
        (.call method) operands (fun target => host.call method target operands)
        fun result => if method.returnsValue then [result] else []
  | lateGet (name : Text) :
      Asks host (.name Op.lateGet name) true (.lateRead name) []
        (fun target => host.lateGet target name) fun given => [given]
  | lateSet (name : Text) (value : Value) :
      Asks host (.name Op.lateSet name) true (.lateWrite name) [value]
        (fun target => host.lateSet target name value) fun _ => []
  | lateCall (name : Text) (list : ArrayRef) :
      Asks host (.name Op.lateCall name) true (.lateCall name) [.array list]
        (fun target => host.lateCall target name list) fun given => [given]

section Asks

variable {after : List Directive} {access : Access} {results : α → List Value}

/-- What is done to the results of an access: they are put on the stack. -/
def putAll (results : List Value) : Step H Bool := do
  results.forM Step.push
  return false

theorem putAll_moved (next : Nat) (stack : List Value) (world : World H) (results : List Value) :
    putAll results (cfg.moved next stack world) =
      (.ok false, cfg.moved next (results.reverse ++ stack) world) := by
  induction results generalizing stack with
  | nil => rfl
  | cons first _ ih =>
    rw [reverse_cons, append_assoc]
    exact ih (first :: stack)

variable {onReceiver : Bool}

theorem Asks.size_eq (asks : Asks host d onReceiver access args use results) : d.size = 3 := by
  cases asks <;> rfl

variable (asm : Assembly.assemble (pre ++ d :: after) = .ok prog)
  (pos : cfg.frame.next = Directive.extent pre)

include asm pos

theorem Asks.instruction (asks : Asks host d onReceiver access args use results)
    (stack : cfg.frame.stack = args.reverse ++ rest) :
    ∃ (op : Op) (idx : Nat), prog.HasInstruction cfg.frame.next op idx ∧
        op.access? prog idx = some (access, onReceiver) ∧ args.length = access.operands ∧
        Step.perform host prog op cfg.begun =
          ((if onReceiver then Step.receiver else pure .null) >>= fun tgt =>
            Step.act (use tgt) >>= fun res => putAll (results res))
            (cfg.moved (cfg.frame.next + 3) rest cfg.world) := by
  obtain ⟨place, holds⟩ := Assembly.assemble_holds asm
  rw [← pos] at place
  rw [begun, stack]
  have found : ∀ {β : Type} {op : Op} {pool : Array β} {value : β},
      (∃ idx, prog.HasInstruction (Assembly.drafted pre).position op idx ∧
        pool[idx]? = some value) →
      ∃ idx, prog.HasInstruction cfg.frame.next op idx ∧
        (∀ {γ : Type} (access : β → γ), pool[idx]?.map access = some (access value)) ∧
        ∀ {γ : Type} (use : β → Step H γ) stack,
          (Step.entry prog pool >>= use) (cfg.moved (cfg.frame.next + 1) stack cfg.world) =
            use value (cfg.moved (cfg.frame.next + 3) stack cfg.world) := by
    rintro _ _ _ _ ⟨idx, instr, present⟩
    rw [place] at instr
    exact ⟨idx, instr, fun _ => congrArg _ present,
      fun _ _ => bind_ok (entry_moved _ _ _ _ instr.word present)⟩
  cases onReceiver <;> cases asks <;> obtain ⟨idx, instr, present, entered⟩ := found holds
  case false.loadField | true.loadField | true.lateGet =>
    exact ⟨_, idx, instr, present _, rfl, entered _ _⟩
  case false.storeField | true.storeField | true.lateSet =>
    exact ⟨_, idx, instr, present _, rfl, (entered _ _).trans (bind_ok (pop_moved _ _ _ _ _))⟩
  case false.getProperty count | true.getProperty count =>
    refine ⟨_, idx, instr, present _, count, (entered _ _).trans ?_⟩
    rw [Step.getProperty, ← count, bind_assoc]
    refine (bind_ok (popMany_moved _ _ _ _ _)).trans ?_
    simp only [if_true, Bool.false_eq_true, if_false, bind_assoc]
    rfl
  case false.setProperty count _ | true.setProperty count _ =>
    rw [reverse_append]
    refine ⟨_, idx, instr, present _, by simp [count, Access.operands], (entered _ _).trans ?_⟩
    rw [Step.setProperty, ← count, bind_assoc]
    refine (bind_ok (pop_moved _ _ _ _ _)).trans ?_
    rw [bind_assoc]
    refine (bind_ok (popMany_moved _ _ _ _ _)).trans ?_
    simp only [if_true, Bool.false_eq_true, if_false, bind_assoc]
    rfl
  case false.call meth count | true.call meth count =>
    refine ⟨_, idx, instr, present _, count, (entered _ _).trans ?_⟩
    rw [Step.call, ← count, bind_assoc]
    refine (bind_ok (popMany_moved _ _ _ _ _)).trans ?_
    simp only [if_true, Bool.false_eq_true, if_false, bind_assoc]
    cases meth.returnsValue <;> rfl
  case true.lateCall list =>
    refine ⟨_, idx, instr, present _, rfl, (entered _ _).trans ?_⟩
    rw [Step.lateCall, bind_assoc]
    refine (bind_ok (pop_moved _ _ _ _ (.array list))).trans ?_
    simp only [bind_assoc]
    rfl

theorem Asks.yields_on (asks : Asks host d true access args use results)
    (stack : cfg.frame.stack = args.reverse ++ pushed :: rest) :
    Yields host prog cfg (cfg.frame.next + 3) rest
      (on access (cfg.look pushed) (cfg.world.seen access args))
      (do return results (← Act.onTarget (cfg.look pushed) use)) := by
  obtain ⟨_, _, instr, made, count, performed⟩ := asks.instruction host asm pos stack
  refine .of_perform instr.code
    (observe_on ((access?_of_instruction instr).trans made) args stack count)
    ⟨cfg.frame.next + 3, rest, performed.trans ?_⟩
  simp only [if_true, bind_apply, Step.receiver_moved, Act.onTarget]
  by_cases isNull : cfg.look pushed = .null
  · simp only [isNull, if_true]
    rfl
  · rcases worked : use (cfg.look pushed) cfg.world with ⟨_ | _, _⟩ <;>
      simp only [isNull, if_false, act_moved, worked, putAll_moved, pure_apply]

theorem Asks.yields_apart (asks : Asks host d false access args use results)
    (stack : cfg.frame.stack = args.reverse ++ rest) :
    Yields host prog cfg (cfg.frame.next + 3) rest (apart access (cfg.world.seen access args))
      (do return results (← use .null)) := by
  obtain ⟨_, _, instr, made, count, performed⟩ := asks.instruction host asm pos stack
  refine .of_perform instr.code
    (observe_apart ((access?_of_instruction instr).trans made) args stack count)
    ⟨cfg.frame.next + 3, rest, performed.trans ?_⟩
  rcases worked : use .null cfg.world with ⟨_ | _, _⟩ <;>
    simp only [Bool.false_eq_true, if_false, bind_apply, act_moved, worked,
      putAll_moved, pure_apply]

end Asks

/-! Arrays. -/

theorem yields_loadElement (instr : prog.HasInstruction cfg.frame.next Op.loadElement args.length)
    (stack : cfg.frame.stack = args.reverse ++ pushed :: rest) :
    Yields host prog cfg (cfg.frame.next + 3) rest []
      (do return [← Act.readPlace (cfg.look pushed) args]) := by
  rw [Act.readPlace, bind_assoc]
  refine .of_parts (Step.element args.length) ?_ instr.code
    (observe_silent instr.code rfl) ?performed
    (Step.element_moved cfg _ rest args pushed) (Act.place_world _ _ _) ?followed
  case performed =>
    rw [begun, stack]
    exact bind_ok (operand_moved _ _ _ _ instr.word)
  case followed =>
    rintro ⟨ref, positions⟩
    rcases worked : Act.loadElement ref positions cfg.world with ⟨_ | _, _⟩ <;>
      simp only [bind_apply, act_moved, worked, push_moved, pure_apply]
    rfl

theorem yields_storeElement (args : List Value)
    (instr : prog.HasInstruction cfg.frame.next Op.storeElement args.length)
    (stack : cfg.frame.stack = val :: (args.reverse ++ pushed :: rest)) :
    Yields host prog cfg (cfg.frame.next + 3) rest [] (do
        Act.writePlace host.types (cfg.look pushed) args val
        return []) := by
  rw [Act.writePlace, bind_assoc]
  refine .of_parts (Step.element args.length) ?_ instr.code
    (observe_silent instr.code rfl) ?performed
    (Step.element_moved cfg _ rest args pushed) (Act.place_world _ _ _) ?followed
  case performed =>
    rw [begun, stack]
    refine (bind_ok (operand_moved _ _ _ _ instr.word)).trans ?_
    exact bind_ok (pop_moved _ _ _ _ val)
  case followed =>
    rintro ⟨ref, positions⟩
    rcases worked : Act.storeElement host.types ref positions val cfg.world with ⟨_ | _, _⟩ <;>
      simp only [bind_apply, act_moved, worked, pure_apply]
    rfl

theorem yields_newArray {element length}
    (instr : prog.HasInstruction cfg.frame.next Op.newArray idx)
    (present : prog.types[idx]? = some element) (stack : cfg.frame.stack = length :: rest) :
    Yields host prog cfg (cfg.frame.next + 3) rest []
      (do return [← Act.makeArray element length]) := by
  refine .of_perform instr.code (observe_silent instr.code rfl) ⟨cfg.frame.next + 3, rest, ?_⟩
  simp only [Step.perform.eq_def, bind_apply, begun, stack, entry_moved _ _ _ _ instr.word present,
    Step.newArray, pop_moved, lift_apply _ cfg.world, Act.makeArray]
  cases length.toIndex with
  | error _ => rfl
  | ok count =>
    simp only [Act.lift, pure_apply]
    split_ifs
    · rfl
    · rcases made : Act.newArray element [count.toNat] cfg.world with ⟨_ | _, _⟩ <;>
        simp only [bind_apply, act_moved, made, pure_apply]
      rfl

/-! Operations on values. -/

theorem yields_binary (isBinary : op.binary? = some operation)
    (code : prog.code[cfg.frame.next]? = some op.code)
    (stack : cfg.frame.stack = right :: left :: rest) :
    Yields host prog cfg (cfg.frame.next + 1) rest []
      (do return [← Act.lift .arithmetic (operation left right)]) := by
  have silent : op.access? prog ((prog.word? (cfg.frame.next + 1)).getD 0) = none := by
    cases op <;> first | rfl | cases isBinary
  have performed : Step.perform host prog op = (do Step.binary operation; return false) := by
    cases op <;> cases isBinary <;> rfl
  refine .of_perform code (observe_silent code silent) ⟨cfg.frame.next + 1, rest, ?_⟩
  simp only [performed, Step.binary, bind_apply, begun,
    stack, pop_moved, lift_apply _ cfg.world]
  cases operation left right <;> rfl

theorem yields_negate (code : prog.code[cfg.frame.next]? = some Op.negate.code)
    (stack : cfg.frame.stack = val :: rest) :
    Yields host prog cfg (cfg.frame.next + 1) rest []
      (do return [← Act.lift .arithmetic val.negated]) := by
  refine .of_perform code (observe_silent code rfl) ⟨cfg.frame.next + 1, rest, ?_⟩
  simp only [Step.perform.eq_def, bind_apply, begun, stack, pop_moved, lift_apply _ cfg.world]
  cases val.negated <;> rfl

theorem yields_complement (code : prog.code[cfg.frame.next]? = some Op.complement.code)
    (stack : cfg.frame.stack = val :: rest) :
    Yields host prog cfg (cfg.frame.next + 1) rest []
      (do return [.bool !(← Act.boolean host val)]) := by
  refine .of_perform code (observe_silent code rfl) ⟨cfg.frame.next + 1, rest, ?_⟩
  simp only [Step.perform.eq_def, bind_apply, begun, stack, Step.popBoolean_moved]
  cases val <;> rfl

theorem yields_convert (instr : prog.HasInstruction cfg.frame.next Op.convert idx)
    (stack : cfg.frame.stack = pushed :: rest) :
    Yields host prog cfg (cfg.frame.next + 3) rest [] (do
        return [← Act.lift .value ((cfg.look pushed).convertToKind (idx % 256))]) := by
  refine .of_perform instr.code (observe_silent instr.code rfl) ⟨cfg.frame.next + 3, rest, ?_⟩
  simp only [Step.perform.eq_def, bind_apply, begun, stack, operand_moved _ _ _ _ instr.word,
    pop_moved, Step.dereference_moved, lift_apply _ cfg.world]
  cases (cfg.look pushed).convertToKind (idx % 256) <;> rfl

theorem yields_box (instr : prog.HasInstruction cfg.frame.next Op.box idx)
    (stack : cfg.frame.stack = val :: rest) :
    Yields host prog cfg (cfg.frame.next + 3) rest [] (pure [val]) := by
  refine .of_put instr.code rfl ?_
  rw [begun, stack]
  exact bind_ok (operand_moved _ _ _ _ instr.word)

theorem yields_unbox (instr : prog.HasInstruction cfg.frame.next Op.unbox idx)
    (present : prog.types[idx]? = some type) (stack : cfg.frame.stack = val :: rest) :
    Yields host prog cfg (cfg.frame.next + 3) rest [] (do return [← Act.unboxed type val]) := by
  refine .of_perform instr.code (observe_silent instr.code rfl) ⟨cfg.frame.next + 3, rest, ?_⟩
  simp only [Step.perform.eq_def, bind_apply, begun, stack,
    entry_moved _ _ _ _ instr.word present, Step.unbox, pop_moved, Act.unboxed]
  split_ifs <;> rfl

theorem yields_castClass (instr : prog.HasInstruction cfg.frame.next Op.castClass idx)
    (present : prog.types[idx]? = some type) (stack : cfg.frame.stack = val :: rest) :
    Yields host prog cfg (cfg.frame.next + 3) rest []
      (do return [← Act.classChecked host type val]) := by
  refine .of_perform instr.code (observe_silent instr.code rfl)
    ⟨cfg.frame.next + 3, val :: rest, ?_⟩
  simp only [Step.perform.eq_def, bind_apply, begun, stack, entry_moved _ _ _ _ instr.word present,
    Step.castClass, Step.peek_moved, Act.classChecked]
  split_ifs <;> rfl

/-! The store of persistent variables. -/

variable {name : Value} {world : World H}

theorem yields_stateGet (instr : prog.HasInstruction cfg.frame.next Op.stateGet idx)
    (present : prog.types[idx]? = some type) (stack : cfg.frame.stack = name :: holder :: rest)
    (isPlain : holder.isPlain) :
    Yields host prog cfg (cfg.frame.next + 3) rest (on (.readState type) holder [name])
      (do return [← Act.readState host type holder name]) := by
  have made : access? prog cfg.frame.next = some (.readState type, true) :=
    (access?_of_instruction instr).trans (congrArg (Option.map _) present)
  have observed := observe_on made [name] stack rfl
  rw [Configuration.look_of_isPlain _ isPlain] at observed
  rw [Act.readState, bind_assoc]
  refine .of_parts Step.stateReference ?_ instr.code observed ?performed
    (Step.stateReference_moved cfg _ rest holder name) (Act.stateKey_world _ _ _)
    ?followed
  case performed =>
    rw [begun, stack]
    refine (bind_ok (entry_moved _ _ _ _ instr.word present)).trans ?_
    rw [Step.stateGet, bind_assoc]
  case followed =>
    rintro ⟨key, _ | _⟩
    · rfl
    · simp only [if_true, bind_apply, get_apply, moved_world]
      cases cfg.world.store.value host.types key type <;> rfl

theorem yields_stateSet (code : prog.code[cfg.frame.next]? = some Op.stateSet.code)
    (stack : cfg.frame.stack = val :: name :: holder :: rest) (isPlain : holder.isPlain) :
    Yields host prog cfg (cfg.frame.next + 1) rest (on .writeState holder [name, val]) (do
        Act.writeState holder name val
        return []) := by
  have made : access? prog cfg.frame.next = some (.writeState, true) := access?_of_code code
  have observed := observe_on made [name, val] stack rfl
  rw [Configuration.look_of_isPlain _ isPlain] at observed
  rw [Act.writeState, bind_assoc]
  refine .of_parts Step.stateReference ?_ code observed ?performed
    (Step.stateReference_moved cfg _ rest holder name) (Act.stateKey_world _ _ _)
    ?followed
  case performed =>
    rw [begun, stack]
    simp only [Step.perform.eq_def, Step.stateSet, bind_assoc]
    exact bind_ok (pop_moved _ _ _ _ val)
  case followed =>
    rintro ⟨key, _ | _⟩
    · rfl
    · simp only [if_true, bind_apply, get_apply, moved_world]
      cases cfg.world.store.put key val <;> rfl

/-! Local variables. -/

variable {slot : Nat}

theorem cycle_storeLocal (instr : prog.HasInstruction cfg.frame.next Op.storeLocal slot)
    (stack : cfg.frame.stack = val :: rest) (inside : slot < cfg.frame.locals.size) :
    Silently host prog cfg <|
      .continues ((cfg.moved (cfg.frame.next + 3) rest cfg.world).stored slot val) := by
  refine .of_perform instr.code rfl ?_
  simp only [Step.perform.eq_def, bind_apply, begun, stack, pop_moved,
    operand_moved _ _ _ _ instr.word, Step.frame, get_apply, pure_apply]
  rw [if_pos (show slot < (cfg.moved _ rest _).frame.locals.size from inside)]
  rfl

theorem cycle_loadLocalAddress (instr : prog.HasInstruction cfg.frame.next Op.loadLocalAddress slot)
    (inside : slot < cfg.frame.locals.size) :
    Silently host prog cfg <| .continues <| cfg.moved (cfg.frame.next + 3)
      (.address { frame := cfg.frame.number, slot, stamp := cfg.frame.operations + 1 } ::
        cfg.frame.stack) cfg.world := by
  refine .of_perform instr.code rfl ?_
  simp only [Step.perform.eq_def, bind_apply, begun, operand_moved _ _ _ _ instr.word, get_apply]
  rw [if_pos (show slot < (cfg.moved _ _ _).frame.locals.size from inside)]
  rfl

/-! Jumps. -/

theorem cycle_jump (instr : prog.HasInstruction cfg.frame.next Op.jump tgt) :
    Silently host prog cfg (.continues (cfg.moved tgt cfg.frame.stack cfg.world)) :=
  .of_perform instr.code rfl (bind_ok (operand_moved _ _ _ _ instr.word))

def jumpOp (wanted : Bool) : Op :=
  if wanted then .jumpIfTrue else .jumpIfFalse

theorem cycle_jumpIf (instr : prog.HasInstruction cfg.frame.next (jumpOp want) tgt)
    (stack : cfg.frame.stack = val :: rest) :
    observe prog cfg = [] ∧
      match Act.boolean host val cfg.world with
      | (.ok chosen, _) =>
        cycle host prog {} cfg = .continues (cfg.moved
              (if chosen = want then tgt else cfg.frame.next + 3) rest
              cfg.world)
      | (.error trouble, world) => Stops host prog cfg trouble world := by
  refine ⟨observe_silent instr.code (by cases want <;> rfl), ?_⟩
  have performed : Step.perform host prog (jumpOp want) cfg.begun =
      match Act.boolean host val cfg.world with
      | (.ok chosen, _) =>
        (.ok false, cfg.moved (if chosen = want then tgt else cfg.frame.next + 3) rest cfg.world)
      | (.error trouble, world) =>
        (.error trouble, cfg.moved (cfg.frame.next + 3) rest world) := by
    cases want <;>
      simp only [jumpOp, Bool.false_eq_true, if_true, if_false, Step.perform.eq_def, bind_apply,
        begun, stack, operand_moved _ _ _ _ instr.word, Step.jumpIf, Step.popBoolean_moved]
    all_goals cases val with
      | bool chosen => cases chosen <;> rfl
      | _ => rfl
  rcases worked : Act.boolean host val cfg.world with ⟨trouble | chosen, world⟩
  · rw [worked] at performed
    exact ⟨jumpOp want, cfg.frame.next + 3, rest, instr.code, performed⟩
  · rw [worked] at performed
    rw [cycle_eq host instr.code, performed]

/-! Regions and the end of an invocation. -/

theorem cycle_tryRegion (instr : prog.HasInstruction cfg.frame.next Op.tryRegion handler) :
    Silently host prog cfg <| .continues
      { frame :=
          { (cfg.moved (cfg.frame.next + 3) cfg.frame.stack cfg.world).frame with
            regions := { start := cfg.frame.next + 3, handler } :: cfg.frame.regions }
        world := cfg.world } :=
  .of_perform instr.code rfl (bind_ok (operand_moved _ _ _ _ instr.word))

theorem cycle_leave_region (instr : prog.HasInstruction cfg.frame.next Op.leave tgt)
    (inside : cfg.frame.regions = region :: outer) (outside : region.contains tgt = false) :
    Silently host prog cfg <| .continues
      { frame :=
          { (cfg.moved region.handler cfg.frame.stack cfg.world).frame with
            regions := outer
            completions :=
              { resumption := .jump tgt, depth := outer.length } :: cfg.frame.completions }
        world := cfg.world } := by
  refine .of_perform instr.code rfl ?_
  simp only [Step.perform.eq_def, bind_apply, begun, operand_moved _ _ _ _ instr.word, Step.leave,
    Step.modifyFrame, modify_apply, moved_regions, inside, outside]
  rfl

theorem cycle_leave_free (instr : prog.HasInstruction cfg.frame.next Op.leave tgt)
    (outside : cfg.frame.regions = []) :
    Silently host prog cfg (.continues (cfg.moved tgt cfg.frame.stack cfg.world)) := by
  refine .of_perform instr.code rfl ?_
  simp only [Step.perform.eq_def, bind_apply, begun, operand_moved _ _ _ _ instr.word, Step.leave,
    Step.modifyFrame, modify_apply, moved_regions, outside, pure_apply]
  simp only [Configuration.moved, outside]

theorem cycle_endFinally_jump (code : prog.code[cfg.frame.next]? = some Op.endFinally.code)
    (pending : cfg.frame.completions = { resumption := .jump tgt, depth } :: completions)
    (outside : cfg.frame.regions = []) :
    Silently host prog cfg <| .continues
      { frame := { (cfg.moved tgt cfg.frame.stack cfg.world).frame with completions }
        world := cfg.world } := by
  refine .of_perform code rfl ?_
  simp only [Step.perform.eq_def, bind_apply, begun, Step.endFinally, Step.frame,
    get_apply, pure_apply, moved_completions, pending, Step.modifyFrame,
    modify_apply, Step.leave, moved_regions, outside]
  simp only [Configuration.moved, outside]

theorem cycle_endFinally_failure (code : prog.code[cfg.frame.next]? = some Op.endFinally.code)
    (pending : cfg.frame.completions = { resumption := .failure fail, depth } :: completions)
    (outside : cfg.frame.regions = []) (isClassified : fail.isClassified) :
    Silently host prog cfg <| .ends (.error fail)
      { frame :=
          { (cfg.moved (cfg.frame.next + 1) cfg.frame.stack cfg.world).frame with completions }
        world := cfg.world } := by
  refine ⟨observe_silent code rfl, ?_⟩
  rw [cycle_eq host code]
  simp only [Step.perform.eq_def, bind_apply, begun, Step.endFinally, Step.frame, get_apply,
    pure_apply, moved_completions, pending, Step.modifyFrame, modify_apply, throw_apply, raise,
    moved_regions, outside, classify, Failure.classifyUnless, isClassified, if_true]
  rfl

theorem cycle_ret (code : prog.code[cfg.frame.next]? = some Op.ret.code) :
    Silently host prog cfg <| .ends (.ok ()) cfg.begun := by
  refine ⟨observe_silent code rfl, ?_⟩
  rw [cycle_eq host code]
  rfl

variable {trouble : Trouble}

theorem Stops.cycle_free (stops : Stops host prog cfg trouble world)
    (outside : cfg.frame.regions = []) :
    ∃ byte pos next stack, cycle host prog {} cfg =
      .ends (.error (classify byte pos trouble)) (cfg.moved next stack world) := by
  obtain ⟨op, next, stack, code, performed⟩ := stops
  refine ⟨op.code, cfg.frame.next, next, stack, ?_⟩
  rw [cycle_eq host code, performed]
  simp only [raise, moved_regions, outside, moved_position]

theorem Stops.cycle_region (stops : Stops host prog cfg trouble world)
    (inside : cfg.frame.regions = region :: outer) (idle : cfg.frame.completions = []) :
    ∃ byte pos, cycle host prog {} cfg = .continues
        { frame :=
            { (cfg.moved region.handler [] world).frame with
              regions := outer
              completions :=
                [{ resumption := .failure (classify byte pos trouble),
                   depth := outer.length }] }
          world } := by
  obtain ⟨op, _, _, code, performed⟩ := stops
  refine ⟨op.code, cfg.frame.next, ?_⟩
  rw [cycle_eq host code, performed]
  simp only [raise, moved_regions, inside, moved_position, moved_completions, idle, dropWhile_nil]
  rfl

end Instructions

end Machine

end HostScript
