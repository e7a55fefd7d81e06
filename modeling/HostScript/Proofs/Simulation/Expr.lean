import HostScript.Proofs.Simulation.Carries

namespace HostScript.Simulation

open Machine Evaluation Emission
open Ty (ne_void_of_isData)
open Typed (Expr Rules)
open Bool (false_eq_true)
open Draft (wrote wroteAll_leads wrote_leads wrote_proper)
open Kept (moved refl)
open List
open Regime (plain)
open Value (int32)

/-!
# Code of expressions carries out their evaluation

For each way in which the code of an expression is put together, the code carries out the
evaluation if the code of its parts does.
-/

section

variable {env : Setting H} {slots : Array Value} {draft after : Draft}
  {cfg : Configuration H}

/-- What is left of a value on the stack: nothing, if there is none. -/
def pushed (type : Ty) (value : Value) : List Value :=
  if type = .void then [] else [value]

variable {type : Ty}

theorem pushed_eq (holdsValues : type ≠ .void) (value : Value) : pushed type value = [value] :=
  if_neg holdsValues

variable {given : Value}

theorem eq_pushed (holdsValues : type ≠ .void) (same : stack = given :: rest) :
    stack = pushed type given ++ rest := by
  rw [same, pushed_eq holdsValues]
  rfl

/-- What an expression of a type leaves at the end of a draft. -/
abbrev Leaves (env : Setting H) (slots : Array Value) (draft : Draft) (type : Ty)
    (rest : List Value) (given : Value) (last : Configuration H) : Prop :=
  Ready env slots draft last ∧ last.frame.stack = pushed type given ++ rest ∧ given.isPlain = true

theorem Carries.asPushed (carries : Carries env owned cfg evaluated (Gives env slots after rest))
    (holdsValues : type ≠ .void) :
    Carries env owned cfg evaluated (Leaves env slots after type rest) :=
  carries.imp fun _ _ _ ⟨readyLast, stack, isPlain⟩ =>
    ⟨readyLast, eq_pushed holdsValues stack, isPlain⟩

def Simulated (env : Setting H) (slots : Array Value) (draft after : Draft)
    (cfg : Configuration H) : Item → Prop
  | .one expression =>
    expression.Sound Rules.valued env.types env.locals →
    Carries env draft.Owns cfg (value env.host env.types slots expression)
      (Leaves env slots after expression.type cfg.frame.stack)
  | .many expressions =>
    ∀ wanted, Expr.AllSound Rules.valued env.types env.locals expressions wanted →
    (∀ type ∈ wanted, type.isData = true) →
    Carries env draft.Owns cfg (values env.host env.types slots expressions) fun given last =>
        Ready env slots after last ∧ last.frame.stack = given.reverse ++ cfg.frame.stack ∧
          List.Forall₂ ((Regime.plain env.clear).fits ()) wanted given
  | .elements slot index expressions =>
    ∀ list wanted, Expr.AllSound Rules.valued env.types env.locals expressions wanted →
    (∀ type ∈ wanted, type.isData = true) →
    cfg.frame.locals[slot]? = some list → ¬draft.Owns slot → list.isPlain = true →
    Carries env draft.Owns cfg
      (listed env.host env.types slots list index expressions) fun _ last =>
        Ready env slots after last ∧ last.frame.stack = cfg.frame.stack
  | .receiver target isImmediate _ =>
    target.Sound Rules.valued env.types env.locals → target.type.isData = true →
    Carries env draft.Owns cfg (value env.host env.types slots target) fun given last =>
        Ready env slots after last ∧ given.isPlain = true ∧
          ∃ standing, last.frame.stack = standing :: cfg.frame.stack ∧
            ∀ later, Kept (fun slot => isImmediate = false ∧ after.Owns slot) last later →
              later.look standing = given

/-- The code of an item carries out its evaluation, wherever it is ready to run. -/
def Simulates (env : Setting H) (slots : Array Value) (item : Item) (draft after : Draft) : Prop :=
  env.Written after → ∀ cfg, Ready env slots draft cfg →
      Simulated env slots draft after cfg item

variable {second : Draft}

theorem Carries.within (leads : draft.Leads second)
    (carries : Carries env second.Owns cfg evaluated suits) :
    Carries env draft.Owns cfg evaluated suits :=
  carries.mono leads.owns fun _ _ _ suited => suited

/-- The code of an item is written between two drafts, and carries out its evaluation. -/
structure Coded (env : Setting H) (slots : Array Value) (item : Item)
    (draft after : Draft) : Prop where
  code : Code env.types item draft after
  simulates : Simulates env slots item draft after

namespace Coded

theorem grows (coded : Coded env slots item draft after) : draft.Grows env.locals.size after :=
  (coded.code.grows _).1

theorem carries (coded : Coded env slots (.one arg) draft after)
    (ready : Ready env slots draft cfg)
    (written : env.Written after) (sound : arg.Sound Rules.valued env.types env.locals)
    (holdsValues : arg.type ≠ .void) :
    Carries env draft.Owns cfg (value env.host env.types slots arg)
      (Gives env slots after cfg.frame.stack) :=
  (coded.simulates written cfg ready sound).imp
    fun given _ _ ⟨readyLast, stackLast, isPlain⟩ =>
      ⟨readyLast, stackLast.trans (by rw [pushed_eq holdsValues]; rfl), isPlain⟩

/-- Code after that of an expression finds the value on the stack. -/
theorem bind (coded : Coded env slots (.one arg) draft second)
    (ready : Ready env slots draft cfg)
    (more : second.Grows env.locals.size after) (written : env.Written after)
    (sound : arg.Sound Rules.valued env.types env.locals) (holdsValues : arg.type ≠ .void)
    (rest : ∀ given mid, Kept draft.Owns cfg mid → Ready env slots second mid →
      mid.frame.stack = given :: cfg.frame.stack →
      given.isPlain → Carries env second.Owns mid (cont given) suits) :
    Carries env draft.Owns cfg (value env.host env.types slots arg >>= cont) suits := by
  obtain ⟨secondProper, leads⟩ := coded.grows ready.proper
  exact (coded.carries ready (written.earlier (more secondProper).2) sound holdsValues).bind
    fun given mid kept ⟨readyMid, stack, isPlain⟩ =>
      .within leads (rest given mid kept readyMid stack isPlain)

theorem bindAll (coded : Coded env slots (.many operands) draft second)
    (ready : Ready env slots draft cfg)
    (more : second.Grows env.locals.size after) (written : env.Written after)
    (sound : Expr.AllSound Rules.valued env.types env.locals operands want)
    (data : ∀ type ∈ want, type.isData)
    (rest : ∀ given mid, Ready env slots second mid →
      mid.frame.stack = given.reverse ++ cfg.frame.stack →
      List.Forall₂ ((plain env.clear).fits ()) want given →
      Carries env second.Owns mid (cont given) suits) :
    Carries env draft.Owns cfg (values env.host env.types slots operands >>= cont) suits := by
  obtain ⟨secondProper, leads⟩ := coded.grows ready.proper
  exact (coded.simulates (written.earlier (more secondProper).2) cfg ready want sound
    data).bind fun given mid _ ⟨readyMid, stack, fit⟩ =>
      .within leads (rest given mid readyMid stack fit)

end Coded

theorem Ready.yields_constant (ready : Ready env slots draft cfg)
    (written : env.Written (draft.wrote (.constant constant))) :
    Yields env.host env.program cfg
      (cfg.frame.next + (Directive.constant constant).size) cfg.frame.stack
      [] (pure [constant]) := by
  obtain ⟨_, _, asm, pos, _, split⟩ := ready.located written
  by_cases isNull : constant = .null
  · subst isNull
    have code := Assembly.assembled_null asm
    rw [← pos] at code
    exact .of_put code rfl rfl
  · obtain ⟨_, found, instr, present, origin⟩ := Assembly.assembled_constant isNull asm
    have same : found = constant := by
      rcases origin with same | ⟨prev, alike⟩
      · exact same
      · refine (env.coherent constant found ?_ ?_ alike).symm
        · rw [← split]
          exact mem_append_right _ mem_cons_self
        · rw [← split]
          exact mem_append_left _ prev
    subst same
    rw [← pos] at instr
    have size : (Directive.constant found).size = 3 := by
      cases found <;> first | rfl | exact absurd rfl isNull
    rw [size]
    exact Machine.yields_constant env.host instr present

variable {slot : Nat}

theorem Ready.yields_local (ready : Ready env slots draft cfg)
    (written : env.Written (draft.wrote (.slot Op.loadLocal slot)))
    (present : cfg.frame.locals[slot]? = some held) :
    Yields env.host env.program cfg (cfg.frame.next + 3) cfg.frame.stack [] (pure [held]) := by
  have instr := written.emitted.slot
  rw [← ready.next] at instr
  exact yields_loadLocal env.host instr present

theorem carries_constant (type : Ty) (holdsValues : type ≠ .void) (isPlain : constant.isPlain)
    (ready : Ready env slots draft cfg) (written : env.Written (draft.wrote (.constant constant))) :
    Carries env owned cfg (pure constant)
      (Leaves env slots (draft.wrote (.constant constant)) type cfg.frame.stack) := by
  refine .push ready (.constant constant) (ready.yields_constant written) ?_
  intro last readyLast stack _ _ _
  exact .pure ⟨readyLast, eq_pushed holdsValues stack, isPlain⟩

theorem carries_self (ready : Ready env slots draft cfg)
    (written : env.Written (draft.wrote (.plain Op.loadHost))) :
    Carries env owned cfg self
      (Gives env slots (draft.wrote (.plain Op.loadHost)) cfg.frame.stack) := by
  intro _
  have code := written.emitted.plain
  rw [← ready.next] at code
  have yields := yields_loadHost env.host code
  have run := Runs.single (yields.continues _ cfg.world rfl)
  rw [yields.observed] at run
  refine ⟨1, [], _, run, ?_, moved _ _ _ _,
    ready.wrote (.plain Op.loadHost) rfl rfl ready.plain, rfl, ?_⟩
  · rw [append_nil]
    rfl
  · split <;> rfl

theorem simulates_literal :
    Simulates env slots (.one (.literal off literal)) draft
      (draft.wrote (.constant literal.value)) := by
  intro written _ ready _
  rw [value_literal]
  have holdsValues : literal.type ≠ .void := by cases literal <;> exact Ty.noConfusion
  exact carries_constant _ holdsValues (by cases literal <;> rfl) ready written

theorem Ready.variable (ready : Ready env slots draft cfg) (sizes : slots.size = env.locals.size)
    (plain : ∀ given ∈ slots, given.isPlain) (inLocals : slot < env.locals.size) :
    cfg.frame.locals[slot]? = some (slots.getD slot .null) ∧ (slots.getD slot .null).isPlain := by
  have inSlots : slot < slots.size := sizes ▸ inLocals
  have known : slots.getD slot .null = slots[slot] := by
    rw [Array.getD_eq_getD_getElem?, Array.getElem?_eq_getElem inSlots]
    rfl
  rw [known, ready.slots _ inLocals, Array.getElem?_eq_getElem inSlots]
  exact ⟨rfl, plain _ (Array.getElem_mem inSlots)⟩

theorem simulates_localVariable (sizes : slots.size = env.locals.size)
    (plain : ∀ given ∈ slots, given.isPlain) :
    Simulates env slots (.one (.reference off name (some (.variable decl)))) draft
      (draft.wrote (.slot Op.loadLocal decl.slot)) := by
  intro written cfg ready sound
  obtain ⟨present, isPlain⟩ :=
    ready.variable sizes plain (Array.getElem?_eq_some_iff.mp sound.1).1
  rw [value]
  refine .push ready (.slot Op.loadLocal decl.slot) (ready.yields_local written present) ?_
  intro _ readyLast stack _ _ _
  exact .pure ⟨readyLast, eq_pushed (ne_void_of_isData sound.2) stack, isPlain⟩

theorem simulates_fieldConstant (isConstant : field.literal = some constant) :
    Simulates env slots (.one (.reference off name (some (.field fieldName field)))) draft
      (draft.wrote (.constant constant)) := by
  intro written _ ready sound
  simp only [value, readField, isConstant]
  exact carries_constant _ (ne_void_of_isData sound.1) (sound.2 constant isConstant) ready written

theorem simulates_fieldShared (isVariable : field.literal = none) (isShared : field.shared) :
    Simulates env slots (.one (.reference off name (some (.field fieldName field)))) draft
      (draft.wrote (.field Op.loadStaticField field)) := by
  intro written _ ready sound
  simp only [value, readField, isVariable, isShared, if_true]
  exact .asPushed (.apart ready written (.loadField false field) rfl
    (env.guards.loadField rfl sound.2)) (ne_void_of_isData sound.1)

theorem simulates_fieldOwn (isVariable : field.literal = none) (isOwn : field.shared = false) :
    Simulates env slots (.one (.reference off name (some (.field fieldName field)))) draft
      ((draft.wrote (.plain Op.loadHost)).wrote (.field Op.loadField field)) := by
  intro written _ ready sound
  simp only [value, readField, isVariable, isOwn, false_eq_true, if_false]
  refine (carries_self ready (written.earlier (wrote_leads _ _))).bind ?_
  rintro _ mid _ ⟨readyMid, stackMid, recvPlain⟩
  exact .asPushed (.on readyMid written (.loadField true field) stackMid
    (mid.look_of_isPlain recvPlain)
    (env.guards.loadField recvPlain sound.2)) (ne_void_of_isData sound.1)

/-! Calls and operations on operands that are on the stack. -/

theorem pushed_result (meth : Method) (res : Value) :
    pushed meth.type (if meth.returnsValue then res else .null) =
      if meth.returnsValue then [res] else [] := by
  rw [Method.returnsValue_eq]
  unfold pushed
  by_cases isVoid : meth.type = .void <;> simp [isVoid]

variable {meth : Method}

theorem Carries.asResult {called}
    (carries : Carries env owned cfg called fun res last =>
      Ready env slots after last ∧
        last.frame.stack = (if meth.returnsValue then [res] else []).reverse ++ rest ∧
        res.isPlain) :
    Carries env owned cfg
      (called >>= fun res => Pure.pure (if meth.returnsValue then res else .null))
      (Leaves env slots after meth.type rest) := by
  refine carries.bind fun res last _ ⟨readyLast, stackLast, isPlain⟩ =>
    Carries.pure ⟨readyLast, ?_, ?_⟩
  · rw [pushed_result, stackLast]
    cases meth.returnsValue <;> rfl
  · split
    · exact isPlain
    · rfl

theorem carries_callStatic (ready : Ready env slots draft cfg)
    (written : env.Written (draft.wrote (.method Op.call meth)))
    (stack : cfg.frame.stack = operands.reverse ++ rest)
    (fit : List.Forall₂ ((plain env.clear).fits ()) meth.params operands) :
    Carries env owned cfg (callStatic env.host meth operands)
      (Leaves env slots (draft.wrote (.method Op.call meth)) meth.type rest) := by
  exact .asResult (.apart ready written (.call false fit.length_eq.symm) stack
    (env.guards.call rfl (isPlain_of_fit fit) meth))

variable {standing : Value}

theorem carries_callOn (ready : Ready env slots draft cfg)
    (written : env.Written (draft.wrote (.method Op.callVirtual meth)))
    (stack : cfg.frame.stack = operands.reverse ++ standing :: rest)
    (looks : cfg.look standing = recv) (recvPlain : recv.isPlain)
    (fit : List.Forall₂ ((plain env.clear).fits ()) meth.params operands) :
    Carries env owned cfg (callOn env.host meth recv operands)
      (Leaves env slots (draft.wrote (.method Op.callVirtual meth)) meth.type rest) := by
  exact .asResult (.on ready written (.call true fit.length_eq.symm) stack looks
    (env.guards.call recvPlain (isPlain_of_fit fit) meth))

variable {third : Draft}

theorem simulates_overload (onLeft : Coded env slots (.one left) draft second)
    (onRight : Coded env slots (.one right) second third) :
    Simulates env slots (.one (.operator off op left right (some meth) type)) draft
      (third.wrote (.method Op.call meth)) := by
  rintro written _ ready ⟨leftSound, rightSound, allowed, params, rfl⟩
  have data := allowed.2
  rw [params] at data
  simp only [value]
  refine onLeft.bind ready (onRight.grows.wrote _) written leftSound
    (ne_void_of_isData (data _ (by simp)))
    fun _ _ _ readyMid stackMid firstPlain => ?_
  refine onRight.bind readyMid .one written rightSound
    (ne_void_of_isData (data _ (by simp)))
    fun second _ _ readyLast stackLast secondPlain => ?_
  rw [stackMid] at stackLast
  refine carries_callStatic readyLast written stackLast ?_
  rw [params]
  exact .cons firstPlain (.cons secondPlain .nil)

/-- The opposite of a result: that of a boolean. -/
def opposite (result : Except ArithmeticFault Value) : Except ArithmeticFault Value :=
  match result with
  | .ok (.bool decided) => .ok (.bool !decided)
  | other => other

variable {op : Operator}

theorem operatorDirectives_cases (isBinary : operatorDirectives? op = some ds) :
    ∃ (operation : Op) (compute : Value → Value → Except ArithmeticFault Value),
      operation.binary? = some compute ∧ (ds = [.plain operation] ∧ op.compute? = some compute ∨
          ds = [.plain operation, .plain Op.complement] ∧
            op.compute? = some (fun left right => opposite (compute left right)) ∧
            ∀ left right res, compute left right = .ok res → ∃ decided, res = .bool decided) := by
  have ordered : ∀ (want : Ordering) (left right res : Value),
      (do return .bool ((← left.order right) == want) : Except ArithmeticFault Value) =
        .ok res → ∃ decided, res = .bool decided := by
    intro want left right res done
    obtain ⟨_, _, same⟩ := ok_of_bind done
    exact ⟨_, (Except.ok.inj same).symm⟩
  have reversed : ∀ want : Ordering,
      (fun (left right : Value) => (do return .bool !((← left.order right) == want) :
        Except ArithmeticFault Value)) =
      fun left right => opposite (do return .bool ((← left.order right) == want)) := by
    intro want
    funext left right
    cases left.order right <;> rfl
  cases op <;> cases isBinary
  case notEqual =>
    exact ⟨.equal, _, rfl, .inr ⟨rfl, rfl, fun _ _ _ same => ⟨_, (Except.ok.inj same).symm⟩⟩⟩
  case lessEqual =>
    exact ⟨.greater, _, rfl, .inr ⟨rfl, congrArg some (reversed .gt), ordered .gt⟩⟩
  case greaterEqual =>
    exact ⟨.less, _, rfl, .inr ⟨rfl, congrArg some (reversed .lt), ordered .lt⟩⟩
  case add => exact ⟨.add, _, rfl, .inl ⟨rfl, rfl⟩⟩
  case subtract => exact ⟨.subtract, _, rfl, .inl ⟨rfl, rfl⟩⟩
  case multiply => exact ⟨.multiply, _, rfl, .inl ⟨rfl, rfl⟩⟩
  case divide => exact ⟨.divide, _, rfl, .inl ⟨rfl, rfl⟩⟩
  case modulo => exact ⟨.remainder, _, rfl, .inl ⟨rfl, rfl⟩⟩
  case bitAnd => exact ⟨.bitAnd, _, rfl, .inl ⟨rfl, rfl⟩⟩
  case bitOr => exact ⟨.bitOr, _, rfl, .inl ⟨rfl, rfl⟩⟩
  case equal => exact ⟨.equal, _, rfl, .inl ⟨rfl, rfl⟩⟩
  case less => exact ⟨.less, _, rfl, .inl ⟨rfl, rfl⟩⟩
  case greater => exact ⟨.greater, _, rfl, .inl ⟨rfl, rfl⟩⟩

variable {operation : Op}

theorem isPlain_of_binary {left right res} (known : operation.binary? = some compute)
    (done : compute left right = .ok res) : res.isPlain := by
  have ordered : ∀ want : Ordering,
      (do return .bool ((← left.order right) == want) : Except ArithmeticFault Value) =
        .ok res → res.isPlain := by
    intro want done
    obtain ⟨_, _, same⟩ := ok_of_bind done
    exact Except.ok.inj same ▸ rfl
  cases operation <;> cases known
  case equal => exact Except.ok.inj done ▸ rfl
  case greater => exact ordered .gt done
  case less => exact ordered .lt done
  all_goals exact Value.isPlain_of_arithmetic done

theorem carries_binary (known : operation.binary? = some compute)
    (ready : Ready env slots draft cfg) (written : env.Written (draft.wrote (.plain operation)))
    (stack : cfg.frame.stack = right :: left :: rest) :
    Carries env owned cfg (quietly (Act.lift .arithmetic (compute left right)))
      (Gives env slots (draft.wrote (.plain operation)) rest) := by
  have code := written.emitted.plain
  rw [← ready.next] at code
  exact .value ready (.plain operation) (yields_binary env.host known code stack)
    (.lift fun _ done => isPlain_of_binary known done)

theorem carries_complement (ready : Ready env slots draft cfg)
    (written : env.Written (draft.wrote (.plain Op.complement)))
    (stack : cfg.frame.stack = given :: rest) :
    Carries env owned cfg (do return .bool !(← quietly (Act.boolean env.host given)))
      (Gives env slots (draft.wrote (.plain Op.complement)) rest) := by
  have code := written.emitted.plain
  rw [← ready.next] at code
  have keeps : Act.Plain env.clear (.boolean env.host given) fun _ => True :=
    .of fun _ holds => ⟨by cases given <;> exact holds, fun _ _ => trivial⟩
  exact (Carries.instruction ready (.plain Op.complement) (fun _ => [])
    (fun decided => [.bool !decided]) (yields_complement env.host code stack) keeps).bind
    fun decided last _ ⟨readyLast, stackLast, _⟩ => .pure ⟨readyLast, stackLast, rfl⟩

theorem operation_holdsValues (sound : Typed.OperationSound Rules.valued op left right type) :
    left ≠ .void ∧ right ≠ .void ∧ type ≠ .void := by
  have truthful : ∀ {actual}, Rules.valued.Fits actual .bool → actual ≠ .void :=
    fun fits => ne_void_of_isData (Rules.valued_proper.isData_of_fits fits rfl)
  unfold Typed.OperationSound at sound
  split at sound
  · obtain ⟨first, second, rfl⟩ := sound
    exact ⟨truthful first, truthful second, Ty.noConfusion⟩
  · rcases sound with ⟨first, second, _, rfl⟩ | ⟨_, rfl, rfl, rfl, _⟩
    · refine ⟨?_, ?_, Ty.noConfusion⟩ <;> rintro rfl
      · exact nomatch first
      · exact nomatch second
    · refine ⟨Ty.noConfusion, Ty.noConfusion, ?_⟩
      split <;> exact Ty.noConfusion

theorem simulates_operator (isStrict : ¬(op = .both ∨ op = .either))
    (isBinary : operatorDirectives? op = some ds)
    (onLeft : Coded env slots (.one left) draft second)
    (onRight : Coded env slots (.one right) second third) :
    Simulates env slots (.one (.operator off op left right none type)) draft
      (third.wroteAll ds) := by
  rintro written _ ready ⟨leftSound, rightSound, operation⟩
  obtain ⟨leftValues, rightValues, typeValues⟩ := operation_holdsValues operation
  simp only [value, isStrict, if_false]
  refine onLeft.bind ready (onRight.grows.wroteAll _) written leftSound leftValues
    fun first _ _ readyMid stackMid _ => ?_
  refine onRight.bind readyMid (.wroteAll (.refl _ _) _) written rightSound
    rightValues fun second _ _ readyLast stackLast _ => ?_
  rw [stackMid] at stackLast
  obtain ⟨_, compute, known, ⟨rfl, computes⟩ | ⟨rfl, computes, decides⟩⟩ :=
    operatorDirectives_cases isBinary
  · simp only [computes]
    exact (carries_binary known readyLast written stackLast).asPushed typeValues
  · -- the complement of a boolean is the opposite of the comparison
    have split : (quietly (Act.lift .arithmetic (opposite (compute first second))) :
        Evaluator H Value) = do
          let decided ← quietly (Act.lift .arithmetic (compute first second))
          return .bool !(← quietly (Act.boolean env.host decided)) := by
      cases computed : compute first second with
      | error _ => rfl
      | ok _ =>
        obtain ⟨decided, rfl⟩ := decides _ _ _ computed
        funext scene
        simp [quietly, act, Act.lift, opposite, bind_apply, map_apply, pure_apply, Act.boolean]
    simp only [computes]
    rw [split]
    refine (carries_binary known readyLast (written.earlier (wrote_leads _ _)) stackLast).bind ?_
    rintro decided _ _ ⟨readyBetween, stackBetween, _⟩
    exact (carries_complement readyBetween written stackBetween).asPushed typeValues

theorem simulates_unary (onOperand : Coded env slots (.one arg) draft second) :
    Simulates env slots (.one (.unary off op arg type)) draft
      (second.wrote (.plain (Op.code (if op = .negate then .negate else .complement)))) := by
  rintro written _ ready ⟨operandSound, either⟩
  have holdsValues : arg.type ≠ .void := by
    rcases either with ⟨_, isValue, _⟩ | ⟨_, fits, _⟩
    · exact ne_void_of_isData (Ty.isData_of_isValue isValue)
    · exact ne_void_of_isData (Rules.valued_proper.isData_of_fits fits rfl)
  simp only [value]
  refine onOperand.bind ready .one written operandSound holdsValues
    fun _ _ _ readyMid stackMid _ => ?_
  rcases either with ⟨rfl, _, rfl⟩ | ⟨rfl, _, rfl⟩
  · have code := written.emitted.plain
    rw [← readyMid.next] at code
    exact (Carries.value readyMid (.plain Op.negate) (yields_negate env.host code stackMid)
      (.lift fun _ done => Value.isPlain_of_negated done)).asPushed holdsValues
  · exact (carries_complement readyMid written stackMid).asPushed Ty.noConfusion

theorem quietly_pure (given : α) : (quietly (pure given) : Evaluator H α) = pure given := by
  funext scene
  simp [quietly, act, pure_apply]

theorem number_mod (kind : Kind) : kind.number % 65536 % 256 = kind.number := by
  have small : kind.number < 18 := by
    rcases kind with _ | (_ | kind | kind) | _ | _ | _ | _ | _ <;> try decide
    all_goals cases kind <;> decide
  omega

theorem carries_cast (ready : Ready env slots draft cfg)
    (written : env.Written (draft.wroteAll (castDirectives env.types src tgt)))
    (stack : cfg.frame.stack = given :: rest) (isPlain : given.isPlain) :
    Carries env owned cfg (quietly (converted env.host env.types src tgt given))
      (Gives env slots (draft.wroteAll (castDirectives env.types src tgt)) rest) := by
  revert written
  unfold castDirectives converted
  split
  · intro written
    obtain ⟨idx, instr, present⟩ := written.emitted.type
    rw [← ready.next] at instr
    rw [quietly_pure]
    refine .push ready (.type Op.box src) (yields_box env.host instr stack) ?_
    intro last readyLast stackLast _ _ _
    exact .pure ⟨readyLast, stackLast, isPlain⟩
  · split
    · intro written
      obtain ⟨idx, instr, present⟩ := written.emitted.type
      rw [← ready.next] at instr
      refine .value ready (.type Op.unbox tgt) (yields_unbox env.host instr present stack) ?_
      unfold Act.unboxed
      split
      · exact .fail _
      · split
        · exact .pure isPlain
        · exact .fail _
    · split
      · split
        · intro _
          rw [quietly_pure]
          exact .pure ⟨ready, stack, isPlain⟩
        · intro written
          obtain ⟨idx, instr, present⟩ := written.emitted.type
          rw [← ready.next] at instr
          refine .value ready (.type Op.castClass tgt)
            (yields_castClass env.host instr present stack) ?_
          unfold Act.classChecked
          split
          · exact .pure isPlain
          · exact .fail _
      · intro written
        have instr := written.emitted.convert
        rw [← ready.next] at instr
        have yields := yields_convert env.host instr stack
        rw [cfg.look_of_isPlain isPlain, number_mod] at yields
        exact .value ready (.convert (env.types.kind tgt).number) yields
          (.lift fun _ done => Value.isPlain_of_convertToKind done)

theorem simulates_cast (onOperand : Coded env slots (.one arg) draft second) :
    Simulates env slots (.one (.cast off name tgt arg)) draft
      (second.wroteAll (castDirectives env.types arg.type tgt)) := by
  rintro written _ ready ⟨operandSound, operandData, tgtData, _⟩
  simp only [value]
  refine onOperand.bind ready (.wroteAll (.refl _ _) _) written operandSound
    (ne_void_of_isData operandData) fun _ _ _ readyMid stackMid isPlain => ?_
  exact (carries_cast readyMid written stackMid isPlain).asPushed (ne_void_of_isData tgtData)

theorem pushed_of_fits (fits : Rules.valued.Fits actual want) (given : Value) :
    pushed actual given = pushed want given := by
  rcases fits with rfl | ⟨rfl, truthful⟩
  · rfl
  · rw [pushed_eq (ne_void_of_isData truthful), pushed_eq Ty.noConfusion]

theorem labels_le {count : Nat} {first second : Draft} (leads : first.Leads second)
    (firstProper : first.Proper count) : first.nextLabel ≤ Directive.labels second.directives :=
  firstProper.labels ▸ labels_le_of_suffix leads.directives

theorem carries_decision {cond second place label} (want : Bool)
    (simulatesCondition : Simulates env slots (.one cond) draft second)
    (proper : place.Proper env.locals.size) (ready : Ready env slots draft cfg)
    (written : env.Written (second.wrote (.jump (jumpOp want) label)))
    (marked : Assembly.target? env.directives label = some (Directive.extent place.directives))
    (sound : cond.Sound Rules.valued env.types env.locals)
    (fits : Rules.valued.Fits cond.type .bool) :
    Carries env draft.Owns cfg (value env.host env.types slots cond >>= fun given =>
        quietly (Act.boolean env.host given)) fun decided last =>
        last.frame.stack = cfg.frame.stack ∧ Ready env slots
            (if decided = want then place else second.wrote (.jump (jumpOp want) label))
            last := by
  refine (simulatesCondition (written.earlier (wrote_leads _ _)) cfg ready
    sound).bind fun given _ _ ⟨readyMid, stackMid, _⟩ => ?_
  rw [pushed_eq (ne_void_of_isData (Rules.valued_proper.isData_of_fits fits rfl))] at stackMid
  refine (Carries.jumpIf want readyMid written marked stackMid).imp fun decided last _ shape => ?_
  subst shape
  refine ⟨rfl, ?_⟩
  by_cases decides : decided = want
  · simp only [decides, if_true]
    exact readyMid.elsewhere proper rfl rfl rfl
  · simp only [decides, if_false]
    exact readyMid.wrote _ rfl rfl readyMid.plain

/--
The drafts of a choice: a condition and a jump, a part that ends by jumping over the other one,
and that other part.
-/
structure Choice (env : Setting H) (op : Op) (draft second third fourth : Draft) : Prop where
  conditionLeads : draft.Leads ((draft.wrote .defineLabel).wrote .defineLabel)
  firstLeads : draft.Leads (second.wrote (.jump op draft.nextLabel))
  jumpWritten : env.Written (second.wrote (.jump op draft.nextLabel))
  firstWritten : env.Written third
  exitWritten : env.Written (third.wrote (.jump Op.jump (draft.nextLabel + 1)))
  exitProper : Draft.Proper env.locals.size (third.wrote (.jump Op.jump (draft.nextLabel + 1)))
  otherLeads : draft.Leads
    ((third.wrote (.jump Op.jump (draft.nextLabel + 1))).wrote (.mark draft.nextLabel))
  otherWritten : env.Written fourth
  otherProper : fourth.Proper env.locals.size
  otherMarked : Assembly.target? env.directives draft.nextLabel =
    some (Directive.extent (third.wrote (.jump Op.jump (draft.nextLabel + 1))).directives)
  exitMarked : Assembly.target? env.directives (draft.nextLabel + 1) =
    some (Directive.extent fourth.directives)

theorem Choice.of_grows {op : Op} {fourth : Draft} (proper : draft.Proper env.locals.size)
    (conditionGrows : Draft.Grows env.locals.size
      ((draft.wrote .defineLabel).wrote .defineLabel) second)
    (firstGrows : Draft.Grows env.locals.size (second.wrote (.jump op draft.nextLabel)) third)
    (otherGrows : Draft.Grows env.locals.size
      ((third.wrote (.jump Op.jump (draft.nextLabel + 1))).wrote (.mark draft.nextLabel)) fourth)
    (written : env.Written (fourth.wrote (.mark (draft.nextLabel + 1)))) :
    Choice env op draft second third fourth := by
  have labelled := wrote_proper (wrote_proper proper .defineLabel) .defineLabel
  obtain ⟨secondProper, conditionLeads⟩ := conditionGrows labelled
  obtain ⟨thirdProper, firstLeads⟩ := firstGrows (wrote_proper secondProper _)
  have exitProper := wrote_proper thirdProper (.jump Op.jump (draft.nextLabel + 1))
  obtain ⟨otherProper, otherLeads⟩ := otherGrows (wrote_proper exitProper _)
  have labels := (wrote_leads draft .defineLabel).trans
    (wrote_leads (draft.wrote .defineLabel) .defineLabel)
  have upToFirst := conditionLeads.trans (wrote_leads second (.jump op draft.nextLabel))
  have upToOther := (upToFirst.trans firstLeads).trans
    ((wrote_leads third (.jump Op.jump (draft.nextLabel + 1))).trans
      (wrote_leads _ (.mark draft.nextLabel)))
  have fourthWritten := written.earlier (wrote_leads fourth _)
  have otherWritten := fourthWritten.earlier otherLeads
  have exitWritten := otherWritten.earlier (wrote_leads _ _)
  have thirdWritten := exitWritten.earlier (wrote_leads third _)
  have known : draft.nextLabel + 2 ≤ Directive.labels third.directives :=
    labels_le (upToFirst.trans firstLeads) labelled
  have knownLater : draft.nextLabel + 2 ≤ Directive.labels fourth.directives :=
    labels_le (upToOther.trans otherLeads) labelled
  refine ⟨labels, labels.trans upToFirst, thirdWritten.earlier firstLeads, thirdWritten,
    exitWritten, exitProper, labels.trans upToOther, fourthWritten, otherProper,
    otherWritten.target ?_, written.target (by omega)⟩
  simp only [wrote, Directive.labels_cons]
  omega

/-- A part that is chosen ends behind the other one. -/
theorem Choice.runs_first {op : Op} {fourth : Draft} {part : Expr} {suits : Value → List Value}
    (choice : Choice env op draft second third fourth)
    (simulates : Simulates env slots (.one part) (second.wrote (.jump op draft.nextLabel)) third)
    (ready : Ready env slots (second.wrote (.jump op draft.nextLabel)) cfg)
    (sound : part.Sound Rules.valued env.types env.locals)
    (same : ∀ given, pushed part.type given ++ cfg.frame.stack = suits given) :
    Carries env draft.Owns cfg (value env.host env.types slots part) fun given final =>
      Ready env slots (fourth.wrote (.mark (draft.nextLabel + 1))) final ∧
        final.frame.stack = suits given ∧ given.isPlain := by
  refine (Carries.within choice.firstLeads (simulates choice.firstWritten _
    ready sound)).andThen fun given _ _ ⟨readyMid, stackMid, isPlain⟩ => ?_
  refine Carries.after (readyMid.runs_jump choice.exitWritten choice.exitMarked) rfl
    (moved _ _ _ _) (.pure ⟨?_, ?_, isPlain⟩)
  · exact readyMid.elsewhere (wrote_proper choice.otherProper _) (by simp [Draft.wrote]) rfl rfl
  · rw [Configuration.moved_stack, stackMid, same]

theorem simulates_shortCircuit (isLogical : op = .both ∨ op = .either)
    (onLeft : Coded env slots (.one left) ((draft.wrote .defineLabel).wrote .defineLabel) second)
    (onRight : Coded env slots (.one right) (second.wrote
        (.jump (if op = .either then Op.jumpIfTrue else Op.jumpIfFalse) draft.nextLabel)) third) :
    Simulates env slots (.one (.operator off op left right none type)) draft (third.wroteAll
        [.jump Op.jump (draft.nextLabel + 1), .mark draft.nextLabel,
          .constant (.bool (op = .either)), .mark (draft.nextLabel + 1)]) := by
  intro written _ ready sound
  simp only [Expr.Sound, Typed.OperationSound, isLogical, if_true] at sound
  obtain ⟨leftSound, rightSound, leftFits, rightFits, rfl⟩ := sound
  have jumpShape : (Directive.jump (if op = .either then Op.jumpIfTrue else Op.jumpIfFalse)
      draft.nextLabel) = .jump (jumpOp (decide (op = .either))) draft.nextLabel := by
    rcases isLogical with rfl | rfl <;> rfl
  rw [jumpShape] at onRight
  have choice := Choice.of_grows ready.proper onLeft.grows onRight.grows
    ((Draft.Grows.refl _ _).wrote (.constant (.bool (op = .either)))) written
  simp only [value, isLogical, if_true]
  rw [← bind_assoc]
  refine (Carries.within choice.conditionLeads (carries_decision _ onLeft.simulates
    choice.exitProper ((ready.skip rfl).skip rfl) choice.jumpWritten choice.otherMarked leftSound
    leftFits)).bind ?_
  rintro decided _ _ ⟨stackMid, readyMid⟩
  by_cases decides : decided = decide (op = .either)
  · -- the left operand decides
    simp only [decides, if_true] at readyMid ⊢
    refine (carries_constant .bool Ty.noConfusion rfl (readyMid.skip rfl)
      choice.otherWritten).imp ?_
    rintro given _ _ ⟨readyLast, stackLast, isPlain⟩
    exact ⟨readyLast.skip rfl, stackMid ▸ stackLast, isPlain⟩
  · -- the right operand decides
    simp only [decides, if_false] at readyMid ⊢
    refine choice.runs_first onRight.simulates readyMid rightSound fun given => ?_
    rw [stackMid, pushed_of_fits rightFits]
    rfl

theorem simulates_conditional {cond yes no : Expr} {second third fourth : Draft}
    (onCondition : Coded env slots (.one cond)
      ((draft.wrote .defineLabel).wrote .defineLabel) second)
    (onNo : Coded env slots (.one no) (second.wrote (.jump Op.jumpIfTrue draft.nextLabel)) third)
    (onYes : Coded env slots (.one yes)
      ((third.wrote (.jump Op.jump (draft.nextLabel + 1))).wrote (.mark draft.nextLabel))
      fourth) :
    Simulates env slots (.one (.conditional off cond yes no type)) draft
      (fourth.wrote (.mark (draft.nextLabel + 1))) := by
  rintro written _ ready ⟨condSound, yesSound, noSound, conditionFits, yesFits, noFits⟩
  have choice := Choice.of_grows ready.proper onCondition.grows onNo.grows onYes.grows written
  simp only [value]
  rw [← bind_assoc]
  refine (Carries.within choice.conditionLeads (carries_decision true onCondition.simulates
    choice.exitProper ((ready.skip rfl).skip rfl) choice.jumpWritten choice.otherMarked
    condSound conditionFits)).bind ?_
  rintro chosen mid _ ⟨stackMid, readyMid⟩
  cases chosen with
  | true =>
    have readyYes : Ready env slots (third.wrote (.jump Op.jump (draft.nextLabel + 1)))
        mid := readyMid
    refine (Carries.within choice.otherLeads (onYes.simulates
      choice.otherWritten _ (readyYes.skip rfl) yesSound)).imp ?_
    rintro _ _ _ ⟨readyLast, stackLast, isPlain⟩
    refine ⟨readyLast.skip rfl, ?_, isPlain⟩
    rw [stackLast, stackMid, pushed_of_fits yesFits]
    rfl
  | false =>
    have readyNo : Ready env slots (second.wrote (.jump Op.jumpIfTrue draft.nextLabel))
        mid := readyMid
    refine choice.runs_first onNo.simulates readyNo noSound fun _ => ?_
    rw [stackMid, pushed_of_fits noFits]
    rfl

/-! Calls. -/

/-- A call of a bound method: on the host, unless the method belongs to no instance. -/
theorem simulates_call (onArguments : Coded env slots (.many args)
      (if meth.isStatic then draft else draft.wrote (.plain Op.loadHost)) second) :
    Simulates env slots (.one (.call off name meth args)) draft
      (second.wrote (.method meth.callOp meth)) := by
  rintro written _ ready ⟨allowed, argsSound⟩
  cases isStatic : meth.isStatic
  · simp only [isStatic, false_eq_true, if_false] at onArguments
    simp only [Method.callOp, isStatic, false_eq_true, if_false] at written ⊢
    have hostProper := wrote_proper ready.proper (.plain Op.loadHost)
    have argumentsLead := (onArguments.grows.wrote (.method Op.callVirtual meth) hostProper).2
    simp only [value, isStatic, false_eq_true, if_false]
    refine (carries_self ready (written.earlier argumentsLead)).bind ?_
    rintro _ _ _ ⟨readyFirst, stackFirst, recvPlain⟩
    refine .within (wrote_leads draft _) (onArguments.bindAll readyFirst
      .one written argsSound allowed.2
      fun operands last readyLast stackLast fit => ?_)
    rw [stackFirst] at stackLast
    exact carries_callOn readyLast written stackLast (last.look_of_isPlain recvPlain) recvPlain fit
  · simp only [isStatic, if_true] at onArguments
    simp only [Method.callOp, isStatic, if_true] at written ⊢
    simp only [value, isStatic, if_true]
    exact onArguments.bindAll ready .one written argsSound allowed.2
      fun _ _ readyLast stackLast fit => carries_callStatic readyLast written stackLast fit

theorem simulates_staticInvocation
    (isStatic : meth.isStatic) (onArguments : Coded env slots (.many args) draft second) :
    Simulates env slots (.one (.invocation off tgt name args meth)) draft
      (second.wrote (.method Op.call meth)) := by
  rintro written _ ready ⟨allowed, argsSound, _⟩
  simp only [value, isStatic, if_true]
  exact onArguments.bindAll ready .one written argsSound allowed.2
    fun _ _ readyLast stackLast fit => carries_callStatic readyLast written stackLast fit

theorem Ready.released (ready : Ready env slots draft cfg) (held : Option Scratch)
    (proper : (draft.released held).Proper env.locals.size) :
    Ready env slots (draft.released held) cfg := by
  cases held with
  | none => exact ready
  | some _ => exact ⟨proper, ready.next, ready.size, ready.slots, ready.plain⟩

theorem written_released (written : env.Written (draft.released held)) : env.Written draft := by
  cases held <;> exact written

theorem simulates_invocation (isInstance : meth.isStatic = false)
    (onTarget : Coded env slots (.receiver tgt args.isEmpty held) draft second)
    (onArguments : Coded env slots (.many args) second third) :
    Simulates env slots (.one (.invocation off tgt name args meth)) draft
      ((third.wrote (.method Op.callVirtual meth)).released held) := by
  rintro written cfg ready ⟨allowed, argsSound, onInstance⟩
  obtain ⟨tgtSound, tgtData⟩ := onInstance isInstance
  obtain ⟨secondProper, targetLeads⟩ := onTarget.grows ready.proper
  obtain ⟨_, argumentsLead⟩ := onArguments.grows secondProper
  have proper := (Draft.Grows.released held onTarget.grows (onTarget.code.grows _).2
    (onArguments.grows.wrote (.method Op.callVirtual meth)) ready.proper).1
  have callWritten := written_released written
  have thirdWritten := callWritten.earlier (wrote_leads third _)
  simp only [value, isInstance, false_eq_true, if_false]
  refine (onTarget.simulates (thirdWritten.earlier argumentsLead) cfg ready
    tgtSound tgtData).bind ?_
  rintro recv first _ ⟨readyFirst, recvPlain, standing, stackFirst, looks⟩
  have operandsCarried := onArguments.simulates thirdWritten first readyFirst
    meth.params argsSound allowed.2
  have looksLater : Carries env second.Owns first
      (values env.host env.types slots args) fun operands last =>
        Ready env slots third last ∧ last.frame.stack = operands.reverse ++ first.frame.stack ∧
          List.Forall₂ ((plain env.clear).fits ()) meth.params operands ∧
          last.look standing = recv := by
    cases args with
    | nil =>
      -- the member follows at once: nothing runs in between
      cases onArguments.code
      rw [values]
      have noParams : meth.params = [] := by simpa only [Expr.AllSound] using argsSound
      rw [noParams]
      exact Carries.pure ⟨readyFirst, rfl, .nil, looks first (refl _ _)⟩
    | cons _ _ =>
      refine operandsCarried.imp ?_
      rintro operands last kept ⟨readyLast, stackLast, fit⟩
      exact ⟨readyLast, stackLast, fit, looks last (kept.mono fun _ owns => ⟨rfl, owns⟩)⟩
  refine (Carries.within targetLeads looksLater).bind ?_
  rintro operands last _ ⟨readyLast, stackLast, fit, looksLast⟩
  rw [stackFirst] at stackLast
  exact (carries_callOn readyLast callWritten stackLast looksLast recvPlain fit).imp
    fun _ _ _ done => ⟨done.1.released held proper, done.2⟩

/-! Receivers. -/

theorem simulates_reference (simulatesTarget : Simulates env slots (.one tgt) draft second) :
    Simulates env slots (.receiver tgt isImmediate none) draft second := by
  intro written cfg ready tgtSound tgtData
  refine (simulatesTarget written cfg ready tgtSound).imp
    fun given _ _ ⟨readyLast, stackLast, isPlain⟩ => ?_
  rw [pushed_eq (ne_void_of_isData tgtData)] at stackLast
  exact ⟨readyLast, isPlain, given, stackLast, fun later _ => later.look_of_isPlain isPlain⟩

theorem Ready.address (ready : Ready env slots draft cfg)
    (written : env.Written (draft.wrote (.slot Op.loadLocalAddress slot)))
    (inside : slot < env.program.locals.size) :
    ∃ reference : LocalRef, reference.frame = cfg.frame.number ∧ reference.slot = slot ∧
      Runs env.host env.program 1 cfg [] (cfg.moved (cfg.frame.next + 3)
          (.address reference :: cfg.frame.stack) cfg.world) := by
  have instr := written.emitted.slot
  rw [← ready.next] at instr
  exact ⟨_, rfl, rfl, .silently (cycle_loadLocalAddress env.host instr (ready.size ▸ inside))⟩

theorem look_address {reference} (own : reference.frame = cfg.frame.number)
    (sameSlot : reference.slot = slot) (present : cfg.frame.locals[slot]? = some held) :
    cfg.look (.address reference) = held := by
  simp only [Configuration.look, own, if_true, sameSlot]
  rw [Array.getD_eq_getD_getElem?, present]
  rfl

theorem simulates_ownAddress (sizes : slots.size = env.locals.size)
    (plain : ∀ given ∈ slots, given.isPlain) (isVariable : localVariable? tgt = some decl) :
    Simulates env slots (.receiver tgt isImmediate none) draft
      (draft.wrote (.slot Op.loadLocalAddress decl.slot)) := by
  intro written cfg ready tgtSound _
  obtain ⟨_, _, rfl⟩ := eq_reference_of_localVariable? isVariable
  have inLocals := (Array.getElem?_eq_some_iff.mp tgtSound.1).1
  have notOwned : ¬draft.Owns decl.slot :=
    fun owns => Nat.not_le_of_lt inLocals (ready.proper.le_of_owns owns)
  obtain ⟨present, isPlain⟩ := ready.variable sizes plain inLocals
  have inside : decl.slot < env.program.locals.size :=
    ready.size ▸ (Array.getElem?_eq_some_iff.mp present).1
  obtain ⟨reference, own, sameSlot, run⟩ := ready.address written inside
  rw [value]
  refine .after run rfl (moved _ _ _ _) (.pure
    ⟨ready.wrote _ rfl rfl ready.plain, isPlain, .address reference, rfl, fun _ kept => ?_⟩)
  rw [kept.look_eq own fun owned => notOwned (sameSlot ▸ (Draft.wrote_owns rfl _).mp owned.2)]
  exact look_address own sameSlot present

theorem simulates_address (onTarget : Coded env slots (.one tgt) draft second) :
    Simulates env slots (.receiver tgt isImmediate
        (if isImmediate then none else some (second.taken tgt.type isImmediate).1))
      draft
      ((second.taken tgt.type isImmediate).2.wroteAll
        [.slot Op.storeLocal (second.taken tgt.type isImmediate).1.slot,
          .slot Op.loadLocalAddress (second.taken tgt.type isImmediate).1.slot]) := by
  intro written cfg ready tgtSound tgtData
  obtain ⟨secondProper, targetLeads⟩ := onTarget.grows ready.proper
  obtain ⟨takenProper, takenLeads, owned, above, decl, held⟩ :=
    Draft.taken_owned secondProper tgt.type isImmediate
  have takenWritten := written.earlier (wroteAll_leads _ _)
  have inside := takenWritten.inside decl
  have addressLeads := wroteAll_leads (second.taken tgt.type isImmediate).2
    [.slot Op.storeLocal (second.taken tgt.type isImmediate).1.slot,
      .slot Op.loadLocalAddress (second.taken tgt.type isImmediate).1.slot]
  refine (onTarget.simulates (takenWritten.earlier takenLeads) cfg ready
    tgtSound).andThen fun given mid _ ⟨readyMid, stackMid, isPlain⟩ => ?_
  rw [pushed_eq (ne_void_of_isData tgtData)] at stackMid
  have readyTaken : Ready env slots (second.taken tgt.type isImmediate).2 mid :=
    readyMid.elsewhere takenProper (by rw [readyMid.next, Draft.extent_taken]) rfl rfl
  have storeRun := readyTaken.runs_store (written.earlier (wrote_leads _ _)) stackMid inside
  have readyStored := readyTaken.stored_scratch above cfg.frame.stack given
  have present := readyTaken.stored_present inside (mid.frame.next + 3)
    cfg.frame.stack mid.world given
  refine .after storeRun rfl ((moved _ _ _ _).stored (targetLeads.owns _ owned) given) ?_
  obtain ⟨reference, own, sameSlot, addressRun⟩ := readyStored.address written inside
  refine .after addressRun rfl (moved _ _ _ _) (.pure
    ⟨readyStored.wrote _ rfl rfl readyStored.plain, isPlain, .address reference, rfl,
      fun _ kept => ?_⟩)
  rw [kept.look_eq own fun ⟨isHeld, owns⟩ => held isHeld (addressLeads.owns _ (sameSlot ▸ owns))]
  exact look_address own sameSlot present

/-! Members. -/

theorem value_property (off : Nat) (tgt : Expr) (name : Ident)
    (isVariable : ∀ field, member = .field field → field.literal = none) :
    value host tys slots (.property off tgt name member) =
      if member.isStatic then readStatic host member
      else value host tys slots tgt >>= fun recv => readMember host recv member := by
  cases member with
  | field field =>
    have noLiteral := isVariable field rfl
    rcases field with ⟨_, _, _, _, _, _, _, _⟩
    cases noLiteral
    rw [value]
    rintro _ _ _ _ _ _ _ _ ⟨⟩
  | property property =>
    rw [value]
    rintro _ _ _ _ _ _ _ _ ⟨⟩

theorem simulates_propertyConstant (isConstant : field.literal = some constant) :
    Simulates env slots (.one (.property off tgt name (.field field))) draft
      (draft.wrote (.constant constant)) := by
  intro written _ ready sound
  rcases field with ⟨_, _, _, _, _, _, _, _⟩
  cases isConstant
  rw [value]
  exact carries_constant _ (ne_void_of_isData sound.1.1) (sound.1.2 _ rfl) ready written

theorem simulates_staticProperty
    (isVariable : ∀ field, member = .field field → field.literal = none)
    (isStatic : member.isStatic) (isReadable : memberDirective? member = some d) :
    Simulates env slots (.one (.property off tgt name member)) draft (draft.wrote d) := by
  intro written _ ready sound
  have holdsValues := ne_void_of_isData (Rules.valued_proper.member sound.1)
  rw [value_property off tgt name isVariable, if_pos isStatic]
  cases member <;> simp only [DataMember.isStatic] at isStatic <;>
    simp only [memberDirective?, isStatic, if_true] at isReadable
  case field field =>
    cases isReadable
    exact .asPushed (.apart ready written (.loadField false field) rfl
      (env.guards.loadField rfl sound.1.2)) holdsValues
  case property property =>
    split at isReadable
    · cases isReadable
      have noParams : property.params = [] := sound.1.2
      have count : ([] : List Value).length = property.params.length := by rw [noParams]; rfl
      exact .asPushed (.apart ready written (.getProperty false count) rfl
        (env.guards.getProperty rfl (forall_mem_nil _) property))
        holdsValues
    · cases isReadable

theorem carries_readMember (allowed : Rules.valued.Member member)
    (isInstance : member.isStatic = false) (isReadable : memberDirective? member = some d)
    (ready : Ready env slots draft cfg) (written : env.Written (draft.wrote d))
    (stack : cfg.frame.stack = standing :: rest) (looks : cfg.look standing = recv)
    (recvPlain : recv.isPlain) :
    Carries env owned cfg (readMember env.host recv member)
      (Gives env slots (draft.wrote d) rest) := by
  cases member <;> simp only [DataMember.isStatic] at isInstance <;>
    simp only [memberDirective?, isInstance, false_eq_true, if_false] at isReadable
  case field field =>
    cases isReadable
    exact .on ready written (.loadField true field) stack looks
      (env.guards.loadField recvPlain allowed.2)
  case property property =>
    split at isReadable
    · cases isReadable
      have noParams : property.params = [] := allowed.2
      have count : ([] : List Value).length = property.params.length := by rw [noParams]; rfl
      exact .on ready written (.getProperty true count) stack looks
        (env.guards.getProperty recvPlain (forall_mem_nil _) property)
    · cases isReadable

theorem simulates_property (isVariable : ∀ field, member = .field field → field.literal = none)
    (isInstance : member.isStatic = false) (isReadable : memberDirective? member = some d)
    (simulatesTarget : Simulates env slots (.receiver tgt true held) draft second) :
    Simulates env slots (.one (.property off tgt name member)) draft (second.wrote d) := by
  intro written cfg ready sound
  obtain ⟨allowed, onInstance⟩ := sound
  obtain ⟨tgtSound, tgtData⟩ := onInstance isInstance
  have holdsValues := ne_void_of_isData (Rules.valued_proper.member allowed)
  rw [value_property off tgt name isVariable, if_neg (by simp [isInstance])]
  refine (simulatesTarget (written.earlier (wrote_leads second _)) cfg
    ready tgtSound tgtData).bind
    fun _ first _ ⟨readyFirst, recvPlain, _, stackFirst, looks⟩ => ?_
  exact (carries_readMember allowed isInstance isReadable readyFirst written stackFirst
    (looks first (refl _ _)) recvPlain).asPushed holdsValues

theorem simulates_lateProperty (onTarget : Coded env slots (.one tgt) draft second) :
    Simulates env slots (.one (.lateProperty off tgt name)) draft
      (second.wrote (.name Op.lateGet name.name)) := by
  rintro written _ ready ⟨tgtSound, tgtData⟩
  simp only [value]
  refine onTarget.bind ready .one written tgtSound (ne_void_of_isData tgtData)
    fun _ first _ readyFirst stackFirst recvPlain => ?_
  exact .asPushed (.on readyFirst written (.lateGet name.name) stackFirst
    (first.look_of_isPlain recvPlain) (env.guards.lateGet recvPlain name.name))
    Ty.noConfusion

/-! Access by index. -/

theorem isData_replicate (isData : type.isData) (exprs : List Expr) :
    ∀ want ∈ exprs.map fun _ => type, want.isData := by
  intro want member
  obtain ⟨_, _, rfl⟩ := mem_map.mp member
  exact isData

theorem simulates_element (onTarget : Coded env slots (.one tgt) draft second)
    (onIndices : Coded env slots (.many idxs) second third) :
    Simulates env slots (.one (.index off tgt idxs none type)) draft
      (third.wrote (.rank Op.loadElement idxs.length)) := by
  rintro written _ ready ⟨tgtSound, targetType, isData, idxsSound⟩
  simp only [value]
  refine onTarget.bind ready (onIndices.grows.wrote _) written tgtSound
    (by rw [targetType]; exact Ty.noConfusion)
    fun array _ _ readyFirst stackFirst arrayPlain => ?_
  refine onIndices.bindAll readyFirst .one written idxsSound
    (isData_replicate rfl idxs) fun idx last readyLast stackLast fit => ?_
  rw [stackFirst] at stackLast
  have count : idxs.length = idx.length := by simpa using fit.length_eq
  have instr := written.emitted.rank
  rw [← readyLast.next, count] at instr
  have yields := yields_loadElement env.host instr stackLast
  rw [last.look_of_isPlain arrayPlain] at yields
  exact (Carries.value readyLast (.rank Op.loadElement idxs.length) yields
    (Act.readPlace_plain array idx)).asPushed (ne_void_of_isData isData)

theorem simulates_staticIndexer
    (isStatic : indexer.isStatic) (onIndices : Coded env slots (.many idxs) draft second) :
    Simulates env slots (.one (.index off tgt idxs (some indexer) type)) draft
      (second.wrote (indexerDirective indexer)) := by
  rintro written _ ready ⟨allowed, rfl, idxsSound, _⟩
  simp only [indexerDirective, isStatic, if_true] at written ⊢
  simp only [value, isStatic, if_true]
  refine onIndices.bindAll ready .one written idxsSound allowed.2
    fun _ _ readyLast stackLast fit => ?_
  exact .asPushed (.apart readyLast written (.getProperty false fit.length_eq.symm) stackLast
    (env.guards.getProperty rfl (isPlain_of_fit fit) indexer)) (ne_void_of_isData allowed.1)

theorem simulates_indexer (isInstance : indexer.isStatic = false)
    (onTarget : Coded env slots (.one tgt) draft second)
    (onIndices : Coded env slots (.many idxs) second third) :
    Simulates env slots (.one (.index off tgt idxs (some indexer) type)) draft
      (third.wrote (indexerDirective indexer)) := by
  rintro written _ ready ⟨allowed, rfl, idxsSound, onInstance⟩
  obtain ⟨tgtSound, tgtData⟩ := onInstance isInstance
  simp only [indexerDirective, isInstance, false_eq_true, if_false] at written ⊢
  simp only [value, isInstance, false_eq_true, if_false]
  refine onTarget.bind ready (onIndices.grows.wrote _) written tgtSound
    (ne_void_of_isData tgtData)
    fun _ _ _ readyFirst stackFirst recvPlain => ?_
  refine onIndices.bindAll readyFirst .one written idxsSound
    allowed.2 fun _ last readyLast stackLast fit => ?_
  rw [stackFirst] at stackLast
  exact .asPushed (.on readyLast written (.getProperty true fit.length_eq.symm)
    stackLast (last.look_of_isPlain recvPlain)
    (env.guards.getProperty recvPlain (isPlain_of_fit fit) indexer))
    (ne_void_of_isData allowed.1)

/-! Several expressions. -/

theorem simulates_nil : Simulates env slots (.many []) draft draft := by
  intro _ _ ready want sound _
  have none : want = [] := by simpa only [Expr.AllSound] using sound
  rw [values, none]
  exact .pure ⟨ready, rfl, .nil⟩

theorem simulates_cons (onFirst : Coded env slots (.one first) draft second)
    (onRest : Coded env slots (.many rest) second third) :
    Simulates env slots (.many (first :: rest)) draft third := by
  rintro written _ ready _ ⟨type, _, rfl, firstSound, fits, restSound⟩ data
  have firstData := Rules.valued_proper.isData_of_fits fits (data type mem_cons_self)
  rw [values]
  refine onFirst.bind ready onRest.grows written firstSound (ne_void_of_isData firstData)
    fun _ _ _ readyMid stackMid isPlain => ?_
  refine onRest.bindAll readyMid (.refl _ _) written restSound
    (fun other member => data other (mem_cons_of_mem _ member))
    fun _ _ readyLast stackLast fit => ?_
  refine .pure ⟨readyLast, ?_, .cons isPlain fit⟩
  rw [stackLast, stackMid]
  simp

/-! Calls by name. -/

theorem simulates_noElements : Simulates env slots (.elements slot idx []) draft draft := by
  intro _ _ ready _ _ _ _ _ _ _
  rw [listed]
  exact .pure ⟨ready, rfl⟩

theorem simulates_elements {slot idx : Nat} {rest : List Expr}
    (onFirst : Coded env slots (.one first)
      (draft.wroteAll [.slot Op.loadLocal slot, .constant (int32 idx)]) second)
    (onRest : Coded env slots (.elements slot (idx + 1) rest)
      (second.wrote (.rank Op.storeElement 1)) third) :
    Simulates env slots (.elements slot idx (first :: rest)) draft third := by
  rintro written _ ready list _ ⟨type, others, rfl, firstSound, fits, restSound⟩ data
    present notOwned listPlain
  have loadProper := Draft.wroteAll_proper ready.proper
    [.slot Op.loadLocal slot, .constant (int32 idx)]
  have loadLeads := wroteAll_leads draft [.slot Op.loadLocal slot, .constant (int32 idx)]
  obtain ⟨secondProper, firstLeads⟩ := onFirst.grows loadProper
  have storeLeads := wrote_leads second (.rank Op.storeElement 1)
  have storeProper := wrote_proper secondProper (.rank Op.storeElement 1)
  obtain ⟨_, restLeads⟩ := onRest.grows storeProper
  have storeWritten := written.earlier restLeads
  have secondWritten := storeWritten.earlier storeLeads
  have loadWritten := secondWritten.earlier firstLeads
  have firstData := Rules.valued_proper.isData_of_fits fits (data type mem_cons_self)
  rw [listed]
  refine Carries.push ready (.slot Op.loadLocal slot)
    (ready.yields_local (loadWritten.earlier (wrote_leads _ _)) present) ?_
  intro _ readyLoaded stackLoaded _ keptLoaded _
  refine Carries.push readyLoaded (.constant (int32 idx))
    (readyLoaded.yields_constant loadWritten) ?_
  intro indexed readyIndexed stackIndexed _ keptIndexed _
  refine (Carries.within loadLeads (onFirst.simulates secondWritten indexed
    readyIndexed firstSound)).bind
    fun _ mid keptMiddle ⟨readyMid, stackMid, isPlain⟩ => ?_
  rw [pushed_eq (ne_void_of_isData firstData), stackIndexed, stackLoaded] at stackMid
  have instr := storeWritten.emitted.rank
  rw [← readyMid.next] at instr
  have yields := yields_storeElement env.host [int32 idx] instr stackMid
  rw [mid.look_of_isPlain listPlain] at yields
  refine (Carries.effect readyMid (.rank Op.storeElement 1) yields
    (Act.writePlace_plain isPlain _ _)).bind
    fun _ stored keptStored ⟨readyStored, stackStored⟩ => ?_
  have kept := (keptLoaded.trans keptIndexed).trans (keptMiddle.trans keptStored)
  have leads := loadLeads.trans (firstLeads.trans storeLeads)
  refine (Carries.within leads (onRest.simulates written stored readyStored list others
    restSound (fun other member => data other (mem_cons_of_mem _ member))
    ((kept.locals slot notOwned).trans present)
    (fun owns => notOwned (leads.owns slot owns)) listPlain)).imp
    fun _ _ _ ⟨readyLast, stackLast⟩ => ⟨readyLast, stackLast.trans stackStored⟩

theorem carries_list (length : Nat) (ready : Ready env slots draft cfg)
    (written : env.Written (draft.wroteAll
      [.constant (int32 length), .type Op.newArray .object, .slot Op.storeLocal slot]))
    (owns : owned slot) (above : env.locals.size ≤ slot) (inside : slot < env.program.locals.size) :
    Carries env owned cfg (quietly (Act.makeArray .object (int32 length))) fun list last =>
        Ready env slots (draft.wroteAll [.constant (int32 length), .type Op.newArray .object,
            .slot Op.storeLocal slot]) last ∧
          last.frame.stack = cfg.frame.stack ∧
          last.frame.locals[slot]? = some list ∧ ∃ reference, list = .array reference := by
  have makeWritten := written.earlier (wrote_leads _ _)
  refine .push ready (.constant (int32 length))
    (ready.yields_constant (makeWritten.earlier (wrote_leads _ _))) ?_
  intro _ readyCounted stackCounted _ _ _
  obtain ⟨_, instr, present⟩ := makeWritten.emitted.type
  rw [← readyCounted.next] at instr
  refine (Carries.instruction readyCounted (.type Op.newArray .object) (fun _ => [])
    (fun list => [list]) (yields_newArray env.host instr present stackCounted)
    (Act.makeArray_plain _)).andThen fun list made _ ⟨readyMade, stackMade, isArray⟩ => ?_
  have readyStored := readyMade.stored_scratch above cfg.frame.stack list
  have stored := readyMade.stored_present inside (made.frame.next + 3)
    cfg.frame.stack made.world list
  exact .after (readyMade.runs_store written stackMade inside) rfl
    ((moved _ _ _ _).stored owns list) (.pure ⟨readyStored, rfl, stored, isArray⟩)

theorem carries_callLate (name : Text) (ready : Ready env slots draft cfg)
    (written : env.Written (draft.wroteAll [.slot Op.loadLocal slot, .name Op.lateCall name]))
    (stack : cfg.frame.stack = recv :: rest) (recvPlain : recv.isPlain)
    (held : cfg.frame.locals[slot]? = some (.array reference)) :
    Carries env owned cfg (act (fun world => Interaction.on (.lateCall name) recv
          (world.seen (.lateCall name) [.array reference]))
        (Act.callLate env.host name recv (.array reference)))
      (Gives env slots (draft.wroteAll [.slot Op.loadLocal slot, .name Op.lateCall name])
        rest) := by
  refine .push ready (.slot Op.loadLocal slot)
    (ready.yields_local (written.earlier (wrote_leads _ _)) held) ?_
  intro loaded readyLoaded stackLoaded _ _ _
  rw [stack] at stackLoaded
  exact .on readyLoaded written (.lateCall name reference) stackLoaded
    (loaded.look_of_isPlain recvPlain)
    (env.guards.lateCall recvPlain name reference)

/-- A call by name: a list is made and filled, then the target is evaluated. -/
theorem simulates_lateInvocation
    (onArguments : Coded env slots (.elements (draft.taken (.array .object 1) false).1.slot 0 args)
      ((draft.taken (.array .object 1) false).2.wroteAll
        [.constant (int32 args.length), .type Op.newArray .object,
          .slot Op.storeLocal (draft.taken (.array .object 1) false).1.slot]) second)
    (onTarget : Coded env slots (.one tgt) second third) :
    Simulates env slots (.one (.lateInvocation off tgt name args)) draft ((third.wroteAll
        [.slot Op.loadLocal (draft.taken (.array .object 1) false).1.slot,
          .name Op.lateCall name.name]).returned (draft.taken (.array .object 1) false).1) := by
  intro written cfg ready sound
  obtain ⟨tgtSound, tgtData, argsSound⟩ := sound
  obtain ⟨takenProper, takenLeads, holds⟩ := Draft.taken_held ready.proper (.array .object 1)
  have readyTaken : Ready env slots (draft.taken (.array .object 1) false).2 cfg :=
    ready.elsewhere takenProper (by rw [ready.next, Draft.extent_taken]) rfl rfl
  generalize (draft.taken (.array .object 1) false).1 = scratch at *
  generalize (draft.taken (.array .object 1) false).2 = taken at *
  have madeLeads := wroteAll_leads taken [.constant (int32 args.length), .type Op.newArray .object,
      .slot Op.storeLocal scratch.slot]
  have madeProper := Draft.wroteAll_proper takenProper
    [.constant (int32 args.length), .type Op.newArray .object, .slot Op.storeLocal scratch.slot]
  obtain ⟨secondProper, argumentsLead⟩ := onArguments.grows madeProper
  obtain ⟨_, targetLeads⟩ := onTarget.grows secondProper
  have callWritten : env.Written (third.wroteAll
      [.slot Op.loadLocal scratch.slot, .name Op.lateCall name.name]) := written
  have callLeads := wroteAll_leads third
    [.slot Op.loadLocal scratch.slot, .name Op.lateCall name.name]
  have stillHeld := holds.later
    (madeLeads.trans (argumentsLead.trans (targetLeads.trans callLeads)))
  have thirdWritten := callWritten.earlier callLeads
  have secondWritten := thirdWritten.earlier targetLeads
  have storeWritten := secondWritten.earlier argumentsLead
  have inside := (storeWritten.earlier madeLeads).inside holds.known
  simp only [value]
  refine (carries_list args.length readyTaken storeWritten holds.owned holds.above inside).bind ?_
  rintro list made _ ⟨readyMade, stackMade, heldMade, reference, rfl⟩
  -- the arguments and the target own other slots than the list's
  have notMade : ¬(taken.wroteAll [.constant (int32 args.length),
      .type Op.newArray .object, .slot Op.storeLocal scratch.slot]).Owns scratch.slot :=
    fun owns => holds.taken (madeLeads.owns _ owns)
  have notSecond : ¬second.Owns scratch.slot := fun owns => notMade (argumentsLead.owns _ owns)
  have objects : Ty.object.isData := rfl
  have argumentsCarried : Carries env _ made
      (listed env.host env.types slots (.array reference) 0 args) fun _ last =>
        Ready env slots second last ∧ last.frame.stack = made.frame.stack ∧
          last.frame.locals[scratch.slot]? = some (.array reference) :=
    (onArguments.simulates secondWritten made readyMade (.array reference) _
      argsSound (isData_replicate objects args) heldMade notMade rfl).imp
      fun _ last kept done => ⟨done.1, done.2, (kept.locals _ notMade).trans heldMade⟩
  refine (Carries.within (takenLeads.trans madeLeads) argumentsCarried).bind ?_
  rintro _ filled _ ⟨readyFilled, stackFilled, heldFilled⟩
  have targetCarried : Carries env second.Owns filled
      (value env.host env.types slots tgt) fun recv last =>
        Ready env slots third last ∧ recv.isPlain ∧
          last.frame.stack = pushed tgt.type recv ++ filled.frame.stack ∧
          last.frame.locals[scratch.slot]? = some (.array reference) :=
    (onTarget.simulates thirdWritten filled readyFilled tgtSound).imp
      fun recv last kept done =>
        ⟨done.1, done.2.2, done.2.1, (kept.locals _ notSecond).trans heldFilled⟩
  refine (Carries.within ((takenLeads.trans madeLeads).trans argumentsLead) targetCarried).bind ?_
  rintro recv _ _ ⟨readyAimed, recvPlain, stackAimed, heldAimed⟩
  rw [pushed_eq (ne_void_of_isData tgtData), stackFilled, stackMade] at stackAimed
  refine (carries_callLate name.name readyAimed callWritten stackAimed recvPlain
    heldAimed).imp ?_
  rintro _ last _ ⟨readyLast, stackLast, isPlain⟩
  exact ⟨readyLast.released (some scratch) (Draft.returned_proper readyLast.proper stillHeld),
    eq_pushed Ty.noConfusion stackLast, isPlain⟩

theorem simulated (sizes : slots.size = env.locals.size) (plain : ∀ given ∈ slots, given.isPlain)
    (code : Code env.types item draft after) : Simulates env slots item draft after := by
  induction code with
  | literal => exact simulates_literal
  | localVariable => exact simulates_localVariable sizes plain
  | fieldConstant _ _ _ _ isConstant => exact simulates_fieldConstant isConstant
  | fieldShared _ _ _ _ isVariable isShared => exact simulates_fieldShared isVariable isShared
  | fieldOwn _ _ _ _ isVariable isOwn => exact simulates_fieldOwn isVariable isOwn
  | overload _ _ _ _ leftCode rightCode left right =>
    exact simulates_overload ⟨leftCode, left⟩ ⟨rightCode, right⟩
  | shortCircuit _ _ isLogical leftCode rightCode left right =>
    exact simulates_shortCircuit isLogical ⟨leftCode, left⟩ ⟨rightCode, right⟩
  | operator _ _ isStrict isBinary leftCode rightCode left right =>
    exact simulates_operator isStrict isBinary ⟨leftCode, left⟩ ⟨rightCode, right⟩
  | unary _ _ _ code arg => exact simulates_unary ⟨code, arg⟩
  | conditional _ _ condCode noCode yesCode cond no yes =>
    exact simulates_conditional ⟨condCode, cond⟩ ⟨noCode, no⟩ ⟨yesCode, yes⟩
  | cast _ _ _ code arg => exact simulates_cast ⟨code, arg⟩
  | call _ _ _ code args => exact simulates_call ⟨code, args⟩
  | staticInvocation _ _ _ isStatic code args =>
    exact simulates_staticInvocation isStatic ⟨code, args⟩
  | invocation _ _ isInstance tgtCode code tgt args =>
    exact simulates_invocation isInstance ⟨tgtCode, tgt⟩ ⟨code, args⟩
  | lateInvocation _ _ code tgtCode args tgt =>
    exact simulates_lateInvocation ⟨code, args⟩ ⟨tgtCode, tgt⟩
  | propertyConstant _ _ _ _ isConstant => exact simulates_propertyConstant isConstant
  | staticProperty _ _ _ _ isVariable isStatic isReadable =>
    exact simulates_staticProperty isVariable isStatic isReadable
  | property _ _ isVariable isInstance isReadable _ tgt =>
    exact simulates_property isVariable isInstance isReadable tgt
  | lateProperty _ _ code tgt => exact simulates_lateProperty ⟨code, tgt⟩
  | element _ _ tgtCode code tgt idxs =>
    exact simulates_element ⟨tgtCode, tgt⟩ ⟨code, idxs⟩
  | staticIndexer _ _ _ _ isStatic code idxs => exact simulates_staticIndexer isStatic ⟨code, idxs⟩
  | indexer _ _ _ isInstance tgtCode code tgt idxs =>
    exact simulates_indexer isInstance ⟨tgtCode, tgt⟩ ⟨code, idxs⟩
  | nil => exact simulates_nil
  | cons code restCode first rest => exact simulates_cons ⟨code, first⟩ ⟨restCode, rest⟩
  | noElements => exact simulates_noElements
  | elements code restCode first rest => exact simulates_elements ⟨code, first⟩ ⟨restCode, rest⟩
  | reference _ _ _ tgt => exact simulates_reference tgt
  | ownAddress _ _ _ isVariable => exact simulates_ownAddress sizes plain isVariable
  | address _ _ _ code tgt => exact simulates_address ⟨code, tgt⟩

end

end HostScript.Simulation
