import HostScript.Proofs.Emission.Drafts
import HostScript.Proofs.Evaluation.Basic
import HostScript.Proofs.Machine.Runs
import HostScript.Proofs.Machine.Regime
import HostScript.Proofs.Store.Basic
import HostScript.Proofs.Typing.Members

namespace HostScript

open Typed (Rules)

/-!
# Worlds without addresses

A host that is never given the address of a local variable cannot yield one, unless it kept one
from elsewhere.
-/

/-- No member is asked for anything, but constants are no addresses. -/
def Typed.Rules.plain : Rules where
  field field := ∀ value, field.literal = some value → value.isPlain = true
  property _ := True
  method _ := True
  truthful _ := True

/-- A host whose members keep addresses away: given none, they yield none. -/
structure Host.Discreet (host : Host H) (clear : H → Prop) : Prop where
  constants : host.types.Obeys Rules.plain
  readField : ∀ label receiver, receiver.isPlain = true →
    Act.Keeps (Regime.plain clear) () (host.readField label receiver) fun _ value =>
      value.isPlain = true
  writeField : ∀ label receiver value, receiver.isPlain = true → value.isPlain = true →
    Act.Keeps (Regime.plain clear) () (host.writeField label receiver value) fun _ _ => True
  readProperty : ∀ label receiver index, receiver.isPlain = true →
    (∀ value ∈ index, value.isPlain = true) →
    Act.Keeps (Regime.plain clear) () (host.readProperty label receiver index) fun _ value =>
      value.isPlain = true
  writeProperty : ∀ label receiver index value, receiver.isPlain = true →
    (∀ value ∈ index, value.isPlain = true) → value.isPlain = true →
    Act.Keeps (Regime.plain clear) () (host.writeProperty label receiver index value)
      fun _ _ => True
  invoke : ∀ label receiver args, receiver.isPlain = true → (∀ value ∈ args, value.isPlain = true) →
    Act.Keeps (Regime.plain clear) () (host.invoke label receiver args) fun _ value =>
      value.isPlain = true

variable {val res : Value}

namespace Value

theorem isPlain_of_convertToKind {num} (done : val.convertToKind num = .ok res) : res.isPlain := by
  unfold convertToKind at done
  split at done
  · exact isPlain_of_convert done
  · cases done

theorem isPlain_of_arithmetic {op : Arith} {left right : Value}
    (done : op.apply left right = .ok res) : res.isPlain := by
  unfold Arith.apply at done
  split at done
  · obtain ⟨bits, _, same⟩ := ok_of_bind done
    cases same
    rfl
  · split at done
    · obtain ⟨bits, _, same⟩ := ok_of_bind done
      cases same
      rfl
    · cases done
  · split at done
    · obtain ⟨bits, _, same⟩ := ok_of_bind done
      cases same
      rfl
    · cases done
  all_goals cases done

theorem isPlain_of_negated (done : val.negated = .ok res) : res.isPlain := by
  cases val <;> cases done <;> rfl

end Value

section

variable {clear : H → Prop}

theorem isPlain_of_fit {params operands}
    (fit : List.Forall₂ ((Regime.plain clear).fits ()) params operands) :
    ∀ val ∈ operands, val.isPlain := by
  induction fit with
  | nil => exact fun _ mem => nomatch mem
  | cons first _ ih => exact List.forall_mem_cons.mpr ⟨first, ih⟩

theorem Value.isPlain_of_isPersistable (isPersistable : val.isPersistable) : val.isPlain := by
  cases val <;> first | rfl | cases isPersistable

theorem Store.IsPlain.put {store after : Store} {name : Text} (plain : store.IsPlain)
    (isPlain : val.isPlain) (done : store.put name val = .ok after) : after.IsPlain := by
  intro other found get
  rcases Store.get_of_put done get with rfl | isOld | isPersistable
  · exact isPlain
  · exact plain other found isOld
  · exact Value.isPlain_of_isPersistable isPersistable

theorem Store.IsPlain.value {store : Store} {tys : Universe} {name : Text} {type : Ty}
    (plain : store.IsPlain) (done : store.value tys name type = .ok val) : val.isPlain := by
  obtain ⟨found, get, rest⟩ := ok_of_bind done
  cases found with
  | none => exact Except.ok.inj rest ▸ Value.isPlain_default type
  | some stored =>
    have isPlain := plain name stored get
    have read : Store.fitted tys type stored = .ok val := by
      cases fitted : Store.fitted tys type stored <;> simp_all [Except.mapError]
    unfold Store.fitted at read
    split at read
    · exact Except.ok.inj read ▸ isPlain
    · split at read
      · exact Value.isPlain_of_convert read
      · exact Except.ok.inj read ▸ Value.isPlain_default _
      · rw [← Except.ok.inj read]
        split
        · exact isPlain
        · rfl

theorem plain_opens : (Regime.plain clear).Open (·.isPlain) where
  plain := id
  elements holds := holds.arrays
  arrays holds inside := ⟨holds.host, inside, holds.store⟩
  chance holds := ⟨holds.host, holds.arrays, holds.store⟩

theorem Host.Discreet.guards {host : Host H} (discreet : host.Discreet clear) :
    host.Guards (Regime.plain clear) (·.isPlain) where
  toOpen := plain_opens
  constants _ _ _ found := (Universe.dataMembers_obey discreet.constants found).1
  readField := discreet.readField
  writeField := discreet.writeField
  readProperty := discreet.readProperty
  writeProperty := discreet.writeProperty
  invoke := discreet.invoke

/-! Arrays. -/

theorem Act.makeArray_plain (length : Value) :
    Act.Plain clear (Act.makeArray .object length) fun val => ∃ ref, val = .array ref := by
  refine .lift_bind fun _ => ?_
  split
  · exact .fail _
  · exact (plain_opens.newArray _ _).bind fun ref _ => .pure ⟨ref, rfl⟩

theorem Act.place_plain (array : Value) (idx : List Value) :
    Act.Plain clear (Act.place array idx) fun _ => True := by
  refine .lift_bind fun _ => .onTarget ?_
  cases array with
  | array _ => exact .pure trivial
  | _ => exact .fail _

theorem Act.readPlace_plain (array : Value) (idx : List Value) :
    Act.Plain clear (Act.readPlace array idx) (·.isPlain) :=
  (place_plain array idx).bind fun _ _ => plain_opens.loadElement _ _

theorem Act.writePlace_plain {tys} (isPlain : val.isPlain) (array : Value)
    (idx : List Value) : Act.Plain clear (Act.writePlace tys array idx val) fun _ => True :=
  (place_plain array idx).bind fun _ _ => plain_opens.storeElement isPlain _ _

/-! The store of persistent variables. -/

theorem Act.stateKey_plain (holder name : Value) :
    Act.Plain clear (Act.stateKey holder name) fun _ => True :=
  .of fun world holds => ⟨(Act.stateKey_world holder name world).symm ▸ holds, fun _ _ => trivial⟩

theorem Act.readState_plain (host : Host H) (type : Ty) (holder name : Value) :
    Act.Plain clear (Act.readState host type holder name) (·.isPlain) := by
  refine (stateKey_plain holder name).bind fun ⟨key, isThere⟩ _ => ?_
  cases isThere with
  | false => exact .pure (Value.isPlain_default type)
  | true =>
    refine .of fun world holds => ?_
    cases read : world.store.value host.types key type with
    | error _ =>
      simp only [if_true, bind_apply, get_apply, read]
      exact ⟨holds, fun _ absurd => by cases absurd⟩
    | ok _ =>
      simp only [if_true, bind_apply, get_apply, read]
      exact ⟨holds, fun _ same => Except.ok.inj same ▸ holds.store.value read⟩

theorem Act.writeState_plain (isPlain : val.isPlain) (holder name : Value) :
    Act.Plain clear (Act.writeState holder name val) fun _ => True := by
  refine (stateKey_plain holder name).bind fun ⟨key, isThere⟩ _ => ?_
  cases isThere with
  | false => exact .pure trivial
  | true =>
    refine .of fun world holds => ?_
    cases put : world.store.put key val with
    | error _ =>
      simp only [if_true, bind_apply, get_apply, put]
      exact ⟨holds, fun _ _ => trivial⟩
    | ok _ =>
      simp only [if_true, bind_apply, get_apply, put]
      exact ⟨⟨holds.host, holds.arrays, holds.store.put isPlain put⟩, fun _ _ => trivial⟩

end

end HostScript

namespace HostScript

open Typed (Rules)
open Directive (extent extent_cons extent_reverse labels labels_reverse)

/-- Members hold data, and constants are no addresses. -/
def Typed.Rules.valued : Rules where
  field field :=
    field.type.isData = true ∧ ∀ value, field.literal = some value → value.isPlain = true
  property property := property.type.isData = true ∧ ∀ param ∈ property.params, param.isData = true
  method method := method.type.IsResult ∧ ∀ param ∈ method.params, param.isData = true
  truthful type := type.isData = true

theorem Typed.Rules.valued_proper : Rules.valued.Proper where
  field _ allowed := allowed.1
  property _ allowed := allowed
  method _ allowed := allowed
  truthful _ allowed := allowed

open Evaluation

/-- The scene of an evaluation where the machine stands. -/
abbrev Configuration.scene (cfg : Configuration H) (log : List Interaction) : Scene H :=
  { world := cfg.world, log }

namespace Simulation

open Machine Emission

/-!
# Programs in the making

A `Setting` is an assembled program with the host that it runs on.
-/

/-- A program assembled from directives, and a host for it. -/
structure Setting (H : Type) where
  host : Host H
  /-- The states of the host that hold no address. -/
  clear : H → Prop
  guards : host.Guards (Regime.plain clear) (·.isPlain)
  types : Universe
  locals : Array Ty
  directives : List Directive
  program : Program
  assembled : Assembly.assemble directives = .ok program
  /-- Constants that count as the same are the same. -/
  coherent : ∀ first second, Directive.constant first ∈ directives →
    Directive.constant second ∈ directives → first.equals second = true → first = second

namespace Setting

variable {env : Setting H}

/-- What a draft holds is a part of the program. -/
def Written (env : Setting H) (draft : Draft) : Prop :=
  draft.directives.reverse <+: env.directives

variable {draft : Draft}

theorem written_of_eq (whole : env.directives = draft.directives.reverse) : env.Written draft :=
  ⟨[], (List.append_nil _).trans whole.symm⟩

theorem Written.emitted (written : env.Written draft) : draft.Emitted env.program := by
  obtain ⟨rest, shape⟩ := written
  exact ⟨rest, shape ▸ env.assembled⟩

theorem Written.earlier {draft} (written : env.Written after) (leads : draft.Leads after) :
    env.Written draft :=
  (List.reverse_prefix.mpr leads.directives).trans written

end Setting

/-- A configuration stands at the end of a draft, and its variables have known values. -/
structure Ready (env : Setting H) (slots : Array Value) (draft : Draft)
    (cfg : Configuration H) : Prop where
  proper : draft.Proper env.locals.size
  next : cfg.frame.next = Directive.extent draft.directives
  size : cfg.frame.locals.size = env.program.locals.size
  slots : ∀ slot, slot < env.locals.size → cfg.frame.locals[slot]? = slots[slot]?
  plain : cfg.world.IsPlain env.clear

section

variable {env : Setting H} {slots : Array Value} {draft : Draft} {cfg : Configuration H}
  {slot : Nat}

section

variable (ready : Ready env slots draft cfg)

include ready

theorem Ready.located (written : env.Written (draft.wrote d)) :
    ∃ pre rest, Assembly.assemble (pre ++ d :: rest) = .ok env.program ∧
      cfg.frame.next = extent pre ∧ labels pre = labels draft.directives ∧
      pre ++ d :: rest = env.directives := by
  obtain ⟨rest, shape⟩ := written
  have split : draft.directives.reverse ++ d :: rest = env.directives := by
    rw [← shape]
    simp [Draft.wrote]
  refine ⟨draft.directives.reverse, rest, ?_, ?_, labels_reverse _, split⟩
  · rw [split]
    exact env.assembled
  · rw [ready.next, extent_reverse]

omit ready in
theorem Setting.Written.inside (written : env.Written draft)
    (known : draft.declared[slot]? = some type) : slot < env.program.locals.size := by
  obtain ⟨_, shape⟩ := written
  have locals := Assembly.assemble_locals env.assembled
  rw [← shape, List.filterMap_append] at locals
  have inside := (List.getElem?_eq_some_iff.mp known).1
  rw [← Array.length_toList, locals, List.length_append]
  exact Nat.lt_add_right _ inside

theorem Ready.wrote (d : Directive) (next : last.frame.next = cfg.frame.next + d.size)
    (locals : last.frame.locals = cfg.frame.locals) (plain : last.world.IsPlain env.clear) :
    Ready env slots (draft.wrote d) last where
  proper := Draft.wrote_proper ready.proper d
  next := by
    rw [next, ready.next, Draft.wrote, extent_cons, Nat.add_comm]
  size := by rw [locals, ready.size]
  slots slot known := by rw [locals, ready.slots slot known]
  plain := plain

theorem Ready.skip (noCode : d.size = 0) : Ready env slots (draft.wrote d) cfg :=
  ready.wrote d (by rw [noCode, Nat.add_zero]) rfl ready.plain

theorem Ready.elsewhere {other} (proper : other.Proper env.locals.size)
    (next : last.frame.next = extent other.directives)
    (locals : last.frame.locals = cfg.frame.locals) (world : last.world = cfg.world) :
    Ready env slots other last where
  proper := proper
  next := next
  size := by rw [locals, ready.size]
  slots slot known := by rw [locals, ready.slots slot known]
  plain := world ▸ ready.plain

end

theorem Setting.Written.target (written : env.Written (draft.wrote (.mark label)))
    (defined : label < labels draft.directives) :
    Assembly.target? env.directives label = some (extent draft.directives) := by
  obtain ⟨rest, shape⟩ := written
  have split : draft.directives.reverse ++ .mark label :: rest = env.directives := by
    rw [← shape]
    simp [Draft.wrote]
  have asm := env.assembled
  rw [← split] at asm ⊢
  have marked := Assembly.assembled_mark asm (by rwa [labels_reverse])
  rwa [extent_reverse] at marked

variable (ready : Ready env slots draft cfg)

include ready

theorem Ready.jump {op : Op} {tgt : Nat} (written : env.Written (draft.wrote (.jump op label)))
    (marked : Assembly.target? env.directives label = some tgt) :
    env.program.HasInstruction cfg.frame.next op tgt := by
  obtain ⟨_, _, asm, pos, _, split⟩ := ready.located written
  obtain ⟨_, known, instr⟩ := Assembly.assembled_jump asm
  rw [split, marked] at known
  cases known
  rwa [← pos] at instr

theorem Ready.runs_jump (written : env.Written (draft.wrote (.jump Op.jump label)))
    (marked : Assembly.target? env.directives label = some tgt) :
    Runs env.host env.program 1 cfg [] (cfg.moved tgt cfg.frame.stack cfg.world) :=
  .silently (cycle_jump env.host (ready.jump written marked))

theorem Ready.runs_store (written : env.Written (draft.wrote (.slot Op.storeLocal slot)))
    (stack : cfg.frame.stack = given :: rest) (inside : slot < env.program.locals.size) :
    Runs env.host env.program 1 cfg []
      ((cfg.moved (cfg.frame.next + 3) rest cfg.world).stored slot given) := by
  have instr := written.emitted.slot
  rw [← ready.next] at instr
  exact .silently (cycle_storeLocal env.host instr stack (ready.size ▸ inside))

theorem Ready.stored_present (inside : slot < env.program.locals.size) (next : Nat)
    (rest : List Value) (world : World H) (given : Value) :
    ((cfg.moved next rest world).stored slot given).frame.locals[slot]? = some given :=
  Array.getElem?_setIfInBounds_self_of_lt (ready.size ▸ inside)

theorem Ready.stored_scratch (above : env.locals.size ≤ slot) (rest : List Value) (given : Value) :
    Ready env slots (draft.wrote (.slot Op.storeLocal slot))
      ((cfg.moved (cfg.frame.next + 3) rest cfg.world).stored slot given) where
  proper := Draft.wrote_proper ready.proper _
  next := by
    change cfg.frame.next + 3 = _
    rw [ready.next, Draft.wrote, extent_cons, Nat.add_comm]
    rfl
  size := (Array.size_setIfInBounds).trans ready.size
  slots other known := by
    have differ : slot ≠ other := by omega
    exact (Array.getElem?_setIfInBounds_ne differ).trans (ready.slots other known)
  plain := ready.plain

end

end Simulation

end HostScript
