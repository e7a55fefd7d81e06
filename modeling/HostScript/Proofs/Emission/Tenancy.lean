import HostScript.Proofs.Emission.Drafts

namespace HostScript

/-- The slot that a directive writes to. -/
def Directive.stored? : Directive → Option Int
  | .slot code number => if code = Op.code .storeLocal then some number else none
  | _ => none

def Directive.stores (directives : List Directive) : List Int :=
  directives.filterMap stored?

/-- The expressions in an expression, in the order of their code. -/
def Typed.Expr.parts : Typed.Expr → List Typed.Expr
  | .literal _ _ | .reference _ _ _ | .expansion _ _ _ _ _ => []
  | .operator _ _ left right _ _ => [left, right]
  | .unary _ _ part _ | .cast _ _ _ part | .property _ part _ _ | .lateProperty _ part _ => [part]
  | .conditional _ condition yes no _ => [condition, no, yes]
  | .call _ _ _ arguments => arguments
  | .invocation _ target _ arguments _ | .index _ target arguments _ _ => target :: arguments
  | .lateInvocation _ target _ arguments => arguments ++ [target]

namespace Emission

open Typed (Expr)
open Directive (stored? stores)
open Draft List

/-!
# Tenants of slots

A local variable that was taken is held until it is given back.
-/

/-- A draft, the local variables that are held, and those that were declared as variables. -/
structure Tenancy where
  draft : Draft := {}
  held : List Scratch := []
  declared : List Scratch := []

namespace Tenancy

def occupied (tenancy : Tenancy) : List Nat :=
  (tenancy.held ++ tenancy.declared).map Scratch.slot

/-- A local variable is taken, given back by one who holds it, or declared; directives that
declare none are written at any time. -/
inductive Step (tenancy : Tenancy) : Tenancy → Prop
  | hold {type taken} (done : checkOut type false tenancy.draft = .ok taken) :
      Step tenancy { tenancy with draft := taken.2, held := taken.1 :: tenancy.held }
  | borrow {type taken} (done : checkOut type true tenancy.draft = .ok taken) :
      Step tenancy { tenancy with draft := taken.2 }
  | giveBack {scratch after} (isHeld : scratch ∈ tenancy.held)
      (done : checkIn scratch tenancy.draft = .ok ((), after)) :
      Step tenancy { tenancy with draft := after, held := tenancy.held.erase scratch }
  | declare {type scratch after} (done : newLocal type tenancy.draft = .ok (scratch, after)) :
      Step tenancy { tenancy with draft := after, declared := scratch :: tenancy.declared }
  | write {directive after} (declaresNone : directive.declared? = none)
      (done : write directive tenancy.draft = .ok ((), after)) :
      Step tenancy { tenancy with draft := after }

/-- What is held or declared has a slot of its own, which is not free. -/
structure Sound (tenancy : Tenancy) : Prop where
  proper : tenancy.draft.Proper 0
  holds : ∀ scratch ∈ tenancy.held ++ tenancy.declared, Holds 0 {} tenancy.draft scratch
  distinct : tenancy.occupied.Nodup

namespace Sound

variable {tenancy later : Tenancy} {after : Draft}

theorem keep (sound : tenancy.Sound) (proper : after.Proper 0)
    (leads : Leads tenancy.draft after) : Sound { tenancy with draft := after } where
  proper := proper
  holds scratch mem := (sound.holds scratch mem).later leads
  distinct := sound.distinct

theorem not_owns (sound : tenancy.Sound) (isOccupied : slot ∈ tenancy.occupied) :
    ¬tenancy.draft.Owns slot := by
  obtain ⟨scratch, mem, rfl⟩ := mem_map.mp isOccupied
  exact (sound.holds scratch mem).taken

theorem occupy (sound : tenancy.Sound) (proper : later.draft.Proper 0)
    (leads : Leads tenancy.draft later.draft)
    (holds : Holds 0 tenancy.draft later.draft scratch)
    (joins : (later.held ++ later.declared).Perm (scratch :: (tenancy.held ++ tenancy.declared))) :
    later.Sound := by
  refine ⟨proper, fun other mem => ?_, ?_⟩
  · rcases mem_cons.mp (joins.mem_iff.mp mem) with rfl | old
    · exact holds.earlier ⟨nil_suffix, Nat.zero_le _, fun _ _ => .inl (Nat.zero_le _)⟩
    · exact (sound.holds other old).later leads
  · refine (joins.map Scratch.slot).nodup_iff.mpr (nodup_cons.mpr ⟨fun mem => ?_, ?_⟩)
    · exact sound.not_owns mem holds.owned
    · exact sound.distinct

theorem giveBack (sound : tenancy.Sound) (isHeld : scratch ∈ tenancy.held) :
    Sound { tenancy with
      draft := tenancy.draft.returned scratch, held := tenancy.held.erase scratch } := by
  have parts : (tenancy.held ++ tenancy.declared).Perm
      (scratch :: (tenancy.held.erase scratch ++ tenancy.declared)) :=
    (perm_cons_erase isHeld).append_right _
  have distinct := (parts.map Scratch.slot).nodup_iff.mp sound.distinct
  rw [map_cons, nodup_cons] at distinct
  have holds := sound.holds scratch (mem_append_left _ isHeld)
  refine ⟨returned_proper sound.proper holds, fun other mem => ?_, distinct.2⟩
  have before := sound.holds other (parts.mem_iff.mpr (mem_cons_of_mem _ mem))
  refine ⟨before.owned, ?_, before.above, before.known⟩
  rintro (beyond | ⟨free, isFree, same⟩)
  · exact before.taken (.inl beyond)
  · rcases mem_append.mp isFree with old | new
    · exact before.taken (.inr ⟨free, old, same⟩)
    · cases mem_singleton.mp new
      exact distinct.1 (same ▸ mem_map_of_mem mem)

theorem step (sound : tenancy.Sound) (next : Step tenancy later) : later.Sound := by
  cases next with
  | hold done =>
    rw [checkOut_eq] at done
    cases done
    obtain ⟨proper, leads, holds⟩ := taken_held sound.proper _
    exact sound.occupy proper leads holds (.refl _)
  | borrow done =>
    rw [checkOut_eq] at done
    cases done
    obtain ⟨proper, leads, _⟩ := taken_owned sound.proper _ true
    exact sound.keep proper leads
  | giveBack isHeld done =>
    cases done
    exact sound.giveBack isHeld
  | declare done =>
    cases done
    exact sound.occupy (wrote_proper sound.proper _) (wrote_leads _ _)
      (declared_holds sound.proper _) perm_middle
  | write _ done =>
    rw [write_eq] at done
    cases done
    exact sound.keep (wrote_proper sound.proper _) (wrote_leads _ _)

theorem of_reached (reached : Relation.ReflTransGen Step {} tenancy) : tenancy.Sound := by
  induction reached with
  | refl =>
    have start : (({} : Draft).wroteAll []).Proper 0 := wroteAll_empty_proper (Nat.zero_le _)
    exact ⟨start, fun _ mem => (nomatch mem), nodup_nil⟩
  | tail _ next sound => exact sound.step next

end Sound

end Tenancy

/-- Whether the value of a receiver is put into a slot, to be passed by its address. -/
def isStored (target : Expr) : Bool :=
  target.type.isValue && (localVariable? target).isNone

/-- Whether a member is read from its receiver. -/
def isReceived : DataMember → Bool
  | .field field => field.literal.isNone && !field.isStatic
  | .property property => !property.isStatic

/-- What an expression puts into a slot: its parts before that and after it, and the instruction
that the slot is for. -/
def storing? : Expr → Option (List Expr × List Expr × Directive)
  | .invocation _ target _ args method =>
    if !method.isStatic && isStored target then
      some ([target], args, .method Op.callVirtual method)
    else none
  | .property _ target _ member =>
    if isReceived member && isStored target then
      (memberDirective? member).map fun instruction => ([target], [], instruction)
    else none
  | .lateInvocation _ target name args => some ([], args ++ [target], .name Op.lateCall name.name)
  | _ => none

/-- Code of expressions in a row: what one puts into a slot is loaded for its member instruction,
and not written over before that; others write to no slot but for their parts. -/
inductive Laid : List Expr → List Directive → Prop
  | quiet {code} (storesNone : stores code = []) : Laid [] code
  | append {exprs others code further} (first : Laid exprs code) (rest : Laid others further) :
      Laid (exprs ++ others) (code ++ further)
  | parts {expr written code} (storesNothing : storing? expr = none)
      (inOrder : written <+ expr.parts) (partsLaid : Laid written code) : Laid [expr] code
  | member {expr earlier later before between instruction} {slot : Nat}
      (storing : storing? expr = some (earlier, later, instruction))
      (beforeLaid : Laid earlier before) (betweenLaid : Laid later between)
      (loaded : .slot Op.loadLocalAddress slot ∈ between ∨ .slot Op.loadLocal slot ∈ between)
      (kept : ↑slot ∉ stores between) :
      Laid [expr] (before ++ [.slot Op.storeLocal slot] ++ between ++ [instruction])

theorem stores_append (code further : List Directive) :
    stores (code ++ further) = stores code ++ stores further :=
  filterMap_append

namespace Laid

theorem stores_eq_nil (laid : Laid exprs code) (none : exprs = []) : stores code = [] := by
  induction laid with
  | quiet storesNone => exact storesNone
  | append _ _ first rest =>
    obtain ⟨rfl, rfl⟩ := append_eq_nil_iff.mp none
    rw [stores_append, first rfl, rest rfl]
    rfl
  | parts | member => cases none

theorem and_quiet (laid : Laid exprs code) (storesNone : stores ds = []) :
    Laid exprs (code ++ ds) :=
  append_nil exprs ▸ laid.append (.quiet storesNone)

end Laid

/-- What is written between two drafts is code of a kind, and writes to slots that the first
draft owns. -/
def Lays (is : List Directive → Prop) (draft after : Draft) : Prop :=
  draft.Proper 0 → ∃ code, after.directives = code.reverse ++ draft.directives ∧ is code ∧
    ∀ slot ∈ stores code, draft.Owns slot.toNat

variable {draft after : Draft}

namespace Lays

theorem nil : Lays (Laid []) draft draft :=
  fun _ => ⟨[], rfl, .quiet rfl, forall_mem_nil _⟩

theorem join (first : Lays p draft second) (grows : Grows 0 draft second)
    (rest : Lays q second third)
    (whole : ∀ code further, p code → q further →
      (∀ slot ∈ stores further, second.Owns slot.toNat) → r (code ++ further)) :
    Lays r draft third := by
  intro proper
  obtain ⟨code, shape, isCode, owned⟩ := first proper
  obtain ⟨between, leads⟩ := grows proper
  obtain ⟨further, furtherShape, isFurther, furtherOwned⟩ := rest between
  refine ⟨code ++ further, ?_, whole code further isCode isFurther furtherOwned, ?_⟩
  · rw [furtherShape, shape, reverse_append, append_assoc]
  · rw [stores_append, forall_mem_append]
    exact ⟨owned, fun slot mem => leads.owns _ (furtherOwned slot mem)⟩

theorem trans (first : Lays (Laid exprs) draft second) (grows : Grows 0 draft second)
    (rest : Lays (Laid others) second third) : Lays (Laid (exprs ++ others)) draft third :=
  first.join grows rest fun _ _ isFirst isRest _ => isFirst.append isRest

/-- Directives are written after code, which makes code of another kind. -/
theorem close (lays : Lays p draft second) (ds : List Directive)
    (owns : draft.Proper 0 → ∀ slot ∈ stores ds, draft.Owns slot.toNat)
    (whole : ∀ code, p code → q (code ++ ds)) : Lays q draft (second.wroteAll ds) := by
  intro proper
  obtain ⟨code, shape, isCode, owned⟩ := lays proper
  refine ⟨code ++ ds, ?_, whole code isCode, ?_⟩
  · rw [directives_wroteAll, shape, reverse_append, append_assoc]
  · rw [stores_append, forall_mem_append]
    exact ⟨owned, owns proper⟩

theorem around (first : Lays p draft second) (grows : Grows 0 draft second)
    (rest : Lays q second third) (storesNone : stores ds = [])
    (whole : ∀ code further, p code → q further →
      (∀ slot ∈ stores further, second.Owns slot.toNat) → r (code ++ further ++ ds)) :
    Lays r draft (third.wroteAll ds) := by
  have joined : Lays (fun code => r (code ++ ds)) draft third := first.join grows rest whole
  exact joined.close ds (fun _ => storesNone ▸ forall_mem_nil _) fun _ isWhole => isWhole

theorem wroteAll (lays : Lays (Laid exprs) draft second) (storesNone : stores ds = []) :
    Lays (Laid exprs) draft (second.wroteAll ds) :=
  lays.close ds (fun _ => storesNone ▸ forall_mem_nil _) fun _ laid => laid.and_quiet storesNone

theorem wrote (lays : Lays (Laid exprs) draft second) (storesNone : stores [d] = []) :
    Lays (Laid exprs) draft (second.wrote d) :=
  lays.wroteAll storesNone

theorem before (storesNone : stores [d] = []) (lays : Lays (Laid exprs) (draft.wrote d) after) :
    Lays (Laid exprs) draft after :=
  (nil.wrote storesNone).trans .one lays

theorem taken (lays : Lays (Laid exprs) draft second) (type : Ty) (isTemporary : Bool) :
    Lays (Laid exprs) draft (second.taken type isTemporary).2 := by
  have decl : Lays (Laid exprs) draft (second.wrote (.declareLocal type)) := lays.wrote rfl
  unfold Draft.taken
  split
  · cases isTemporary <;> exact lays
  · cases isTemporary <;> exact decl

theorem mono (lays : Lays p draft after) (included : ∀ code, p code → q code) :
    Lays q draft after := by
  intro proper
  obtain ⟨code, shape, isCode, owned⟩ := lays proper
  exact ⟨code, shape, included code isCode, owned⟩

theorem parts (lays : Lays (Laid written) draft after) (storesNothing : storing? expr = none)
    (inOrder : written <+ expr.parts) : Lays (Laid [expr]) draft after :=
  lays.mono fun _ => .parts storesNothing inOrder

end Lays

/-- The code of an item; that of a receiver may end with a slot that nobody else gets. -/
def Item.IsCode (after : Draft) : Item → List Directive → Prop
  | .one expr => Laid [expr]
  | .many exprs | .elements _ _ exprs => Laid exprs
  | .receiver target isImmediate _ => fun code =>
    isStored target = false ∧ Laid [target] code ∨
      isStored target = true ∧ ∃ before, ∃ slot : Nat, Laid [target] before ∧
        code = before ++ [.slot Op.storeLocal slot, .slot Op.loadLocalAddress slot] ∧
        (isImmediate = false → ¬after.Owns slot)

theorem stores_memberDirective? (isReadable : memberDirective? member = some d) :
    stores [d] = [] := by
  cases member with
  | field => cases isReadable; rfl
  | property =>
    simp only [memberDirective?, Option.ite_none_right_eq_some, Option.some.injEq] at isReadable
    rw [← isReadable.2]
    rfl

theorem isReceived_eq {member : DataMember}
    (isVariable : ∀ field, member = .field field → field.literal = none) :
    isReceived member = !member.isStatic := by
  cases member with
  | field field =>
    rw [isReceived, isVariable field rfl]
    exact Bool.true_and _
  | property => rfl

theorem stores_castDirectives (types : Universe) (source target : Ty) :
    stores (castDirectives types source target) = [] := by
  unfold castDirectives
  split_ifs <;> rfl

theorem stores_operatorDirectives (isBinary : operatorDirectives? op = some ds) :
    stores ds = [] := by
  cases op <;> cases isBinary <;> rfl

/-- A member of a receiver, after its arguments. -/
theorem Lays.member (receives : Lays (Item.IsCode second (.receiver target args.isEmpty held))
      draft second) (grows : Grows 0 draft second) (arguments : Lays (Laid args) second third)
    (inOrder : expr.parts = [target] ++ args)
    (storing : storing? expr = if isStored target then some ([target], args, d) else none)
    (storesNone : stores [d] = []) : Lays (Laid [expr]) draft (third.wrote d) := by
  show Lays _ draft (third.wroteAll [d])
  refine receives.around grows arguments storesNone fun code further isReceiver laid owned => ?_
  rcases isReceiver with ⟨isDirect, direct⟩ | ⟨isStored, before, slot, target, rfl, held⟩
  · rw [isDirect] at storing
    exact .parts storing (inOrder ▸ .refl _) ((direct.append laid).and_quiet storesNone)
  · have shape : before ++ [.slot Op.storeLocal slot, .slot Op.loadLocalAddress slot] ++ further =
        before ++ [.slot Op.storeLocal slot] ++ ([.slot Op.loadLocalAddress slot] ++ further) := by
      simp
    rw [shape]
    rw [isStored] at storing
    refine .member storing target (.append (.quiet rfl) laid) (.inl mem_cons_self) ?_
    intro (mem : _ ∈ stores further)
    cases empty : args.isEmpty with
    | true => exact absurd mem (laid.stores_eq_nil (List.isEmpty_iff.mp empty) ▸ not_mem_nil)
    | false => exact held empty (owned _ mem)

theorem Code.lays (code : Code types item draft after) :
    Lays (item.IsCode after) draft after := by
  induction code with
  | literal | localVariable | fieldConstant | fieldShared =>
    exact (Lays.nil.wrote rfl).parts rfl (nil_sublist _)
  | propertyConstant _ _ _ _ isConstant =>
    exact (Lays.nil.wrote rfl).parts (by simp [storing?, isReceived, isConstant]) (nil_sublist _)
  | fieldOwn => exact ((Lays.nil.wrote rfl).wrote rfl).parts rfl (nil_sublist _)
  | staticProperty _ _ _ _ isVariable isStatic isReadable =>
    exact (Lays.nil.wrote (stores_memberDirective? isReadable)).parts
      (by simp [storing?, isReceived_eq isVariable, isStatic]) (nil_sublist _)
  | overload _ _ _ _ leftCode _ left right | element _ _ leftCode _ left right
  | indexer _ _ _ _ leftCode _ left right =>
    exact ((left.trans (leftCode.grows 0).1 right).wrote rfl).parts rfl (.refl _)
  | shortCircuit _ _ _ leftCode _ left right =>
    have operands := left.trans (leftCode.grows 0).1 (right.before rfl)
    exact (((operands.wroteAll rfl).before rfl).before rfl).parts rfl (.refl _)
  | operator _ _ _ isBinary leftCode _ left right =>
    exact ((left.trans (leftCode.grows 0).1 right).wroteAll
      (stores_operatorDirectives isBinary)).parts rfl (.refl _)
  | unary _ _ _ _ operand | lateProperty _ _ _ operand =>
    exact (operand.wrote rfl).parts rfl (.refl _)
  | conditional _ _ conditionCode noCode _ condition no yes =>
    have branches := (no.trans (noCode.grows 0).1 ((yes.before rfl).before rfl)).before rfl
    have whole := condition.trans (conditionCode.grows 0).1 branches
    exact (((whole.before rfl).before rfl).wrote rfl).parts rfl (.refl _)
  | cast _ _ _ _ operand =>
    exact (operand.wroteAll (stores_castDirectives _ _ _)).parts rfl (.refl _)
  | call _ _ method _ arguments =>
    cases isStatic : method.isStatic
    · simp only [isStatic, Bool.false_eq_true, if_false] at arguments
      exact ((arguments.before rfl).wrote rfl).parts rfl (.refl _)
    · simp only [isStatic, if_true] at arguments
      exact (arguments.wrote rfl).parts rfl (.refl _)
  | staticInvocation _ _ _ isStatic _ arguments =>
    exact (arguments.wrote rfl).parts (by simp [storing?, isStatic]) (sublist_cons_self _ _)
  | staticIndexer _ _ _ _ _ _ arguments =>
    exact (arguments.wrote rfl).parts rfl (sublist_cons_self _ _)
  | nil | noElements => exact .nil
  | cons firstCode _ first rest => exact first.trans (firstCode.grows 0).1 rest
  | elements firstCode _ first rest =>
    exact ((first.trans (firstCode.grows 0).1 (rest.before rfl)).before rfl).before rfl
  | reference _ isReference _ target =>
    exact target.mono fun _ laid => .inl ⟨by rw [isStored, isReference]; rfl, laid⟩
  | ownAddress _ _ _ isVariable =>
    refine Lays.mono ((Lays.nil.wrote rfl).parts ?_ (nil_sublist _)) fun _ laid => .inl ⟨?_, laid⟩
    · unfold localVariable? at isVariable
      split at isVariable
      · rfl
      · cases isVariable
    · rw [isStored, isVariable, Option.isNone_some, Bool.and_false]
  | @address target _ _ isImmediate isValue isComputed targetCode lays =>
    intro proper
    obtain ⟨between, leads⟩ := (targetCode.grows 0).1 proper
    obtain ⟨_, _, owns, _, _, taken⟩ := taken_owned between target.type isImmediate
    refine (lays.taken target.type isImmediate).close _ (fun _ slot mem => ?_)
      (fun code laid => ?_) proper
    · rw [mem_singleton.mp mem]
      exact leads.owns _ owns
    · exact .inr ⟨by rw [isStored, isValue, isComputed]; rfl, code, _, laid, rfl,
        fun isHeld owned => taken isHeld ((wroteAll_leads _ _).owns _ owned)⟩
  | @invocation target args draft _ third held method off name isInstance targetCode _ receives
      arguments =>
    have lays : Lays (Laid [.invocation off target name args method]) draft
        (third.wrote (.method Op.callVirtual method)) :=
      receives.member (targetCode.grows 0).1 arguments rfl (by simp [storing?, isInstance]) rfl
    cases held <;> exact lays
  | property _ _ isVariable isInstance isReadable targetCode receives =>
    refine receives.member (targetCode.grows 0).1 .nil rfl ?_ (stores_memberDirective? isReadable)
    simp [storing?, isReceived_eq isVariable, isInstance, isReadable]
  | @lateInvocation _ args draft _ _ _ _ argumentsCode _ arguments target =>
    intro proper
    obtain ⟨takenProper, takenLeads, holds⟩ := taken_held proper (.array .object 1)
    have begun : Lays (Laid []) draft _ := Lays.nil.taken (.array .object 1) false
    generalize draft.taken (.array .object 1) false = taken at *
    have grows : Grows 0 draft taken.2 := fun _ => ⟨takenProper, takenLeads⟩
    have stored : Lays (fun code => ∃ before, Laid [] before ∧ code = before ++ _) draft _ :=
      ((begun.wrote (d := .constant (.int32 args.length)) rfl).wrote
        (d := .type Op.newArray .object) rfl).close [.slot Op.storeLocal taken.1.slot]
        (fun _ _ mem => mem_singleton.mp mem ▸ holds.owned) fun code laid => ⟨code, laid, rfl⟩
    refine stored.around (grows.wroteAll [_, _, _])
      (arguments.trans (argumentsCode.grows 0).1 target) rfl ?_ proper
    rintro _ further ⟨before, laid, rfl⟩ isBetween owned
    have loading : stores [.slot Op.loadLocal taken.1.slot] = [] := rfl
    rw [append_cons, append_assoc (before ++ _)]
    refine .member rfl laid (isBetween.and_quiet loading) (.inr (by simp)) ?_
    rw [stores_append, loading, append_nil]
    exact fun mem => (holds.later (wroteAll_leads _ [_, _, _])).taken (owned _ mem)

/-- Slots never collide: who takes a local variable gets one of the type asked for that nobody
holds, so the code of an expression writes to no such slot, and not twice to one of its own before
the instruction that uses it. -/
theorem slots_never_collide (types : Universe) {tenancy : Tenancy}
    (reached : Relation.ReflTransGen Tenancy.Step {} tenancy) :
    (tenancy.draft.free.map Scratch.slot).Nodup ∧
      tenancy.occupied.Nodup ∧
      (∀ slot ∈ tenancy.occupied, slot ∉ tenancy.draft.free.map Scratch.slot) ∧
      (∀ type isTemporary, ∃ scratch after,
        checkOut type isTemporary tenancy.draft = .ok (scratch, after) ∧
          scratch.type = type ∧ after.declared[scratch.slot]? = some type ∧
          scratch.slot ∉ tenancy.occupied) ∧
      ∀ expr after, expr.isDirect = true →
        expression types expr tenancy.draft = .ok ((), after) →
        ∃ code, after.directives = code.reverse ++ tenancy.draft.directives ∧
          Laid [expr] code ∧ ∀ slot ∈ tenancy.occupied, (slot : Int) ∉ stores code := by
  have sound := Tenancy.Sound.of_reached reached
  refine ⟨sound.proper.distinct, sound.distinct, fun slot isOccupied free => ?_, ?_, ?_⟩
  · obtain ⟨scratch, isFree, same⟩ := mem_map.mp free
    exact sound.not_owns isOccupied (.inr ⟨scratch, isFree, same⟩)
  · intro type isTemporary
    obtain ⟨_, _, owns, _, known, _⟩ := taken_owned sound.proper type isTemporary
    exact ⟨_, _, checkOut_eq type isTemporary tenancy.draft, type_taken _ _ _, known,
      fun isOccupied => sound.not_owns isOccupied owns⟩
  · intro expr after direct done
    obtain ⟨code, shape, laid, owned⟩ := (code_of_expression _ direct _ _ _ done).lays sound.proper
    exact ⟨code, shape, laid, fun slot isOccupied mem => sound.not_owns isOccupied (owned _ mem)⟩

/-- A value with a method, given to that method of another value while a third one is held. -/
theorem nested_receivers_apart :
    let member : Method := { name := [], routine := .host "" }
    let value : Expr := .literal 0 (.float 0)
    let nested : Expr := .invocation 0 value ⟨[], 0⟩ [.invocation 0 value ⟨[], 0⟩ [] member] member
    ∃ scratch draft after code, checkOut .single false {} = .ok (scratch, draft) ∧
      expression { declarations := [] } nested draft = .ok ((), after) ∧
      after.directives = code.reverse ++ draft.directives ∧ Laid [nested] code ∧
      (scratch.slot : Int) ∉ stores code := by
  intro member value nested
  obtain ⟨_, _, _, _, kept⟩ := slots_never_collide { declarations := [] }
    (.single (.hold (checkOut_eq .single false {})))
  obtain ⟨code, shape, laid, apart⟩ := kept nested _ rfl rfl
  exact ⟨_, _, _, code, rfl, rfl, shape, laid, apart _ mem_cons_self⟩

end Emission

end HostScript
