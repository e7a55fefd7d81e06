import HostScript.Proofs.Machine.Instruction
import HostScript.Proofs.Machine.Regime

namespace HostScript

/-!
# What instructions leave alone

Most instructions go on with the next one.
-/

/-- Whether an operation goes on with the next one, unless it fails. -/
def Op.goesOn : Op → Bool
  | .jump | .jumpIfTrue | .jumpIfFalse | .tryRegion | .leave | .endFinally | .ret => false
  | _ => true

/-- Whether an operation is a jump within the code around it. -/
def Op.isJump : Op → Bool
  | .jump | .jumpIfTrue | .jumpIfFalse => true
  | _ => false

def Op.operandSize (op : Op) : Nat :=
  if op.operand = .absent then 0 else 2

def Act.Spares (view : Store → β) (action : Act H α) : Prop :=
  ∀ world, view (action world).2.store = view world.store

/-- The members of a host leave what is seen of the store as it is. -/
structure Host.Spares (host : Host H) (view : Store → β) : Prop where
  readField : ∀ label receiver, Act.Spares view (host.readField label receiver)
  writeField : ∀ label receiver value, Act.Spares view (host.writeField label receiver value)
  readProperty : ∀ label receiver index, Act.Spares view (host.readProperty label receiver index)
  writeProperty : ∀ label receiver index value,
    Act.Spares view (host.writeProperty label receiver index value)
  invoke : ∀ label receiver args, Act.Spares view (host.invoke label receiver args)

theorem Host.spares_nothing (host : Host H) : host.Spares fun _ => () :=
  ⟨fun _ _ _ => rfl, fun _ _ _ _ => rfl, fun _ _ _ _ => rfl, fun _ _ _ _ _ => rfl,
    fun _ _ _ _ => rfl⟩

/-- What is seen of the store is known; any values fit. -/
def Regime.seen (view : Store → β) (store : β) : Regime H Unit where
  holds _ world := view world.store = store
  fits _ _ _ := True
  mono _ fits := fits

theorem seen_opens (view : Store → β) (store : β) :
    (Regime.seen view store : Regime H Unit).Open fun _ => True :=
  ⟨fun _ => trivial, fun _ _ _ _ _ => trivial, fun holds _ => holds, id⟩

theorem Act.Spares.stays {view : Store → β} {action : Act H α} (spares : Act.Spares view action)
    (store : β) : Act.Stays (Regime.seen view store) action fun _ => True :=
  .of fun world holds => ⟨(spares world).trans holds, fun _ _ => trivial⟩

theorem Act.Stays.spares {view : Store → β} {action : Act H α} {good : α → Prop}
    (stays : ∀ store, Act.Stays (Regime.seen view store) action good) : Act.Spares view action :=
  fun _ => ((stays _).after rfl).1

theorem Host.Spares.guards {host : Host H} {view : Store → β} (spares : host.Spares view)
    (store : β) : host.Guards (Regime.seen view store) fun _ => True where
  toOpen := seen_opens view store
  constants _ _ _ _ _ _ := trivial
  readField _ _ _ := (spares.readField _ _).stays store
  writeField _ _ _ _ _ := (spares.writeField _ _ _).stays store
  readProperty _ _ _ _ _ := (spares.readProperty _ _ _).stays store
  writeProperty _ _ _ _ _ _ _ := (spares.writeProperty _ _ _ _).stays store
  invoke _ _ _ _ _ := (spares.invoke _ _ _).stays store

namespace Step

/-- What lies outside of the stack and the world but for some slots, and the store that is seen. -/
structure Unmoved (view : Store → β) (kept : Nat → Prop)
    (before after : Configuration H) : Prop where
  regions : after.frame.regions = before.frame.regions
  completions : after.frame.completions = before.frame.completions
  position : after.frame.position = before.frame.position
  operations : after.frame.operations = before.frame.operations
  size : after.frame.locals.size = before.frame.locals.size
  locals : ∀ slot, kept slot → after.frame.locals[slot]? = before.frame.locals[slot]?
  store : view after.world.store = view before.world.store

section

variable {view : Store → β} {kept : Nat → Prop}

theorem Unmoved.refl (cfg : Configuration H) : Unmoved view kept cfg cfg :=
  ⟨rfl, rfl, rfl, rfl, rfl, fun _ _ => rfl, rfl⟩

theorem Unmoved.of_frame (cfg : Configuration H) (next : Nat) (stack : List Value) :
    Unmoved view kept cfg { cfg with frame := { cfg.frame with next, stack } } :=
  ⟨rfl, rfl, rfl, rfl, rfl, fun _ _ => rfl, rfl⟩

theorem Unmoved.trans (prev : Unmoved view kept first second)
    (later : Unmoved view kept second third) : Unmoved view kept first third where
  regions := later.regions.trans prev.regions
  completions := later.completions.trans prev.completions
  position := later.position.trans prev.position
  operations := later.operations.trans prev.operations
  size := later.size.trans prev.size
  locals slot isKept := (later.locals slot isKept).trans (prev.locals slot isKept)
  store := later.store.trans prev.store

/-- A part of an instruction moves nothing, and when it succeeds it ends as it should. -/
abbrev Moves (view : Store → β) (kept : Nat → Prop) (cfg : Configuration H) (part : Step H α)
    (ends : α → Configuration H → Prop) : Prop :=
  Unmoved view kept cfg (part cfg).2 ∧
    ∀ result, (part cfg).1 = .ok result → ends result (part cfg).2

theorem Moves.bind {next between} (prev : Moves view kept cfg first between)
    (rest : ∀ res mid, between res mid → Moves view kept mid (next res) ends) :
    Moves view kept cfg (first >>= next) ends := by
  obtain ⟨unmoved, reached⟩ := prev
  unfold Moves
  rw [bind_apply]
  rcases ran : first cfg with ⟨_ | res, mid⟩ <;> rw [ran] at unmoved
  · exact ⟨unmoved, fun _ same => nomatch same⟩
  · rw [ran] at reached
    obtain ⟨further, ended⟩ := rest res mid (reached res rfl)
    exact ⟨unmoved.trans further, ended⟩

/--
A part of an instruction moves nothing, and when it succeeds it has taken this many bytes of
code and its result is good.
-/
def Takes (view : Store → β) (kept : Nat → Prop) (count : Nat) (part : Step H α)
    (good : α → Prop) : Prop :=
  ∀ cfg, Moves view kept cfg part fun result after =>
    good result ∧ after.frame.next = cfg.frame.next + count

theorem operand_moves (prog : Program) (cfg : Configuration H) :
    Moves view kept cfg (Step.operand prog) fun num after =>
      prog.word? cfg.frame.next = some num ∧ after.frame.next = cfg.frame.next + 2 := by
  simp only [Moves, Step.operand, bind_apply, Step.frame, get_apply, pure_apply]
  cases prog.word? cfg.frame.next with
  | none => exact ⟨.refl _, by rintro _ ⟨⟩⟩
  | some _ => exact ⟨.of_frame .., fun _ same => ⟨congrArg some (Except.ok.inj same), rfl⟩⟩

variable {op : Op}

namespace Takes

variable {good known : α → Prop} {count : Nat} {next : α → Step H γ}

theorem pure (isGood : good res) : Takes view kept 0 (pure res : Step H α) good :=
  fun _ => ⟨.refl _, fun _ same => ⟨Except.ok.inj same ▸ isGood, rfl⟩⟩

theorem throw (trouble : Trouble) : Takes view kept count (throw trouble : Step H α) good :=
  fun _ => ⟨.refl _, fun _ same => nomatch same⟩

theorem fail (fault : RunFault) : Takes view kept count (Step.fail fault : Step H α) good := throw _

theorem sequence {good count more} (prev : Takes view kept count first known)
    (rest : ∀ res, known res → Takes view kept more (next res) good) :
    Takes view kept (count + more) (first >>= next) good := by
  intro cfg
  refine (prev cfg).bind fun res mid ⟨isKnown, moved⟩ => ?_
  obtain ⟨unmoved, ended⟩ := rest res isKnown mid
  refine ⟨unmoved, fun last same => ?_⟩
  obtain ⟨isGood, movedOn⟩ := ended last same
  exact ⟨isGood, by rw [movedOn, moved, Nat.add_assoc]⟩

theorem bind {good} (prev : Takes view kept 0 first known)
    (rest : ∀ res, known res → Takes view kept count (next res) good) :
    Takes view kept count (first >>= next) good :=
  Nat.zero_add count ▸ prev.sequence rest

theorem followed {good} (prev : Takes view kept count first known)
    (rest : ∀ res, known res → Takes view kept 0 (next res) good) :
    Takes view kept count (first >>= next) good :=
  prev.sequence rest

theorem get : Takes view kept 0 (get : Step H (Configuration H)) fun _ => True :=
  fun _ => ⟨.refl _, fun _ _ => ⟨trivial, rfl⟩⟩

theorem frame : Takes view kept 0 (Step.frame : Step H Frame) fun _ => True :=
  fun _ => ⟨.refl _, fun _ _ => ⟨trivial, rfl⟩⟩

theorem lift (wrap : ε → RunFault) (res : Except ε α) :
    Takes view kept 0 (Step.lift wrap res : Step H α) fun _ => True := by
  cases res with
  | error _ => exact fail _
  | ok _ => exact pure trivial

theorem act {good : α → Prop} (stays : ∀ store, Act.Stays (Regime.seen view store) action good) :
    Takes view kept 0 (Step.act action) fun _ => True :=
  fun cfg => ⟨⟨rfl, rfl, rfl, rfl, rfl, fun _ _ => rfl, Act.Stays.spares stays cfg.world⟩,
    fun _ _ => ⟨trivial, rfl⟩⟩

theorem push (val : Value) : Takes view kept 0 (Step.push val : Step H Unit) fun _ => True :=
  fun _ => ⟨.of_frame .., fun _ _ => ⟨trivial, rfl⟩⟩

theorem restack (stack : List Value) :
    Takes view kept 0
      (Step.modifyFrame fun frame => { frame with stack } : Step H Unit) fun _ => True :=
  fun _ => ⟨.of_frame .., fun _ _ => ⟨trivial, rfl⟩⟩

theorem peek : Takes view kept 0 (Step.peek : Step H Value) fun _ => True :=
  frame.bind fun _ _ => by
    split
    · exact fail _
    · exact pure trivial

theorem pop : Takes view kept 0 (Step.pop : Step H Value) fun _ => True :=
  frame.bind fun _ _ => by
    split
    · exact fail _
    · exact (restack _).bind fun _ _ => pure trivial

theorem popMany (count : Nat) :
    Takes view kept 0 (Step.popMany count : Step H (List Value)) fun _ => True :=
  frame.bind fun _ _ => by
    dsimp only
    split
    · exact fail _
    · exact (restack _).bind fun _ _ => pure trivial

theorem dereference (val : Value) :
    Takes view kept 0 (Step.dereference val : Step H Value) fun _ => True := by
  cases val with
  | address _ => exact get.bind fun _ _ => pure trivial
  | _ => exact pure trivial

theorem receiver : Takes view kept 0 (Step.receiver : Step H Value) fun _ => True :=
  pop.bind fun _ _ => (dereference _).bind fun _ _ => by
    split
    · exact fail _
    · exact pure trivial

theorem popBoolean (host : Host H) : Takes view kept 0 (Step.popBoolean host) fun _ => True :=
  pop.bind fun val _ => by
    cases val with
    | bool val => exact pure trivial
    | _ => exact get.bind fun _ _ => fail _

theorem operand (prog : Program) :
    Takes view kept 2 (Step.operand prog : Step H Nat) fun _ => True := by
  intro cfg
  obtain ⟨unmoved, taken⟩ : Moves view kept cfg _ _ := operand_moves prog cfg
  exact ⟨unmoved, fun num done => ⟨trivial, (taken num done).2⟩⟩

theorem entry (prog : Program) (pool : Array α) :
    Takes view kept 2 (Step.entry prog pool : Step H α) fun _ => True :=
  (operand prog).followed fun _ _ => by
    split
    · exact pure trivial
    · exact throw _

theorem mapM (takes : ∀ item, Takes view kept 0 (part item) fun _ => True) (items : List α) :
    Takes view kept 0 (items.mapM part) fun _ => True := by
  induction items with
  | nil => exact pure trivial
  | cons first _ ih =>
    rw [List.mapM_cons]
    exact (takes first).bind fun _ _ => ih.bind fun _ _ => pure trivial

theorem element (rank : Nat) :
    Takes view kept 0 (Step.element rank : Step H (ArrayRef × List Int)) fun _ => True :=
  (popMany rank).bind fun _ _ => (mapM (fun _ => lift _ _) _).bind fun _ _ =>
    receiver.bind fun val _ => by
      cases val with
      | array _ => exact pure trivial
      | _ => exact fail _

theorem stateReference :
    Takes view kept 0 (Step.stateReference : Step H (Text × Bool)) fun _ => True :=
  pop.bind fun val _ => by
    cases val with
    | string _ =>
      refine pop.bind fun holder _ => ?_
      cases holder with
      | null | state => exact pure trivial
      | _ => exact fail _
    | _ => exact fail _

theorem binary (operation : Value → Value → Except ArithmeticFault Value) :
    Takes view kept 0 (Step.binary operation : Step H Unit) fun _ => True :=
  pop.bind fun _ _ => pop.bind fun _ _ => (lift _ _).bind fun _ _ => push _

theorem stateGet (host : Host H) (type : Ty) :
    Takes view kept 0 (Step.stateGet host type) fun _ => True :=
  stateReference.bind fun ⟨_, _⟩ _ => by
    dsimp only
    split
    · refine get.bind fun _ _ => ?_
      split
      · exact push _
      · exact throw _
    · exact push _

/-- Writing a persistent variable is nothing where nothing is seen of what is put. -/
theorem stateSet
    (blind : ∀ store name val after, store.put name val = .ok after → view after = view store) :
    Takes view kept 0 (Step.stateSet : Step H Unit) fun _ => True :=
  pop.bind fun val _ => stateReference.bind fun ⟨name, _⟩ _ => by
    dsimp only
    split
    · intro cfg
      unfold Moves
      rw [bind_apply, get_apply]
      dsimp only
      cases put : cfg.world.store.put name val with
      | ok store =>
        exact ⟨⟨rfl, rfl, rfl, rfl, rfl, fun _ _ => rfl, blind _ _ _ _ put⟩,
          fun _ _ => ⟨trivial, rfl⟩⟩
      | error _ => exact throw _ cfg
    · exact pure trivial

theorem newArray (element : Ty) :
    Takes view kept 0 (Step.newArray element : Step H Unit) fun _ => True :=
  pop.bind fun _ _ => (lift _ _).bind fun _ _ => by
    split
    · exact fail _
    · exact (act fun _ => (seen_opens _ _).newArray _ _).bind fun _ _ => push _

theorem unbox (type : Ty) : Takes view kept 0 (Step.unbox type : Step H Unit) fun _ => True :=
  pop.bind fun _ _ => by
    split
    · exact fail _
    · split
      · exact push _
      · exact fail _

theorem castClass (host : Host H) (type : Ty) :
    Takes view kept 0 (Step.castClass host type) fun _ => True :=
  peek.bind fun _ _ => by
    split
    · exact pure trivial
    · exact fail _

theorem targeted {next : Value → Step H α} (onReceiver : Bool)
    (rest : ∀ tgt, Takes view kept 0 (next tgt) good) :
    Takes view kept 0
      (if onReceiver then Step.receiver >>= next else Pure.pure .null >>= next) good := by
  cases onReceiver with
  | false => exact (pure trivial : Takes view kept 0 _ fun _ => True).bind fun _ _ => rest _
  | true => exact receiver.bind fun _ _ => rest _

section Members

variable {host : Host H} (spares : host.Spares view)

include spares

theorem call (meth : Method) (onReceiver : Bool) :
    Takes view kept 0 (Step.call host meth onReceiver) fun _ => True :=
  (popMany _).bind fun _ _ => targeted onReceiver fun _ =>
    (act fun _ => (spares.guards _).call trivial (fun _ _ => trivial) _).bind fun _ _ => by
      split
      · exact push _
      · exact pure trivial

theorem getProperty (property : Property) (onReceiver : Bool) :
    Takes view kept 0 (Step.getProperty host property onReceiver) fun _ => True :=
  (popMany _).bind fun _ _ => targeted onReceiver fun _ =>
    (act fun _ => (spares.guards _).getProperty trivial (fun _ _ => trivial) _).bind
      fun _ _ => push _

theorem setProperty (property : Property) (onReceiver : Bool) :
    Takes view kept 0 (Step.setProperty host property onReceiver) fun _ => True :=
  pop.bind fun _ _ => (popMany _).bind fun _ _ => targeted onReceiver fun _ =>
    act fun _ => (spares.guards _).setProperty trivial (fun _ _ => trivial) _ trivial

theorem lateCall (name : Text) : Takes view kept 0 (Step.lateCall host name) fun _ => True :=
  pop.bind fun val _ => receiver.bind fun _ _ => by
    cases val with
    | array _ => exact (act fun _ => (spares.guards _).lateCall trivial _ _).bind fun _ _ => push _
    | _ => exact fail _

end Members

/--
An instruction that goes on moves nothing but its operands and results, and takes its operand
from the code.
-/
theorem perform {host : Host H} (spares : host.Spares view) (prog : Program)
    (goesOn : op.goesOn) (notStore : op ≠ .storeLocal)
    (notSet : op = .stateSet → ∀ store name val after,
      store.put name val = .ok after → view after = view store) :
    Takes view kept op.operandSize (Step.perform host prog op) (· = false) := by
  have done : Takes view kept 0 (Pure.pure false : Step H Bool) (· = false) := pure rfl
  have put : ∀ val, Takes view kept 0 (do Step.push val; return false : Step H Bool) (· = false) :=
    fun _ => (push _).bind fun _ _ => done
  cases op with
  | jump | jumpIfTrue | jumpIfFalse | tryRegion | leave | endFinally | ret => cases goesOn
  | storeLocal => exact absurd rfl notStore
  | nop => exact done
  | push => exact (entry _ _).followed fun _ _ => put _
  | pushNull => exact put _
  | pop => exact pop.bind fun _ _ => done
  | dup => exact peek.bind fun _ _ => put _
  | loadHost => exact get.bind fun _ _ => put _
  | loadLocal =>
    exact frame.bind fun _ _ => (entry _ _).followed fun _ _ => put _
  | loadLocalAddress =>
    refine (operand _).followed fun _ _ => get.bind fun _ _ => ?_
    split
    · exact put _
    · exact throw _
  | loadField =>
    exact (entry _ _).followed fun _ _ => receiver.bind fun _ _ =>
      (act fun _ => (spares.guards _).loadField trivial fun _ _ => trivial).bind fun _ _ => put _
  | loadStaticField =>
    exact (entry _ _).followed fun _ _ =>
      (act fun _ => (spares.guards _).loadField trivial fun _ _ => trivial).bind fun _ _ => put _
  | storeField =>
    exact (entry _ _).followed fun _ _ => pop.bind fun _ _ => receiver.bind fun _ _ =>
      (act fun _ => (spares.guards _).storeField trivial _ trivial).bind fun _ _ => done
  | storeStaticField =>
    exact (entry _ _).followed fun _ _ => pop.bind fun _ _ =>
      (act fun _ => (spares.guards _).storeField trivial _ trivial).bind fun _ _ => done
  | getProperty | getStaticProperty =>
    exact (entry _ _).followed fun _ _ => (getProperty spares _ _).bind fun _ _ => done
  | setProperty | setStaticProperty =>
    exact (entry _ _).followed fun _ _ => (setProperty spares _ _).bind fun _ _ => done
  | call | callVirtual =>
    exact (entry _ _).followed fun _ _ => (call spares _ _).bind fun _ _ => done
  | loadElement =>
    exact (operand _).followed fun _ _ => (element _).bind fun _ _ =>
      (act fun _ => (seen_opens _ _).loadElement _ _).bind fun _ _ => put _
  | storeElement =>
    exact (operand _).followed fun _ _ => pop.bind fun _ _ => (element _).bind fun _ _ =>
      (act fun _ => (seen_opens _ _).storeElement trivial _ _).bind fun _ _ => done
  | newArray => exact (entry _ _).followed fun _ _ => (newArray _).bind fun _ _ => done
  | lateGet =>
    exact (entry _ _).followed fun _ _ => receiver.bind fun _ _ =>
      (act fun _ => (spares.guards _).lateGet trivial _).bind fun _ _ => put _
  | lateSet =>
    exact (entry _ _).followed fun _ _ => pop.bind fun _ _ => receiver.bind fun _ _ =>
      (act fun _ => (spares.guards _).lateSet trivial trivial _).bind fun _ _ => done
  | lateCall => exact (entry _ _).followed fun _ _ => (lateCall spares _).bind fun _ _ => done
  | add | subtract | multiply | divide | remainder | bitAnd | bitOr | equal | greater | less =>
    exact (binary _).bind fun _ _ => done
  | negate =>
    exact pop.bind fun _ _ => (lift _ _).bind fun _ _ => put _
  | complement => exact (popBoolean _).bind fun _ _ => put _
  | convert =>
    exact (operand _).followed fun _ _ => pop.bind fun _ _ => (dereference _).bind fun _ _ =>
      (lift _ _).bind fun _ _ => put _
  | box => exact (operand _).followed fun _ _ => done
  | unbox => exact (entry _ _).followed fun _ _ => (unbox _).bind fun _ _ => done
  | castClass => exact (entry _ _).followed fun _ _ => (castClass _ _).bind fun _ _ => done
  | stateGet => exact (entry _ _).followed fun _ _ => (stateGet _ _).bind fun _ _ => done
  | stateSet => exact (stateSet (notSet rfl)).bind fun _ _ => done

end Takes

theorem perform_storeLocal (host : Host H) (prog : Program) (cfg : Configuration H)
    (notKept : ∀ slot, prog.word? cfg.frame.next = some slot → ¬kept slot) :
    Moves view kept cfg (perform host prog .storeLocal) fun res after =>
      res = false ∧ after.frame.next = cfg.frame.next + 2 := by
  refine (Takes.pop cfg).bind fun val popped ⟨_, same⟩ => ?_
  refine (operand_moves prog popped).bind fun slot taken ⟨word, next⟩ => ?_
  rw [show popped.frame.next = cfg.frame.next from same] at word next
  refine (Takes.frame taken).bind fun frame last ⟨_, unmoved⟩ => ?_
  split
  · refine ⟨⟨rfl, rfl, rfl, rfl, Array.size_setIfInBounds, fun other isKept => ?_, rfl⟩,
      fun _ done => ⟨(Except.ok.inj done).symm, unmoved.trans next⟩⟩
    refine Array.getElem?_setIfInBounds_ne ?_
    rintro rfl
    exact notKept slot word isKept
  · exact ⟨.refl _, fun _ done => nomatch done⟩

theorem perform_goesOn {host} (spares : host.Spares view) (prog : Program)
    (goesOn : op.goesOn) (notSet : op = .stateSet → ∀ store name val after,
      store.put name val = .ok after → view after = view store) (cfg : Configuration H)
    (notKept : op = .storeLocal → ∀ slot, prog.word? cfg.frame.next = some slot → ¬kept slot) :
    Moves view kept cfg (perform host prog op) fun res after =>
      res = false ∧ after.frame.next = cfg.frame.next + op.operandSize := by
  by_cases isStore : op = .storeLocal
  · subst isStore
    exact perform_storeLocal host prog cfg (notKept rfl)
  · exact Takes.perform spares prog goesOn isStore notSet cfg

theorem jumpIf_moves (host : Host H) (want : Bool) (tgt : Nat) (cfg : Configuration H) :
    Moves view kept cfg (jumpIf host want tgt) fun _ after =>
      after.frame.next = tgt ∨ after.frame.next = cfg.frame.next := by
  refine (Takes.popBoolean host cfg).bind fun val popped ⟨_, same⟩ => ?_
  split
  · exact ⟨.of_frame .., fun _ _ => .inl rfl⟩
  · exact ⟨.refl _, fun _ _ => .inr same⟩

theorem perform_jump (host : Host H) (prog : Program) (isJump : op.isJump) {cfg}
    (word : prog.word? cfg.frame.next = some tgt) :
    Moves view kept cfg (perform host prog op) fun res after =>
      res = false ∧ (after.frame.next = tgt ∨ after.frame.next = cfg.frame.next + 2) := by
  have conditional : ∀ (want : Bool) (num : Nat) (taken : Configuration H),
      prog.word? cfg.frame.next = some num ∧ taken.frame.next = cfg.frame.next + 2 →
      Moves view kept taken (do jumpIf host want num; return false) fun res after =>
        res = false ∧ (after.frame.next = tgt ∨ after.frame.next = cfg.frame.next + 2) := by
    intro want num taken ⟨known, next⟩
    obtain rfl : tgt = num := Option.some.inj (word.symm.trans known)
    refine (jumpIf_moves host want tgt taken).bind fun _ _ ended => ⟨.refl _, fun _ done => ?_⟩
    exact ⟨(Except.ok.inj done).symm, ended.imp_right (·.trans next)⟩
  have operand : Moves view kept cfg _ _ := operand_moves prog cfg
  cases op with
  | jump =>
    refine operand.bind fun num _ ⟨known, _⟩ => ⟨.of_frame .., fun _ done => ?_⟩
    exact ⟨(Except.ok.inj done).symm, .inl (Option.some.inj (known.symm.trans word))⟩
  | jumpIfTrue => exact operand.bind (conditional true)
  | jumpIfFalse => exact operand.bind (conditional false)
  | _ => cases isJump

end

end Step

/-!
# What invocations leave of a store

Instructions change a store only by putting values into it.
-/

/-- Putting values into a store changes nothing of what is seen of it. -/
def Store.PutsUnseen (view : Store → β) : Prop :=
  ∀ store name value after, store.put name value = .ok after → view after = view store

section

variable {view : Store → β} {host : Host H}

/-- A part of an instruction leaves what is seen of the store as it is, and counts no operation. -/
def Step.Spares (view : Store → β) (part : Step H α) : Prop :=
  ∀ cfg, view (part cfg).2.world.store = view cfg.world.store ∧
    (part cfg).2.frame.operations = cfg.frame.operations

namespace Step.Spares

theorem pure (res : α) : Spares view (pure res : Step H α) := fun _ => ⟨rfl, rfl⟩

theorem throw (trouble : Trouble) : Spares view (throw trouble : Step H α) := fun _ => ⟨rfl, rfl⟩

theorem modifyFrame (change : Frame → Frame)
    (uncounted : ∀ frame, (change frame).operations = frame.operations := by exact fun _ => rfl) :
    Spares view (Step.modifyFrame change : Step H Unit) :=
  fun cfg => ⟨rfl, uncounted cfg.frame⟩

theorem bind (prev : Spares view first) (rest : ∀ res, Spares view (next res)) :
    Spares view (first >>= next) := by
  intro cfg
  have spared := prev cfg
  rw [bind_apply]
  rcases ran : first cfg with ⟨_ | res, after⟩
  · rwa [ran] at spared
  · rw [ran] at spared
    obtain ⟨store, operations⟩ := rest res after
    exact ⟨store.trans spared.1, operations.trans spared.2⟩

theorem of_takes (takes : Takes view (fun _ => False) count part good) : Spares view part :=
  fun cfg => ⟨(takes cfg).1.store, (takes cfg).1.operations⟩

theorem operand (prog : Program) : Spares view (Step.operand prog : Step H Nat) :=
  of_takes (.operand prog)

theorem leave (tgt : Nat) : Spares view (Step.leave tgt : Step H Unit) :=
  modifyFrame _ fun _ => by
    split
    · split <;> rfl
    · rfl

theorem jumpIf (want : Bool) (tgt : Nat) : Spares view (Step.jumpIf host want tgt) :=
  (of_takes (.popBoolean host)).bind fun _ => by
    split
    · exact modifyFrame _
    · exact pure _

theorem endFinally : Spares view (Step.endFinally : Step H Unit) :=
  (of_takes Takes.frame).bind fun _ => by
    split
    · exact throw _
    · refine (modifyFrame _).bind fun _ => ?_
      split
      · exact throw _
      · exact leave _

theorem perform (spares : host.Spares view) (unseen : Store.PutsUnseen view) (prog : Program)
    (op : Op) : Spares view (Step.perform host prog op) := by
  cases goesOn : op.goesOn with
  | true =>
    intro cfg
    have effect : Unmoved view (fun _ => False) cfg _ ∧ _ :=
      perform_goesOn spares prog goesOn (fun _ => unseen) cfg fun _ _ _ kept => kept
    exact ⟨effect.1.store, effect.1.operations⟩
  | false =>
    cases op with
    | jump | tryRegion =>
      exact (operand prog).bind fun _ => (modifyFrame _).bind fun _ => pure _
    | jumpIfTrue | jumpIfFalse =>
      exact (operand prog).bind fun _ => (jumpIf _ _).bind fun _ => pure _
    | leave => exact (operand prog).bind fun _ => (leave _).bind fun _ => pure _
    | endFinally => exact endFinally.bind fun _ => pure _
    | ret => exact pure _
    | _ => cases goesOn

theorem performByte (spares : host.Spares view) (unseen : Store.PutsUnseen view) (prog : Program)
    (byte : UInt8) : Spares view (Step.performByte host prog byte) := by
  unfold Step.performByte
  split
  · exact perform spares unseen prog _
  · exact throw _

end Step.Spares

/-- Where a round leads to, whether or not it ends there. -/
def Round.last : Round H → Configuration H
  | .continues cfg => cfg
  | .ends _ cfg => cfg

namespace Machine

/-- A round stays where it is, or leads to where the next instruction does. -/
theorem cycle_cases (host : Host H) (prog : Program) (bounds : Bounds) (cfg : Configuration H) :
    (cycle host prog bounds cfg).last = cfg ∧
        (prog.code[cfg.frame.next]? = none ∨ obstacle? bounds cfg.frame ≠ none) ∨
      ∃ byte frame, (cycle host prog bounds cfg).last =
          { (Step.performByte host prog byte cfg.begun).2 with frame } ∧
        frame.operations = (Step.performByte host prog byte cfg.begun).2.frame.operations := by
  unfold cycle
  dsimp only
  split
  · next missing => exact .inl ⟨rfl, .inl missing⟩
  · next byte _ =>
    split
    · next obstacle => exact .inl ⟨rfl, .inr (by rw [obstacle]; exact nofun)⟩
    · refine .inr ⟨byte, ?_⟩
      split
      · next done =>
        rw [show Step.performByte host prog byte cfg.begun = _ from done]
        exact ⟨_, rfl, rfl⟩
      · next done =>
        rw [show Step.performByte host prog byte cfg.begun = _ from done]
        exact ⟨_, rfl, rfl⟩
      · next after done =>
        rw [show Step.performByte host prog byte cfg.begun = _ from done]
        dsimp only [raise]
        cases after.frame.regions <;> exact ⟨_, rfl, rfl⟩

theorem cycle_spares (spares : host.Spares view) (unseen : Store.PutsUnseen view)
    (prog : Program) (bounds : Bounds) (cfg : Configuration H) :
    view (cycle host prog bounds cfg).last.world.store = view cfg.world.store := by
  rcases cycle_cases host prog bounds cfg with ⟨same, _⟩ | ⟨byte, _, same, _⟩
  · rw [same]
  · rw [same]
    exact (Step.Spares.performByte spares unseen prog byte cfg.begun).1

theorem runFor_spares (spares : host.Spares view) (unseen : Store.PutsUnseen view)
    (prog : Program) (bounds : Bounds) (rounds : Nat) (cfg : Configuration H) :
    view (runFor host prog bounds rounds cfg).2.world.store = view cfg.world.store := by
  induction rounds generalizing cfg with
  | zero => rfl
  | succ rounds ih =>
    have once := cycle_spares spares unseen prog bounds cfg
    unfold runFor
    cases round : cycle host prog bounds cfg with
    | continues after =>
      rw [round] at once
      exact (ih after).trans once
    | ends _ after =>
      rw [round] at once
      exact once

end Machine

end

end HostScript
