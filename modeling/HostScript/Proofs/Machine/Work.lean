import Mathlib
import HostScript.Machine.Run

namespace HostScript

/-!
# The work of instructions

Most instructions take operands from the stack, act in the world and put the results back.
-/

section Failing

/-! How computations with a state that is kept on failure run. -/

variable {α : Type}

theorem bind_apply (first : ExceptT ε (StateM σ) α) (next : α → ExceptT ε (StateM σ) β)
    (state : σ) :
    (first >>= next) state =
      match first state with
      | (.ok val, after) => next val after
      | (.error failure, after) => (.error failure, after) := by
  change (match first state with
    | (res, after) => (ExceptT.bindCont next res : StateT σ Id _) after) = _
  rcases first state with ⟨_ | _, _⟩ <;> rfl

theorem bind_ok {first : ExceptT ε (StateM σ) α} {next : α → ExceptT ε (StateM σ) β}
    {state after : σ} {val : α} (done : first state = (.ok val, after)) :
    (first >>= next) state = next val after := by
  rw [bind_apply, done]

theorem ok_of_bind {first : Except ε α} {next : α → Except ε β} {res : β}
    (done : (first >>= next) = .ok res) : ∃ val, first = .ok val ∧ next val = .ok res := by
  cases first with
  | error _ => cases done
  | ok val => exact ⟨val, rfl, done⟩

theorem bind_eq_ok {first : StateT σ (Except ε) α} {next : α → StateT σ (Except ε) β}
    {state after : σ} {res : β} (done : (first >>= next) state = .ok (res, after)) :
    ∃ val between, first state = .ok (val, between) ∧ next val between = .ok (res, after) := by
  obtain ⟨⟨val, between⟩, started, rest⟩ := ok_of_bind done
  exact ⟨val, between, started, rest⟩

/-- Where a run succeeds, its result and the state that it leaves meet a condition. -/
def Ensures (state : σ) (run : StateT σ (Except ε) α) (post : α → σ → Prop) : Prop :=
  ∀ result after, run state = .ok (result, after) → post result after

namespace Ensures

variable {state : σ} {run : StateT σ (Except ε) α} {post : α → σ → Prop}

theorem bind {next : α → StateT σ (Except ε) β} {between post} (started : Ensures state run between)
    (continued : ∀ res mid, between res mid → Ensures mid (next res) post) :
    Ensures state (run >>= next) post := by
  intro res after done
  obtain ⟨val, mid, firstDone, nextDone⟩ := bind_eq_ok done
  exact continued val mid (started val mid firstDone) res after nextDone

/-- What runs before is known. -/
theorem past {next : α → StateT σ (Except ε) β} {post} (same : run state = .ok (res, mid))
    (rest : Ensures mid (next res) post) : Ensures state (run >>= next) post := by
  intro _ _ done
  obtain ⟨_, _, started, further⟩ := bind_eq_ok done
  rw [same] at started
  cases started
  exact rest _ _ further

theorem mono (ensures : Ensures state run post)
    (implies : ∀ res after, post res after → weaker res after) : Ensures state run weaker :=
  fun res after done => implies res after (ensures res after done)

theorem throw (failure : ε) :
    Ensures state (MonadExcept.throw failure : StateT σ (Except ε) α) post :=
  fun _ _ done => nomatch done

theorem of_eq (same : run state = .ok (res, after)) (ensured : post res after) :
    Ensures state run post := by
  intro _ _ done
  rw [same] at done
  cases done
  exact ensured

theorem pure (ensured : post res state) :
    Ensures state (Pure.pure res : StateT σ (Except ε) α) post :=
  of_eq rfl ensured

end Ensures

theorem map_apply (change : α → β) (action : ExceptT ε (StateM σ) α) (state : σ) :
    (change <$> action) state =
      match action state with
      | (.ok val, after) => (.ok (change val), after)
      | (.error failure, after) => (.error failure, after) := by
  rw [map_eq_pure_bind, bind_apply]
  rfl

theorem pure_apply (val : α) (state : σ) :
    (pure val : ExceptT ε (StateM σ) α) state = (.ok val, state) := rfl

theorem throw_apply (failure : ε) (state : σ) :
    (throw failure : ExceptT ε (StateM σ) α) state = (.error failure, state) := rfl

theorem get_apply (state : σ) : (get : ExceptT ε (StateM σ) σ) state = (.ok state, state) := rfl

theorem modify_apply (change : σ → σ) (state : σ) :
    (modify change : ExceptT ε (StateM σ) PUnit) state = (.ok (), change state) := rfl

end Failing

namespace Value

/-- Whether a value is one that scripts and hosts handle: not the address of a variable. -/
def isPlain : Value → Bool
  | .address _ => false
  | _ => true

def positions : List Value → Except ValueFault (List Int)
  | [] => .ok []
  | first :: rest => do
    let pos ← first.toIndex
    let following ← positions rest
    return pos :: following

end Value

namespace Act

/-- Uses the target of a member access, which may not be the null reference. -/
def onTarget (target : Value) (use : Value → Act H α) : Act H α :=
  if target = .null then fail .nullReference else use target

def boolean (host : Host H) : Value → Act H Bool
  | .bool value => return value
  | other => do
    let world ← get
    fail (.notBoolean (world.shownText host other) other.typeOf)

def place (array : Value) (index : List Value) : Act H (ArrayRef × List Int) := do
  let positions ← lift .value (Value.positions index)
  onTarget array fun
    | .array reference => return (reference, positions)
    | other => fail (.notArray other.typeOf)

theorem place_world (array : Value) (idx : List Value) (world : World H) :
    (place array idx world).2 = world := by
  simp only [place, bind_apply]
  cases Value.positions idx with
  | error _ => rfl
  | ok _ =>
    simp only [lift, pure_apply, onTarget]
    split
    · rfl
    · cases array <;> rfl

def readPlace (array : Value) (index : List Value) : Act H Value := do
  let (reference, positions) ← place array index
  loadElement reference positions

def writePlace (types : Universe) (array : Value) (index : List Value) (value : Value) :
    Act H Unit := do
  let (reference, positions) ← place array index
  storeElement types reference positions value

def makeArray (element : Ty) (length : Value) : Act H Value := do
  let count ← lift .value length.toIndex
  if count < 0 then fail (.negativeLength count)
  else return .array (← newArray element [count.toNat])

/-- Takes a value out of its box. -/
def unboxed (type : Ty) (value : Value) : Act H Value :=
  if value = .null then fail (.nullUnboxed type)
  else if value.typeOf = some type then return value
  else fail (.invalidCast value.typeOf type)

def classChecked (host : Host H) (type : Ty) (value : Value) : Act H Value :=
  if value = .null || host.types.isAssignableFrom type value.typeOf then return value
  else fail (.invalidCast value.typeOf type)

def callLate (host : Host H) (name : Text) (target args : Value) : Act H Value :=
  onTarget target fun receiver =>
    match args with
    | .array list => host.lateCall receiver name list
    | other => fail (.lateArguments other.typeOf)

/-- The name of a persistent variable, and whether there is a store for it. -/
def stateKey (holder name : Value) : Act H (Text × Bool) :=
  match name with
  | .string text =>
    match holder with
    | .null => return (text, false)
    | .state => return (text, true)
    | other => fail (.notState (Step.representationText other))
  | other => fail (.stateKey other.typeOf)

theorem stateKey_world (holder name : Value) (world : World H) :
    (stateKey holder name world).2 = world := by
  cases name <;> first | rfl | (cases holder <;> rfl)

def readState (host : Host H) (type : Ty) (holder name : Value) : Act H Value := do
  let (key, isThere) ← stateKey holder name
  if isThere then
    match (← get).store.value host.types key type with
    | .ok value => return value
    | .error failure => throw (.failed (.within (.loading key) (failure.map .store)))
  else return Value.default type

def writeState (holder name value : Value) : Act H Unit := do
  let (key, isThere) ← stateKey holder name
  if isThere then
    match (← get).store.put key value with
    | .ok store => modify fun world => { world with store }
    | .error failure => throw (.failed (.within (.storing key) (failure.map .store)))

end Act

/-- Ways in which a script uses its host. -/
inductive Access where
  | readField (field : Field)
  | writeField (field : Field)
  | readProperty (property : Property)
  | writeProperty (property : Property)
  | call (method : Method)
  | lateRead (name : Text)
  | lateWrite (name : Text)
  | lateCall (name : Text)
  | readState (type : Ty)
  | writeState
  deriving Repr, DecidableEq

/-- The count of operands beside the receiver. -/
def Access.operands : Access → Nat
  | .readField _ | .lateRead _ => 0
  | .writeField _ | .lateWrite _ | .lateCall _ | .readState _ => 1
  | .readProperty property => property.params.length
  | .writeProperty property => property.params.length + 1
  | .call method => method.params.length
  | .writeState => 2

/-- One use of the host, with the receiver and the operands. -/
structure Interaction where
  access : Access
  receiver : Value
  operands : List Value
  deriving Repr, DecidableEq

namespace Interaction

/-- What is seen of an access to a receiver; nothing, if there is none. -/
def on (access : Access) (receiver : Value) (operands : List Value) : List Interaction :=
  if receiver = .null then [] else [{ access, receiver, operands }]

/-- What is seen of an access that needs no receiver. -/
def apart (access : Access) (operands : List Value) : List Interaction :=
  [{ access, receiver := .null, operands }]

end Interaction

/-- The operands of an access as they are seen: those of a late call are in an array. -/
def World.seen (world : World H) : Access → List Value → List Value
  | .lateCall _, [.array list] => (world.elements list).toList
  | _, operands => operands

/-- What a value on the stack stands for: an address for the variable it is of. -/
def Configuration.look (cfg : Configuration H) : Value → Value
  | .address reference =>
    let locals :=
      if reference.frame = cfg.frame.number then cfg.frame.locals
      else cfg.world.frames.getD reference.frame #[]
    locals.getD reference.slot .null
  | value => value

/-- The access that an operation with an operand makes, and whether it needs a receiver. -/
def Op.access? (prog : Program) (index : Nat) : Op → Option (Access × Bool)
  | .loadField => (prog.fields[index]?).map fun field => (.readField field, true)
  | .storeField => (prog.fields[index]?).map fun field => (.writeField field, true)
  | .loadStaticField => (prog.fields[index]?).map fun field => (.readField field, false)
  | .storeStaticField => (prog.fields[index]?).map fun field => (.writeField field, false)
  | .getProperty =>
    (prog.properties[index]?).map fun property => (.readProperty property, true)
  | .setProperty =>
    (prog.properties[index]?).map fun property => (.writeProperty property, true)
  | .getStaticProperty =>
    (prog.properties[index]?).map fun property => (.readProperty property, false)
  | .setStaticProperty =>
    (prog.properties[index]?).map fun property => (.writeProperty property, false)
  | .call => (prog.methods[index]?).map fun method => (.call method, false)
  | .callVirtual => (prog.methods[index]?).map fun method => (.call method, true)
  | .lateGet => (prog.names[index]?).map fun name => (.lateRead name, true)
  | .lateSet => (prog.names[index]?).map fun name => (.lateWrite name, true)
  | .lateCall => (prog.names[index]?).map fun name => (.lateCall name, true)
  | .stateGet => (prog.types[index]?).map fun type => (.readState type, true)
  | .stateSet => some (.writeState, true)
  | _ => none

namespace Machine

def access? (prog : Program) (pos : Nat) : Option (Access × Bool) :=
  match prog.code[pos]? with
  | none => none
  | some byte =>
    match Op.ofCode? byte with
    | none => none
    | some op => op.access? prog ((prog.word? (pos + 1)).getD 0)

/-- What the next instruction asks of the host. -/
def observe (prog : Program) (cfg : Configuration H) : List Interaction :=
  match access? prog cfg.frame.next with
  | none => []
  | some (access, needsReceiver) =>
    let stack := cfg.frame.stack
    let operands := cfg.world.seen access (stack.take access.operands).reverse
    if needsReceiver then
      Interaction.on access (cfg.look (stack.getD access.operands .null)) operands
    else Interaction.apart access operands

def trace (host : Host H) (prog : Program) :
    (rounds : Nat) → Configuration H → List Interaction
  | 0, _ => []
  | rounds + 1, cfg =>
    observe prog cfg ++
      match cycle host prog {} cfg with
      | .continues after => trace host prog rounds after
      | .ends _ _ => []

end Machine

end HostScript
