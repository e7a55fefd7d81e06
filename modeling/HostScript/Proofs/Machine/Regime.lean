import HostScript.Proofs.Machine.Work

namespace HostScript

/-!
# What worlds and hosts keep

A regime says which worlds are in order and which values fit a type in them.
-/

/-- Which worlds are in order, and which values fit which types, as far as is known. -/
structure Regime (H κ : Type) [Preorder κ] where
  holds : κ → World H → Prop
  fits : κ → Ty → Value → Prop
  mono : ∀ {known later : κ} {type : Ty} {value : Value},
    known ≤ later → fits known type value → fits later type value

section

variable {H κ : Type} [Preorder κ]

/-- An action leads from a world in order to one that is, and a result of it is good. -/
def Act.Keeps (regime : Regime H κ) (known : κ) (action : Act H α) (good : κ → α → Prop) : Prop :=
  ∀ world, regime.holds known world → ∃ later, known ≤ later ∧ regime.holds later (action world).2 ∧
      ∀ result, (action world).1 = .ok result → good later result

end

def Store.IsPlain (store : Store) : Prop :=
  ∀ name value, store.get name = .ok (some value) → value.isPlain = true

/-- The arrays, the store and the state of the host hold no addresses. -/
structure World.IsPlain (clear : H → Prop) (world : World H) : Prop where
  host : clear world.host
  arrays : ∀ elements ∈ world.arrays, ∀ value ∈ elements, value.isPlain = true
  store : world.store.IsPlain

def Regime.plain (clear : H → Prop) : Regime H Unit where
  holds _ world := world.IsPlain clear
  fits _ _ value := value.isPlain = true
  mono _ fits := fits

/-- An action keeps a world in order, and a result of it is good. -/
def Act.Stays (regime : Regime H Unit) (action : Act H α) (good : α → Prop) : Prop :=
  Act.Keeps regime () action fun _ => good

/-- An action puts no addresses into a world without them, and a result of it is good. -/
abbrev Act.Plain (clear : H → Prop) (action : Act H α) (good : α → Prop) : Prop :=
  Act.Stays (Regime.plain clear) action good

namespace Act.Stays

variable {regime : Regime H Unit} {action : Act H α} {good want : α → Prop}

theorem of (kept : ∀ world, regime.holds () world → regime.holds () (action world).2 ∧
      ∀ res, (action world).1 = .ok res → good res) : Stays regime action good :=
  fun world holds => ⟨(), le_refl _, kept world holds⟩

theorem after (stays : Stays regime action good) {world} (holds : regime.holds () world) :
    regime.holds () (action world).2 ∧ ∀ res, (action world).1 = .ok res → good res := by
  obtain ⟨_, _, kept⟩ := stays world holds
  exact kept

theorem pure {res} (isGood : good res) : Stays regime (pure res : Act H α) good :=
  of fun _ holds => ⟨holds, fun _ same => Except.ok.inj same ▸ isGood⟩

theorem throw (trouble : Trouble) : Stays regime (throw trouble : Act H α) good :=
  of fun _ holds => ⟨holds, fun _ same => nomatch same⟩

theorem fail (fault : RunFault) : Stays regime (Act.fail fault : Act H α) good := throw _

theorem bind {next : α → Act H β} {want : β → Prop} (prev : Stays regime action good)
    (rest : ∀ res, good res → Stays regime (next res) want) :
    Stays regime (action >>= next) want := by
  refine of fun world holds => ?_
  obtain ⟨kept, isGood⟩ := prev.after holds
  rw [bind_apply]
  rcases ran : action world with ⟨_ | res, _⟩
  · rw [ran] at kept
    exact ⟨kept, fun _ same => nomatch same⟩
  · rw [ran] at kept isGood
    exact (rest res (isGood res rfl)).after kept

theorem mono (stays : Stays regime action good) (weaken : ∀ res, good res → want res) :
    Stays regime action want :=
  of fun _ holds => ⟨(stays.after holds).1, fun res same =>
    weaken res ((stays.after holds).2 res same)⟩

theorem lift {wrap : ε → RunFault} {res : Except ε α} (isGood : ∀ val, res = .ok val → good val) :
    Stays regime (Act.lift wrap res) good := by
  cases res with
  | error _ => exact fail _
  | ok val => exact pure (isGood val rfl)

theorem during (ctx : RunFault) (stays : Stays regime action good) :
    Stays regime (Act.during ctx action) good := by
  refine of fun world holds => ?_
  have kept := stays.after holds
  rcases ran : action world with ⟨(_ | _) | _, _⟩ <;>
    rw [ran] at kept <;>
    simp only [Act.during, ran]
  · exact ⟨kept.1, fun _ same => nomatch same⟩
  · exact ⟨kept.1, fun _ same => nomatch same⟩
  · exact kept

/-- What comes after a conversion or a search, whatever that finds. -/
theorem lift_bind {wrap : ε → RunFault} {res : Except ε α} {next : α → Act H β} {want : β → Prop}
    (rest : ∀ val, Stays regime (next val) want) : Stays regime (Act.lift wrap res >>= next) want :=
  (lift fun _ _ => trivial : Stays regime _ fun _ => True).bind fun val _ => rest val

theorem during_bind {ctx : RunFault} {wrap : ε → RunFault} {res : Except ε α} {next : α → Act H β}
    {want : β → Prop} (rest : ∀ val, Stays regime (next val) want) :
    Stays regime (Act.during ctx (Act.lift wrap res) >>= next) want :=
  (during _ (lift fun _ _ => trivial) : Stays regime _ fun _ => True).bind fun val _ => rest val

theorem onTarget {use} (stays : Stays regime (use tgt) good) :
    Stays regime (Act.onTarget tgt use) good := by
  unfold Act.onTarget
  split
  · exact fail _
  · exact stays

end Act.Stays

variable {val res : Value}

namespace Value

theorem isPlain_default (type : Ty) : (Value.default type).isPlain := by
  rcases type with _ | (_ | _ | _) | _ | _ | _ | _ <;> rfl

theorem isPlain_ofScalar (scalar : Scalar) (prim : Prim) : (ofScalar scalar prim).isPlain := by
  cases prim <;> rfl

theorem isPlain_of_convert {tgt} (done : val.convert tgt = .ok res) : res.isPlain := by
  unfold convert at done
  split at done
  · exact Except.ok.inj done ▸ isPlain_ofScalar _ _
  · cases done

end Value

/-- What a regime allows: all values but addresses fit, and arrays of what fits are in order. -/
structure Regime.Open (regime : Regime H Unit) (fits : Value → Prop) : Prop where
  plain : ∀ {value}, value.isPlain → fits value
  elements : ∀ {world}, regime.holds () world →
    ∀ elements ∈ world.arrays, ∀ value ∈ elements, fits value
  arrays : ∀ {world arrays}, regime.holds () world →
    (∀ elements ∈ arrays, ∀ value ∈ elements, fits value) → regime.holds () { world with arrays }
  chance : ∀ {world}, regime.holds () world → regime.holds () world.draw.2

/-- A host whose members keep a world in order, given values that fit. -/
structure Host.Guards (host : Host H) (regime : Regime H Unit) (fits : Value → Prop) : Prop
    extends Regime.Open regime fits where
  constants : ∀ type name field, .field field ∈ host.types.dataMembers type name false →
    ∀ value, field.literal = some value → fits value
  readField : ∀ label receiver, fits receiver →
    Act.Stays regime (host.readField label receiver) fits
  writeField : ∀ label receiver value, fits receiver → fits value →
    Act.Stays regime (host.writeField label receiver value) fun _ => True
  readProperty : ∀ label receiver index, fits receiver → (∀ value ∈ index, fits value) →
    Act.Stays regime (host.readProperty label receiver index) fits
  writeProperty : ∀ label receiver index value, fits receiver → (∀ value ∈ index, fits value) →
    fits value → Act.Stays regime (host.writeProperty label receiver index value) fun _ => True
  invoke : ∀ label receiver args, fits receiver → (∀ value ∈ args, fits value) →
    Act.Stays regime (host.invoke label receiver args) fits

section

variable {regime : Regime H Unit} {fits : Value → Prop}

theorem Act.position_stays (ref : ArrayRef) (off : Int) :
    Act.Stays regime (Act.position ref off) fun _ => True := by
  refine .of fun _ holds => ⟨?_, fun _ _ => trivial⟩
  simp only [Act.position, bind_apply, get_apply]
  split <;> exact holds

namespace Regime.Open

variable (opens : regime.Open fits)

include opens

theorem coerce {tys : Universe} {tgt : Ty} (fit : fits val)
    (done : tys.coerce val tgt = .ok res) : fits res := by
  unfold Universe.coerce at done
  split at done
  · split at done
    · cases done
    · split at done
      · exact Except.ok.inj done ▸ fit
      · exact opens.plain (Value.isPlain_of_convert done)
  · split at done
    · exact Except.ok.inj done ▸ fit
    · cases done

theorem elements_of {world : World H} (holds : regime.holds () world) (ref : ArrayRef) :
    ∀ val ∈ world.elements ref, fits val := by
  intro val mem
  unfold World.elements at mem
  rw [Array.getD_eq_getD_getElem?] at mem
  cases found : world.arrays[ref.address]? with
  | none => simp [found] at mem
  | some elements =>
    rw [found] at mem
    exact opens.elements holds elements (Array.mem_of_getElem? found) val mem

theorem loadElement (ref : ArrayRef) (idx : List Int) :
    Act.Stays regime (Act.loadElement ref idx) fits := by
  refine .lift_bind fun _ => (Act.position_stays ref _).bind fun off _ => .of fun world holds => ?_
  refine ⟨holds, fun val same => ?_⟩
  cases same
  rw [Array.getD_eq_getD_getElem?]
  cases found : (world.elements ref)[off]? with
  | none => exact opens.plain rfl
  | some val => exact opens.elements_of holds ref val (Array.mem_of_getElem? found)

theorem storeElement {tys : Universe} (fit : fits val) (ref : ArrayRef) (idx : List Int) :
    Act.Stays regime (Act.storeElement tys ref idx val) fun _ => True := by
  refine .lift_bind fun off => (Act.Stays.lift fun _ same => opens.coerce fit same).bind
    fun _ givenFits => (Act.position_stays ref off).bind fun _ _ => .of fun world holds => ?_
  refine ⟨opens.arrays holds ?_, fun _ _ => trivial⟩
  intro elements mem other inside
  obtain ⟨address, there⟩ := Array.mem_iff_getElem?.mp mem
  rw [Array.getElem?_modify] at there
  split at there
  · obtain ⟨pre, present, rfl⟩ := Option.map_eq_some_iff.mp there
    rcases Array.mem_or_eq_of_mem_setIfInBounds inside with old | rfl
    · exact opens.elements holds pre (Array.mem_of_getElem? present) other old
    · exact givenFits
  · exact opens.elements holds elements (Array.mem_of_getElem? there) other inside

theorem newArray (element : Ty) (dimensions : List Nat) :
    Act.Stays regime (Act.newArray element dimensions) fun _ => True := by
  unfold Act.newArray
  dsimp only
  split
  · exact .throw _
  · refine .of fun _ holds => ⟨opens.arrays holds fun elements mem val inside => ?_,
      fun _ _ => trivial⟩
    rcases Array.mem_push.mp mem with old | rfl
    · exact opens.elements holds elements old val inside
    · rw [(Array.mem_replicate.mp inside).2]
      exact opens.plain (Value.isPlain_default element)

/-! The routines of the library. -/

theorem mathFunction (fn : MathFunction) (args : List Value) :
    Act.Stays regime (fn.apply args) fits := by
  have given : ∀ {val : Value}, val.isPlain → Act.Stays regime (pure val) fits :=
    fun isPlain => .pure (opens.plain isPlain)
  unfold MathFunction.apply
  split
  · exact given rfl
  · refine .lift fun _ same => opens.plain ?_
    unfold MathFunction.signOf at same
    split at same
    · cases same
    · split at same <;> cases same <;> rfl
  · exact given rfl
  · exact given rfl
  · exact given rfl
  · exact .of fun _ holds => ⟨opens.chance holds,
      fun _ same => Except.ok.inj same ▸ opens.plain rfl⟩
  · split
    · exact given rfl
    · exact .throw _
  · split
    · exact given rfl
    · exact .throw _
  · exact .throw _

theorem intrinsic (host : Host H) (routine : Intrinsic) (recv : Value) (args : List Value) :
    Act.Stays regime (routine.run host recv args) fits := by
  have given : ∀ {val : Value}, val.isPlain → Act.Stays regime (pure val) fits :=
    fun isPlain => .pure (opens.plain isPlain)
  unfold Intrinsic.run
  split
  · exact .of fun _ holds => ⟨holds, fun _ same => Except.ok.inj same ▸ opens.plain rfl⟩
  · split <;> exact given rfl
  · exact given rfl
  · exact given rfl
  · unfold Intrinsic.orderOf
    split
    · exact given rfl
    · exact given rfl
    · exact .fail _
    · exact .lift_bind fun _ => .during_bind fun _ => given rfl
  · exact given rfl
  · exact given rfl
  · exact opens.mathFunction _ _
  · exact .throw _

end Regime.Open

/-! Members. -/

namespace Host.Guards

variable {host : Host H} {recv : Value} (guards : host.Guards regime fits)
  (recvFits : fits recv)

include guards

omit guards in
theorem lateMember (tgt : Value) (name : Text) :
    Act.Stays regime (host.lateMember tgt name)
      (· ∈ host.types.dataMembers (tgt.typeOf.getD .object) name false) := by
  unfold Host.lateMember
  dsimp only
  split
  · exact .fail _
  · next member only => exact .pure (only ▸ List.mem_singleton_self member)
  · exact .fail _

include recvFits

theorem loadField {field} (allowed : ∀ val, field.literal = some val → fits val) :
    Act.Stays regime (host.loadField field recv) fits := by
  unfold Host.loadField
  split
  · next val isConstant => exact .pure (allowed val isConstant)
  · split
    · exact guards.readField field.label recv recvFits
    · exact .fail _

theorem storeField (field : Field) (fit : fits val) :
    Act.Stays regime (host.storeField field recv val) fun _ => True := by
  unfold Host.storeField
  split
  · exact guards.writeField field.label recv val recvFits fit
  · exact .fail _

variable {idx : List Value} (indexFits : ∀ val ∈ idx, fits val)

include indexFits

theorem getProperty (prop : Property) :
    Act.Stays regime (host.getProperty prop recv idx) fits := by
  unfold Host.getProperty
  split
  · split
    · exact guards.intrinsic host _ recv idx
    · next label _ => exact guards.readProperty label recv idx recvFits indexFits
  · exact .fail _

theorem setProperty (prop : Property) (fit : fits val) :
    Act.Stays regime (host.setProperty prop recv idx val) fun _ => True := by
  unfold Host.setProperty
  split
  · split
    · exact .throw _
    · next label _ => exact guards.writeProperty label recv idx val recvFits indexFits fit
  · exact .fail _

theorem call (meth : Method) : Act.Stays regime (host.call meth recv idx) fits := by
  refine .during _ ?_
  split
  · exact guards.intrinsic host _ recv idx
  · next label _ => exact guards.invoke label recv idx recvFits indexFits

omit indexFits

theorem lateGet (name : Text) : Act.Stays regime (host.lateGet recv name) fits := by
  refine (lateMember recv name).bind fun member found => ?_
  cases member with
  | field field => exact guards.loadField recvFits (guards.constants _ _ field found)
  | property prop => exact guards.getProperty recvFits (List.forall_mem_nil _) prop

theorem lateSet (fit : fits val) (name : Text) :
    Act.Stays regime (host.lateSet recv name val) fun _ => True := by
  refine (lateMember recv name).bind fun member _ => ?_
  refine (Act.Stays.during _ (.lift fun _ same => guards.coerce fit same)).bind
    fun _ givenFits => ?_
  cases member with
  | field field => exact guards.storeField recvFits field givenFits
  | property prop => exact guards.setProperty recvFits (List.forall_mem_nil _) prop givenFits

omit recvFits in
theorem adaptArguments (name : Text) (num : Nat) (params : List Ty) {args : List Value}
    (argsFit : ∀ val ∈ args, fits val) :
    Act.Stays regime (host.adaptArguments name num params args)
      fun adapted => ∀ val ∈ adapted, fits val := by
  induction args generalizing params num with
  | nil => cases params <;> exact .pure argsFit
  | cons _ args ih =>
    cases params with
    | nil => exact .pure argsFit
    | cons _ params =>
      obtain ⟨first, others⟩ := List.forall_mem_cons.mp argsFit
      refine (Act.Stays.during _ (.lift fun _ same => guards.coerce first same)).bind
        fun _ givenFits => (ih (num + 1) params others).bind fun _ restFit => ?_
      exact .pure (List.forall_mem_cons.mpr ⟨givenFits, restFit⟩)

omit recvFits in
theorem loadElements (list : ArrayRef) (idxs : List Nat) :
    Act.Stays regime (idxs.mapM fun (i : Nat) => Act.loadElement list [(i : Int)])
      fun vals => ∀ val ∈ vals, fits val := by
  induction idxs with
  | nil => exact .pure nofun
  | cons _ _ ih =>
    rw [List.mapM_cons]
    exact (guards.loadElement list _).bind fun val valFits => ih.bind fun vals valsFit =>
      .pure (List.forall_mem_cons.mpr ⟨valFits, valsFit⟩)

theorem lateCall (name : Text) (list : ArrayRef) :
    Act.Stays regime (host.lateCall recv name list) fits := by
  refine (guards.loadElements list _).bind fun _ argsFit => .during_bind fun meth => ?_
  refine (guards.adaptArguments name 1 meth.params argsFit).bind fun _ adaptedFit => ?_
  refine (guards.call recvFits adaptedFit meth).bind fun _ resFits => .pure ?_
  split
  · exact resFits
  · exact guards.plain rfl

end Host.Guards

end

end HostScript
