import HostScript.Proofs.Store.Basic

namespace HostScript

/-!
# Reading values as a type

Whatever a memory holds under a name, reading it as a type gives a value that a location of the
type can hold: the value itself if it fits, its conversion if both are primitive, and else the
default of the type.
-/

namespace Value

/-- A value that shows a primitive type is a primitive. -/
def IsHonest (value : Value) : Prop :=
  ∀ primitive, value.typeOf = some (.prim primitive) → value.scalar?.isSome = true

/-- The values under all names are honest. -/
def AreHonest (values : Entries Value) : Prop :=
  ∀ name stored, values.find? name = some stored → stored.IsHonest

/-- A location of a type can hold a value. -/
def Fits (types : Universe) (value : Value) (target : Ty) : Prop :=
  if target.isValue then value.typeOf = some target
  else value = .null ∨ types.isAssignableFrom target value.typeOf = true

/-- What a stored value is when it is read as a type. -/
inductive ReadsAs (types : Universe) (stored : Value) : Ty → Value → Prop
  | kept {target} (fits : stored.Fits types target) : ReadsAs types stored target stored
  | converted {primitive value} (misfits : ¬stored.Fits types (.prim primitive))
      (converts : stored.convert primitive = .ok value) :
      ReadsAs types stored (.prim primitive) value
  | ignored {target} (misfits : ¬stored.Fits types target)
      (notBoth : target.isValue = true → ∀ primitive, stored.typeOf ≠ some (.prim primitive)) :
      ReadsAs types stored target (default target)

variable {types : Universe} {target : Ty} {value stored : Value}

theorem fits_of_typeOf (typed : value.typeOf = some target) : value.Fits types target := by
  unfold Fits
  split
  · exact typed
  · refine .inr ?_
    rw [typed, Universe.isAssignableFrom]
    unfold Universe.isAssignable
    rw [BEq.rfl, Bool.true_or]

theorem default_eq_null (isReference : target.isValue = false) : default target = .null := by
  cases target with
  | prim => cases isReference
  | void | string | object | named | array => rfl

theorem default_fits (types : Universe) (target : Ty) : (default target).Fits types target := by
  unfold Fits
  split
  · next isValue =>
    cases target with
    | prim prim => cases prim <;> rfl
    | void | string | object | named | array => cases isValue
  · next isReference => exact .inl (default_eq_null (Bool.eq_false_iff.mpr isReference))

theorem ReadsAs.fits (reads : ReadsAs types stored target value) : value.Fits types target := by
  cases reads with
  | kept fits => exact fits
  | @converted prim _ _ converts =>
    unfold convert at converts
    split at converts
    · cases converts
      exact fits_of_typeOf (by cases prim <;> rfl)
    · cases converts
  | ignored => exact default_fits types target

/-- A value that fits is read as it is. -/
theorem fitted_of_fits (fits : value.Fits types target) :
    Store.fitted types target value = .ok value := by
  unfold Store.fitted
  split
  · rfl
  · next untyped =>
    cases target with
    | prim => exact absurd fits untyped
    | void | string | object | named | array =>
      exact congrArg Except.ok (if_pos (by simpa [Fits, Ty.isValue] using fits))

theorem fitted_readsAs (types : Universe) (target : Ty) (honest : stored.IsHonest) :
    ∃ value, Store.fitted types target stored = .ok value ∧ stored.ReadsAs types target value := by
  by_cases fits : stored.Fits types target
  · exact ⟨stored, fitted_of_fits fits, .kept fits⟩
  · have untyped : stored.typeOf ≠ some target := fun typed => fits (fits_of_typeOf typed)
    unfold Store.fitted
    rw [if_neg untyped]
    cases target with
    | prim primitive =>
      by_cases shown : ∃ other, stored.typeOf = some (.prim other)
      · obtain ⟨other, shown⟩ := shown
        obtain ⟨scalar, known⟩ := Option.isSome_iff_exists.mp (honest other shown)
        have converts : stored.convert primitive = .ok (ofScalar scalar primitive) := by
          simp only [convert, known]
        rw [shown]
        exact ⟨_, converts, .converted fits converts⟩
      · refine ⟨default (.prim primitive), ?_, .ignored fits fun _ => not_exists.mp shown⟩
        split
        · next found => exact absurd ⟨_, found⟩ shown
        · rfl
        · next notPrimitive _ => exact absurd rfl (notPrimitive primitive)
    | void | string | object | named | array =>
      refine ⟨.null, congrArg Except.ok (if_neg (by simpa [Fits, Ty.isValue] using fits)), ?_⟩
      exact .ignored fits fun isValue => Bool.noConfusion isValue

end Value

namespace Store

variable {types : Universe} {type : Ty} {value : Value}

theorem value_of_find? {values : Entries Value} (found : values.find? name = some stored)
    (fitted : Store.fitted types type stored = .ok value) :
    (memory values).value types name type = .ok value := by
  simp only [Store.value, get, found, bind, Except.bind, fitted, Except.mapError]

theorem value_of_absent {values : Entries Value} (absent : values.find? name = none) :
    (memory values).value types name type = .ok (Value.default type) := by
  simp only [Store.value, get, absent]
  rfl

/-- A value that fits is read as it was put. -/
theorem value_of_put (values : Entries Value) (name : Text) (fits : value.Fits types type) :
    ∃ kept, (memory values).put name value = .ok kept ∧ kept.value types name type = .ok value :=
  ⟨_, rfl, value_of_find? (by rw [Entries.find?_insert, if_pos rfl]) (Value.fitted_of_fits fits)⟩

end Store

/-- A configuration with other values on its stack. -/
def Configuration.holding (configuration : Configuration H) (stack : List Value) :
    Configuration H :=
  { configuration with frame := { configuration.frame with stack } }

/-- Reading a name as a type succeeds with a value that fits the type, also without a state; what
is put is read as it was, as its own type and as the type that it was read as. -/
theorem persisted_fits (types : Universe) (values : Entries Value) (name : Text) (type : Ty)
    (honest : ∀ stored, values.find? name = some stored → stored.IsHonest) :
    (∃ value, (Store.memory values).value types name type = .ok value ∧
      value.Fits types type ∧
      (∀ stored, values.find? name = some stored → stored.ReadsAs types type value) ∧
      (values.find? name = none → value = Value.default type) ∧
      ∃ kept, (Store.memory values).put name value = .ok kept ∧
        kept.value types name type = .ok value) ∧
    (∀ value : Value, value ≠ .null → ∃ shown, value.typeOf = some shown ∧
      ∃ kept, (Store.memory values).put name value = .ok kept ∧
        kept.value types name shown = .ok value) ∧
    (Value.default type).Fits types type ∧
    ∀ (H : Type) (host : Host H) (configuration : Configuration H) (rest : List Value),
      Step.stateGet host type (configuration.holding (.string name :: .null :: rest)) =
        (.ok (), configuration.holding (Value.default type :: rest)) := by
  have nonempty : ∀ value : Value, value ≠ .null → ∃ shown, value.typeOf = some shown := by
    intro value notNull
    cases value <;> first | exact absurd rfl notNull | exact ⟨_, rfl⟩
  refine ⟨?_, fun value notNull => ?_, Value.default_fits types type, fun _ _ _ _ => rfl⟩
  · cases found : values.find? name with
    | none =>
      have fits := Value.default_fits types type
      refine ⟨_, Store.value_of_absent found, fits, ?_, fun _ => rfl,
        Store.value_of_put values name fits⟩
      intro stored isThere
      cases isThere
    | some stored =>
      obtain ⟨value, fitted, reads⟩ := Value.fitted_readsAs types type (honest stored found)
      refine ⟨value, Store.value_of_find? found fitted, reads.fits, ?_, ?_,
        Store.value_of_put values name reads.fits⟩
      · rintro _ ⟨⟩
        exact reads
      · intro absent
        cases absent
  · obtain ⟨shown, typed⟩ := nonempty value notNull
    exact ⟨shown, typed, Store.value_of_put values name (Value.fits_of_typeOf typed)⟩

/-- A number that another script has stored is read as an integer. -/
theorem stored_number_fits :
    let values : Entries Value := [([Text.byte 'k'], .float .single 0x40200000)]
    (∀ stored, values.find? [Text.byte 'k'] = some stored → stored.IsHonest) ∧
      ∃ value,
        (Store.memory values).value { declarations := [] } [Text.byte 'k'] .int32 = .ok value ∧
        value = .int32 2 := by
  intro values
  have honest : ∀ stored, values.find? [Text.byte 'k'] = some stored → stored.IsHonest := by
    rintro _ ⟨⟩ _ _
    rfl
  obtain ⟨⟨value, read, _⟩, _⟩ :=
    persisted_fits { declarations := [] } values [Text.byte 'k'] .int32 honest
  have narrowed : (Store.memory values).value { declarations := [] } [Text.byte 'k'] .int32 =
      .ok (.int32 2) := by decide +kernel
  exact ⟨honest, value, read, Except.ok.inj (read.symm.trans narrowed)⟩

end HostScript
