import HostScript.Proofs.Machine.Work

namespace HostScript

/-!
# Elements of arrays

The elements of an array lie row after row: an index stands for the number whose digits it has
in the mixed radix of the dimensions.
-/

namespace ArrayRef

/-- An index within some dimensions. -/
def InRange (dimensions : List Nat) (index : List Int) : Prop :=
  List.Forall₂ (fun (bound : Nat) (i : Int) => 0 ≤ i ∧ i < bound) dimensions index

/-- The number with the digits of an index in the mixed radix of the dimensions. -/
def place : List Nat → List Int → Int
  | _ :: dimensions, i :: index => i * dimensions.prod + place dimensions index
  | _, _ => 0

section Places

section

variable (inRange : InRange dims idx)

include inRange

theorem InRange.place_bounds : 0 ≤ place dims idx ∧ place dims idx < dims.prod := by
  induction inRange with
  | nil => exact ⟨Int.le_refl 0, Int.one_pos⟩
  | @cons bound i dims idx inside _ _ =>
    have below : (i + 1) * (dims.prod : Int) ≤ bound * dims.prod :=
      Int.mul_le_mul_of_nonneg_right inside.2 (Int.natCast_nonneg _)
    have above : 0 ≤ i * (dims.prod : Int) := Int.mul_nonneg inside.1 (Int.natCast_nonneg _)
    rw [Int.add_mul, Int.one_mul] at below
    simp only [place, List.prod_cons, Nat.cast_mul]
    omega

/-- An index before another in the order of rows has the lesser place. -/
theorem InRange.place_lt (within : InRange dims other)
    (pre : idx < other) : place dims idx < place dims other := by
  induction inRange generalizing other with
  | nil =>
    cases within
    exact absurd pre (lt_irrefl _)
  | @cons bound i dims idx inside rest ih =>
    obtain _ | ⟨otherInside, otherRest⟩ := within
    rename_i j others
    have first := InRange.place_bounds rest
    have second := InRange.place_bounds otherRest
    simp only [place]
    rcases List.cons_lt_cons_iff.mp pre with less | ⟨rfl, less⟩
    · have rows : (i + 1) * (dims.prod : Int) ≤ j * dims.prod :=
        Int.mul_le_mul_of_nonneg_right less (Int.natCast_nonneg _)
      rw [Int.add_mul, Int.one_mul] at rows
      omega
    · exact Int.add_lt_add_left (ih otherRest less) _

theorem InRange.place_lt_iff (within : InRange dims other) :
    place dims idx < place dims other ↔ idx < other := by
  refine ⟨fun _ => ?_, inRange.place_lt within⟩
  rcases lt_trichotomy idx other with pre | rfl | behind
  · exact pre
  · omega
  · have := within.place_lt inRange behind
    omega

theorem InRange.eq_of_place (within : InRange dims other)
    (same : place dims idx = place dims other) : idx = other := by
  rcases lt_trichotomy idx other with pre | rfl | behind
  · have := inRange.place_lt within pre
    omega
  · rfl
  · have := within.place_lt inRange behind
    omega

end

theorem exists_inRange (dims : List Nat) {pos : Int} (nonneg : 0 ≤ pos) (below : pos < dims.prod) :
    ∃ idx, InRange dims idx ∧ place dims idx = pos := by
  induction dims generalizing pos with
  | nil =>
    refine ⟨[], .nil, ?_⟩
    rw [List.prod_nil] at below
    show 0 = pos
    omega
  | cons _ dims ih =>
    rw [List.prod_cons, Nat.cast_mul] at below
    have positive : 0 < (dims.prod : Int) := by
      refine Int.natCast_pos.mpr (Nat.pos_of_ne_zero fun none => ?_)
      rw [none] at below
      omega
    obtain ⟨idx, inRange, same⟩ := ih (Int.emod_nonneg pos positive.ne')
      (Int.emod_lt_of_pos pos positive)
    refine ⟨pos / dims.prod :: idx, .cons ⟨Int.ediv_nonneg nonneg positive.le, ?_⟩ inRange, ?_⟩
    · exact Int.ediv_lt_of_lt_mul positive below
    · rw [place, same, Int.mul_comm]
      exact Int.mul_ediv_add_emod pos dims.prod

end Places

section Wrapping

theorem wrapped_modEq (product : Int) : wrapped product ≡ product [ZMOD 2 ^ 64] := by
  unfold wrapped
  rw [BitVec.toInt_ofInt]
  exact Int.bmod_emod

theorem wrapped_eq (agree : product ≡ num [ZMOD 2 ^ 64]) (nonneg : 0 ≤ num) (below : num < 2 ^ 63) :
    wrapped product = num := by
  have same : product % ((2 ^ 64 : Nat) : Int) = num % ((2 ^ 64 : Nat) : Int) := agree
  unfold wrapped
  rw [BitVec.toInt_ofInt, ← Int.emod_bmod, same, Int.emod_bmod]
  exact Int.bmod_eq_of_le (by omega) (by omega)

theorem foldl_modEq (dims : List Nat) (product : Int) :
    dims.foldl (fun (product : Int) (bound : Nat) => wrapped (product * bound)) product ≡
      product * dims.prod [ZMOD 2 ^ 64] := by
  induction dims generalizing product with
  | nil => rw [List.prod_nil, Nat.cast_one, Int.mul_one, List.foldl_nil]
  | cons bound dims ih =>
    rw [List.foldl_cons, List.prod_cons, Nat.cast_mul, ← Int.mul_assoc]
    exact (ih _).trans ((wrapped_modEq _).mul_right _)

/-- A count that fits is the product of the dimensions, even where a product before it wraps. -/
theorem count_eq (fits : dims.prod < 2 ^ 63) : count dims = dims.prod := by
  obtain _ | ⟨first, rest⟩ := dims
  · rfl
  · rcases rest.eq_nil_or_concat' with rfl | ⟨front, last, rfl⟩
    · simp [count]
    · have product : ((first :: (front ++ [last])).prod : Int) = first * front.prod * last := by
        simp only [List.prod_cons, List.prod_append, List.prod_nil, Nat.mul_one, Nat.cast_mul,
          Int.mul_assoc]
      rw [count, List.foldl_append]
      refine wrapped_eq ?_ (Int.natCast_nonneg _) (by exact_mod_cast fits)
      rw [product]
      exact (foldl_modEq front first).mul_right _

theorem offsetFrom_eq (inRange : InRange dims idx) {off : Int} (nonneg : 0 ≤ off)
    (room : (off + 1) * dims.prod ≤ 2 ^ 63) :
    offsetFrom off dims idx = .ok (off * dims.prod + place dims idx) := by
  induction inRange generalizing off with
  | nil => simp [offsetFrom, place]
  | @cons bound i dims idx _ rest ih =>
    have bounds := InRange.place_bounds rest
    rw [List.prod_cons, Nat.cast_mul] at room
    have rows : (off * bound + i + 1) * (dims.prod : Int) ≤ (off + 1) * (bound * dims.prod) := by
      rw [← Int.mul_assoc]
      refine Int.mul_le_mul_of_nonneg_right ?_ (Int.natCast_nonneg _)
      rw [Int.add_mul, Int.one_mul]
      omega
    have start : 0 ≤ off * (bound : Int) := Int.mul_nonneg nonneg (Int.natCast_nonneg _)
    have small : off * (bound : Int) < 2 ^ 63 := by
      have scaled : (off * bound + i + 1) * 1 ≤ (off * bound + i + 1) * (dims.prod : Int) :=
        Int.mul_le_mul_of_nonneg_left (by omega) (by omega)
      omega
    rw [offsetFrom, if_neg (by omega), wrapped_eq rfl start small,
      ih (by omega) (Int.le_trans rows room), List.prod_cons, place]
    congr 1
    push_cast
    ring

theorem inRange_of_offsetFrom (same : idx.length = dims.length)
    (done : offsetFrom off dims idx = .ok pos) : InRange dims idx := by
  induction dims generalizing off idx with
  | nil => exact List.eq_nil_of_length_eq_zero same ▸ .nil
  | cons _ dims ih =>
    obtain _ | ⟨i, idx⟩ := idx
    · cases same
    · rw [offsetFrom] at done
      split at done
      · cases done
      · exact .cons (by omega) (ih (Nat.succ.inj same) done)

variable {ref : ArrayRef}

theorem offset_eq (fits : ref.dimensions.prod < 2 ^ 63) (inRange : InRange ref.dimensions idx) :
    ref.offset idx = .ok (place ref.dimensions idx) := by
  have room : (0 + 1) * (ref.dimensions.prod : Int) ≤ 2 ^ 63 := by omega
  rw [offset, if_pos inRange.length_eq.symm, offsetFrom_eq inRange (Int.le_refl 0) room,
    Int.zero_mul, Int.zero_add]

theorem offset_error (outside : ¬InRange ref.dimensions idx) :
    ∃ fault, ref.offset idx = .error fault := by
  cases found : ref.offset idx with
  | error fault => exact ⟨fault, rfl⟩
  | ok _ =>
    unfold offset at found
    split at found
    · next same => exact absurd (inRange_of_offsetFrom same found) outside
    · cases found

end Wrapping

end ArrayRef

open ArrayRef

/-- A use of an array. -/
inductive ElementCall where
  | get (index : List Int)
  | set (index : List Int) (value : Value)

namespace ElementCall

variable (types : Universe)

/-- The world after a call, whether or not it succeeds. -/
def after (reference : ArrayRef) (world : World H) : ElementCall → World H
  | .get index => (Act.loadElement reference index world).2
  | .set index value => (Act.storeElement types reference index value world).2

/-- The value at an index after a call, if it was a certain one before. -/
def held (element : Ty) (index : List Int) (before : Value) : ElementCall → Value
  | .get _ => before
  | .set place value =>
    if place = index then (types.coerce value element).toOption.getD before else before

end ElementCall

/-- The elements of an array in a world are those of a table. -/
structure Tabulates (reference : ArrayRef) (world : World H) (table : List Int → Value) : Prop where
  present : reference.address < world.arrays.size
  size : (world.elements reference).size = reference.dimensions.prod
  elements : ∀ index, InRange reference.dimensions index →
    (world.elements reference)[(place reference.dimensions index).toNat]? = some (table index)

section Calls

variable {world : World H} {table : List Int → Value} {types : Universe}

theorem World.elements_modify (present : ref.address < world.arrays.size)
    (change : Array Value → Array Value) :
    ({ world with arrays := world.arrays.modify ref.address change } : World H).elements
      ref = change (world.elements ref) := by
  simp [World.elements, Array.getD_eq_getD_getElem?, Array.getElem_modify, present]

namespace Tabulates

variable (tabulates : Tabulates ref world table) (fits : ref.dimensions.prod < 2 ^ 63)
  (inRange : InRange ref.dimensions idx)

include tabulates inRange

theorem position :
    Act.position ref (place ref.dimensions idx) world =
      (.ok (place ref.dimensions idx).toNat, world) := by
  have bounds := inRange.place_bounds
  have size := tabulates.size
  simp only [Act.position, bind_apply, get_apply]
  rw [if_pos (by omega)]
  rfl

theorem update (adapted : Value) :
    Tabulates ref { world with
        arrays := world.arrays.modify ref.address fun elements =>
          elements.setIfInBounds (place ref.dimensions idx).toNat adapted }
      fun index => if idx = index then adapted else table index := by
  refine ⟨by simpa using tabulates.present, ?_, fun index within => ?_⟩
  · rw [World.elements_modify tabulates.present, Array.size_setIfInBounds, tabulates.size]
  · rw [World.elements_modify tabulates.present, Array.getElem?_setIfInBounds]
    have bounds := inRange.place_bounds
    have others := within.place_bounds
    have size := tabulates.size
    by_cases same : idx = index
    · subst same
      rw [if_pos rfl, if_pos rfl, if_pos (by omega)]
    · have apart : (place ref.dimensions idx).toNat ≠ (place ref.dimensions index).toNat :=
        fun _ => same (inRange.eq_of_place within (by omega))
      rw [if_neg apart, if_neg same]
      exact tabulates.elements index within

include fits

theorem load :
    Act.loadElement ref idx world = (.ok (table idx), world) := by
  simp only [Act.loadElement, offset_eq fits inRange, Act.lift, bind_apply, pure_apply,
    tabulates.position inRange, get_apply, Array.getD_eq_getD_getElem?,
    tabulates.elements idx inRange, Option.getD_some]

theorem store (coerced : types.coerce val ref.element = .ok adapted) :
    ∃ later, Act.storeElement types ref idx val world = (.ok (), later) ∧
      Tabulates ref later fun index => if idx = index then adapted else table index := by
  refine ⟨_, ?_, tabulates.update inRange adapted⟩
  simp only [Act.storeElement, offset_eq fits inRange, coerced, Act.lift, bind_apply, pure_apply,
    tabulates.position inRange, modify_apply]

omit tabulates in
theorem store_uncoerced (refused : types.coerce val ref.element = .error fault) :
    Act.storeElement types ref idx val world =
      (.error (.failed (.cause (.value fault))), world) := by
  simp only [Act.storeElement, offset_eq fits inRange, refused, Act.lift, bind_apply, pure_apply]
  rfl

end Tabulates

theorem calls_outside (types : Universe) (outside : ¬InRange ref.dimensions idx) (world : World H) :
    ∃ trouble, Act.loadElement ref idx world = (.error trouble, world) ∧
      ∀ val, Act.storeElement types ref idx val world = (.error trouble, world) := by
  obtain ⟨fault, found⟩ := offset_error outside
  refine ⟨.failed (.cause (.value fault)), ?_, fun val => ?_⟩
  · simp only [Act.loadElement, found, Act.lift, bind_apply]
    rfl
  · simp only [Act.storeElement, found, Act.lift, bind_apply]
    rfl

/-- One call: the table is changed where the call stores, and only there. -/
theorem Tabulates.call (tabulates : Tabulates ref world table)
    (types : Universe) (fits : ref.dimensions.prod < 2 ^ 63) (call : ElementCall) :
    Tabulates ref (call.after types ref world) fun index =>
      call.held types ref.element index (table index) := by
  cases call with
  | get idx =>
    by_cases inRange : InRange ref.dimensions idx
    · rw [ElementCall.after, tabulates.load fits inRange]
      exact tabulates
    · obtain ⟨trouble, failed, _⟩ := calls_outside types inRange world
      rw [ElementCall.after, failed]
      exact tabulates
  | set idx val =>
    by_cases inRange : InRange ref.dimensions idx
    · cases coerced : types.coerce val ref.element with
      | ok _ =>
        obtain ⟨_, stored, changed⟩ := tabulates.store fits inRange coerced
        simpa only [ElementCall.after, ElementCall.held, stored, coerced, Except.toOption,
          Option.getD_some] using changed
      | error _ =>
        rw [ElementCall.after, store_uncoerced fits inRange coerced]
        simpa [ElementCall.held, coerced, Except.toOption] using tabulates
    · obtain ⟨trouble, _, failed⟩ := calls_outside types inRange world
      rw [ElementCall.after, failed]
      refine ⟨tabulates.present, tabulates.size, fun index within => ?_⟩
      rw [ElementCall.held, if_neg fun same : idx = index => inRange (same ▸ within)]
      exact tabulates.elements index within

/-- Any sequence of calls. -/
theorem Tabulates.calls (tabulates : Tabulates ref world table)
    (types : Universe) (fits : ref.dimensions.prod < 2 ^ 63) (calls : List ElementCall) :
    Tabulates ref (calls.foldl (fun now call => call.after types ref now) world)
      fun index => calls.foldl (fun pre call =>
        call.held types ref.element index pre) (table index) := by
  induction calls generalizing world table with
  | nil => exact tabulates
  | cons first _ ih => exact ih (tabulates.call types fits first)

end Calls

/-- The places of an array are those of the indices within its dimensions, row after row. -/
structure ArrayRef.IsRowMajor (reference : ArrayRef) : Prop where
  placed : ∀ index, InRange reference.dimensions index →
    ∃ pos, reference.offset index = .ok pos ∧ 0 ≤ pos ∧ pos < reference.size
  taken : ∀ pos : Int, 0 ≤ pos → pos < reference.size →
    ∃! index, InRange reference.dimensions index ∧ reference.offset index = .ok pos
  ordered : ∀ first second pos next, InRange reference.dimensions first →
    InRange reference.dimensions second → reference.offset first = .ok pos →
    reference.offset second = .ok next → (pos < next ↔ first < second)

/-- An array answers as a table does, and only to indices within its dimensions. -/
structure ArrayRef.Answers (types : Universe) (reference : ArrayRef) (world : World H)
    (table : List Int → Value) : Prop where
  get : ∀ index, InRange reference.dimensions index →
    Act.loadElement reference index world = (.ok (table index), world)
  set : ∀ index value adapted, InRange reference.dimensions index →
    types.coerce value reference.element = .ok adapted →
    ∃ later, Act.storeElement types reference index value world = (.ok (), later)
  refused : ∀ index value fault, InRange reference.dimensions index →
    types.coerce value reference.element = .error fault →
    Act.storeElement types reference index value world =
      (.error (.failed (.cause (.value fault))), world)
  outside : ∀ index, ¬InRange reference.dimensions index →
    ∃ trouble, Act.loadElement reference index world = (.error trouble, world) ∧
      ∀ value, Act.storeElement types reference index value world = (.error trouble, world)

theorem ArrayRef.isRowMajor {ref : ArrayRef} (fits : ref.dimensions.prod < 2 ^ 63) :
    ref.IsRowMajor := by
  have size : (ref.size : Int) = ref.dimensions.prod := by
    rw [ArrayRef.size, count_eq fits]
    rfl
  refine ⟨fun index inRange => ?_, fun pos nonneg below => ?_, ?_⟩
  · exact ⟨_, offset_eq fits inRange, size ▸ inRange.place_bounds⟩
  · obtain ⟨index, inRange, rfl⟩ := exists_inRange ref.dimensions nonneg (size ▸ below)
    refine ⟨index, ⟨inRange, offset_eq fits inRange⟩, fun _ ⟨within, same⟩ => ?_⟩
    rw [offset_eq fits within] at same
    exact within.eq_of_place inRange (Except.ok.inj same)
  · intro _ _ pos _ inRange within isFirst isSecond
    rw [offset_eq fits inRange] at isFirst
    rw [offset_eq fits within] at isSecond
    cases isFirst
    cases isSecond
    exact inRange.place_lt_iff within

/--
A new array that there can be room for keeps what is stored in it: after any calls an index
within the dimensions reads as the last value stored there, or else as the default.
-/
theorem array_faithful (types : Universe) (element : Ty) {dimensions : List Nat}
    (most : dimensions.prod ≤ ArrayRef.most) (world : World H) :
    ∃ reference made, Act.newArray element dimensions world = (.ok reference, made) ∧
      reference.element = element ∧ reference.dimensions = dimensions ∧ reference.IsRowMajor ∧
      ∀ calls : List ElementCall, reference.Answers types
        (calls.foldl (fun now call => call.after types reference now) made) fun index =>
          calls.foldl (fun before call => call.held types element index before)
            (Value.default element) := by
  have small : ArrayRef.most < 2 ^ 63 := by decide
  have fits : dimensions.prod < 2 ^ 63 := Nat.lt_of_le_of_lt most small
  have counted := count_eq fits
  let reference : ArrayRef := { element, dimensions, address := world.arrays.size }
  let made : World H :=
    { world with arrays := world.arrays.push (Array.replicate dimensions.prod (.default element)) }
  have elements : made.elements reference = Array.replicate dimensions.prod (.default element) := by
    simp [made, reference, World.elements, Array.getD_eq_getD_getElem?]
  have start : Tabulates reference made fun _ => Value.default element := by
    refine ⟨by simp [made, reference], by simp [elements, reference], fun index inRange => ?_⟩
    have bounds := inRange.place_bounds
    rw [elements, Array.getElem?_replicate, if_pos ((Int.toNat_lt bounds.1).mpr bounds.2)]
  refine ⟨reference, made, ?_, rfl, rfl, isRowMajor fits, fun calls => ?_⟩
  · unfold Act.newArray
    rw [if_neg (by omega), counted]
    rfl
  · have now := start.calls types fits calls
    exact ⟨fun index => now.load fits, fun index value _ inRange coerced =>
      (now.store fits inRange coerced).imp fun _ stored => stored.1,
      fun index value _ inRange => Tabulates.store_uncoerced fits inRange,
      fun index outside => calls_outside types outside _⟩

/-- A write within a grid is read back, and one beside it is refused and changes nothing. -/
theorem grid_faithful :
    [2, 3].prod ≤ ArrayRef.most ∧ ∃ reference made now,
      Act.newArray .int32 [2, 3] ({ host := () } : World Unit) = (.ok reference, made) ∧
      now = [ElementCall.set [1, 2] (.bool true), .set [1, 3] (.bool true)].foldl
        (fun now call => call.after { declarations := [] } reference now) made ∧
      Act.loadElement reference [1, 2] now = (.ok (.int32 1), now) ∧
      Act.loadElement reference [0, 0] now = (.ok (.int32 0), now) := by
  obtain ⟨reference, made, isNew, _, shape, _, answers⟩ :=
    array_faithful { declarations := [] } .int32 (show [2, 3].prod ≤ ArrayRef.most by decide)
      ({ host := () } : World Unit)
  have last : InRange reference.dimensions [1, 2] :=
    shape ▸ .cons (by decide) (.cons (by decide) .nil)
  have first : InRange reference.dimensions [0, 0] :=
    shape ▸ .cons (by decide) (.cons (by decide) .nil)
  exact ⟨by decide, reference, made, _, isNew, rfl, (answers _).get _ last,
    (answers _).get _ first⟩

/--
Dimensions whose product wraps: an array without elements that has indices all the same, and two
indices of one place.
-/
theorem wrapped_count_unfaithful :
    (∃ reference made,
      Act.newArray .int32 [4, 2 ^ 62] ({ host := () } : World Unit) = (.ok reference, made) ∧
        InRange reference.dimensions [0, 0] ∧
        (Act.loadElement reference [0, 0] made).1 = .error (.crashed .outOfRange)) ∧
      ({ element := .int32, dimensions := [3, 6148914691236517206], address := 0 } :
        ArrayRef).offset [0, 0] =
        ({ element := .int32, dimensions := [3, 6148914691236517206], address := 0 } :
          ArrayRef).offset [2, 6148914691236517204] :=
  ⟨⟨_, _, rfl, .cons (by decide) (.cons (by decide) .nil), rfl⟩, rfl⟩

end HostScript
