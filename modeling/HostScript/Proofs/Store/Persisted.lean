import HostScript.Proofs.Cbor.RoundTrip
import HostScript.Proofs.Typing.Basic
import HostScript.Proofs.Value.Conversion
import HostScript.Store.Basic

namespace HostScript

open Cbor (FloatWidth Item)

/-!
# Persisted values are read back

A value that can be persisted comes back from its persisted form with its kind and its bits;
only the patterns that are not a number become the one pattern of their kind.
-/

namespace Binary

/-- A number of the 32-bit format is one of the 64-bit format, not beyond the largest. -/
theorem exists_double_of_single (isCanonical : single.IsCanonical num)
    (finite : single.pattern num < single.infinity) :
    ∃ exact : Scaled, exact.negative = num.negative ∧ double.IsCanonical exact ∧
      exact.IsSame num ∧ double.pattern exact ≤ largestSingle := by
  have singleLeast : single.leastExponent = -149 := by decide
  have doubleLeast : double.leastExponent = -1074 := by decide
  have narrow : num.mantissa < 2 ^ 24 := isCanonical.narrow
  have above := isCanonical.above
  have full : 2 ^ 23 ≤ num.mantissa ∨ num.exponent = single.leastExponent := isCanonical.full
  rw [singleLeast] at above full
  have bounded : (num.exponent + 149).toNat * 2 ^ 23 + num.mantissa < 255 * 2 ^ 23 := by
    have := finite
    unfold Format.pattern at this
    rw [singleLeast, show num.exponent - -149 = num.exponent + 149 by omega] at this
    exact this
  by_cases isZero : num.mantissa = 0
  · refine ⟨{ num with exponent := -1074 }, rfl, ⟨.inr doubleLeast.symm, ?_, ?_⟩, ?_, ?_⟩
    · show num.mantissa < 2 ^ 53
      omega
    · rw [doubleLeast]
    · unfold Scaled.IsSame
      rw [isZero, Nat.zero_mul, Nat.zero_mul]
    · simp [Format.pattern, doubleLeast, isZero]
  · -- the mantissa is widened until it has 53 bits
    have size : num.mantissa.log2 < 24 := (Nat.log2_lt isZero).mpr narrow
    obtain ⟨isWide, notWider⟩ := Scaled.widened_full isZero (show num.mantissa.log2 ≤ 52 by omega)
    have isLower : (num.widened (52 - num.mantissa.log2)).exponent =
        num.exponent - (52 - num.mantissa.log2 : Nat) := rfl
    refine ⟨num.widened (52 - num.mantissa.log2), rfl, ⟨.inl isWide, notWider, ?_⟩,
      num.widened_isSame _, ?_⟩
    · rw [isLower, doubleLeast]
      omega
    · unfold Format.pattern
      rw [isLower, doubleLeast]
      show (_ : Int).toNat * 2 ^ 52 + _ ≤ 0x47efffffe0000000
      by_cases isFull : 2 ^ 23 ≤ num.mantissa
      · have isLog : num.mantissa.log2 = 23 := by
          have := (Nat.le_log2 isZero).mpr isFull
          omega
        have isMantissa : (num.widened (52 - num.mantissa.log2)).mantissa =
            num.mantissa * 2 ^ 29 := by
          rw [isLog]
          rfl
        rw [isMantissa, isLog]
        omega
      · have isLeast := full.resolve_left isFull
        omega

/-- A finite 32-bit pattern comes back by way of the 64-bit format. -/
theorem convert_single_convert_double (fits : bits < 2 * single.signBit)
    (finite : single.unsigned bits < single.infinity) :
    double.unsigned (single.convert double bits) ≤ largestSingle ∧
      double.convert single (single.convert double bits) = bits := by
  have isPattern := single.pattern_magnitude bits
  have isCanonical := single.magnitude_isCanonical bits
  obtain ⟨exact, sign, exactCanonical, same, _⟩ :=
    exists_double_of_single isCanonical (isPattern ▸ finite)
  have largest : largestSingle < double.infinity := by decide
  have inside := double.infinity_lt_signBit
  have isDouble : single.convert double bits =
      double.withSign exact.negative (double.pattern exact) := by
    unfold Format.convert
    rw [if_neg (by simp [Format.isNaN]; omega), if_neg (by simp [Format.isInfinite]; omega),
      double.ofScaled_of_isSame exactCanonical same.symm (by omega), sign]
  have unsigned := double.unsigned_withSign (show double.pattern exact < double.signBit by omega)
    exact.negative
  rw [isDouble]
  refine ⟨by omega, ?_⟩
  unfold Format.convert
  rw [if_neg (by simp [Format.isNaN, unsigned]; omega),
    if_neg (by simp [Format.isInfinite, unsigned]; omega),
    double.magnitude_withSign_pattern exactCanonical (by omega),
    single.ofScaled_of_isSame isCanonical same (by omega), sign, isPattern]
  exact single.withSign_unsigned fits

theorem convert_double_double (fits : bits < 2 * double.signBit)
    (finite : double.unsigned bits < double.infinity) : double.convert double bits = bits := by
  unfold Format.convert
  rw [if_neg (by simp [Format.isNaN]; omega), if_neg (by simp [Format.isInfinite]; omega)]
  exact double.ofScaled_magnitude fits (Nat.le_of_lt finite)

end Binary

/-- A text that can be written and read back: UTF-8, of a length that its head can hold. -/
def Text.IsStorable (text : Text) : Prop :=
  text.isUtf8 = true ∧ text.length < 2 ^ 63

instance (text : Text) : Decidable text.IsStorable :=
  inferInstanceAs (Decidable (_ ∧ _))

namespace Value

def IsStorable : Value → Prop
  | .string text => text.IsStorable
  | _ => True

instance : (value : Value) → Decidable value.IsStorable
  | .string text => inferInstanceAs (Decidable text.IsStorable)
  | .null | .bool _ | .int _ _ | .float _ _ | .type _ | .array _ | .object _ _ | .host
  | .state | .sealed | .address _ => .isTrue trivial

def settled : Value → Value
  | .float kind bits =>
    if kind.format.isNaN bits.toNat then .float kind (BitVec.ofNat _ kind.format.notANumber)
    else .float kind bits
  | value => value

variable {kind : FloatKind} {bits : BitVec kind.width}

theorem integerValue_bounds (kind : IntKind) (bits : BitVec kind.width) :
    -(2 ^ 63 : Int) ≤ integerValue kind bits ∧ integerValue kind bits < 2 ^ 64 := by
  unfold integerValue
  have below := bits.isLt
  have lower := bits.le_toInt
  have upper := bits.toInt_lt
  cases kind <;> simp only [IntKind.signed, IntKind.width] at * <;> simp <;> omega

theorem integer?_ofInt (lower : -(2 ^ 63 : Int) ≤ n) (upper : n < 2 ^ 64) :
    (Item.ofInt n).integer? = some n := by
  cases n with
  | ofNat n =>
    rw [Int.ofNat_eq_natCast] at upper
    simp [Item.ofInt, Item.integer?, Item.tagsFit, Item.untagged]
    omega
  | negSucc n =>
    simp [Item.ofInt, Item.integer?, Item.tagsFit, Item.untagged]
    omega

theorem intOfItem?_ofInt (kind : IntKind) (bits : BitVec kind.width) :
    intOfItem? kind (.ofInt (integerValue kind bits)) = some (.int kind bits) := by
  obtain ⟨lower, upper⟩ := integerValue_bounds kind bits
  unfold intOfItem?
  rw [integer?_ofInt lower upper]
  simp only [Option.bind_eq_bind, Option.bind_some, ofInt_integerValue, ↓reduceIte]

theorem double?_float (width : FloatWidth) (bits : Nat) :
    (Item.float width bits).double? = some (width.format.convert Binary.double bits) :=
  rfl

theorem toNat_lt (kind : FloatKind) (bits : BitVec kind.width) :
    bits.toNat < 2 * kind.format.signBit := by
  have below := bits.isLt
  cases kind <;> exact below

theorem withSign_infinity (infinite : kind.format.isInfinite bits.toNat) :
    kind.format.withSign (kind.format.isNegative bits.toNat) kind.format.infinity = bits.toNat := by
  have isInfinity : kind.format.unsigned bits.toNat = kind.format.infinity := by
    simpa [Binary.Format.isInfinite] using infinite
  rw [← isInfinity]
  exact kind.format.withSign_unsigned (toNat_lt kind bits)

theorem floatOfItem?_infinity (kind : FloatKind) (negative : Bool) :
    floatOfItem? kind (.float .half (if negative then 0xfc00 else 0x7c00)) =
      some (.float kind (BitVec.ofNat _ (kind.format.withSign negative kind.format.infinity))) := by
  cases kind <;> cases negative <;> decide +kernel

theorem double_toNat (bits : BitVec FloatKind.double.width) :
    double bits.toNat = .float .double bits :=
  congrArg (Value.float .double) (BitVec.eq_of_toNat_eq (Nat.mod_eq_of_lt bits.isLt))

theorem single_toNat (bits : BitVec FloatKind.single.width) :
    single bits.toNat = .float .single bits :=
  congrArg (Value.float .single) (BitVec.eq_of_toNat_eq (Nat.mod_eq_of_lt bits.isLt))

theorem floatOfItem?_double {bits}
    (finite : Binary.double.unsigned bits.toNat < Binary.double.infinity) :
    floatOfItem? .double (.float .double bits.toNat) = some (.float .double bits) := by
  have back := Binary.convert_double_double (toNat_lt .double bits) finite
  unfold floatOfItem?
  rw [double?_float]
  simp only [Option.bind_eq_bind, Option.bind_some, FloatWidth.format, back, double_toNat]

theorem floatOfItem?_single {bits}
    (finite : Binary.single.unsigned bits.toNat < Binary.single.infinity) :
    floatOfItem? .single (.float .single bits.toNat) = some (.float .single bits) := by
  obtain ⟨bounded, back⟩ := Binary.convert_single_convert_double (toNat_lt .single bits) finite
  have notBeyond := Nat.not_lt.mpr bounded
  unfold floatOfItem?
  rw [double?_float, Item.integer?]
  simp only [Option.bind_eq_bind, Option.bind_some, FloatWidth.format, back, single_toNat,
    notBeyond, decide_false, Bool.false_and, Bool.false_eq_true, ↓reduceIte]

/-- A floating point number comes back from its item; what is not a number has one pattern. -/
theorem floatOfItem?_floatItem (kind : FloatKind) (bits : BitVec kind.width) :
    floatOfItem? kind (floatItem kind bits.toNat) = some (settled (.float kind bits)) := by
  unfold floatItem
  split
  · next isNone =>
    rw [settled, if_pos isNone]
    cases kind <;> decide +kernel
  · next isNumber =>
    rw [settled, if_neg isNumber]
    split
    · next infinite =>
      rw [floatOfItem?_infinity, withSign_infinity infinite, BitVec.ofNat_toNat, BitVec.setWidth_eq]
    · next isFinite =>
      have finite : kind.format.unsigned bits.toNat < kind.format.infinity := by
        simp only [Binary.Format.isNaN, Binary.Format.isInfinite, decide_eq_true_eq]
          at isNumber isFinite
        omega
      cases kind with
      | double => exact floatOfItem?_double finite
      | single => exact floatOfItem?_single finite

theorem ofEntry_map (tagsFit : item.tagsFit) (kind : Kind) :
    ofEntry (.map [.unsigned 1, .unsigned kind.number, .unsigned 2, item]) =
      match kind with
      | .prim prim =>
        ofItem (representationText prim) (primOfItem? prim) (some item)
      | .string => ofItem "string" (fun item => item.string?.map .string) (some item)
      | .object => .ok .null
      | _ => .error (.cause (.unsupportedKind (Kind.numberedText kind.number))) := by
  have small := kind.number_lt
  have isRecord : (Item.map [.unsigned 1, .unsigned kind.number, .unsigned 2, item]).record? =
        some [.unsigned 1, .unsigned kind.number, .unsigned 2, item] := rfl
  have first : Item.entry? 1 [.unsigned 1, .unsigned kind.number, .unsigned 2, item] =
      some (.unsigned kind.number) := rfl
  have second : Item.entry? 2 [.unsigned 1, .unsigned kind.number, .unsigned 2, item] =
      some item := rfl
  have num : (Item.unsigned kind.number).integer? = some (kind.number : Int) :=
    integer?_ofInt (n := (kind.number : Int)) (by omega) (by omega)
  have inRange : ¬ ((kind.number : Int) < 0 ∨ 255 < (kind.number : Int)) := by omega
  unfold ofEntry
  rw [isRecord]
  dsimp only
  rw [first, second, Option.getD_some, num]
  dsimp only
  rw [Int.toNat_natCast, Kind.ofNumber?_number]
  rw [if_neg (by simp [tagsFit]; omega)]
  cases kind <;> rfl

variable {val : Value} {entry : Item}

theorem ofEntry_of_entry? (isEntry : val.entry? = some entry) (isStorable : val.IsStorable) :
    ofEntry entry = .ok val.settled := by
  cases val with
  | null =>
    cases isEntry
    exact ofEntry_map rfl .object
  | bool val =>
    cases isEntry
    rw [ofEntry_map (by cases val <;> rfl)]
    cases val <;> rfl
  | int kind bits =>
    cases isEntry
    rw [ofEntry_map (by cases integerValue kind bits <;> rfl)]
    simp only [ofItem, primOfItem?, intOfItem?_ofInt, settled]
  | float kind bits =>
    cases isEntry
    rw [ofEntry_map (by unfold floatItem; split_ifs <;> first | rfl | (cases kind <;> rfl))]
    simp only [ofItem, primOfItem?, floatOfItem?_floatItem]
  | string text =>
    cases isEntry
    rw [ofEntry_map rfl]
    have isUtf8 : text.isUtf8 := isStorable.1
    simp [ofItem, Item.string?, Item.tagsFit, Item.untagged, isUtf8, settled]
  | _ => cases isEntry

theorem isReadable_ofInt (lower : -(2 ^ 63 : Int) ≤ n) (upper : n < 2 ^ 64) (depth : Nat) :
    (Item.ofInt n).IsReadable depth := by
  cases n with
  | ofNat n =>
    rw [Int.ofNat_eq_natCast] at upper
    show n < 2 ^ 64
    omega
  | negSucc n =>
    show n < 2 ^ 64
    omega

theorem isReadable_floatItem (kind : FloatKind) (bits : BitVec kind.width) (depth : Nat) :
    (floatItem kind bits.toNat).IsReadable depth := by
  unfold floatItem
  split_ifs
  · exact Nat.le_of_ble_eq_true rfl
  · exact Nat.le_of_ble_eq_true rfl
  · exact Nat.le_of_ble_eq_true rfl
  · cases kind <;> exact bits.isLt

theorem isReadable_of_item? {kind} (isItem : val.item? = some (kind, item))
    (isStorable : val.IsStorable) (depth : Nat) : item.IsReadable depth := by
  cases val with
  | null =>
    cases isItem
    exact Nat.le_of_ble_eq_true rfl
  | bool val =>
    cases isItem
    cases val <;> exact Nat.le_of_ble_eq_true rfl
  | int kind bits =>
    cases isItem
    obtain ⟨lower, upper⟩ := integerValue_bounds kind bits
    exact isReadable_ofInt lower upper depth
  | float kind bits =>
    cases isItem
    exact isReadable_floatItem kind bits depth
  | string _ =>
    cases isItem
    exact isStorable.2
  | _ => cases isItem

theorem isReadable_of_entry (isEntry : val.entry? = some entry) (isStorable : val.IsStorable)
    (shallow : depth < Cbor.maxDepth) : entry.IsReadable depth := by
  obtain ⟨⟨kind, _⟩, isItem, rfl⟩ := Option.map_eq_some_iff.mp isEntry
  have small := kind.number_lt
  have readable := isReadable_of_item? isItem isStorable (depth + 1)
  have fits : kind.number < 2 ^ 64 := by omega
  have pairs : 4 % 2 = 0 ∧ 4 / 2 ≤ Cbor.maxMembers := by decide
  have keys : (1 : Nat) < 2 ^ 64 ∧ 2 < 2 ^ 64 := by decide
  exact ⟨shallow, pairs.1, pairs.2, keys.1, fits, keys.2, readable, trivial⟩

theorem isSome_entry? (val : Value) : val.entry?.isSome = val.isPersistable := by
  cases val <;> rfl

theorem tagsFit_of_entry? (isEntry : val.entry? = some entry) : entry.tagsFit := by
  obtain ⟨_, _, rfl⟩ := Option.map_eq_some_iff.mp isEntry
  rfl

end Value

end HostScript
