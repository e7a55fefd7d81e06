import HostScript.Proofs.Number.Exact
import HostScript.Value.Basic

namespace HostScript

/-!
# Conversion to integers

An integer type has one value in every class of integers that agree modulo its width, and
conversion finds that value.
-/

namespace Value

theorem integerValue_ofInt (kind : IntKind) (num : Int) :
    integerValue kind (BitVec.ofInt kind.width num) ≡ num [ZMOD 2 ^ kind.width] := by
  unfold integerValue
  split
  · rw [BitVec.toInt_ofInt]
    exact_mod_cast Int.bmod_emod
  · have nonzero : ((2 ^ kind.width : Nat) : Int) ≠ 0 :=
      Int.natCast_ne_zero.mpr (Nat.two_pow_pos _).ne'
    rw [BitVec.toNat_ofInt, Int.toNat_of_nonneg (Int.emod_nonneg _ nonzero)]
    exact_mod_cast Int.mod_modEq _ _

theorem ofInt_integerValue (kind : IntKind) (bits : BitVec kind.width) :
    BitVec.ofInt kind.width (integerValue kind bits) = bits := by
  unfold integerValue
  split
  · exact BitVec.ofInt_toInt
  · rw [BitVec.ofInt_natCast, BitVec.ofNat_toNat, BitVec.setWidth_eq]

theorem ofInt_of_modEq (agree : a ≡ b [ZMOD 2 ^ width]) :
    BitVec.ofInt width a = BitVec.ofInt width b := by
  have same : a % ((2 ^ width : Nat) : Int) = b % ((2 ^ width : Nat) : Int) := by
    exact_mod_cast agree
  apply BitVec.eq_of_toInt_eq
  rw [BitVec.toInt_ofInt, BitVec.toInt_ofInt, ← Int.emod_bmod, same, Int.emod_bmod]

/-- The values of a type that agree with a number are one. -/
theorem integerValue_modEq_iff (kind : IntKind) (bits : BitVec kind.width) (num : Int) :
    integerValue kind bits ≡ num [ZMOD 2 ^ kind.width] ↔ bits = BitVec.ofInt kind.width num := by
  constructor
  · intro agree
    rw [← ofInt_of_modEq agree, ofInt_integerValue]
  · rintro rfl
    exact integerValue_ofInt kind num

theorem ofInt_through {wide narrow : IntKind} (holds : narrow.width ≤ wide.width) (num : Int) :
    BitVec.ofInt narrow.width (integerValue wide (BitVec.ofInt wide.width num)) =
      BitVec.ofInt narrow.width num :=
  ofInt_of_modEq ((integerValue_ofInt wide num).of_dvd (pow_dvd_pow 2 holds))

variable {val : Value}

theorem convert_of_scalar {scalar} (known : val.scalar? = some scalar) (tgt : Prim) :
    val.convert tgt = .ok (ofScalar scalar tgt) := by
  simp only [convert, known]

/-- A value of a primitive type is what its own number converts to. -/
theorem ofScalar_own (known : val.scalar? = some (.integer num))
    (typed : val.typeOf = some (.prim own)) : ofScalar (.integer num) own = val := by
  cases val with
  | bool truth =>
    cases known
    cases typed
    cases truth <;> rfl
  | int kind bits =>
    cases known
    cases typed
    exact congrArg (Value.int kind) (ofInt_integerValue kind bits)
  | _ => cases known

end Value

namespace Binary.Format

variable {fmt : Format} {bits : Nat}

theorem truncate_of_finite (isNumber : fmt.isNaN bits = false)
    (isFinite : fmt.isInfinite bits = false) :
    (fmt.truncate bits).natAbs = (fmt.magnitude bits).ratio.1 / (fmt.magnitude bits).ratio.2 := by
  unfold truncate Scaled.ratio
  simp only [isNumber, isFinite, Bool.or_self, Bool.false_eq_true, ↓reduceIte, Nat.pow_eq]
  generalize fmt.magnitude bits = scaled
  have whole : (if 0 ≤ scaled.exponent then scaled.mantissa * 2 ^ scaled.exponent.toNat
      else scaled.mantissa / 2 ^ (-scaled.exponent).toNat) =
        scaled.mantissa * 2 ^ scaled.exponent.toNat / 2 ^ (-scaled.exponent).toNat := by
    split
    · next _ => rw [show (-scaled.exponent).toNat = 0 by omega, Nat.pow_zero, Nat.div_one]
    · next _ => rw [show scaled.exponent.toNat = 0 by omega, Nat.pow_zero, Nat.mul_one]
  rw [← whole]
  split <;> omega

theorem truncate_of_not_finite (special : fmt.isNaN bits = true ∨ fmt.isInfinite bits = true) :
    fmt.truncate bits = 0 := by
  unfold truncate
  rw [if_pos (by simpa using special)]

theorem truncate_lt (isNumber : fmt.isNaN bits = false) (isFinite : fmt.isInfinite bits = false)
    (below : (fmt.magnitude bits).ratio.1 < bound * (fmt.magnitude bits).ratio.2) :
    (fmt.truncate bits).natAbs < bound := by
  rw [truncate_of_finite isNumber isFinite]
  exact Nat.div_lt_of_lt_mul (Nat.mul_comm bound _ ▸ below)

end Binary.Format

open Value

/--
Conversion of integers and booleans is reduction modulo the width of the target, and a floating
point number below `2 ^ 63` takes the way of the `int64` that it is cut to.
-/
theorem integer_conversion :
    (∀ (value : Value) (number : Int), value.scalar? = some (.integer number) →
      (∀ kind : IntKind, ∃ bits, value.convert (.int kind) = .ok (.int kind bits) ∧
        ∀ other, integerValue kind other ≡ number [ZMOD 2 ^ kind.width] ↔ other = bits) ∧
      (∀ wide narrow : IntKind, narrow.width ≤ wide.width →
        (value.convert (.int wide) >>= fun between => between.convert (.int narrow)) =
          value.convert (.int narrow)) ∧
      (∀ (own : Prim) (kind : IntKind), value.typeOf = some (.prim own) →
        (∃ bits, integerValue kind bits = number) →
        (value.convert (.int kind) >>= fun between => between.convert own) = .ok value) ∧
      value.convert .bool = .ok (.bool (decide (number ≠ 0)))) ∧
    ∀ (float : FloatKind) (bits : BitVec float.width),
      (float.format.isNaN bits.toNat = true ∨ float.format.isInfinite bits.toNat = true →
        ∀ kind : IntKind, (Value.float float bits).convert (.int kind) = .ok (.int kind 0)) ∧
      (float.format.isNaN bits.toNat = false → float.format.isInfinite bits.toNat = false →
        (float.format.magnitude bits.toNat).ratio.1 <
          2 ^ 63 * (float.format.magnitude bits.toNat).ratio.2 →
        ∃ whole : BitVec 64, whole.toInt = float.format.truncate bits.toNat ∧
          (Value.float float bits).convert (.int .int64) = .ok (.int .int64 whole) ∧
          ∀ kind : IntKind, (Value.float float bits).convert (.int kind) =
            (Value.int .int64 whole).convert (.int kind)) := by
  refine ⟨fun value number known => ⟨fun kind => ?_, fun wide narrow holds => ?_, ?_, ?_⟩,
    fun float bits => ⟨fun special kind => ?_, fun isNumber isFinite below => ?_⟩⟩
  · exact ⟨_, convert_of_scalar known _, fun other => integerValue_modEq_iff kind other number⟩
  · rw [convert_of_scalar known, convert_of_scalar known]
    exact congrArg (fun bits => Except.ok (Value.int narrow bits)) (ofInt_through holds number)
  · rintro own kind typed ⟨bits, rfl⟩
    rw [convert_of_scalar known]
    show Value.convert (.int kind (BitVec.ofInt kind.width (integerValue kind bits))) own = _
    rw [ofInt_integerValue]
    exact congrArg Except.ok (ofScalar_own known typed)
  · rw [convert_of_scalar known]
    simp [ofScalar, Scalar.isNonzero, bne, decide_not, beq_eq_decide]
  · rw [convert_of_scalar rfl]
    simp only [ofScalar, Scalar.truncate, Binary.Format.truncate_of_not_finite special]
    rfl
  · have small := Binary.Format.truncate_lt isNumber isFinite below
    refine ⟨BitVec.ofInt 64 (float.format.truncate bits.toNat), ?_, rfl, fun kind => ?_⟩
    · rw [BitVec.toInt_ofInt, Int.bmod_eq_of_le] <;> omega
    · have width : kind.width ≤ IntKind.int64.width := by cases kind <;> decide
      exact congrArg (fun bits => Except.ok (Value.int kind bits)) (ofInt_through width _).symm

/-- The largest `uint64` and a negative half go where reduction and cutting say. -/
theorem integer_conversion_samples :
    (Value.int .uint64 (-1)).convert (.int .int8) = .ok (.int .int8 (-1)) ∧
      ((Value.int .uint64 (-1)).convert (.int .int32) >>= fun between =>
        between.convert (.int .int8)) = .ok (.int .int8 (-1)) ∧
      (Value.single 0xbfc00000).convert (.int .uint16) =
        (Value.int .int64 (-1)).convert (.int .uint16) := by
  obtain ⟨integers, floats⟩ := integer_conversion
  have known : (Value.int .uint64 (-1)).scalar? = some (.integer (2 ^ 64 - 1)) := rfl
  obtain ⟨_, through, _, _⟩ := integers _ _ known
  obtain ⟨whole, isWhole, _, along⟩ := (floats .single (BitVec.ofNat 32 0xbfc00000)).2 (by decide)
    (by decide) (by decide)
  have isCut : whole = -1 := BitVec.eq_of_toInt_eq (isWhole.trans (by decide))
  exact ⟨rfl, through .int32 .int8 (by decide), (along .uint16).trans (isCut ▸ rfl)⟩

end HostScript
