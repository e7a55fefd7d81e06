import Mathlib
import HostScript.Number.Binary

namespace HostScript.Binary

/-!
# Rounding

What rounding to a format keeps of a number.
-/

theorem roundDiv_eq_zero (rounds : roundDiv numerator denom = 0) (positive : 0 < denom) :
    numerator < denom := by
  unfold roundDiv at rounds
  dsimp only at rounds
  split at rounds
  · cases rounds
  · exact (Nat.div_eq_zero_iff_lt positive).mp rounds

namespace Format

variable (format : Format)

theorem round_le_infinity (numerator denom : Nat) :
    format.round numerator denom ≤ format.infinity := by
  unfold round
  split
  · exact Nat.zero_le _
  · exact Nat.min_le_right _ _

theorem infinity_lt_signBit : format.infinity < format.signBit := by
  have room : 0 < 2 ^ format.exponentBits := Nat.two_pow_pos _
  have width : 0 < 2 ^ format.fractionBits := Nat.two_pow_pos _
  simp only [infinity, signBit, Nat.pow_eq, Nat.pow_add]
  rw [Nat.mul_comm (2 ^ format.fractionBits)]
  exact Nat.mul_lt_mul_of_pos_right (by omega) width

/-- A ratio in units of a power of two, again as a ratio. -/
def inUnits (numerator denominator : Nat) (exponent : Int) : Nat × Nat :=
  if 0 ≤ exponent then (numerator, denominator * 2 ^ exponent.toNat)
  else (numerator * 2 ^ (-exponent).toNat, denominator)

/-- The place at which a ratio has at least the width of a mantissa, and at most one bit more. -/
def place (numerator denominator : Nat) : Int :=
  max ((numerator.log2 : Int) - denominator.log2 - 1 - format.fractionBits) format.leastExponent

def lastPlace (numerator denominator : Nat) : Int :=
  let units := inUnits numerator denominator (format.place numerator denominator)
  if 2 ^ (format.fractionBits + 1) ≤ units.1 / units.2 then
    format.place numerator denominator + 1
  else format.place numerator denominator

theorem divided_eq (numerator denom : Nat) (exponent : Int) (rounded : Nat → Nat → Nat) :
    (if 0 ≤ exponent then rounded numerator (denom * 2 ^ exponent.toNat)
      else rounded (numerator * 2 ^ (-exponent).toNat) denom) =
      rounded (inUnits numerator denom exponent).1 (inUnits numerator denom exponent).2 := by
  unfold inUnits
  split <;> rfl

theorem round_eq (isNonzero : numerator ≠ 0) (denom : Nat) :
    format.round numerator denom =
      min ((format.lastPlace numerator denom - format.leastExponent).toNat *
            2 ^ format.fractionBits +
          roundDiv (inUnits numerator denom (format.lastPlace numerator denom)).1
            (inUnits numerator denom (format.lastPlace numerator denom)).2)
        format.infinity := by
  unfold round
  rw [if_neg isNonzero]
  simp only [Nat.pow_eq, divided_eq _ _ _ HDiv.hDiv, divided_eq _ _ _ roundDiv, lastPlace, place,
    decide_eq_true_eq]
  split <;> rename_i wide <;> simp only [wide, ↓reduceIte]

theorem round_ne_zero (isNonzero : whole ≠ 0) (small : format.leastExponent < 0)
    (finite : format.infinity ≠ 0) : format.round whole 1 ≠ 0 := by
  have near : format.lastPlace whole 1 ≤ whole.log2 := by
    have one : Nat.log2 1 = 0 := by decide
    unfold lastPlace place
    dsimp only
    split <;> omega
  have below : 2 ^ whole.log2 ≤ whole := Nat.log2_self_le isNonzero
  have positive : 0 < (inUnits whole 1 (format.lastPlace whole 1)).2 := by
    unfold inUnits
    split
    · exact Nat.mul_pos Nat.one_pos (Nat.two_pow_pos _)
    · exact Nat.one_pos
  have large : (inUnits whole 1 (format.lastPlace whole 1)).2 ≤
      (inUnits whole 1 (format.lastPlace whole 1)).1 := by
    unfold inUnits
    split
    · have order : 2 ^ (format.lastPlace whole 1).toNat ≤ 2 ^ whole.log2 :=
        Nat.pow_le_pow_right (by decide) (by omega)
      omega
    · exact Nat.mul_pos (Nat.pos_of_ne_zero isNonzero) (Nat.two_pow_pos _)
  intro isZero
  rw [format.round_eq isNonzero] at isZero
  have rounds : roundDiv (inUnits whole 1 (format.lastPlace whole 1)).1
      (inUnits whole 1 (format.lastPlace whole 1)).2 = 0 := by omega
  exact absurd (roundDiv_eq_zero rounds positive) (Nat.not_lt.mpr large)

/-- An integer becomes the zero pattern only if it is zero. -/
theorem unsigned_ofInt (n : Int) (small : format.leastExponent < 0) (finite : format.infinity ≠ 0) :
    format.unsigned (format.ofInt n) ≤ format.infinity ∧
      (format.unsigned (format.ofInt n) = 0 ↔ n = 0) := by
  have bounded := format.round_le_infinity n.natAbs 1
  have inside := format.infinity_lt_signBit
  have same : format.unsigned (format.ofInt n) = format.round n.natAbs 1 := by
    unfold unsigned ofInt withSign
    split
    · rw [Nat.add_mod_left, Nat.mod_eq_of_lt (by omega)]
    · rw [Nat.mod_eq_of_lt (by omega)]
  rw [same]
  refine ⟨bounded, fun isZero => ?_, fun isZero => ?_⟩
  · refine Decidable.byContradiction fun isNonzero => ?_
    exact format.round_ne_zero (Int.natAbs_ne_zero.mpr isNonzero) small finite isZero
  · rw [isZero]
    rfl

theorem ofInt_lt (n : Int) : format.ofInt n < 2 * format.signBit := by
  have bounded := format.round_le_infinity n.natAbs 1
  have inside := format.infinity_lt_signBit
  unfold ofInt withSign
  split <;> omega

theorem equal_zero (bits : Nat) : format.equal bits 0 = format.isZero bits := by
  have positive : 0 < format.signBit := Nat.two_pow_pos _
  have zeroKey : format.key 0 = 0 := by
    simp only [key, isNegative, Nat.le_zero, Nat.ne_of_gt positive, decide_false,
      Bool.false_eq_true, ↓reduceIte, unsigned, Nat.zero_mod, Int.natCast_zero]
  have keyZero : format.key bits = 0 ↔ format.unsigned bits = 0 := by
    unfold key
    split <;> omega
  have zeroUnsigned : format.unsigned 0 = 0 := Nat.zero_mod _
  rw [Bool.eq_iff_iff]
  simp only [equal, isZero, zeroKey, Bool.and_eq_true, Bool.not_eq_eq_eq_not, Bool.not_true,
    beq_iff_eq, keyZero, decide_eq_true_eq, isNaN, decide_eq_false_iff_not]
  omega

end Format

/-!
# Exact conversions

Every finite pattern stands for one canonical scaled integer, whose mantissa has the full width
unless its exponent is the least one.
-/

/-- Two scaled integers of one magnitude. -/
def Scaled.IsSame (a b : Scaled) : Prop :=
  a.mantissa * 2 ^ (a.exponent - b.exponent).toNat =
    b.mantissa * 2 ^ (b.exponent - a.exponent).toNat

theorem Scaled.IsSame.symm {a : Scaled} (same : a.IsSame b) : b.IsSame a := Eq.symm same

theorem Scaled.IsSame.trans {a : Scaled} (first : a.IsSame b) (second : b.IsSame c) :
    a.IsSame c := by
  unfold IsSame at first second ⊢
  generalize a.mantissa = m, a.exponent = e, b.mantissa = m', b.exponent = e',
    c.mantissa = m'', c.exponent = e'' at first second ⊢
  apply Nat.eq_of_mul_eq_mul_right (Nat.two_pow_pos ((e' - e).toNat + (e'' - e').toNat))
  have left : (e - e'').toNat + ((e' - e).toNat + (e'' - e').toNat) =
      (e - e').toNat + ((e' - e'').toNat + (e'' - e).toNat) := by omega
  calc m * 2 ^ (e - e'').toNat * 2 ^ ((e' - e).toNat + (e'' - e').toNat)
      = m * 2 ^ ((e - e'').toNat + ((e' - e).toNat + (e'' - e').toNat)) := by ring
    _ = m * 2 ^ (e - e').toNat * 2 ^ ((e' - e'').toNat + (e'' - e).toNat) := by rw [left]; ring
    _ = m' * 2 ^ (e' - e'').toNat * 2 ^ ((e' - e).toNat + (e'' - e).toNat) := by rw [first]; ring
    _ = m'' * 2 ^ (e'' - e).toNat * 2 ^ ((e' - e).toNat + (e'' - e').toNat) := by
        rw [second]; ring

/-- A scaled integer with some bits more in its mantissa. -/
def Scaled.widened (number : Scaled) (shift : Nat) : Scaled :=
  { number with
    mantissa := number.mantissa * 2 ^ shift
    exponent := number.exponent - shift }

theorem Scaled.widened_isSame (num : Scaled) (shift : Nat) : (num.widened shift).IsSame num := by
  have down : (num.exponent - shift - num.exponent).toNat = 0 := by omega
  have up : (num.exponent - (num.exponent - shift)).toNat = shift := by omega
  unfold IsSame widened
  rw [down, up, Nat.pow_zero, Nat.mul_one]

def Scaled.ratio (number : Scaled) : Nat × Nat :=
  (number.mantissa * 2 ^ number.exponent.toNat, 2 ^ (-number.exponent).toNat)

theorem log2_mul_two_pow (isNonzero : n ≠ 0) (shift : Nat) :
    (n * 2 ^ shift).log2 = n.log2 + shift := by
  have positive : 0 < 2 ^ shift := Nat.two_pow_pos shift
  rw [Nat.log2_eq_iff (Nat.mul_ne_zero isNonzero (Nat.ne_of_gt positive))]
  constructor
  · rw [Nat.pow_add]
    exact Nat.mul_le_mul_right _ (Nat.log2_self_le isNonzero)
  · rw [show n.log2 + shift + 1 = n.log2 + 1 + shift by omega, Nat.pow_add]
    exact Nat.mul_lt_mul_of_pos_right Nat.lt_log2_self positive

theorem Scaled.widened_full {num : Scaled} (isNonzero : num.mantissa ≠ 0)
    (narrow : num.mantissa.log2 ≤ width) :
    2 ^ width ≤ (num.widened (width - num.mantissa.log2)).mantissa ∧
      (num.widened (width - num.mantissa.log2)).mantissa < 2 ^ (width + 1) := by
  have whole : num.mantissa.log2 + (width - num.mantissa.log2) = width := by omega
  have scaled := log2_mul_two_pow isNonzero (width - num.mantissa.log2)
  rw [whole] at scaled
  have nonzero : num.mantissa * 2 ^ (width - num.mantissa.log2) ≠ 0 :=
    Nat.mul_ne_zero isNonzero (Nat.ne_of_gt (Nat.two_pow_pos _))
  exact (Nat.log2_eq_iff nonzero).mp scaled

theorem roundDiv_mul (positive : 0 < denom) (quotient : Nat) :
    roundDiv (quotient * denom) denom = quotient := by
  have none : quotient * denom % denom = 0 := Nat.mul_mod_left _ _
  unfold roundDiv
  rw [none, Nat.mul_div_cancel _ positive, if_neg (by omega)]

namespace Format

theorem inUnits_eq (numerator denom : Nat) (exponent : Int) :
    inUnits numerator denom exponent =
      (numerator * 2 ^ (-exponent).toNat, denom * 2 ^ exponent.toNat) := by
  unfold inUnits
  split
  · next _ => rw [show (-exponent).toNat = 0 by omega, Nat.pow_zero, Nat.mul_one]
  · next _ => rw [show exponent.toNat = 0 by omega, Nat.pow_zero, Nat.mul_one]

variable {num : Scaled}

theorem inUnits_ratio (same : num.IsSame exact) :
    (inUnits num.ratio.1 num.ratio.2 exact.exponent).1 =
      exact.mantissa * (inUnits num.ratio.1 num.ratio.2 exact.exponent).2 := by
  unfold Scaled.IsSame at same
  rw [inUnits_eq]
  unfold Scaled.ratio
  generalize num.mantissa = m, num.exponent = e, exact.mantissa = m', exact.exponent = e' at same
  apply Nat.eq_of_mul_eq_mul_right (Nat.two_pow_pos (e' - e).toNat)
  have balance : e.toNat + (-e').toNat + (e' - e).toNat =
      (e - e').toNat + ((-e).toNat + e'.toNat) := by omega
  calc m * 2 ^ e.toNat * 2 ^ (-e').toNat * 2 ^ (e' - e).toNat
      = m * 2 ^ (e.toNat + (-e').toNat + (e' - e).toNat) := by ring
    _ = m * 2 ^ (e - e').toNat * (2 ^ (-e).toNat * 2 ^ e'.toNat) := by rw [balance]; ring
    _ = m' * (2 ^ (-e).toNat * 2 ^ e'.toNat) * 2 ^ (e' - e).toNat := by rw [same]; ring

theorem inUnits_ratio_pos (num : Scaled) (exponent : Int) :
    0 < (inUnits num.ratio.1 num.ratio.2 exponent).2 := by
  rw [inUnits_eq]
  exact Nat.mul_pos (Nat.two_pow_pos _) (Nat.two_pow_pos _)

variable (format : Format)

/-- A scaled integer that a pattern writes as it is. -/
structure IsCanonical (number : Scaled) : Prop where
  /-- The mantissa has the full width, or the exponent is the least one. -/
  full : 2 ^ format.fractionBits ≤ number.mantissa ∨ number.exponent = format.leastExponent
  narrow : number.mantissa < 2 ^ (format.fractionBits + 1)
  above : format.leastExponent ≤ number.exponent

def pattern (number : Scaled) : Nat :=
  (number.exponent - format.leastExponent).toNat * 2 ^ format.fractionBits + number.mantissa

theorem log2_ratio (same : num.IsSame exact) (isNonzero : exact.mantissa ≠ 0) :
    (num.ratio.1.log2 : Int) - num.ratio.2.log2 = exact.mantissa.log2 + exact.exponent := by
  have equal := inUnits_ratio same
  rw [inUnits_eq] at equal
  have divisor : num.ratio.2 = 2 ^ (-num.exponent).toNat := rfl
  have nonzero : num.ratio.1 ≠ 0 := by
    intro isZero
    rw [isZero, Nat.zero_mul] at equal
    have positive : 0 < num.ratio.2 * 2 ^ exact.exponent.toNat :=
      Nat.mul_pos (Nat.two_pow_pos _) (Nat.two_pow_pos _)
    exact Nat.mul_ne_zero isNonzero (Nat.ne_of_gt positive) equal.symm
  have sizes := congrArg Nat.log2 equal
  rw [divisor, ← Nat.pow_add, log2_mul_two_pow nonzero, log2_mul_two_pow isNonzero] at sizes
  rw [divisor, Nat.log2_two_pow]
  omega

theorem inUnits_ratio_div (same : num.IsSame exact) :
    (inUnits num.ratio.1 num.ratio.2 exact.exponent).1 /
        (inUnits num.ratio.1 num.ratio.2 exact.exponent).2 = exact.mantissa := by
  rw [inUnits_ratio same, Nat.mul_div_cancel _ (inUnits_ratio_pos num exact.exponent)]

theorem lastPlace_ratio (isCanonical : format.IsCanonical exact) (same : num.IsSame exact)
    (isNonzero : exact.mantissa ≠ 0) :
    format.lastPlace num.ratio.1 num.ratio.2 = exact.exponent := by
  have size := log2_ratio same isNonzero
  have narrow := (Nat.log2_lt isNonzero).mpr isCanonical.narrow
  have above := isCanonical.above
  have isPlace : format.place num.ratio.1 num.ratio.2 =
      max (exact.mantissa.log2 + exact.exponent - 1 - format.fractionBits)
        format.leastExponent := by
    unfold place
    rw [size]
  unfold lastPlace
  dsimp only
  rw [isPlace]
  by_cases isLeast : exact.exponent = format.leastExponent
  · -- the mantissa is divided at its own place and is narrow
    have atLeast : max (exact.mantissa.log2 + exact.exponent - 1 - format.fractionBits)
        format.leastExponent = exact.exponent := by omega
    rw [atLeast, inUnits_ratio_div same, if_neg (Nat.not_le.mpr isCanonical.narrow)]
  · -- the mantissa is divided one place below its own and is wide there
    have full := isCanonical.full.resolve_right isLeast
    have wide : exact.mantissa.log2 = format.fractionBits := by
      have := (Nat.le_log2 isNonzero).mpr full
      omega
    have below : max (exact.mantissa.log2 + exact.exponent - 1 - format.fractionBits)
        format.leastExponent = (exact.widened 1).exponent := by
      show _ = exact.exponent - 1
      omega
    have twice : 2 ^ (format.fractionBits + 1) ≤ (exact.widened 1).mantissa := by
      show _ ≤ exact.mantissa * 2 ^ 1
      rw [Nat.pow_succ]
      omega
    rw [below, inUnits_ratio_div (same.trans (exact.widened_isSame 1).symm), if_pos twice]
    show exact.exponent - 1 + 1 = exact.exponent
    omega

theorem round_ratio (isCanonical : format.IsCanonical exact) (same : num.IsSame exact)
    (finite : format.pattern exact ≤ format.infinity) :
    format.round num.ratio.1 num.ratio.2 = format.pattern exact := by
  by_cases isZero : exact.mantissa = 0
  · have zero : num.ratio.1 = 0 := by
      unfold Scaled.IsSame at same
      rw [isZero, Nat.zero_mul] at same
      have none := (Nat.mul_eq_zero.mp same).resolve_right (Nat.ne_of_gt (Nat.two_pow_pos _))
      exact Nat.mul_eq_zero.mpr (.inl none)
    have isLeast : exact.exponent = format.leastExponent := by
      refine isCanonical.full.resolve_left (Nat.not_le.mpr ?_)
      rw [isZero]
      exact Nat.two_pow_pos _
    have isNone : format.pattern exact = 0 := by
      unfold pattern
      rw [isZero, isLeast, Int.sub_self]
      exact Nat.zero_mul _
    rw [isNone, zero]
    rfl
  · have nonzero : num.ratio.1 ≠ 0 := by
      intro none
      have equal := inUnits_ratio_div same
      rw [inUnits_eq, none, Nat.zero_mul, Nat.zero_div] at equal
      exact isZero equal.symm
    rw [format.round_eq nonzero, format.lastPlace_ratio isCanonical same isZero,
      inUnits_ratio same, roundDiv_mul (inUnits_ratio_pos num exact.exponent)]
    exact Nat.min_eq_left finite

theorem ofScaled_eq (num : Scaled) :
    format.ofScaled num = format.withSign num.negative (format.round num.ratio.1 num.ratio.2) := by
  unfold ofScaled Scaled.ratio
  simp only [Nat.pow_eq]
  split
  · next _ => rw [show (-num.exponent).toNat = 0 by omega, Nat.pow_zero]
  · next _ => rw [show num.exponent.toNat = 0 by omega, Nat.pow_zero, Nat.mul_one]

theorem ofScaled_of_isSame (isCanonical : format.IsCanonical exact) (same : num.IsSame exact)
    (finite : format.pattern exact ≤ format.infinity) :
    format.ofScaled num = format.withSign num.negative (format.pattern exact) := by
  rw [ofScaled_eq, format.round_ratio isCanonical same finite]

theorem fractionField_eq (bits : Nat) :
    format.fractionField bits = format.unsigned bits % 2 ^ format.fractionBits := by
  have divides : 2 ^ format.fractionBits ∣ format.signBit := by
    unfold signBit
    exact Nat.pow_dvd_pow 2 (Nat.le_add_right _ _)
  unfold unsigned
  rw [Nat.mod_mod_of_dvd _ divides]
  rfl

theorem magnitude_eq (bits : Nat) :
    format.magnitude bits =
      { negative := format.isNegative bits
        mantissa :=
          if format.unsigned bits / 2 ^ format.fractionBits = 0 then
            format.unsigned bits % 2 ^ format.fractionBits
          else format.unsigned bits % 2 ^ format.fractionBits + 2 ^ format.fractionBits
        exponent :=
          format.leastExponent + (format.unsigned bits / 2 ^ format.fractionBits - 1 : Nat) } := by
  unfold magnitude
  simp only [fractionField_eq, exponentField, Nat.pow_eq]

theorem magnitude_isCanonical (bits : Nat) : format.IsCanonical (format.magnitude bits) := by
  have inside : format.unsigned bits % 2 ^ format.fractionBits < 2 ^ format.fractionBits :=
    Nat.mod_lt _ (Nat.two_pow_pos _)
  rw [magnitude_eq]
  refine ⟨?_, ?_, by dsimp only; omega⟩
  · dsimp only
    split
    · next none => right; omega
    · left; omega
  · dsimp only
    rw [Nat.pow_succ]
    split <;> omega

theorem pattern_magnitude (bits : Nat) :
    format.pattern (format.magnitude bits) = format.unsigned bits := by
  have parts := Nat.div_add_mod' (format.unsigned bits) (2 ^ format.fractionBits)
  rw [magnitude_eq]
  unfold pattern
  dsimp only
  split
  · next none =>
    rw [none] at parts ⊢
    rw [show (format.leastExponent + ((0 - 1 : Nat) : Int) - format.leastExponent).toNat = 0 by
      omega]
    exact parts
  · next some =>
    generalize format.unsigned bits / 2 ^ format.fractionBits = field at parts some ⊢
    obtain _ | less := field
    · omega
    rw [show (format.leastExponent + ((less + 1 - 1 : Nat) : Int) - format.leastExponent).toNat
      = less by omega]
    rw [Nat.succ_mul] at parts
    omega

variable {unsigned : Nat}

theorem unsigned_withSign (fits : unsigned < format.signBit) (negative : Bool) :
    format.unsigned (format.withSign negative unsigned) = unsigned := by
  unfold Format.unsigned withSign
  split
  · rw [Nat.add_mod_left, Nat.mod_eq_of_lt fits]
  · rw [Nat.mod_eq_of_lt fits]

theorem isNegative_withSign (fits : unsigned < format.signBit) (negative : Bool) :
    format.isNegative (format.withSign negative unsigned) = negative := by
  unfold isNegative withSign
  cases negative with
  | true => simp
  | false => simpa using fits

theorem withSign_unsigned (fits : bits < 2 * format.signBit) :
    format.withSign (format.isNegative bits) (format.unsigned bits) = bits := by
  unfold withSign isNegative unsigned
  simp only [decide_eq_true_eq]
  split
  · next negative =>
    rw [Nat.mod_eq_sub_mod negative, Nat.mod_eq_of_lt (by omega)]
    omega
  · next _ => exact Nat.mod_eq_of_lt (by omega)

theorem magnitude_withSign_pattern (isCanonical : format.IsCanonical num)
    (fits : format.pattern num < format.signBit) :
    format.magnitude (format.withSign num.negative (format.pattern num)) = num := by
  have narrow := isCanonical.narrow
  have above := isCanonical.above
  have width : 0 < 2 ^ format.fractionBits := Nat.two_pow_pos _
  have isPattern : format.pattern num =
      2 ^ format.fractionBits * (num.exponent - format.leastExponent).toNat + num.mantissa := by
    unfold pattern
    rw [Nat.mul_comm]
  rw [Nat.pow_succ] at narrow
  rw [magnitude_eq, format.unsigned_withSign fits, format.isNegative_withSign fits]
  by_cases isFull : 2 ^ format.fractionBits ≤ num.mantissa
  · have once : num.mantissa / 2 ^ format.fractionBits = 1 :=
      Nat.div_eq_of_lt_le (by omega) (by omega)
    have field : format.pattern num / 2 ^ format.fractionBits =
        (num.exponent - format.leastExponent).toNat + 1 := by
      rw [isPattern, Nat.mul_add_div width, once]
    have fraction : format.pattern num % 2 ^ format.fractionBits =
        num.mantissa - 2 ^ format.fractionBits := by
      rw [isPattern, Nat.mul_add_mod, Nat.mod_eq_sub_mod isFull, Nat.mod_eq_of_lt (by omega)]
    have whole : num.mantissa - 2 ^ format.fractionBits + 2 ^ format.fractionBits =
        num.mantissa := Nat.sub_add_cancel isFull
    have back : format.leastExponent + ((num.exponent - format.leastExponent).toNat : Int) =
        num.exponent := by omega
    simp only [field, fraction, Nat.add_one_ne_zero, ↓reduceIte, Nat.add_sub_cancel, whole, back]
  · have isLeast := isCanonical.full.resolve_left isFull
    have unscaled : format.pattern num = num.mantissa := by
      rw [isPattern, isLeast, Int.sub_self]
      exact Nat.zero_add _
    have field : num.mantissa / 2 ^ format.fractionBits = 0 := Nat.div_eq_of_lt (by omega)
    have fraction : num.mantissa % 2 ^ format.fractionBits = num.mantissa :=
      Nat.mod_eq_of_lt (by omega)
    simp only [unscaled, field, fraction, ↓reduceIte, ← isLeast]
    simp

theorem ofScaled_magnitude (fits : bits < 2 * format.signBit)
    (finite : format.unsigned bits ≤ format.infinity) :
    format.ofScaled (format.magnitude bits) = bits := by
  have isPattern := format.pattern_magnitude bits
  rw [format.ofScaled_of_isSame (format.magnitude_isCanonical bits) rfl (by omega), isPattern]
  exact format.withSign_unsigned fits

end Format

end HostScript.Binary
