import HostScript.Proofs.Simulation.Correctness
import HostScript.Proofs.Value.Conversion

namespace HostScript.Binary

/-!
# Order and rounding

A pattern counts up with the number it stands for, so the nearest pattern of an integer never
comes before that of a smaller one.
-/

variable {m : Nat}

theorem roundDiv_bounds (numerator denom : Nat) :
    numerator / denom ≤ roundDiv numerator denom ∧
      roundDiv numerator denom ≤ numerator / denom + 1 := by
  unfold roundDiv
  dsimp only
  split <;> omega

theorem roundDiv_mono (le : m ≤ n) (denom : Nat) : roundDiv m denom ≤ roundDiv n denom := by
  rcases Nat.lt_or_eq_of_le (Nat.div_le_div_right (c := denom) le) with _ | same
  · have first := (roundDiv_bounds m denom).2
    have second := (roundDiv_bounds n denom).1
    omega
  · -- with one quotient the remainders are in order
    have remainders : m % denom ≤ n % denom := by
      have := Nat.div_add_mod m denom
      have := Nat.div_add_mod n denom
      rw [same] at *
      omega
    unfold roundDiv
    dsimp only
    rw [same]
    split <;> split <;> omega

namespace Format

variable (format : Format)

/-- The mantissa that an integer is rounded to. -/
def significand (whole : Nat) : Nat :=
  let units := inUnits whole 1 (whole.log2 - format.fractionBits)
  roundDiv units.1 units.2

theorem significand_eq (whole : Nat) :
    format.significand whole = roundDiv (whole * 2 ^ (format.fractionBits - whole.log2))
        (2 ^ (whole.log2 - format.fractionBits)) := by
  unfold significand
  rw [inUnits_eq, Nat.one_mul,
    show (-((whole.log2 : Int) - format.fractionBits)).toNat = format.fractionBits - whole.log2 by
      omega,
    show ((whole.log2 : Int) - format.fractionBits).toNat = whole.log2 - format.fractionBits by
      omega]

theorem significand_of_narrow (narrow : n.log2 ≤ format.fractionBits) :
    format.significand n = n * 2 ^ (format.fractionBits - n.log2) := by
  have exactly := roundDiv_mul Nat.one_pos (n * 2 ^ (format.fractionBits - n.log2))
  rw [significand_eq, Nat.sub_eq_zero_of_le narrow]
  rwa [Nat.mul_one] at exactly

theorem significand_bounds (isNonzero : n ≠ 0) :
    2 ^ format.fractionBits ≤ format.significand n ∧
      format.significand n ≤ 2 ^ (format.fractionBits + 1) := by
  have least := Nat.log2_self_le isNonzero
  have most : n < 2 ^ (n.log2 + 1) := Nat.lt_log2_self
  rcases Nat.le_total n.log2 format.fractionBits with narrow | wide
  · rw [format.significand_of_narrow narrow]
    have whole : n.log2 + (format.fractionBits - n.log2) = format.fractionBits := by omega
    have low := Nat.mul_le_mul_right (2 ^ (format.fractionBits - n.log2)) least
    have high := Nat.mul_le_mul_right (2 ^ (format.fractionBits - n.log2)) (Nat.le_of_lt most)
    rw [← Nat.pow_add, whole] at low
    rw [← Nat.pow_add, Nat.add_right_comm, whole] at high
    exact ⟨low, high⟩
  · have whole : format.fractionBits + (n.log2 - format.fractionBits) = n.log2 := by omega
    have positive : 0 < 2 ^ (n.log2 - format.fractionBits) := Nat.two_pow_pos _
    rw [format.significand_eq, Nat.sub_eq_zero_of_le wide, Nat.pow_zero, Nat.mul_one]
    obtain ⟨above, below⟩ := roundDiv_bounds n (2 ^ (n.log2 - format.fractionBits))
    have low : 2 ^ format.fractionBits ≤ n / 2 ^ (n.log2 - format.fractionBits) := by
      rw [Nat.le_div_iff_mul_le positive, ← Nat.pow_add, whole]
      exact least
    have high : n / 2 ^ (n.log2 - format.fractionBits) < 2 ^ (format.fractionBits + 1) := by
      rw [Nat.div_lt_iff_lt_mul positive, ← Nat.pow_add, Nat.add_right_comm, whole]
      exact most
    exact ⟨Nat.le_trans low above, Nat.le_trans below high⟩

theorem significand_lt (narrow : n.log2 ≤ format.fractionBits) :
    format.significand n < 2 ^ (format.fractionBits + 1) := by
  have most : n < 2 ^ (n.log2 + 1) := Nat.lt_log2_self
  have scaled := Nat.mul_lt_mul_of_pos_right most (Nat.two_pow_pos (format.fractionBits - n.log2))
  rwa [← Nat.pow_add, Nat.add_right_comm, Nat.add_sub_cancel' narrow,
    ← format.significand_of_narrow narrow] at scaled

/-- The pattern of an integer, before what is too large becomes infinite. -/
def wholePattern (whole : Nat) : Nat :=
  ((whole.log2 : Int) - format.fractionBits - format.leastExponent).toNat *
      2 ^ format.fractionBits + format.significand whole

theorem key_ofInt (num : Int) :
    format.key (format.ofInt num) =
      if num < 0 then -(format.round num.natAbs 1 : Int) else format.round num.natAbs 1 := by
  have fits : format.round num.natAbs 1 < format.signBit :=
    Nat.lt_of_le_of_lt (format.round_le_infinity _ _) format.infinity_lt_signBit
  unfold key ofInt
  rw [format.isNegative_withSign fits, format.unsigned_withSign fits]
  simp only [decide_eq_true_eq]

variable {format} (deep : format.leastExponent + format.fractionBits < 0)

include deep

theorem lastPlace_whole (isNonzero : n ≠ 0) :
    format.lastPlace n 1 = n.log2 - format.fractionBits := by
  have one : Nat.log2 1 = 0 := by decide
  have isPlace : format.place n 1 = (n.log2 : Int) - 1 - format.fractionBits := by
    unfold place
    omega
  -- one place below the last the quotient is still too wide for a mantissa
  have wide : 2 ^ (format.fractionBits + 1) ≤
      (inUnits n 1 (format.place n 1)).1 / (inUnits n 1 (format.place n 1)).2 := by
    rw [inUnits_eq, isPlace, Nat.one_mul, Nat.le_div_iff_mul_le (Nat.two_pow_pos _), ← Nat.pow_add,
      show format.fractionBits + 1 + ((n.log2 : Int) - 1 - format.fractionBits).toNat =
        n.log2 + (-((n.log2 : Int) - 1 - format.fractionBits)).toNat by omega, Nat.pow_add]
    exact Nat.mul_le_mul_right _ (Nat.log2_self_le isNonzero)
  unfold lastPlace
  dsimp only
  rw [if_pos wide, isPlace]
  omega

theorem round_whole (isNonzero : n ≠ 0) :
    format.round n 1 = min (format.wholePattern n) format.infinity := by
  rw [format.round_eq isNonzero, lastPlace_whole deep isNonzero]
  rfl

theorem wholePattern_of_log2_lt (isNonzero : n ≠ 0) (less : m.log2 < n.log2) :
    ((m.log2 : Int) - format.fractionBits - format.leastExponent).toNat * 2 ^ format.fractionBits +
      2 ^ (format.fractionBits + 1) ≤ format.wholePattern n := by
  have low := (format.significand_bounds isNonzero).1
  have fields : ((m.log2 : Int) - format.fractionBits - format.leastExponent).toNat + 1 ≤
      ((n.log2 : Int) - format.fractionBits - format.leastExponent).toNat := by omega
  have scaled := Nat.mul_le_mul_right (2 ^ format.fractionBits) fields
  unfold wholePattern
  rw [Nat.succ_mul] at scaled
  rw [Nat.pow_succ]
  omega

theorem wholePattern_mono (isNonzero : m ≠ 0) (le : m ≤ n) :
    format.wholePattern m ≤ format.wholePattern n := by
  have positive : n ≠ 0 := by omega
  have sizes : m.log2 ≤ n.log2 :=
    (Nat.le_log2 positive).mpr (Nat.le_trans (Nat.log2_self_le isNonzero) le)
  rcases Nat.lt_or_eq_of_le sizes with less | same
  · have high := (format.significand_bounds isNonzero).2
    exact Nat.le_trans (Nat.add_le_add_left high _) (wholePattern_of_log2_lt deep positive less)
  · unfold wholePattern
    rw [significand_eq, significand_eq, same]
    exact Nat.add_le_add_left (roundDiv_mono (Nat.mul_le_mul_right _ le) _) _

theorem wholePattern_strict (isNonzero : m ≠ 0) (lt : m < n)
    (narrow : n ≤ 2 ^ (format.fractionBits + 1)) :
    format.wholePattern m < format.wholePattern n := by
  have positive : n ≠ 0 := by omega
  have fits : m.log2 ≤ format.fractionBits :=
    Nat.le_of_lt_succ ((Nat.log2_lt isNonzero).mpr (Nat.lt_of_lt_of_le lt narrow))
  have sizes : m.log2 ≤ n.log2 :=
    (Nat.le_log2 positive).mpr (Nat.le_trans (Nat.log2_self_le isNonzero) (Nat.le_of_lt lt))
  rcases Nat.lt_or_eq_of_le sizes with less | same
  · exact Nat.lt_of_lt_of_le (Nat.add_lt_add_left (format.significand_lt fits) _)
      (wholePattern_of_log2_lt deep positive less)
  · unfold wholePattern
    rw [format.significand_of_narrow fits, format.significand_of_narrow (same ▸ fits), same]
    exact Nat.add_lt_add_left (Nat.mul_lt_mul_of_pos_right lt (Nat.two_pow_pos _)) _

theorem round_mono (le : m ≤ n) : format.round m 1 ≤ format.round n 1 := by
  by_cases isZero : m = 0
  · rw [isZero]
    exact Nat.zero_le _
  · rw [round_whole deep isZero, round_whole deep (by omega)]
    have patterns := wholePattern_mono deep isZero le
    omega

theorem key_ofInt_mono (le : a ≤ b) :
    format.key (format.ofInt a) ≤ format.key (format.ofInt b) := by
  rw [key_ofInt, key_ofInt]
  split <;> split
  · have := round_mono deep (show b.natAbs ≤ a.natAbs by omega)
    omega
  · omega
  · omega
  · have := round_mono deep (show a.natAbs ≤ b.natAbs by omega)
    omega

variable (high : (-format.leastExponent).toNat * 2 ^ format.fractionBits +
  2 ^ (format.fractionBits + 1) ≤ format.infinity)

include high

theorem round_strict (lt : m < n) (narrow : n ≤ 2 ^ (format.fractionBits + 1)) :
    format.round m 1 < format.round n 1 := by
  have room : 0 < 2 ^ (format.fractionBits + 1) := Nat.two_pow_pos _
  by_cases isZero : m = 0
  · have finite : format.infinity ≠ 0 := by omega
    rw [isZero]
    exact Nat.pos_of_ne_zero (format.round_ne_zero (by omega) (by omega) finite)
  · have fits : m.log2 ≤ format.fractionBits :=
      Nat.le_of_lt_succ ((Nat.log2_lt isZero).mpr (Nat.lt_of_lt_of_le lt narrow))
    have below : format.wholePattern m < format.infinity := by
      have field : ((m.log2 : Int) - format.fractionBits - format.leastExponent).toNat ≤
          (-format.leastExponent).toNat := by omega
      have scaled := Nat.mul_le_mul_right (2 ^ format.fractionBits) field
      have limit := format.significand_lt fits
      unfold wholePattern
      omega
    rw [round_whole deep isZero, round_whole deep (by omega)]
    have patterns := wholePattern_strict deep isZero lt narrow
    omega

theorem key_ofInt_strict (lt : a < b) (first : a.natAbs ≤ 2 ^ (format.fractionBits + 1))
    (second : b.natAbs ≤ 2 ^ (format.fractionBits + 1)) :
    format.key (format.ofInt a) < format.key (format.ofInt b) := by
  rw [key_ofInt, key_ofInt]
  split <;> split
  · have := round_strict deep high (show b.natAbs < a.natAbs by omega) first
    omega
  · have := round_strict deep high (show 0 < a.natAbs by omega) first
    omega
  · omega
  · have := round_strict deep high (show a.natAbs < b.natAbs by omega) second
    omega

end Format

end HostScript.Binary

namespace HostScript

/-!
# Comparison

Equality compares numbers, order is a three-way comparison, and two of the six operators are
emitted as the opposite of others.
-/

open Binary (double)
open Directive (extent)

namespace Value

/-- Whether a value is the floating point pattern of no number. -/
def isNaN : Value → Bool
  | .float kind bits => kind.format.isNaN bits.toNat
  | _ => false

theorem order_float {fmt : Binary.Format} (numbers : ¬(fmt.isNaN a = true ∧ fmt.isNaN b = true)) :
    fmt.equal a b = (fmt.order a b == .eq) := by
  unfold Binary.Format.equal Binary.Format.order
  cases first : fmt.isNaN a <;> cases second : fmt.isNaN b
  · simp only [Bool.not_false, Bool.true_and]
    rw [Bool.eq_iff_iff, beq_iff_eq, beq_iff_eq]
    exact Std.LawfulEqOrd.compare_eq_iff_eq.symm
  · rfl
  · rfl
  · exact absurd ⟨first, second⟩ numbers

variable {left right : Value}

/-- Primitive values of one type are in order, and equal as the order says. -/
theorem order_of_scalar (leftScalar : left.scalar?.isSome) (rightScalar : right.scalar?.isSome)
    (same : left.typeOf = right.typeOf) :
    ∃ order, left.order right = .ok order ∧
      (¬(left.isNaN = true ∧ right.isNaN = true) → left.equals right = (order == .eq)) := by
  cases left <;> cases leftScalar <;> cases right <;> cases rightScalar <;> cases same
  case bool a b => cases a <;> cases b <;> exact ⟨_, rfl, fun _ => rfl⟩
  case int kind a b =>
    refine ⟨_, if_pos rfl, fun _ => ?_⟩
    rw [Bool.eq_iff_iff, beq_iff_eq, Std.LawfulEqOrd.compare_eq_iff_eq]
    constructor
    · intro same
      cases eq_of_beq (show (.int kind a == Value.int kind b) = true from same)
      rfl
    · intro same
      rw [← ofInt_integerValue kind a, same, ofInt_integerValue]
      exact beq_self_eq_true (Value.int kind b)
  case float kind a b =>
    refine ⟨_, if_pos rfl, fun numbers => ?_⟩
    cases kind <;> exact order_float numbers

end Value

namespace Emission

open Machine Simulation

/--
The code of an operator leaves a truth value in place of its operands, wherever the code stands
in a program and whatever lies below the operands.
-/
def Decides (op : Operator) (left right : Value) (truth : Bool) : Prop :=
  ∀ (off : Nat) (draft : Draft), ∃ after, operatorCode off op draft = .ok ((), after) ∧
    ∀ {H : Type} (host : Host H) (prog : Program) (cfg : Configuration H) (rest : List Value),
      after.Emitted prog → cfg.frame.next = extent draft.directives →
      cfg.frame.stack = right :: left :: rest →
      ∃ rounds last, Runs host prog rounds cfg [] last ∧
        last.frame.next = extent after.directives ∧ last.frame.stack = .bool truth :: rest ∧
        last.frame.locals = cfg.frame.locals ∧ last.world = cfg.world

variable {op : Operator} {left right : Value} {truth : Bool}

theorem runs_binary (host : Host H) {prog : Program} {cfg : Configuration H} {operation : Op}
    (known : operation.binary? = some compute)
    (code : prog.code[cfg.frame.next]? = some operation.code)
    (stack : cfg.frame.stack = right :: left :: rest) (computed : compute left right = .ok res) :
    Runs host prog 1 cfg [] (cfg.moved (cfg.frame.next + 1) (res :: rest) cfg.world) := by
  have yields := yields_binary host known code stack
  have worked : (do return [← Act.lift .arithmetic (compute left right)] : Act H (List Value))
      cfg.world = (.ok [res], cfg.world) := by
    rw [computed]
    rfl
  exact yields.observed ▸ Runs.single (yields.continues _ _ worked)

theorem runs_complement (host : Host H) {prog cfg}
    (code : prog.code[cfg.frame.next]? = some Op.complement.code)
    (stack : cfg.frame.stack = .bool truth :: rest) : Runs host prog 1 cfg []
      (cfg.moved (cfg.frame.next + 1) (.bool (!truth) :: rest) cfg.world) := by
  have yields := yields_complement host code stack
  exact yields.observed ▸ Runs.single (yields.continues _ _ rfl)

/-- The code of an operator decides what the operator computes. -/
theorem decides_of_compute (isBinary : operatorDirectives? op = some ds)
    (known : op.compute? = some result) (computed : result left right = .ok (.bool truth)) :
    Decides op left right truth := by
  intro off draft
  refine ⟨draft.wroteAll ds, by cases op <;> cases isBinary <;> rfl, ?_⟩
  intro H host _ cfg rest emitted next stack
  obtain ⟨operation, compute, isKnown, ⟨rfl, same⟩ | ⟨rfl, same, decides⟩⟩ :=
    operatorDirectives_cases isBinary
  · cases known.symm.trans same
    refine ⟨1, _, runs_binary host isKnown (next ▸ emitted.plain) stack computed, ?_, rfl, rfl, rfl⟩
    exact congrArg (· + 1) next |>.trans (Nat.add_comm _ 1)
  · -- the comparison that the operator is the opposite of comes first
    cases known.symm.trans same
    obtain ⟨first, isFirst, rfl⟩ :
        ∃ first, compute left right = .ok (.bool first) ∧ truth = !first := by
      have turned : opposite (compute left right) = .ok (.bool truth) := computed
      cases held : compute left right with
      | error _ =>
        rw [held] at turned
        cases turned
      | ok _ =>
        obtain ⟨first, rfl⟩ := decides _ _ _ held
        rw [held] at turned
        cases turned
        exact ⟨first, rfl, rfl⟩
    have ran := runs_binary host isKnown
      (next ▸ (emitted.earlier (List.suffix_cons _ _)).plain) stack isFirst
    have stands : (cfg.moved (cfg.frame.next + 1) (.bool first :: rest) cfg.world).frame.next =
        extent (draft.wrote (.plain operation)).directives :=
      (congrArg (· + 1) next).trans (Nat.add_comm _ 1)
    have turned := runs_complement host (stands ▸ emitted.plain) rfl
    refine ⟨2, _, ran.trans turned, ?_, rfl, rfl, rfl⟩
    exact (congrArg (· + 1) stands).trans (Nat.add_comm _ 1)

end Emission

open Emission

/-- The operators that compare two values. -/
def Operator.comparisons : List Operator :=
  [.less, .lessEqual, .equal, .notEqual, .greaterEqual, .greater]

/-- On values of one primitive type, not both no numbers, the comparisons are one linear order. -/
theorem comparisons_coherent {left right : Value} (leftScalar : left.scalar?.isSome)
    (rightScalar : right.scalar?.isSome) (same : left.typeOf = right.typeOf) :
    ∃ truth : Operator → Bool,
      (∀ op ∈ Operator.comparisons, Decides op left right (truth op)) ∧
      truth .notEqual = !truth .equal ∧
      (¬(left.isNaN = true ∧ right.isNaN = true) →
        [truth .less, truth .equal, truth .greater].count true = 1 ∧
        truth .lessEqual = (truth .less || truth .equal) ∧
        truth .greaterEqual = (truth .greater || truth .equal)) := by
  obtain ⟨order, ordered, equal⟩ := Value.order_of_scalar leftScalar rightScalar same
  refine ⟨fun
    | .less => order == .lt
    | .lessEqual => !(order == .gt)
    | .equal => left.equals right
    | .notEqual => !left.equals right
    | .greaterEqual => !(order == .lt)
    | _ => order == .gt, ?_, rfl, fun numbers => ?_⟩
  · simp only [Operator.comparisons, List.forall_mem_cons, List.not_mem_nil, false_implies,
      implies_true, and_true]
    refine ⟨?_, ?_, ?_, ?_, ?_, ?_⟩ <;>
      exact decides_of_compute rfl rfl (by first | rfl | (rw [ordered]; rfl))
  · simp only [equal numbers]
    cases order <;> decide

/-- The two zeros are in order, and so are the comparisons of them. -/
theorem zeros_coherent :
    (Value.single 0x80000000).typeOf = (Value.single 0).typeOf ∧
      ∃ truth : Operator → Bool,
        (∀ op ∈ Operator.comparisons,
          Decides op (.single 0x80000000) (.single 0) (truth op)) ∧
        [truth .less, truth .equal, truth .greater].count true = 1 := by
  obtain ⟨truth, decides, _, coherent⟩ :=
    @comparisons_coherent (.single 0x80000000) (.single 0) rfl rfl rfl
  exact ⟨rfl, truth, decides, (coherent (by decide)).1⟩

/-- What is no number is neither before, nor behind, nor equal to itself. -/
theorem noNumber_incoherent :
    (∀ op ∈ [Operator.less, .equal, .greater],
      Decides op (.single 0x7fc00000) (.single 0x7fc00000) false) ∧
      Decides .lessEqual (.single 0x7fc00000) (.single 0x7fc00000) true := by
  refine ⟨?_, decides_of_compute rfl rfl rfl⟩
  simp only [List.forall_mem_cons, List.not_mem_nil, false_implies, implies_true, and_true]
  exact ⟨decides_of_compute rfl rfl rfl, decides_of_compute rfl rfl rfl,
    decides_of_compute rfl rfl rfl⟩

namespace Intrinsic

open Value (integerValue)

theorem toDouble_int (kind : IntKind) (bits : BitVec kind.width) :
    (Value.int kind bits).toDouble = .ok (double.ofInt (integerValue kind bits)) := by
  have fits : double.ofInt (integerValue kind bits) < 2 ^ 64 := double.ofInt_lt _
  exact congrArg Except.ok ((BitVec.toNat_ofNat _ 64).trans (Nat.mod_eq_of_lt fits))

theorem double_isNaN_ofInt (num : Int) : double.isNaN (double.ofInt num) = false :=
  decide_eq_false (Nat.not_lt.mpr (double.unsigned_ofInt num (by decide) (by decide)).1)

theorem orderOf_int (kind : IntKind) (a b : BitVec kind.width) (world : World H) :
    orderOf (.int kind a) (.int kind b) world =
      (.ok (Value.int32 (orderNumber (compare (double.key (double.ofInt (integerValue kind a)))
        (double.key (double.ofInt (integerValue kind b)))))), world) := by
  have numbers := double_isNaN_ofInt
  simp only [orderOf, toDouble_int, Act.lift, Act.during, bind_apply, pure_apply,
    Binary.Format.less, numbers, Bool.not_false, Bool.true_and, decide_eq_true_eq]
  rcases lt_trichotomy (double.key (double.ofInt (integerValue kind a)))
    (double.key (double.ofInt (integerValue kind b))) with less | same | more
  · rw [if_pos less, compare_lt_iff_lt.mpr less]
    rfl
  · rw [if_neg (by omega), if_neg (by omega), compare_eq_iff_eq.mpr same]
    rfl
  · rw [if_neg (by omega), if_pos more, compare_gt_iff_gt.mpr more]
    rfl

theorem integerValue_natAbs_le {kind} (narrow : kind.width ≤ 32)
    (bits : BitVec kind.width) : (integerValue kind bits).natAbs ≤ 2 ^ 53 := by
  have size : 2 ^ kind.width ≤ 2 ^ 32 := Nat.pow_le_pow_right (by decide) narrow
  have intSize : (2 : Int) ^ kind.width ≤ 2 ^ 32 := by exact_mod_cast size
  have inside := bits.isLt
  have below := bits.two_mul_toInt_lt
  have above := bits.le_two_mul_toInt
  unfold integerValue
  split <;> omega

theorem double_deep : double.leastExponent + double.fractionBits < 0 := by decide

variable {a b : Int}

/-- The nearest doubles of two integers are in their order, or they are equal. -/
theorem compare_nearest (a b : Int) :
    compare (double.key (double.ofInt a)) (double.key (double.ofInt b)) = compare a b ∨
      compare (double.key (double.ofInt a)) (double.key (double.ofInt b)) = .eq ∧
        double.equal (double.ofInt a) (double.ofInt b) = true := by
  by_cases same : double.key (double.ofInt a) = double.key (double.ofInt b)
  · refine .inr ⟨compare_eq_iff_eq.mpr same, ?_⟩
    simp only [Binary.Format.equal, double_isNaN_ofInt, same, Bool.not_false, Bool.true_and,
      beq_self_eq_true]
  · left
    rcases lt_trichotomy a b with less | rfl | more
    · have ordered := Binary.Format.key_ofInt_mono double_deep (Int.le_of_lt less)
      rw [compare_lt_iff_lt.mpr less, compare_lt_iff_lt]
      omega
    · exact absurd rfl same
    · have ordered := Binary.Format.key_ofInt_mono double_deep (Int.le_of_lt more)
      rw [compare_gt_iff_gt.mpr more, compare_gt_iff_gt]
      omega

theorem compare_exact (first : a.natAbs ≤ 2 ^ 53) (second : b.natAbs ≤ 2 ^ 53) :
    compare (double.key (double.ofInt a)) (double.key (double.ofInt b)) = compare a b := by
  have high : (-double.leastExponent).toNat * 2 ^ double.fractionBits +
    2 ^ (double.fractionBits + 1) ≤ double.infinity := by decide
  rcases lt_trichotomy a b with less | rfl | more
  · rw [compare_lt_iff_lt.mpr less, compare_lt_iff_lt]
    exact Binary.Format.key_ofInt_strict double_deep high less first second
  · rw [compare_eq_iff_eq.mpr rfl, compare_eq_iff_eq.mpr rfl]
  · rw [compare_gt_iff_gt.mpr more, compare_gt_iff_gt]
    exact Binary.Format.key_ofInt_strict double_deep high more second first

/--
`CompareTo` of two integers answers as their order, or says that they are equal where their
nearest doubles are; up to `2 ^ 53` the answer is that of the order.
-/
theorem compareTo_order (host : Host H) (world : World H) (kind : IntKind)
    (a b : BitVec kind.width) :
    ∃ told actual : Ordering,
      run host .compareTo (.int kind a) [.int kind b] world =
        (.ok (Value.int32 (orderNumber told)), world) ∧
      (Value.int kind a).order (.int kind b) = .ok actual ∧
      (told = actual ∨ told = .eq ∧ double.equal (double.ofInt (integerValue kind a))
        (double.ofInt (integerValue kind b)) = true) ∧
      (kind.width ≤ 32 ∨ (integerValue kind a).natAbs ≤ 2 ^ 53 ∧
        (integerValue kind b).natAbs ≤ 2 ^ 53 → told = actual) := by
  refine ⟨_, _, orderOf_int kind a b world, if_pos rfl, compare_nearest _ _, ?_⟩
  rintro (narrow | ⟨first, second⟩)
  · exact compare_exact (integerValue_natAbs_le narrow a) (integerValue_natAbs_le narrow b)
  · exact compare_exact first second

/-- The first integer that has no double of its own counts as equal to the one before it. -/
theorem compareTo_blurs :
    run Meter.host .compareTo (.int .int64 9007199254740993) [.int .int64 9007199254740992]
        { host := 0 } = (.ok (Value.int32 0), { host := 0 }) ∧
      (Value.int .int64 9007199254740993).order (.int .int64 9007199254740992) = .ok .gt := by
  exact ⟨(orderOf_int .int64 _ _ _).trans rfl, rfl⟩

theorem compareTo_order_bytes :
    IntKind.int8.width ≤ 32 ∧ ∃ told actual : Ordering,
      run Meter.host .compareTo (.int .int8 (-1)) [.int .int8 1] { host := 0 } =
        (.ok (Value.int32 (orderNumber told)), { host := 0 }) ∧
      (Value.int .int8 (-1)).order (.int .int8 1) = .ok actual ∧ told = actual := by
  obtain ⟨told, actual, ran, ordered, _, agrees⟩ :=
    compareTo_order Meter.host { host := 0 } .int8 (-1) 1
  exact ⟨by decide, told, actual, ran, ordered, agrees (.inl (by decide))⟩

end Intrinsic

end HostScript
