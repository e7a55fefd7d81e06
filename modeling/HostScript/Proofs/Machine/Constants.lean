import HostScript.Proofs.Machine.Instruction
import HostScript.Proofs.Number.Exact
import HostScript.Scope.Basic

namespace HostScript

/-!
# Constants

Equal constants share a place in the pool, so an instruction may push the value of an earlier
one.
-/

theorem Binary.Format.eq_or_isZero_of_equal {format : Format} (first : a < 2 * format.signBit)
    (second : b < 2 * format.signBit) (equal : format.equal a b = true) :
    a = b ∨ format.isZero a = true ∧ format.isZero b = true := by
  simp only [Format.equal, Bool.and_eq_true, beq_iff_eq, key] at equal
  have ofParts : format.isNegative a = format.isNegative b →
      format.unsigned a = format.unsigned b → a = b := by
    intro sign unsigned
    rw [← format.withSign_unsigned first, ← format.withSign_unsigned second, sign, unsigned]
  simp only [isZero, decide_eq_true_eq]
  cases signA : format.isNegative a <;> cases signB : format.isNegative b <;>
    simp only [signA, signB, Bool.false_eq_true, if_false, if_true] at equal
  · exact .inl (ofParts (signA.trans signB.symm) (by omega))
  · exact .inr (by omega)
  · exact .inr (by omega)
  · exact .inl (ofParts (signA.trans signB.symm) (by omega))

namespace Value

/-- The values are the two zeros of a floating point type, or the same zero. -/
def AreZeros (first second : Value) : Prop :=
  ∃ kind a b, first = .float kind a ∧ second = .float kind b ∧
    kind.format.isZero a.toNat = true ∧ kind.format.isZero b.toNat = true

theorem AreZeros.typeOf_eq {first : Value} (zeros : first.AreZeros second) :
    first.typeOf = second.typeOf := by
  obtain ⟨_, a, b, rfl, rfl, _⟩ := zeros
  rfl

/-- Constants that share a place are one value, or zeros. -/
theorem eq_or_areZeros_of_equals {first : Value} (same : first.equals second = true) :
    first = second ∨ first.AreZeros second := by
  have ofPatterns : ∀ (kind : FloatKind) (a b : BitVec kind.width),
      kind.format.equal a.toNat b.toNat = true →
      Value.float kind a = .float kind b ∨ (Value.float kind a).AreZeros (.float kind b) := by
    intro kind a b equal
    have fits : ∀ bits : BitVec kind.width, bits.toNat < 2 * kind.format.signBit := by
      cases kind <;> exact BitVec.isLt
    rcases Binary.Format.eq_or_isZero_of_equal (fits a) (fits b) equal with same | zeros
    · exact .inl (congrArg _ (BitVec.eq_of_toNat_eq same))
    · exact .inr ⟨kind, a, b, rfl, rfl, zeros⟩
  unfold equals at same
  split at same
  · exact ofPatterns .single _ _ same
  · exact ofPatterns .double _ _ same
  · cases same
  · exact .inl (eq_of_beq same)

end Value

open Assembly

/--
An instruction that is written for a constant pushes it, or a zero for a zero of the same type
when that was written for an earlier constant.
-/
theorem constant_pushed (host : Host H) (before after : List Directive) (constant : Value)
    (notNull : constant ≠ .null) (program : Program)
    (assembled : assemble (before ++ .constant constant :: after) = .ok program)
    (configuration : Configuration H)
    (isNext : configuration.frame.next = Directive.extent before) :
    ∃ pushed : Value,
      Machine.cycle host program {} configuration =
        .continues (configuration.moved (configuration.frame.next + 3)
          (pushed :: configuration.frame.stack) configuration.world) ∧
      pushed.typeOf = constant.typeOf ∧
      (pushed = constant ∨ constant.AreZeros pushed ∧ Directive.constant pushed ∈ before) := by
  obtain ⟨_, pushed, instruction, present, origin⟩ := assembled_constant notNull assembled
  have kept : pushed = constant ∨
      constant.AreZeros pushed ∧ Directive.constant pushed ∈ before := by
    rcases origin with same | ⟨earlier, same⟩
    · exact .inl same
    · rcases Value.eq_or_areZeros_of_equals same with equal | zeros
      · exact .inl equal.symm
      · exact .inr ⟨zeros, earlier⟩
  rw [← isNext] at instruction
  refine ⟨pushed, (Machine.yields_constant host instruction present).continues _ _ rfl, ?_, kept⟩
  rcases kept with rfl | ⟨zeros, _⟩
  · rfl
  · exact zeros.typeOf_eq.symm

/-- A program that pushes two constants. -/
def pushesTwo (first second : Value) : Program :=
  (assemble [.constant first, .constant second]).toOption.getD {}

/-- A panel before the first instruction of a program. -/
def atStart (program : Program) : Configuration Panel :=
  Machine.start program { host := Panel.start }

/-- A negative zero is pushed as it is where no other zero stands before it. -/
theorem negativeZero_pushed :
    ∃ pushed, Machine.cycle Panel.host (pushesTwo (.double 0x8000000000000000) (.double 0)) {}
        (atStart (pushesTwo (.double 0x8000000000000000) (.double 0))) =
          .continues pushed ∧ pushed.frame.stack = [.double 0x8000000000000000] := by
  obtain ⟨pushed, round, _, same | ⟨_, earlier⟩⟩ :=
    constant_pushed Panel.host [] [.constant (.double 0)] (.double 0x8000000000000000) nofun
      (pushesTwo (.double 0x8000000000000000) (.double 0)) (by decide +kernel)
      (atStart (pushesTwo (.double 0x8000000000000000) (.double 0))) rfl
  · exact ⟨_, round, congrArg (fun value => [value]) same⟩
  · exact nomatch earlier

/-- Behind a positive zero, a positive zero is pushed in its place. -/
theorem negativeZero_lost :
    let last := Machine.runFor Panel.host (pushesTwo (.single 0) (.single 0x80000000)) {} 2
      (atStart (pushesTwo (.single 0) (.single 0x80000000)))
    last.1.isNone = true ∧ last.2.frame.stack = [.single 0, .single 0] ∧
      Value.single 0 ≠ .single 0x80000000 := by
  decide +kernel

end HostScript
