import HostScript.Proofs.Emission.Heights
import HostScript.Proofs.Emission.Whole
import HostScript.Proofs.Simulation.Correctness

namespace HostScript

/-!
# Compiled code is verifiable

The heights of the stack in a compiled program are known before it runs: every
instruction has one, whichever way leads to it.
-/

namespace Emission

open Typed (Rules)
open Directive (Shaped heightAt extent)

/-- A part of a script has its code in a program: an expression adds its value to the stack, a
statement starts and ends with nothing there. -/
def Fragment.Spans (types : Universe) (directives : List Directive)
    (height : Nat → Nat) : Fragment → Prop
  | .expression value => ∃ first last : Draft, Code types (.one value) first last ∧
      first.directives.reverse <+: directives ∧ last.directives.reverse <+: directives ∧
      height (extent last.directives) = height (extent first.directives) + cells value.type
  | .statement act => ∃ (around : Surroundings) (first last : Draft), around.types = types ∧
      BodyCode around (.one act) first last ∧
      first.directives.reverse <+: directives ∧ last.directives.reverse <+: directives ∧
      height (extent first.directives) = 0 ∧ height (extent last.directives) = 0

section

variable {shapes : Nat → Shape}

theorem Fragment.Stands.spans (shaped : Shaped chk want draft.directives.reverse shapes)
    {fragment : Fragment}
    (stands : fragment.Stands chk.types (fun place => (shapes place).length) {} draft)
    (leads : draft.directives.reverse <+: ds) :
    fragment.Spans chk.types ds (heightAt draft.directives.reverse shapes) := by
  have heights : ∀ {inner : Draft}, inner.directives <:+ draft.directives →
      heightAt draft.directives.reverse shapes (extent inner.directives) =
        (shapes inner.directives.length).length := by
    intro inner suffix
    obtain ⟨_, split⟩ := List.reverse_prefix.mpr suffix
    have height := shaped.heightAt_extent split.symm
    rwa [Directive.extent_reverse, List.length_reverse] at height
  have written : ∀ {inner : Draft}, inner.directives <:+ draft.directives →
      inner.directives.reverse <+: ds :=
    fun suffix => (List.reverse_prefix.mpr suffix).trans leads
  cases fragment with
  | expression _ =>
    obtain ⟨first, last, code, between, adds⟩ := stands
    have firstSuffix := between.inner.trans between.ends
    refine ⟨first, last, code, written firstSuffix, written between.ends, ?_⟩
    rw [heights firstSuffix, heights between.ends]
    exact adds
  | statement _ =>
    obtain ⟨around, first, last, sameTypes, code, between, starts, ends⟩ := stands
    have firstSuffix := between.inner.trans between.ends
    refine ⟨around, first, last, sameTypes, code, written firstSuffix, written between.ends, ?_, ?_⟩
    · rw [heights firstSuffix]
      exact starts
    · rw [heights between.ends]
      exact ends

end

/-- The local variables as the code of a script knows them. -/
def slotTypes (state : Option Field) (typed : Typed.Script) (prog : Program) (slot : Nat) :
    Option Ty :=
  match state with
  | none => prog.locals[slot]?
  | some field => if slot = typed.locals.size then some field.type else prog.locals[slot]?

section

variable {types : Universe} {state : Option Field} {typed : Typed.Script} {body : Draft}
  {prog : Program}

theorem exists_shapes (proper : rules.Proper) (sound : typed.Sound rules types)
    (allowed : ∀ field, state = some field → rules.field field)
    (bodyCode : BodyCode { types, exit := 0 } (.block typed.body) (opening state typed) body)
    (asm : Assembly.assemble
      (body.wroteAll (closingDirectives state typed)).directives.reverse = .ok prog) :
    ∃ marks shapes, Shaped (scriptChecker rules types state typed)
        ⟨slotTypes state typed prog, marks⟩
        (closed state typed body).directives.reverse shapes ∧
      ∀ fragment ∈ blockFragments typed.body,
        fragment.Stands types (fun place => (shapes place).length) {}
          (closed state typed body) := by
  obtain ⟨shapes, marks, flow⟩ := script_flows proper sound allowed bodyCode
  have locals : prog.locals.toList = (closed state typed body).declared := by
    rw [Assembly.assemble_locals asm, closed_eq, Draft.declared]
    simp [Draft.wrote, Directive.declared?]
  refine ⟨marks, shapes, ⟨flow.starts, ?_, ?_⟩, flow.stands⟩
  · rw [List.length_reverse]
    exact flow.ends.length_eq
  · intro _ d _ split
    refine flow.steps ⟨slotTypes state typed prog, marks⟩ ?_ ?_ (fun _ _ _ => rfl) split
      (Nat.zero_le _)
    · intro slot _ decl own
      rw [← locals, Array.getElem?_toList] at decl
      cases state with
      | none => exact decl
      | some field =>
        have differs : slot ≠ typed.locals.size := by
          rcases own with isVariable | isScratch
          · exact Nat.ne_of_lt isVariable
          · exact Nat.ne_of_gt isScratch
        exact (if_neg differs).trans decl
    · rintro field rfl
      exact if_pos rfl

theorem slotTypes_inside
    (bodyCode : BodyCode { types, exit := 0 } (.block typed.body) (opening state typed) body)
    (asm : Assembly.assemble
      (body.wroteAll (closingDirectives state typed)).directives.reverse = .ok prog)
    (known : slotTypes state typed prog slot = some type) : slot < prog.locals.size := by
  cases state with
  | none => exact (Array.getElem?_eq_some_iff.mp known).1
  | some field =>
    unfold slotTypes at known
    dsimp only at known
    split at known
    · next _ =>
      have prepared : Prepared (scriptChecker Rules.valued types (some field) typed)
          typed.locals (opening (some field) typed) := opening_prepared
      have whole := Draft.wroteAll_proper (prepared.grown (bodyCode.grows _)).proper
        (closingDirectives (some field) typed)
      have counted : prog.locals.toList.length = _ :=
        congrArg List.length (Assembly.assemble_locals asm)
      have above : typed.locals.size + 1 ≤ _ := whole.above
      rw [whole.slots, Draft.declared, ← counted, Array.length_toList] at above
      omega
    · exact (Array.getElem?_eq_some_iff.mp known).1

end

end Emission

namespace Meter

/-- A script that keeps the level, and waits for it to rise unless it is to return. -/
def waiting : Tree.Block :=
  let kept : Text := [Text.byte 'k']
  let level : Tree.Expr := .reference 0 levelName
  let one : Tree.Expr := .literal 0 (.float 0x3f800000)
  .mk 0 [.persistent 0 ⟨floatName, 0⟩ ⟨kept, 0⟩, .whileLoop 0
        (.operator 0 .both (.operator 0 .less level one)
          (.operator 0 .greater level (.reference 0 kept)))
        (.mk 0 [.assignment 0 (.reference 0 kept)
              (.conditional 0 (.operator 0 .equal level one) level (.unary 0 .negate level)),
            .ifThen 0 (.operator 0 .equal level (.reference 0 kept)) (.mk 0 [.leave 0])]),
      .callStatement 0 (.call 0 ⟨alarmName, 0⟩ [])]

/-- A meter whose level holds nothing. -/
def emptied : Dialect where
  types := { declarations := [] }
  binding :=
    { symbols := [.field levelName { level with type := .void }, .method alarmName alarm] }
  expand _ _ := []

/-- The level is set to the result of a method that has none. -/
def levelled : Tree.Block :=
  .mk 0 [.assignment 0 (.reference 0 levelName) (.call 0 ⟨alarmName, 0⟩ [])]

theorem ok_of_toOption {result : Except ε α} (isOk : result.toOption = some value) :
    result = .ok value := by
  cases result with
  | error _ => cases isOk
  | ok _ =>
    cases isOk
    rfl

end Meter

end HostScript
