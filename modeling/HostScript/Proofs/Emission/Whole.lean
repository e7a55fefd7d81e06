import HostScript.Proofs.Emission.Flow
import HostScript.Proofs.Emission.Region

namespace HostScript.Emission

open Typed (Expr Rules)
open List

/-!
# The code of a script flows

The code around the body of a script reads and writes the persistent variables.
-/

def scriptChecker (rules : Rules) (types : Universe) (state : Option Field)
    (typed : Typed.Script) : Checker where
  rules
  types
  variableCount := typed.locals.size
  scratch := typed.locals.size + state.toList.length

def KnowsStore (state : Option Field) (typed : Typed.Script) (expected : Expectation) : Prop :=
  ∀ field, state = some field → expected.slots typed.locals.size = some field.type

theorem labels_declareLocal (types : List Ty) :
    Directive.labels (types.map Directive.declareLocal) = 0 := by
  induction types with
  | nil => rfl
  | cons _ _ ih =>
    rw [map_cons, Directive.labels_cons, ih]
    rfl

namespace Flows

variable {chk : Checker} {given : Expectation → Prop} {frags : List Fragment}
  {start : Shape} {first second : Draft} (flows : Flows chk given frags start start first second)

include flows

theorem declareAll (types : List Ty) :
    Flows chk given frags start start first (second.wroteAll (types.map .declareLocal)) := by
  induction types generalizing second with
  | nil => exact flows
  | cons type _ ih =>
    exact ih (flows.pass (.declareLocal type start))

theorem forEach (persistent : List Variable)
    (uses : ∀ decl ∈ persistent, Uses chk second decl.slot decl.type)
    (step : ∀ decl {second}, Flows chk given frags start start first second →
      Uses chk second decl.slot decl.type →
      Flows chk given frags start start first (second.wroteAll (emit decl))) :
    Flows chk given frags start start first (second.wroteAll (persistent.flatMap emit)) := by
  induction persistent generalizing second with
  | nil => exact flows
  | cons decl _ ih =>
    rw [flatMap_cons, Draft.wroteAll_append]
    exact ih (step decl flows (uses decl mem_cons_self)) fun other mem =>
      (uses other (mem_cons_of_mem _ mem)).later (Draft.wroteAll_leads second _).directives

variable {held : Nat} {type : Ty}
  (holds : ∀ want, given want → want.slots held = some type)

include holds

theorem loadDirectives (decl : Variable) (uses : Uses chk second decl.slot decl.type) :
    Flows chk given frags start start first
      (second.wroteAll (Emission.loadDirectives held decl)) := by
  have loaded := ((flows.wrote fun want _ known =>
    .loadLocal start (holds want known)).pass (.constant _ (.literal (.string decl.name)))).pass
    (.stateGet decl.type type start)
  exact loaded.storeLocal (uses.later ⟨[_, _, _], rfl⟩)

theorem saveDirectives (decl : Variable) (uses : Uses chk second decl.slot decl.type) :
    Flows chk given frags start start first
      (second.wroteAll (Emission.saveDirectives held decl)) := by
  have loaded := ((flows.wrote fun want _ known =>
    .loadLocal start (holds want known)).pass
    (.constant _ (.literal (.string decl.name)))).loadLocal
    (uses.later ⟨[_, _], rfl⟩)
  unfold Emission.saveDirectives
  split
  · have itself : chk.types.isAssignable decl.type decl.type := by
      unfold Universe.isAssignable
      rw [beq_self_eq_true, Bool.true_or]
    exact (loaded.pass (.box _ itself)).pass (.stateSet decl.type type start)
  · exact loaded.pass (.stateSet decl.type type start)

end Flows

/-- The draft before the last instruction. -/
def closed (state : Option Field) (typed : Typed.Script) (body : Draft) : Draft :=
  match state with
  | none => body.wrote (.mark 0)
  | some _ => ((leaving typed body).wrote .endTry).wrote (.mark 0)

theorem closed_eq (state : Option Field) (typed : Typed.Script) (body : Draft) :
    body.wroteAll (closingDirectives state typed) =
      (closed state typed body).wrote (.plain Op.ret) := by
  cases state with
  | none => rfl
  | some field => exact closing_eq field typed body

section

variable {rules : Rules} {types : Universe} {state : Option Field} {typed : Typed.Script}

theorem opening_prepared :
    Prepared (scriptChecker rules types state typed) typed.locals (opening state typed) where
  size := rfl
  proper := by
    cases state with
    | none => exact opening_proper none typed
    | some _ =>
      rw [opening_eq]
      exact Draft.wrote_proper (Draft.wroteAll_proper (Draft.wroteAll_proper
        (declaring_proper typed) _) _) _
  declared := by
    intro _ _ known
    obtain ⟨_, shape⟩ := declared_opening state typed
    rw [← shape, getElem?_append_left]
    · rwa [Array.getElem?_toList]
    · rw [Array.length_toList]
      exact (Array.getElem?_eq_some_iff.mp known).1

theorem fetching_prepared :
    Prepared (scriptChecker rules types (some field) typed) typed.locals
      (fetching field typed) where
  size := rfl
  proper := Draft.wroteAll_proper (declaring_proper typed) _
  declared := by
    intro _ _ known
    refine Draft.declared_of_suffix (Draft.suffix_wroteAll (declaring typed) _) ?_
    rw [declared_declaring, getElem?_append_left]
    · rwa [Array.getElem?_toList]
    · rw [Array.length_toList]
      exact (Array.getElem?_eq_some_iff.mp known).1

theorem script_flows (proper : rules.Proper) (sound : typed.Sound rules types)
    (allowed : ∀ field, state = some field → rules.field field)
    (bodyCode : BodyCode { types, exit := 0 } (.block typed.body) (opening state typed) body) :
    Flows (scriptChecker rules types state typed) (KnowsStore state typed)
      (blockFragments typed.body) [] [] {} (closed state typed body) := by
  let chk := scriptChecker rules types state typed
  let declaredOnly : Draft := ({} : Draft).wroteAll (typed.locals.toList.map .declareLocal)
  have decl : Flows chk (KnowsStore state typed) [] [] [] {} declaredOnly :=
    (Flows.refl _ _ [] {}).declareAll _
  have numbered : declaredOnly.nextLabel = Directive.labels declaredOnly.directives :=
    (wroteAll_empty_proper (Nat.zero_le _)).labels
  have first : declaredOnly.nextLabel = 0 := by
    rw [nextLabel_wroteAll, labels_declareLocal]
  let inner : Expectation → Prop := fun want =>
    KnowsStore state typed want ∧ want.marks 0 = []
  have prepared : Prepared chk typed.locals (opening state typed) := opening_prepared
  have opened : Flows chk inner [] [] [] (declaredOnly.wrote .defineLabel)
      (opening state typed) := by
    have start := Flows.refl chk inner [] (declaredOnly.wrote .defineLabel)
    cases state with
    | none =>
      rw [opening, openingDirectives, Draft.wroteAll_append]
      exact start
    | some field =>
      have fetched : Flows chk inner [] [] [] (declaredOnly.wrote .defineLabel)
          (fetching field typed) := by
        rw [fetching, declaring, Draft.wroteAll_append]
        exact (((start.pass (.declareLocal .scriptState [])).pass (.loadHost [])).pass
          (.loadField .host [] (allowed field rfl))).wrote
          fun want _ known => .storeLocal [] (known.1 field rfl)
      rw [opening_eq, entering]
      exact (fetched.forEach typed.persistent
        (fun decl mem => fetching_prepared.uses (sound.persistent decl mem))
        fun decl _ flows => flows.loadDirectives (fun _ known => known.1 field rfl) decl).beginTry
  have ran := opened.trans (bodyCode.flows proper rfl prepared inner
    (fun want known => ⟨known.2, by rintro _ ⟨_, ⟨⟩, _⟩⟩) sound.body)
  have defined : ∀ {after : Draft},
      (declaredOnly.wrote .defineLabel).directives <:+ after.directives →
      0 < Directive.labels after.directives := by
    intro after suffix
    have bound := labels_le_of_suffix suffix
    simp only [Draft.wrote, Directive.labels_cons, Directive.labelCount] at bound
    omega
  have whole : Flows chk inner (blockFragments typed.body) [] []
      (declaredOnly.wrote .defineLabel) (closed state typed body) := by
    cases state with
    | none => exact ran.mark (defined ran.suffix) fun _ known => known.2
    | some field =>
      have within := prepared.grown (bodyCode.grows _)
      have saved := (ran.pass .beginFinally).forEach typed.persistent
        (fun decl mem => (within.wrote .beginFinally).uses (sound.persistent decl mem))
        fun decl _ flows => flows.saveDirectives (fun _ known => known.1 field rfl) decl
      have ended := saved.pass .endTry
      exact ended.mark (defined ended.suffix) fun _ known => known.2
  refine decl.trans (.label [] numbered ?_)
  rw [first]
  exact whole

end

end HostScript.Emission
