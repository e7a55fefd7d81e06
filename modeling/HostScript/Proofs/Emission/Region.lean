import HostScript.Proofs.Assembly.Parts
import HostScript.Proofs.Emission.Control
import HostScript.Proofs.Emission.Drafts

namespace HostScript.Emission

open Directive (extent isBorder labels labels_reverse parts parts_append parts_concat)
open Draft (declared directives_wroteAll wrote)
open List

/-!
# The protected region of a script

A script with a store has one protected region: its body.
-/

/-- The draft before the store is asked for. -/
def declaring (typed : Typed.Script) : Draft :=
  ({} : Draft).wroteAll
    (typed.locals.toList.map .declareLocal ++ [.defineLabel, .declareLocal .scriptState])

variable (field : Field) (typed : Typed.Script)

theorem declared_declaring :
    (declaring typed).declared = typed.locals.toList ++ [.scriptState] := by
  have last : [Directive.defineLabel, .declareLocal .scriptState].filterMap
      Directive.declared? = [.scriptState] := rfl
  simp only [declaring, declared, directives_wroteAll, reverse_append,
    reverse_reverse, filterMap_append, filterMap_declareLocal, last]
  rfl

theorem declaring_proper : (declaring typed).Proper (typed.locals.size + 1) := by
  refine wroteAll_empty_proper ?_
  rw [filterMap_append, filterMap_declareLocal, length_append, Array.length_toList]
  exact Nat.le_refl _

theorem declared_opening (state : Option Field) (typed : Typed.Script) :
    typed.locals.toList <+: (opening state typed).declared := by
  unfold opening openingDirectives declared
  simp only [directives_wroteAll, reverse_append, reverse_reverse,
    filterMap_append, filterMap_declareLocal]
  exact prefix_append _ _

/-- The draft before the persistent variables are read. -/
def fetching (field : Field) (typed : Typed.Script) : Draft :=
  (declaring typed).wroteAll
    [.plain Op.loadHost, .field Op.loadField field, .slot Op.storeLocal typed.locals.size]

/-- The draft before the protected region. -/
def entering (field : Field) (typed : Typed.Script) : Draft :=
  (fetching field typed).wroteAll (typed.persistent.flatMap (loadDirectives typed.locals.size))

/-- The draft before the end of the handler. -/
def leaving (typed : Typed.Script) (body : Draft) : Draft :=
  (body.wrote .beginFinally).wroteAll (typed.persistent.flatMap (saveDirectives typed.locals.size))

theorem extent_declareLocal (types : List Ty) : extent (types.map Directive.declareLocal) = 0 := by
  induction types with
  | nil => rfl
  | cons _ _ ih =>
    rw [map_cons, Directive.extent_cons, ih]
    rfl

theorem extent_opening : extent (opening none typed).directives = 0 := by
  rw [opening, directives_wroteAll]
  simp [openingDirectives, extent_declareLocal]

theorem extent_declaring : extent (declaring typed).directives = 0 := by
  rw [declaring, directives_wroteAll]
  simp [extent_declareLocal]

theorem opening_eq : opening (some field) typed = (entering field typed).wrote .beginTry := by
  unfold opening openingDirectives entering fetching declaring
  simp only [Draft.wroteAll_append, Draft.wroteAll_cons, Draft.wroteAll_nil]

theorem closing_eq (body : Draft) :
    body.wroteAll (closingDirectives (some field) typed) =
      (((leaving typed body).wrote .endTry).wrote (.mark 0)).wrote (.plain Op.ret) := by
  unfold closingDirectives leaving
  simp only [Draft.wroteAll_append, Draft.wroteAll_cons, Draft.wroteAll_nil]

theorem entering_isBorder :
    ∀ d ∈ (entering field typed).directives, d.isBorder = false := by
  unfold entering fetching declaring
  intro d mem
  simp only [directives_wroteAll, mem_append, mem_reverse, mem_map,
    mem_flatMap, loadDirectives, mem_cons, not_mem_nil, or_false] at mem
  grind [isBorder]

theorem saving_isBorder (held : Nat) (persistent : List Variable) :
    ∀ d ∈ persistent.flatMap (saveDirectives held), d.isBorder = false := by
  intro d mem
  obtain ⟨_, _, inside⟩ := mem_flatMap.mp mem
  unfold saveDirectives at inside
  grind [isBorder]

theorem region_assembled {field typed}
    (bodyCode : BodyCode { types, exit := 0 } (.block typed.body) (opening (some field) typed) body)
    (asm : Assembly.assemble
      (body.wroteAll (closingDirectives (some field) typed)).directives.reverse = .ok prog) :
    prog.HasInstruction (extent (entering field typed).directives) Op.tryRegion
        (extent (body.wrote .beginFinally).directives) ∧
      prog.HasInstruction (extent body.directives) Op.leave
        (extent ((leaving typed body).wrote .endTry).directives) ∧
      prog.code[extent (leaving typed body).directives]? = some Op.endFinally.code := by
  obtain ⟨new, shape, stays⟩ := bodyCode.encloses (fun _ => True) fun _ _ => trivial
  have bodyIsBorder : ∀ d ∈ new.reverse, d.isBorder = false := by
    intro d mem
    exact (stays (fun _ => True) (fun _ _ => trivial) (fun _ _ => trivial) d
      (mem_reverse.mp mem)).isBorder
  rw [opening_eq] at shape
  rw [closing_eq] at asm
  -- The parts that are open before each border.
  have outside : parts (entering field typed).directives.reverse = [] :=
    parts_append [] fun d mem =>
      entering_isBorder field typed d (mem_reverse.mp mem)
  have opened : ∃ start, parts body.directives.reverse =
      [{ label := labels (entering field typed).directives, start,
         isHandler := false }] := by
    rw [shape]
    simp only [wrote, reverse_append, reverse_cons]
    rw [parts_append _ bodyIsBorder, parts_concat, outside, labels_reverse]
    exact ⟨_, rfl⟩
  obtain ⟨start, opened⟩ := opened
  have entered : parts (leaving typed body).directives.reverse =
      [{ label := labels (entering field typed).directives, start,
         isHandler := true }] := by
    simp only [leaving, directives_wroteAll, wrote, reverse_append, reverse_reverse, reverse_cons]
    rw [parts_append _ (saving_isBorder _ _), parts_concat, opened]
    rfl
  obtain ⟨_, handlerMarked, starts⟩ := @Assembly.beginTry_assembled _ _ _ asm
    (entering field typed).directives.reverse (by
      simp [leaving, wrote, directives_wroteAll, shape]
      rfl)
  obtain ⟨_, _, exit, part, _, handlerPlaced, exitMarked, leaves⟩ :=
    @Assembly.beginFinally_assembled _ _ _ asm body.directives.reverse
      (by simp [leaving, wrote, directives_wroteAll]; rfl)
  rw [opened] at part
  cases part
  obtain ⟨_, _, part, _, exitPlaced, ends⟩ := @Assembly.endTry_assembled _ _ _ asm
    (leaving typed body).directives.reverse (by simp [wrote]; rfl)
  rw [entered] at part
  cases part
  rw [labels_reverse, handlerPlaced] at handlerMarked
  rw [exitPlaced] at exitMarked
  cases handlerMarked
  cases exitMarked
  simp only [Directive.extent_reverse] at starts leaves ends
  exact ⟨by simpa [wrote, Nat.add_comm] using starts,
    by simpa [wrote, Nat.add_comm] using leaves, ends⟩

end HostScript.Emission
