import Mathlib
import HostScript.Code.Assembly

namespace HostScript

open List

/-!
# Drafts of programs

Assembly appends: bytes that were written stay, entries of pools stay, and a label keeps the
position it was given.
-/

namespace Directive

/-- The count of bytes that a directive writes. -/
def size : Directive → Nat
  | .declareLocal _ | .defineLabel | .mark _ => 0
  | .plain _ | .constant .null | .endTry => 1
  | _ => 3

def labelCount : Directive → Nat
  | .defineLabel => 1
  | .beginTry => 2
  | _ => 0

def isBorder : Directive → Bool
  | .beginTry | .beginFinally | .endTry => true
  | _ => false

def declared? : Directive → Option Ty
  | .declareLocal decl => some decl
  | _ => none

def extent (directives : List Directive) : Nat :=
  (directives.map size).sum

def labels (directives : List Directive) : Nat :=
  (directives.map labelCount).sum

@[simp] theorem size_eq :
    (∀ type, (declareLocal type).size = 0) ∧ defineLabel.size = 0 ∧ (∀ n, (mark n).size = 0) ∧
      (∀ op, (plain op).size = 1) ∧ (∀ op n, (jump op n).size = 3) ∧ beginTry.size = 3 ∧
      beginFinally.size = 3 ∧ endTry.size = 1 :=
  ⟨fun _ => rfl, rfl, fun _ => rfl, fun _ => rfl, fun _ _ => rfl, rfl, rfl, rfl⟩

@[simp] theorem extent_nil : extent [] = 0 := rfl

@[simp] theorem extent_append (first second : List Directive) :
    extent (first ++ second) = extent first + extent second := by
  simp [extent]

@[simp] theorem extent_cons (d : Directive) (rest : List Directive) :
    extent (d :: rest) = d.size + extent rest := by
  simp [extent]

@[simp] theorem labels_nil : labels [] = 0 := rfl

@[simp] theorem labels_append (first second : List Directive) :
    labels (first ++ second) = labels first + labels second := by
  simp [labels]

@[simp] theorem labels_cons (d : Directive) (rest : List Directive) :
    labels (d :: rest) = d.labelCount + labels rest := by
  simp [labels]

@[simp] theorem extent_reverse (ds : List Directive) : extent ds.reverse = extent ds := by
  simp [extent]

@[simp] theorem labels_reverse (ds : List Directive) : labels ds.reverse = labels ds := by
  simp [labels]

end Directive

namespace Assembly

theorem getElem?_of_prefixed {prev later : Array α} (isPrefix : prev.toList <+: later.toList)
    {idx : Nat} {entry : α} (present : prev[idx]? = some entry) : later[idx]? = some entry := by
  rw [← Array.getElem?_toList] at present ⊢
  obtain ⟨_, extended⟩ := isPrefix
  have inside := (List.getElem?_eq_some_iff.mp present).1
  rw [← extended, getElem?_append_left inside, present]

theorem intern_keeps (same : α → α → Bool) (pool : Array α) (entry : α) :
    pool.toList <+: (intern same pool entry).1.toList := by
  unfold intern
  split
  · exact prefix_rfl
  · simp

theorem intern_found (same : α → α → Bool) (pool : Array α) (entry : α) :
    ∃ found, (intern same pool entry).1[(intern same pool entry).2]? = some found ∧
      (found = entry ∨ found ∈ pool ∧ same entry found) := by
  unfold intern
  split
  · next idx located =>
    rw [Array.findIdx?_eq_some_iff_getElem] at located
    obtain ⟨inside, agrees, -⟩ := located
    exact ⟨pool[idx], by simp [inside], .inr ⟨by simp, agrees⟩⟩
  · exact ⟨entry, by simp, .inl rfl⟩

theorem intern_found_eq [BEq α] [LawfulBEq α] (pool : Array α) (entry : α) :
    (intern (· == ·) pool entry).1[(intern (· == ·) pool entry).2]? = some entry := by
  obtain ⟨_, located, rfl | ⟨-, agrees⟩⟩ := intern_found (· == ·) pool entry
  · exact located
  · rw [located, eq_of_beq agrees]

namespace Draft

variable (draft : Draft)

@[simp] theorem position_byte (b : UInt8) : (draft.byte b).position = draft.position + 1 := by
  simp [position, byte]

@[simp] theorem position_instruction (op : UInt8) (arg : Nat) :
    (draft.instruction op arg).position = draft.position + 3 := by
  simp [instruction]

@[simp] theorem position_fail (fault : AssemblyFault) :
    (draft.fail fault).position = draft.position := rfl

@[simp] theorem position_checked (what : Text) (op : UInt8) (arg : Int) :
    (draft.checked what op arg).position = draft.position + 3 := by
  unfold checked
  split <;> simp

@[simp] theorem position_mark (label : Nat) : (draft.mark label).position = draft.position := by
  unfold mark
  split
  · rfl
  · rfl

@[simp] theorem program_mark (label : Nat) : (draft.mark label).program = draft.program := by
  unfold mark
  split <;> rfl

@[simp] theorem size_labels_mark (label : Nat) :
    (draft.mark label).labels.size = draft.labels.size := by
  unfold mark
  split
  · rfl
  · simp

@[simp] theorem regions_mark (label : Nat) : (draft.mark label).regions = draft.regions := by
  unfold mark
  split <;> rfl

@[simp] theorem position_jump (op : UInt8) (label : Nat) :
    (draft.jump op label).position = draft.position + 3 :=
  position_instruction draft op 0

/-- Every table of a program starts with that of an earlier one. -/
structure Grows (earlier later : Program) : Prop where
  code : earlier.code.toList <+: later.code.toList
  constants : earlier.constants.toList <+: later.constants.toList
  types : earlier.types.toList <+: later.types.toList
  fields : earlier.fields.toList <+: later.fields.toList
  properties : earlier.properties.toList <+: later.properties.toList
  methods : earlier.methods.toList <+: later.methods.toList
  names : earlier.names.toList <+: later.names.toList
  locals : earlier.locals.toList <+: later.locals.toList

/-- What a later draft keeps of an earlier one. -/
structure Extends (earlier later : Draft) : Prop
    extends Grows earlier.program later.program where
  labels : ∀ label position : Nat,
    earlier.labels[label]? = some (some position) → later.labels[label]? = some (some position)
  fixups : ∀ fixup ∈ earlier.fixups, fixup ∈ later.fixups
  fresh : ∀ fixup ∈ later.fixups,
    fixup ∈ earlier.fixups ∨ earlier.position ≤ fixup.1 ∧ fixup.1 + 2 ≤ later.position
  fault : later.fault = none → earlier.fault = none

namespace Extends

theorem of_program {program : Program} (grows : Grows draft.program program) :
    Extends draft { draft with program } where
  toGrows := grows
  labels := fun _ _ marked => marked
  fixups := fun _ mem => mem
  fresh := fun _ mem => .inl mem
  fault := id

theorem refl : Extends draft draft := by
  apply of_program
  constructor <;> exact prefix_rfl

theorem position_le {prev} (extended : Extends prev later) : prev.position ≤ later.position := by
  have := extended.code.length_le
  simpa [position] using this

theorem trans (prev : Extends first second) (later : Extends second third) :
    Extends first third where
  code := prev.code.trans later.code
  constants := prev.constants.trans later.constants
  types := prev.types.trans later.types
  fields := prev.fields.trans later.fields
  properties := prev.properties.trans later.properties
  methods := prev.methods.trans later.methods
  names := prev.names.trans later.names
  locals := prev.locals.trans later.locals
  labels := fun label position marked =>
    later.labels label position (prev.labels label position marked)
  fixups := fun fixup mem => later.fixups fixup (prev.fixups fixup mem)
  fresh := by
    intro fixup mem
    rcases later.fresh fixup mem with pre | ⟨beyond, placed⟩
    · rcases prev.fresh fixup pre with oldest | ⟨beyond, placed⟩
      · exact .inl oldest
      · exact .inr ⟨beyond, Nat.le_trans placed later.position_le⟩
    · exact .inr ⟨Nat.le_trans prev.position_le beyond, placed⟩
  fault := fun clean => prev.fault (later.fault clean)

theorem byte (b : UInt8) : Extends draft (draft.byte b) := by
  apply of_program
  constructor <;> simp

theorem instruction (op : UInt8) (arg : Nat) : Extends draft (draft.instruction op arg) :=
  ((byte draft op).trans (byte _ _)).trans (byte _ _)

theorem fail (fault : AssemblyFault) : Extends draft (draft.fail fault) :=
  { refl draft with fault := by simp [Draft.fail] }

theorem checked (what : Text) (op : UInt8) (arg : Int) :
    Extends draft (draft.checked what op arg) := by
  unfold Draft.checked
  split
  · exact instruction _ _ _
  · exact (fail _ _).trans (instruction _ _ _)

theorem defineLabel : Extends draft draft.defineLabel :=
  { refl draft with
    labels := by
      intro label _ marked
      simp only [Draft.defineLabel, Array.getElem?_push]
      have inside : label < draft.labels.size := by
        rw [Array.getElem?_eq_some_iff] at marked
        exact marked.1
      simp [Nat.ne_of_lt inside, marked] }

theorem mark (label : Nat) : Extends draft (draft.mark label) := by
  unfold Draft.mark
  split
  · exact fail _ _
  · next unmarked =>
    refine { refl draft with labels := ?_ }
    intro other position marked
    have different : label ≠ other := by
      rintro rfl
      exact unmarked position marked
    simp [Array.getElem?_setIfInBounds_ne different, marked]

theorem jump (op : UInt8) (label : Nat) : Extends draft (draft.jump op label) := by
  refine { instruction draft op 0 with fixups := ?_, fresh := ?_ }
  · intro fixup mem
    simp [Draft.jump, mem]
  · intro fixup mem
    have either : fixup ∈ draft.fixups ∨ fixup = (draft.position + 1, label) := by
      simpa [Draft.jump] using mem
    rcases either with pre | rfl
    · exact .inl pre
    · exact .inr ⟨Nat.le_succ _, Nat.le_of_eq (position_jump draft op label).symm⟩

end Extends

theorem instruction_bytes (op : UInt8) (arg : Nat) :
    (draft.instruction op arg).program.code[draft.position]? = some op ∧
      (draft.instruction op arg).program.code[draft.position + 1]? = some (arg / 256).toUInt8 ∧
      (draft.instruction op arg).program.code[draft.position + 2]? = some (arg % 256).toUInt8 := by
  refine ⟨?_, ?_, ?_⟩ <;>
    simp only [instruction, byte, position, Array.getElem?_push, Array.size_push]
  · rw [if_neg (by omega), if_neg (by omega), if_pos trivial]
  · rw [if_neg (by omega), if_pos trivial]
  · rw [if_pos trivial]

end Draft

open Draft
open Draft (checked)

/-! One equation for each directive: what it does to a draft. -/

section

variable (draft : Draft)

theorem step_declareLocal (type : Ty) :
    step draft (.declareLocal type) =
      { draft with
        program := { draft.program with locals := draft.program.locals.push type } } := rfl

theorem step_plain (op : UInt8) :
    step draft (.plain op) =
      (if Code.size op = 1 then draft else draft.fail (.needsParameter op)).byte op := rfl

theorem step_constant (notNull : val ≠ .null) :
    step draft (.constant val) = checked
        { draft with
          program :=
            { draft.program with
              constants := (intern Value.equals draft.program.constants val).1 } }
        "constants" Op.push (intern Value.equals draft.program.constants val).2 := by
  unfold step
  cases val <;> first | exact absurd rfl notNull | rfl

theorem step_beginTry :
    step draft .beginTry = Draft.jump
        { draft.defineLabel.defineLabel with
          regions :=
            { handler := draft.labels.size, exit := draft.labels.size + 1,
              inHandler := false } :: draft.regions }
        Op.tryRegion draft.labels.size := rfl

theorem step_beginFinally
    (opened : draft.regions = { handler, exit, inHandler := false } :: outer) :
    step draft .beginFinally = (Draft.jump
        { draft with regions := { handler, exit, inHandler := true } :: outer }
        Op.leave exit).mark handler := by
  unfold step
  rw [opened]

theorem step_endTry (entered : draft.regions = { handler, exit, inHandler := true } :: outer) :
    step draft .endTry = (Draft.byte { draft with regions := outer } Op.endFinally).mark exit := by
  unfold step
  rw [entered]

/-- The innermost region stands at its body or at its handler. -/
def Within (inHandler : Bool) : Prop :=
  ∃ handler exit outer, draft.regions = { handler, exit, inHandler } :: outer

end

theorem step_beginFinally_fails (outside : ¬ Within draft false) :
    step draft .beginFinally = draft.fail .finallyOutside := by
  unfold step
  rcases shape : draft.regions with _ | ⟨⟨handler, exit, _ | _⟩, outer⟩
  · rfl
  · exact absurd ⟨_, _, _, shape⟩ outside
  · rfl

theorem step_endTry_fails (outside : ¬ Within draft true) :
    step draft .endTry = draft.fail .noFinally := by
  unfold step
  rcases shape : draft.regions with _ | ⟨⟨handler, exit, _ | _⟩, outer⟩
  · rfl
  · rfl
  · exact absurd ⟨_, _, _, shape⟩ outside

theorem opened_of_clean (clean : (step draft .beginFinally).fault = none) : Within draft false := by
  by_contra outside
  rw [step_beginFinally_fails outside] at clean
  cases clean

theorem entered_of_clean (clean : (step draft .endTry).fault = none) : Within draft true := by
  by_contra outside
  rw [step_endTry_fails outside] at clean
  cases clean

theorem step_extends (draft : Draft) (d : Directive) : Extends draft (step draft d) := by
  cases d with
  | declareLocal type =>
    rw [step_declareLocal]
    apply Extends.of_program
    constructor <;> simp
  | defineLabel => exact .defineLabel draft
  | mark label => exact .mark draft label
  | plain op =>
    rw [step_plain]
    split
    · exact .byte _ _
    · exact (Extends.fail _ _).trans (Extends.byte _ _)
  | constant val =>
    by_cases isNull : val = .null
    · subst isNull
      exact .byte draft Op.pushNull
    · rw [step_constant draft isNull]
      refine .trans (.of_program draft ?_) (.checked _ _ _ _)
      constructor <;> first | exact prefix_rfl | exact intern_keeps _ _ _
  | slot op _ => exact .checked _ _ _ _
  | jump op label => exact .jump _ _ _
  | convert _ => exact .instruction _ _ _
  | rank op rank => exact .checked _ _ _ _
  | type op arg | field op arg | property op arg | method op arg
  | name op arg =>
    refine .trans (.of_program draft ?_) (.checked _ _ _ _)
    constructor <;> first | exact prefix_rfl | exact intern_keeps (· == ·) _ arg
  | beginTry =>
    rw [step_beginTry]
    refine .trans ?_ (.jump _ _ _)
    have opened := (Extends.defineLabel draft).trans (Extends.defineLabel _)
    exact { opened with }
  | beginFinally =>
    by_cases within : Within draft false
    · obtain ⟨_, _, _, opened⟩ := within
      rw [step_beginFinally draft opened]
      refine .trans ?_ (.mark _ _)
      refine .trans ?_ (.jump _ _ _)
      exact { Extends.refl draft with }
    · rw [step_beginFinally_fails within]
      exact .fail _ _
  | endTry =>
    by_cases within : Within draft true
    · obtain ⟨_, _, _, entered⟩ := within
      rw [step_endTry draft entered]
      refine .trans ?_ (.mark _ _)
      refine .trans ?_ (.byte _ _)
      exact { Extends.refl draft with }
    · rw [step_endTry_fails within]
      exact .fail _ _

theorem foldl_extends (ds : List Directive) (draft : Draft) :
    Extends draft (ds.foldl step draft) := by
  induction ds generalizing draft with
  | nil => exact .refl draft
  | cons d _ ih =>
    exact (step_extends draft d).trans (ih _)

/-- What is counted in a draft, and how a directive without fault changes it. -/
structure Effect (draft : Draft) (directive : Directive) (after : Draft) : Prop where
  position : after.position = draft.position + directive.size
  labels : after.labels.size = draft.labels.size + directive.labelCount
  locals : after.program.locals.toList = draft.program.locals.toList ++ directive.declared?.toList
  constants : ∀ found ∈ after.program.constants,
    found ∈ draft.program.constants ∨ directive = .constant found
  regions : directive.isBorder = false → after.regions = draft.regions

theorem Effect.mark {after} (effect : Effect draft d after) (label : Nat) :
    Effect draft d (after.mark label) where
  position := (position_mark after label).trans effect.position
  labels := (size_labels_mark after label).trans effect.labels
  locals := program_mark after label ▸ effect.locals
  constants := program_mark after label ▸ effect.constants
  regions inner := (regions_mark after label).trans (effect.regions inner)

theorem Effect.of_checked (draft : Draft) (program : Program) (d : Directive) (what : Text)
    (op : UInt8) (arg : Int) (code : program.code = draft.program.code)
    (locals : program.locals = draft.program.locals)
    (constants : ∀ found ∈ program.constants, found ∈ draft.program.constants ∨ d = .constant found)
    (size : d.size = 3) (labelCount : d.labelCount = 0) (decl : d.declared? = none) :
    Effect draft d (checked { draft with program } what op arg) := by
  have position : Draft.position { draft with program } = draft.position := congrArg Array.size code
  refine ⟨?_, ?_, ?_, ?_, ?_⟩
  · rw [position_checked, position, size]
  · rw [labelCount]
    unfold checked
    split <;> rfl
  · rw [decl]
    unfold checked
    split <;> simp [Draft.instruction, Draft.byte, Draft.fail, locals]
  · unfold checked
    split <;> simpa [Draft.instruction, Draft.byte, Draft.fail] using constants
  · intro _
    unfold checked
    split <;> rfl

theorem step_effect (draft : Draft) (d : Directive) (clean : (step draft d).fault = none) :
    Effect draft d (step draft d) := by
  have unchanged : ∀ {d : Directive}, ∀ found ∈ draft.program.constants,
        found ∈ draft.program.constants ∨ d = .constant found :=
    fun _ mem => .inl mem
  cases d with
  | declareLocal type =>
    rw [step_declareLocal]
    exact ⟨rfl, rfl, by simp [Directive.declared?], unchanged, fun _ => rfl⟩
  | defineLabel =>
    exact ⟨rfl, Array.size_push _, (append_nil _).symm, unchanged, fun _ => rfl⟩
  | mark label =>
    refine .mark ?_ label
    exact ⟨rfl, rfl, (append_nil _).symm, unchanged, fun _ => rfl⟩
  | plain op =>
    rw [step_plain]
    split
    · exact ⟨position_byte _ _, rfl, (append_nil _).symm, unchanged, fun _ => rfl⟩
    · exact ⟨position_byte _ _, rfl, (append_nil _).symm, unchanged, fun _ => rfl⟩
  | constant val =>
    by_cases isNull : val = .null
    · subst isNull
      exact ⟨position_byte draft Op.pushNull, rfl, (append_nil _).symm, unchanged,
        fun _ => rfl⟩
    · rw [step_constant draft isNull]
      refine .of_checked draft _ _ _ _ _ rfl rfl ?_ ?_ rfl rfl
      · intro found mem
        unfold intern at mem
        split at mem
        · exact .inl mem
        · rcases Array.mem_push.mp mem with pre | rfl
          · exact .inl pre
          · exact .inr rfl
      · cases val <;> first | exact absurd rfl isNull | rfl
  | slot op _ =>
    exact .of_checked draft draft.program _ _ _ _ rfl rfl unchanged rfl rfl rfl
  | rank op rank =>
    exact .of_checked draft draft.program _ _ _ _ rfl rfl unchanged rfl rfl rfl
  | jump op label =>
    exact ⟨position_jump _ _ _, rfl, (append_nil _).symm, unchanged, fun _ => rfl⟩
  | convert _ =>
    exact ⟨position_instruction _ _ _, rfl, (append_nil _).symm, unchanged, fun _ => rfl⟩
  | type | field | property | method | name =>
    exact .of_checked draft _ _ _ _ _ rfl rfl unchanged rfl rfl rfl
  | beginTry =>
    rw [step_beginTry]
    refine ⟨position_jump _ _ _, ?_, (append_nil _).symm, unchanged, nofun⟩
    simp [Draft.jump, Draft.instruction, Draft.byte, Draft.defineLabel, Directive.labelCount]
  | beginFinally =>
    obtain ⟨handler, exit, outer, opened⟩ := opened_of_clean clean
    rw [step_beginFinally draft opened]
    refine .mark ?_ _
    exact ⟨position_jump _ _ _, rfl, (append_nil _).symm, unchanged, nofun⟩
  | endTry =>
    obtain ⟨handler, exit, outer, entered⟩ := entered_of_clean clean
    rw [step_endTry draft entered]
    refine .mark ?_ _
    exact ⟨position_byte _ _, rfl, (append_nil _).symm, unchanged, nofun⟩

def drafted (directives : List Directive) : Draft :=
  directives.foldl step {}

theorem drafted_concat (ds : List Directive) (last : Directive) :
    drafted (ds ++ [last]) = step (drafted ds) last := by
  simp [drafted]

theorem drafted_extends (first second : List Directive) :
    Extends (drafted first) (drafted (first ++ second)) := by
  simpa [drafted] using foldl_extends second (drafted first)

/-- What is counted in a draft without fault, as sums over its directives. -/
structure Counts (directives : List Directive) (draft : Draft) : Prop where
  position : draft.position = Directive.extent directives
  labels : draft.labels.size = Directive.labels directives
  locals : draft.program.locals.toList = directives.filterMap Directive.declared?
  constants : ∀ found ∈ draft.program.constants, .constant found ∈ directives

theorem drafted_counts (ds : List Directive) (clean : (drafted ds).fault = none) :
    Counts ds (drafted ds) := by
  induction ds using List.reverseRecOn with
  | nil => exact ⟨rfl, rfl, rfl, by simp [drafted]⟩
  | append_singleton ds last ih =>
    rw [drafted_concat] at clean ⊢
    have pre := ih ((step_extends _ _).fault clean)
    have effect := step_effect _ _ clean
    refine ⟨?_, ?_, ?_, ?_⟩
    · rw [effect.position, pre.position]
      simp
    · rw [effect.labels, pre.labels]
      simp
    · rw [effect.locals, pre.locals]
      cases shape : last.declared? <;> simp [shape]
    · intro found mem
      rcases effect.constants found mem with prev | rfl
      · exact mem_append_left _ (pre.constants found prev)
      · simp

/-- Operands that wait for a label lie inside of the code. -/
theorem fixups_drafted (ds : List Directive) :
    ∀ fixup ∈ (drafted ds).fixups, fixup.1 + 2 ≤ (drafted ds).position := by
  intro fixup mem
  have extended : Extends {} (drafted ds) := foldl_extends ds {}
  rcases extended.fresh fixup mem with none | ⟨-, placed⟩
  · simp at none
  · exact placed

end Assembly

end HostScript
