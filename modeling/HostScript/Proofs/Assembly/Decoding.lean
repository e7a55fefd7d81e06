import HostScript.Proofs.Assembly.Faults

namespace HostScript

open Code (operandClass size)
open List

/-!
# Reading assembled code

Instructions are read by their lengths alone, from the first byte on.
-/

/-- What an operand stands for. -/
inductive Operand where
  | absent
  | constant (value : Value)
  | slot (number : Nat)
  | field (field : Field)
  | property (property : Property)
  | method (method : Method)
  | name (name : Text)
  | type (type : Ty)
  | kind (number : Nat)
  | rank (rank : Nat)
  | position (position : Nat)
  deriving Repr, DecidableEq

namespace Program

def operand? (prog : Program) (number : Nat) : OperandClass → Option Operand
  | .absent => some .absent
  | .constant => (prog.constants[number]?).map .constant
  | .localSlot => some (.slot number)
  | .field => (prog.fields[number]?).map .field
  | .property => (prog.properties[number]?).map .property
  | .method => (prog.methods[number]?).map .method
  | .name => (prog.names[number]?).map .name
  | .type => (prog.types[number]?).map .type
  | .kind => some (.kind number)
  | .rank => some (.rank number)
  | .position => some (.position number)

def instruction? (prog : Program) (position : Nat) : Option (UInt8 × Operand) := do
  let op ← prog.code[position]?
  if Code.size op = 1 then return (op, .absent)
  else
    let number ← prog.word? (position + 1)
    let operand ← prog.operand? number (Code.operandClass op)
    return (op, operand)

def scanFrom (prog : Program) : (bytes position : Nat) → List (Nat × Option (UInt8 × Operand))
  | 0, _ => []
  | bytes + 1, position =>
    match prog.code[position]? with
    | none => []
    | some op =>
      (position, prog.instruction? position) :: prog.scanFrom bytes (position + Code.size op)

/-- All instructions with their positions. -/
def scan (prog : Program) : List (Nat × Option (UInt8 × Operand)) :=
  prog.scanFrom prog.code.size 0

variable {prog : Program} {op : UInt8} {operand : Operand}

theorem instruction?_of_single (present : prog.code[pos]? = some op)
    (single : size op = 1) : prog.instruction? pos = some (op, .absent) := by
  simp only [instruction?, present, Option.bind_eq_bind, Option.bind_some, single, ↓reduceIte]
  rfl

theorem HasInstruction.instruction? (written : prog.HasInstruction pos op num)
    (classed : operandClass op = args) (taken : args ≠ .absent)
    (means : prog.operand? num args = some operand) :
    prog.instruction? pos = some (op, operand) ∧ size op = 3 := by
  have size : size op = 3 := by
    rw [size, classed, if_neg taken]
  refine ⟨?_, size⟩
  simp only [Program.instruction?, written.code, Option.bind_eq_bind, Option.bind_some, size,
    Nat.reduceEqDiff, ↓reduceIte, written.word, classed, means]
  rfl

end Program

theorem Value.typeOf_of_equals {val : Value} (same : val.equals found) :
    found.typeOf = val.typeOf := by
  unfold Value.equals at same
  split at same
  · rfl
  · rfl
  · cases same
  · rw [eq_of_beq same]

namespace Directive

def IsClassed : Directive → Prop
  | .slot op _ => Code.operandClass op = .localSlot
  | .jump op _ => Code.operandClass op = .position
  | .type op _ => Code.operandClass op = .type
  | .rank op _ => Code.operandClass op = .rank
  | .field op _ => Code.operandClass op = .field
  | .property op _ => Code.operandClass op = .property
  | .method op _ => Code.operandClass op = .method
  | .name op _ => Code.operandClass op = .name
  | _ => True

/-- The instruction that a directive writes after others in a list. -/
inductive Writes (directives before : List Directive) : Directive → UInt8 → Operand → Prop
  | plain {op} : Writes directives before (.plain op) op .absent
  | null : Writes directives before (.constant .null) Op.pushNull .absent
  | constant {value found} : value ≠ .null → found.typeOf = value.typeOf →
      (value.equals found = true ∨ found = value) →
      Writes directives before (.constant value) Op.push (.constant found)
  | slot {op : UInt8} {number : Nat} : Writes directives before (.slot op number) op (.slot number)
  | rank {op : UInt8} {number : Nat} : Writes directives before (.rank op number) op (.rank number)
  | jump {op label position} : Marks directives label position →
      Writes directives before (.jump op label) op (.position position)
  | type {op operand} : Writes directives before (.type op operand) op (.type operand)
  | field {op operand} : Writes directives before (.field op operand) op (.field operand)
  | property {op operand} : Writes directives before (.property op operand) op (.property operand)
  | method {op operand} : Writes directives before (.method op operand) op (.method operand)
  | name {op operand} : Writes directives before (.name op operand) op (.name operand)
  | convert {kind} : Writes directives before (.convert kind) Op.convert (.kind (kind % 65536))
  | beginTry {position} : Marks directives (labels before) position →
      Writes directives before .beginTry Op.tryRegion (.position position)
  | beginFinally {part outer position} :
      parts before = part :: outer → Marks directives (part.label + 1) position → Writes directives
        before .beginFinally Op.leave (.position position)
  | endTry : Writes directives before .endTry Op.endFinally .absent

/--
A list of instructions is what the directives after others write, each at the position that
the directives before it add up to.
-/
inductive Lists (directives : List Directive) :
    (before rest : List Directive) → List (Nat × Option (UInt8 × Operand)) → Prop
  | done {before} : Lists directives before [] []
  | silent {before rest directive instructions} :
      directive.size = 0 → Lists directives (before ++ [directive]) rest instructions → Lists
        directives before (directive :: rest) instructions
  | wrote {before rest directive op operand instructions} :
      0 < directive.size → Writes directives before directive op operand → Lists directives
        (before ++ [directive]) rest instructions → Lists directives before (directive :: rest)
        ((extent before, some (op, operand)) :: instructions)

theorem Lists.boundary (lists : Lists ds pre rest instructions) (split : rest = first ++ second) :
    (∃ entry ∈ instructions, entry.1 = extent (pre ++ first)) ∨
      extent (pre ++ first) = extent (pre ++ rest) := by
  induction lists generalizing first second with
  | done =>
    rw [(append_eq_nil_iff.mp split.symm).1]
    exact .inr rfl
  | @silent pre rest d instructions empty _ ih =>
    cases first with
    | nil =>
      have more := ih (nil_append rest).symm
      simpa [empty] using more
    | cons head first =>
      cases split
      simpa using ih rfl
  | @wrote pre rest d _ _ instructions _ _ _ ih =>
    cases first with
    | nil => exact .inl ⟨_, mem_cons_self, by simp⟩
    | cons head first =>
      cases split
      rcases ih rfl with ⟨entry, mem, same⟩ | same
      · exact .inl ⟨entry, mem_cons_of_mem _ mem, by simpa using same⟩
      · exact .inr (by simpa using same)

theorem Marks.exists_split (marks : Marks ds label pos) :
    ∃ first second, ds = first ++ second ∧ pos = extent first := by
  obtain ⟨pre, d, after, split, marked⟩ := marks
  have afterIt : ds = (pre ++ [d]) ++ after := by simp [split]
  cases d with
  | mark _ =>
    cases marked
    exact ⟨pre, _, split, rfl⟩
  | beginFinally =>
    obtain ⟨part, _, same⟩ := Option.map_eq_some_iff.mp marked
    cases same
    exact ⟨_, after, afterIt, by simp⟩
  | endTry =>
    obtain ⟨part, _, same⟩ := Option.map_eq_some_iff.mp marked
    cases same
    exact ⟨_, after, afterIt, by simp⟩
  | _ => cases marked

end Directive

namespace Assembly

open Directive (Marks Writes Lists OwnsMarks IsClassed pool extent labels parts)

section

variable {after : List Directive} {prog : Program} (asm : assemble ds = .ok prog)
  (owns : OwnsMarks ds)

include asm

theorem assembled_clean : (drafted ds).fault = none :=
  (finish_eq_ok (show finish (drafted ds) = .ok prog from asm)).1

include owns

theorem exists_instruction (split : ds = pre ++ d :: after) (classed : d.IsClassed)
    (writes : 0 < d.size) :
    ∃ op operand, prog.instruction? (extent pre) = some (op, operand) ∧
      prog.code[extent pre]? = some op ∧ size op = d.size ∧ Writes ds pre d op operand := by
  have clean := assembled_clean asm
  have tracks := drafted_tracks owns clean
  have fits := (fault_drafted owns).mp clean split
  have counts : Counts pre (drafted pre) := assemble_counts (split ▸ asm)
  have regions := regions_of_assembled asm split
  obtain ⟨pos, holds⟩ := assemble_holds (split ▸ asm)
  rw [← split] at holds
  rw [← pos]
  have found : ∀ {op : UInt8} {args : OperandClass} {num : Nat} {operand : Operand},
      prog.HasInstruction (drafted pre).position op num →
      operandClass op = args → args ≠ .absent →
      prog.operand? num args = some operand → d.size = 3 →
      Writes ds pre d op operand →
      ∃ op operand, prog.instruction? (drafted pre).position = some (op, operand) ∧
        prog.code[(drafted pre).position]? = some op ∧ size op = d.size ∧
        Writes ds pre d op operand := by
    intro op args num operand written kind taken means size wrote
    obtain ⟨instr, length⟩ := written.instruction? kind taken means
    exact ⟨op, operand, instr, written.code, length.trans size.symm, wrote⟩
  have single : ∀ {op : UInt8}, prog.code[(drafted pre).position]? = some op →
      size op = 1 → d.size = 1 → Writes ds pre d op .absent →
      ∃ op operand, prog.instruction? (drafted pre).position = some (op, operand) ∧
        prog.code[(drafted pre).position]? = some op ∧ size op = d.size ∧
        Writes ds pre d op operand := by
    intro op present length size wrote
    exact ⟨op, .absent, Program.instruction?_of_single present length, present,
      length.trans size.symm, wrote⟩
  cases d with
  | declareLocal | defineLabel | mark => cases writes
  | plain op => exact single holds fits.operand rfl .plain
  | constant val =>
    by_cases isNull : val = .null
    · subst isNull
      exact single holds (by decide) rfl .null
    · have size : (Directive.constant val).size = 3 := by
        cases val <;> first | exact absurd rfl isNull | rfl
      have pooled : ∃ idx found, prog.HasInstruction (drafted pre).position Op.push idx ∧
            prog.constants[idx]? = some found ∧
            (found = val ∨ found ∈ (drafted pre).program.constants ∧ val.equals found) := by
        cases val <;> first | exact absurd rfl isNull | exact holds
      obtain ⟨idx, _, written, present, origin⟩ := pooled
      refine found written (show operandClass Op.push = .constant by decide) nofun
        (by rw [Program.operand?, present]; rfl) size ?_
      rcases origin with rfl | ⟨_, same⟩
      · exact .constant isNull rfl (.inr rfl)
      · exact .constant isNull (Value.typeOf_of_equals same) (.inl same)
  | slot op idx =>
    obtain ⟨num, rfl, written⟩ := holds
    exact found written classed nofun rfl rfl .slot
  | rank op rank =>
    obtain ⟨num, rfl, written⟩ := holds
    exact found written classed nofun rfl rfl .rank
  | jump op _ =>
    obtain ⟨tgt, marked, written⟩ := holds
    exact found written classed nofun rfl rfl (.jump (tracks.marks.mp marked))
  | type op operand | field op operand | property op operand | method op operand
  | name op operand =>
    obtain ⟨idx, written, present⟩ := holds
    exact found written classed nofun (by rw [Program.operand?, present]; rfl) rfl (by constructor)
  | convert _ =>
    exact found holds (show operandClass Op.convert = .kind by decide) nofun rfl rfl .convert
  | beginTry =>
    obtain ⟨tgt, marked, written⟩ := holds
    rw [counts.labels] at marked
    exact found written (show operandClass Op.tryRegion = .position by decide) nofun rfl rfl
      (.beginTry (tracks.marks.mp marked))
  | beginFinally =>
    obtain ⟨_, _, _, tgt, opened, marked, written, _⟩ := holds
    obtain ⟨_, _, shape, _, rfl, _⟩ := exists_innermost regions opened
    exact found written (show operandClass Op.leave = .position by decide) nofun rfl rfl
      (.beginFinally shape (tracks.marks.mp marked))
  | endTry =>
    obtain ⟨_, _, _, _, present, _⟩ := holds
    exact single present (by decide) rfl .endTry

theorem lists_scanFrom (classed : ∀ d ∈ ds, d.IsClassed) (split : ds = pre ++ rest)
    (enough : extent rest ≤ bytes) : Lists ds pre rest (prog.scanFrom bytes (extent pre)) := by
  induction rest generalizing pre bytes with
  | nil =>
    have ended : prog.code[extent pre]? = none :=
      Array.getElem?_eq_none (Nat.le_of_eq (by rw [assemble_size asm, split, append_nil]))
    cases bytes with
    | zero => exact .done
    | succ bytes =>
      rw [Program.scanFrom, ended]
      exact .done
  | cons d rest ih =>
    have next : ds = (pre ++ [d]) ++ rest := by simp [split]
    rw [Directive.extent_cons] at enough
    by_cases empty : d.size = 0
    · refine .silent empty ?_
      have same : extent pre = extent (pre ++ [d]) := by simp [empty]
      rw [same]
      exact ih next (by omega)
    · obtain ⟨_, _, instr, present, size, wrote⟩ :=
        exists_instruction asm owns split (classed d (by simp [split])) (Nat.pos_of_ne_zero empty)
      cases bytes with
      | zero => omega
      | succ bytes =>
        rw [Program.scanFrom, present]
        dsimp only
        rw [instr, size]
        refine .wrote (Nat.pos_of_ne_zero empty) wrote ?_
        have same : extent pre + d.size = extent (pre ++ [d]) := by simp
        rw [same]
        exact ih next (by omega)

end

/-- Pools whose entries are told apart by equality hold none twice. -/
theorem nodup_pool [BEq α] [LawfulBEq α] (operand? : Directive → Option α)
    (ds : List Directive) : (pool (· == ·) operand? ds).Nodup := by
  refine (firstUses_pairwise (· == ·) _).imp ?_
  intro _ _ differ same
  rw [same, beq_self_eq_true] at differ
  cases differ

/-- Directives make a program exactly if they are buildable, and its code reads back as the
directives: every instruction in order with its operand, every entry of a pool once, and every
label as the boundary where it was marked. -/
theorem assemble_decodes
    {directives : List Directive} (classed : ∀ directive ∈ directives, directive.IsClassed)
    (owns : OwnsMarks directives) :
    ((∃ program, assemble directives = .ok program) ↔ Directive.IsBuildable directives) ∧
      ∀ program, assemble directives = .ok program →
        Lists directives [] directives program.scan ∧
        (∀ label position, Marks directives label position →
          (∃ entry ∈ program.scan, entry.1 = position) ∨ position = program.code.size) ∧
        (program.constants.toList.Pairwise fun earlier later =>
          later.equals earlier = false) ∧
        program.types.toList.Nodup ∧ program.fields.toList.Nodup ∧
        program.properties.toList.Nodup ∧ program.methods.toList.Nodup ∧
        program.names.toList.Nodup := by
  refine ⟨assemble_isOk_iff owns, fun program assembled => ?_⟩
  obtain ⟨clean, code, _, shape⟩ :=
    finish_eq_ok (show finish (drafted directives) = .ok program from assembled)
  have tracks := drafted_tracks owns clean
  have size := assemble_size assembled
  have lists : Lists directives [] directives program.scan := by
    have listed := lists_scanFrom assembled owns classed (List.nil_append directives).symm
      (Nat.le_of_eq size.symm)
    exact listed
  refine ⟨lists, fun label position marks => ?_, ?_⟩
  · obtain ⟨_, _, split, rfl⟩ := marks.exists_split
    rw [size]
    simpa using lists.boundary split
  · subst shape
    rw [tracks.constants, tracks.types, tracks.fields, tracks.properties, tracks.methods,
      tracks.names]
    exact ⟨firstUses_pairwise _ _, nodup_pool _ _, nodup_pool _ _, nodup_pool _ _,
      nodup_pool _ _, nodup_pool _ _⟩

/-- A variable is set in a protected region, and the region is left from the inside. -/
def guarded : List Directive :=
  [.defineLabel, .declareLocal .int32, .beginTry, .constant (.int .int32 7),
    .slot Op.storeLocal 0, .jump Op.leave 0, .beginFinally, .plain Op.nop, .endTry, .mark 0,
    .plain Op.ret]

theorem guarded_ownsMarks : OwnsMarks guarded := by
  have checked : ∀ place < guarded.length, ∀ label < 3,
      guarded[place]? = some (.mark label) → label < labels (guarded.take place) := by decide
  intro pre _ label split
  have inside : pre.length < guarded.length := by simp [split]
  have present : guarded[pre.length]? = some (.mark label) := by simp [split]
  have known : ∀ d ∈ guarded, ∀ label, d = .mark label → label < 3 := by
    simp [guarded]
  have taken : guarded.take pre.length = pre := by simp [split]
  have owned := checked pre.length inside label
    (known _ (mem_of_getElem? present) label rfl) present
  rwa [taken] at owned

theorem guarded_decodes :
    (∀ directive ∈ guarded, directive.IsClassed) ∧ OwnsMarks guarded ∧
      ∃ program, assemble guarded = .ok program ∧ Lists guarded [] guarded program.scan := by
  have classed : ∀ directive ∈ guarded, directive.IsClassed := by
    simp [guarded, IsClassed]
    decide
  have isOk : (assemble guarded).toBool = true := by decide +kernel
  cases assembled : assemble guarded with
  | error _ =>
    rw [assembled] at isOk
    cases isOk
  | ok program =>
    exact ⟨classed, guarded_ownsMarks, program, rfl,
      ((assemble_decodes classed guarded_ownsMarks).2 program assembled).1⟩

end Assembly

end HostScript
