import HostScript.Proofs.Assembly.Draft

namespace HostScript

open List

/-!
# Layout of assembled programs

The only later change to what assembly has written are the operands that wait for a label.
-/

namespace Program

/-- An instruction with an operand stands at a position. -/
structure HasInstruction (prog : Program) (pos : Nat) (op : UInt8) (operand : Nat) : Prop where
  code : prog.code[pos]? = some op
  word : prog.word? (pos + 1) = some operand

end Program

namespace Assembly

open Draft

variable {labels : Array (Option Nat)} {code patched : Array UInt8} {fixup : Nat × Nat}

/-- What filling in one operand changes. -/
theorem patch_eq_ok (done : patch labels code fixup = .ok patched) :
    ∃ pos, pos < 65536 ∧ labels[fixup.2]? = some (some pos) ∧ patched =
        (code.setIfInBounds fixup.1 (pos / 256).toUInt8).setIfInBounds (fixup.1 + 1)
          (pos % 256).toUInt8 := by
  unfold patch at done
  split at done
  · cases done
  · next pos marked =>
    split at done
    · next small =>
      refine ⟨pos, small, ?_, ?_⟩
      · simpa [Option.join_eq_some_iff] using marked
      · cases done
        rfl
    · cases done

variable {fixups : List (Nat × Nat)}

variable {idx : Nat} {prog : Program} {op : UInt8}

section

variable (done : fixups.foldlM (patch labels) code = .ok patched)

include done

/-- Bytes that no waiting operand covers stay as they are. -/
theorem patches_untouched (apart : ∀ fixup ∈ fixups, idx ≠ fixup.1 ∧ idx ≠ fixup.1 + 1) :
    patched[idx]? = code[idx]? := by
  induction fixups generalizing code with
  | nil =>
    cases done
    rfl
  | cons fixup _ ih =>
    rw [foldlM_cons] at done
    rcases first : patch labels code fixup with _ | _ <;> rw [first] at done
    · cases done
    · obtain ⟨_, -, -, rfl⟩ := patch_eq_ok first
      have here := apart fixup mem_cons_self
      have kept := ih done fun other mem => apart other (mem_cons_of_mem _ mem)
      rw [kept, Array.getElem?_setIfInBounds_ne (Ne.symm here.2),
        Array.getElem?_setIfInBounds_ne (Ne.symm here.1)]

/--
An operand that waits for a label is filled in with the position of the label, if
what else is filled in lies apart from it.
-/
theorem patches_filled (mem : fixup ∈ fixups) (inside : fixup.1 + 1 < code.size)
    (apart : ∀ other ∈ fixups, other = fixup ∨ other.1 + 1 < fixup.1 ∨ fixup.1 + 1 < other.1) :
    ∃ pos, pos < 65536 ∧ labels[fixup.2]? = some (some pos) ∧
      patched[fixup.1]? = some (pos / 256).toUInt8 ∧
      patched[fixup.1 + 1]? = some (pos % 256).toUInt8 := by
  induction fixups generalizing code with
  | nil => cases mem
  | cons head rest ih =>
    rw [foldlM_cons] at done
    rcases first : patch labels code head with _ | _ <;> rw [first] at done
    · cases done
    obtain ⟨pos, small, marked, rfl⟩ := patch_eq_ok first
    by_cases again : fixup ∈ rest
    · exact ih done again (by simpa using inside) fun other mem =>
        apart other (mem_cons_of_mem _ mem)
    · -- The last time that the arg is filled in is here, and the rest lies apart.
      obtain rfl : fixup = head := by
        rcases mem_cons.mp mem with same | later
        · exact same
        · exact absurd later again
      have untouched : ∀ idx, idx = fixup.1 ∨ idx = fixup.1 + 1 →
          ∀ other ∈ rest, idx ≠ other.1 ∧ idx ≠ other.1 + 1 := by
        intro idx _ other later
        rcases apart other (mem_cons_of_mem _ later) with rfl | _ | _
        · exact absurd later again
        · omega
        · omega
      refine ⟨pos, small, marked, ?_, ?_⟩
      · rw [patches_untouched done (untouched fixup.1 (Or.inl rfl)),
          Array.getElem?_setIfInBounds_ne (by omega),
          Array.getElem?_setIfInBounds_self_of_lt (by omega)]
      · rw [patches_untouched done (untouched (fixup.1 + 1) (Or.inr rfl)),
          Array.getElem?_setIfInBounds_self_of_lt (by simpa using inside)]

theorem patches_size : patched.size = code.size := by
  induction fixups generalizing code with
  | nil =>
    cases done
    rfl
  | cons head _ ih =>
    simp only [foldlM_cons] at done
    rcases first : patch labels code head with _ | _ <;> rw [first] at done
    · cases done
    obtain ⟨_, _, _, rfl⟩ := patch_eq_ok first
    rw [ih done, Array.size_setIfInBounds, Array.size_setIfInBounds]

end

theorem finish_eq_ok (finished : finish draft = .ok prog) :
    draft.fault = none ∧
      ∃ code, draft.fixups.toList.foldlM (patch draft.labels) draft.program.code = .ok code ∧
        prog = { draft.program with code } := by
  unfold finish at finished
  split at finished
  · cases finished
  · next clean =>
    refine ⟨clean, ?_⟩
    split at finished
    · rcases filled : draft.fixups.toList.foldlM (patch draft.labels) draft.program.code
        with failed | code <;> rw [filled] at finished
      · cases finished
      · cases finished
        exact ⟨code, rfl, rfl⟩
    · cases finished

theorem word?_of_bytes (small : arg < 65536) (high : prog.code[pos]? = some (arg / 256).toUInt8)
    (low : prog.code[pos + 1]? = some (arg % 256).toUInt8) : prog.word? pos = some arg := by
  simp only [Program.word?, high, low, Nat.toUInt8, UInt8.toNat_ofNat']
  congr 1
  omega

/-- What is to be filled in lies before the end of the code. -/
def Draft.Placed (draft : Draft) : Prop :=
  ∀ fixup ∈ draft.fixups, fixup.1 + 2 ≤ draft.position

section Finished

variable {final : Draft} (finished : finish final = .ok prog)

include finished

theorem finished_code {after} (extended : Extends after final) (inside : idx < after.position)
    (apart : ∀ fixup ∈ after.fixups, idx ≠ fixup.1 ∧ idx ≠ fixup.1 + 1) :
    prog.code[idx]? = after.program.code[idx]? := by
  obtain ⟨-, code, filled, rfl⟩ := finish_eq_ok finished
  have untouched : code[idx]? = final.program.code[idx]? := by
    refine patches_untouched filled fun fixup mem => ?_
    rcases extended.fresh fixup (by simpa using mem) with pre | ⟨_, -⟩
    · exact apart fixup pre
    · omega
  have present : after.program.code[idx]? = some after.program.code[idx] :=
    Array.getElem?_eq_getElem inside
  rw [present]
  exact untouched.trans (getElem?_of_prefixed extended.code present)

theorem finished_byte (draft : Draft) (extended : Extends (draft.byte op) final)
    (placed : draft.Placed) : prog.code[draft.position]? = some op := by
  rw [finished_code finished extended (by simp)]
  · simp [Draft.byte, Draft.position]
  · intro fixup mem
    have := placed fixup mem
    omega

theorem finished_instruction (draft : Draft) (small : arg < 65536)
    (extended : Extends (draft.instruction op arg) final)
    (placed : draft.Placed) : prog.HasInstruction draft.position op arg := by
  have bytes := instruction_bytes draft op arg
  have kept : ∀ idx, draft.position ≤ idx → idx < draft.position + 3 →
      prog.code[idx]? = (draft.instruction op arg).program.code[idx]? := by
    intro idx _ below
    refine finished_code finished extended (by simpa using below) fun fixup mem => ?_
    have := placed fixup mem
    omega
  refine ⟨?_, word?_of_bytes small ?_ ?_⟩
  · rw [kept _ (by omega) (by omega), bytes.1]
  · rw [kept _ (by omega) (by omega), bytes.2.1]
  · rw [kept _ (by omega) (by omega), bytes.2.2]

theorem finished_checked (draft : Draft) (extended : Extends (draft.checked what op arg) final)
    (placed : draft.Placed) :
    ∃ num : Nat, arg = num ∧ prog.HasInstruction draft.position op num := by
  unfold Draft.checked at extended
  split at extended
  · next _ =>
    refine ⟨arg.toNat, by omega, ?_⟩
    exact finished_instruction finished draft (by omega) extended placed
  · have clean := (finish_eq_ok finished).1
    have := ((Extends.instruction _ _ _).trans extended).fault clean
    simp [Draft.fail] at this

theorem finished_jump (draft : Draft) (extended : Extends (draft.jump op label) final)
    (placed : draft.Placed) :
    ∃ target, final.labels[label]? = some (some target) ∧
      prog.HasInstruction draft.position op target := by
  have code : prog.code[draft.position]? = some op := by
    rw [finished_code finished extended (by simp)]
    · exact (instruction_bytes draft op 0).1
    · intro fixup mem
      have either : fixup ∈ draft.fixups ∨ fixup = (draft.position + 1, label) := by
        simpa [Draft.jump] using mem
      rcases either with pre | rfl
      · have := placed fixup pre
        omega
      · dsimp only
        omega
  obtain ⟨-, _, filled, rfl⟩ := finish_eq_ok finished
  have waiting : (draft.position + 1, label) ∈ final.fixups.toList := by
    simpa using extended.fixups _ (by simp [Draft.jump])
  have long : draft.position + 3 ≤ final.position := by
    simpa using extended.position_le
  obtain ⟨target, small, marked, high, low⟩ :=
    patches_filled filled waiting (show _ < final.position by dsimp only; omega) (by
      intro other mem
      have either := extended.fresh other (by simpa using mem)
      simp only [Draft.jump, Array.mem_push] at either
      rcases either with (pre | same) | ⟨beyond, -⟩
      · have := placed other pre
        omega
      · exact .inl same
      · have : draft.position + 3 ≤ other.1 := by
          simp only [Draft.position, Draft.instruction, Draft.byte, Array.size_push] at beyond ⊢
          omega
        omega)
  exact ⟨target, marked, code, word?_of_bytes small high low⟩

end Finished

/--
What a finished program holds of a directive that was followed in a draft, given the
positions of all labels.
-/
def Holds (prog : Program) (labels : Array (Option Nat)) (draft : Draft) :
    Directive → Prop
  | .declareLocal type => prog.locals[draft.program.locals.size]? = some type
  | .defineLabel => True
  | .mark label =>
    label < draft.labels.size → labels[label]? = some (some draft.position)
  | .plain op => prog.code[draft.position]? = some op
  | .constant .null => prog.code[draft.position]? = some Op.pushNull.code
  | .constant value =>
    ∃ index found, prog.HasInstruction draft.position Op.push index ∧
      prog.constants[index]? = some found ∧
      (found = value ∨ found ∈ draft.program.constants ∧ value.equals found = true)
  | .slot op index =>
    ∃ number : Nat, index = number ∧ prog.HasInstruction draft.position op number
  | .jump op label =>
    ∃ target, labels[label]? = some (some target) ∧ prog.HasInstruction draft.position op target
  | .type op operand =>
    ∃ index, prog.HasInstruction draft.position op index ∧ prog.types[index]? = some operand
  | .convert kind => prog.HasInstruction draft.position Op.convert (kind % 65536)
  | .rank op rank =>
    ∃ number : Nat, rank = number ∧ prog.HasInstruction draft.position op number
  | .field op operand =>
    ∃ index, prog.HasInstruction draft.position op index ∧ prog.fields[index]? = some operand
  | .property op operand =>
    ∃ index, prog.HasInstruction draft.position op index ∧ prog.properties[index]? = some operand
  | .method op operand =>
    ∃ index, prog.HasInstruction draft.position op index ∧ prog.methods[index]? = some operand
  | .name op operand =>
    ∃ index, prog.HasInstruction draft.position op index ∧ prog.names[index]? = some operand
  | .beginTry =>
    ∃ target, labels[draft.labels.size]? = some (some target) ∧
      prog.HasInstruction draft.position Op.tryRegion target
  | .beginFinally =>
    ∃ handler exit outer target, draft.regions = { handler, exit, inHandler := false } :: outer ∧
      labels[exit]? = some (some target) ∧
      prog.HasInstruction draft.position Op.leave target ∧
      (handler < draft.labels.size → labels[handler]? = some (some (draft.position + 3)))
  | .endTry =>
    ∃ handler exit outer, draft.regions = { handler, exit, inHandler := true } :: outer ∧
      prog.code[draft.position]? = some Op.endFinally.code ∧
      (exit < draft.labels.size → labels[exit]? = some (some (draft.position + 1)))

section Finished

variable {final : Draft} (finished : finish final = .ok prog)

include finished

theorem finished_mark {draft : Draft} (extended : Extends (draft.mark label) final)
    (defined : label < draft.labels.size) : final.labels[label]? = some (some draft.position) := by
  have clean := extended.fault (finish_eq_ok finished).1
  apply extended.labels
  unfold Draft.mark at clean ⊢
  split
  · next marked =>
    rw [marked] at clean
    simp [Draft.fail] at clean
  · simp [Array.getElem?_setIfInBounds_self_of_lt defined]

theorem finished_pooled (draft : Draft) {pool finalPool : Array α} {what : Text} {entry : α}
    (extended : Extends (draft.checked what op idx) final) (kept : pool.toList <+: finalPool.toList)
    (present : pool[idx]? = some entry) (placed : draft.Placed) :
    ∃ idx, prog.HasInstruction draft.position op idx ∧ finalPool[idx]? = some entry := by
  obtain ⟨num, _, written⟩ := finished_checked finished draft extended placed
  obtain rfl : idx = num := by omega
  exact ⟨idx, written, getElem?_of_prefixed kept present⟩

theorem finished_holds (draft : Draft) (placed : draft.Placed)
    (extended : Extends (step draft d) final) : Holds prog final.labels draft d := by
  have clean := (finish_eq_ok finished).1
  obtain ⟨code, -, shape⟩ := (finish_eq_ok finished).2
  cases d with
  | declareLocal type =>
    have kept := extended.locals
    rw [step_declareLocal] at kept
    subst shape
    exact getElem?_of_prefixed kept (by simp)
  | defineLabel => trivial
  | mark label => exact finished_mark finished extended
  | plain op =>
    rw [step_plain] at extended
    split at extended
    · exact finished_byte finished draft extended placed
    · have := ((Extends.byte _ _).trans extended).fault clean
      simp [Draft.fail] at this
  | constant val =>
    by_cases isNull : val = .null
    · subst isNull
      exact finished_byte finished draft extended placed
    · rw [step_constant draft isNull] at extended
      obtain ⟨found, present, origin⟩ := intern_found Value.equals draft.program.constants val
      have kept := ((Extends.checked _ _ _ _).trans extended).constants
      obtain ⟨idx, written, pooled⟩ := finished_pooled finished _ extended kept present placed
      subst shape
      cases val <;>
        first
          | exact absurd rfl isNull
          | exact ⟨idx, found, written, pooled, origin⟩
  | slot op idx => exact finished_checked finished draft extended placed
  | jump op label => exact finished_jump finished _ extended placed
  | convert kind =>
    exact finished_instruction finished draft (Nat.mod_lt _ (by decide)) extended placed
  | rank op rank => exact finished_checked finished draft extended placed
  | type op arg | field op arg | property op arg | method op arg | name op arg =>
    subst shape
    have kept := (Extends.checked _ _ _ _).trans extended
    first
      | exact (finished_pooled finished _ extended kept.types (intern_found_eq _ arg) placed :)
      | exact (finished_pooled finished _ extended kept.fields (intern_found_eq _ arg) placed :)
      | exact (finished_pooled finished _ extended kept.properties (intern_found_eq _ arg) placed :)
      | exact (finished_pooled finished _ extended kept.methods (intern_found_eq _ arg) placed :)
      | exact (finished_pooled finished _ extended kept.names (intern_found_eq _ arg) placed :)
  | beginTry =>
    rw [step_beginTry] at extended
    have resolved := finished_jump finished _ extended placed
    exact resolved
  | beginFinally =>
    obtain ⟨handler, exit, outer, opened⟩ := opened_of_clean (extended.fault clean)
    rw [step_beginFinally draft opened] at extended
    obtain ⟨target, marked, written⟩ :=
      finished_jump finished _ ((Extends.mark _ _).trans extended) placed
    refine ⟨handler, exit, outer, target, opened, marked, written, fun defined => ?_⟩
    have := finished_mark finished extended defined
    rwa [position_jump] at this
  | endTry =>
    obtain ⟨handler, exit, outer, entered⟩ := entered_of_clean (extended.fault clean)
    rw [step_endTry draft entered] at extended
    have written := finished_byte finished _ ((Extends.mark _ _).trans extended) placed
    refine ⟨handler, exit, outer, entered, written, fun defined => ?_⟩
    have := finished_mark finished extended defined
    rwa [position_byte] at this

end Finished

/--
A program that was assembled holds every directive at the position that the
directives before it add up to.
-/
theorem assemble_holds {pre after d} (asm : assemble (pre ++ d :: after) = .ok prog) :
    (drafted pre).position = Directive.extent pre ∧
      Holds prog (drafted (pre ++ d :: after)).labels (drafted pre) d := by
  have finished : finish (drafted (pre ++ d :: after)) = .ok prog := asm
  have shape : pre ++ d :: after = (pre ++ [d]) ++ after := by simp
  have extended : Extends (step (drafted pre) d) (drafted (pre ++ d :: after)) := by
    rw [shape, ← drafted_concat]
    exact drafted_extends _ _
  have clean := (finish_eq_ok finished).1
  refine ⟨(drafted_counts pre ?_).position, ?_⟩
  · exact (drafted_extends pre (d :: after)).fault clean
  · exact finished_holds finished _ (fixups_drafted pre) extended

def target? (directives : List Directive) (label : Nat) : Option Nat :=
  ((drafted directives).labels[label]?).join

theorem target?_eq_some :
    target? ds label = some pos ↔ (drafted ds).labels[label]? = some (some pos) := by
  simp [target?, Option.join_eq_some_iff]

theorem assemble_counts {pre after}
    (asm : assemble (pre ++ after) = .ok prog) : Counts pre (drafted pre) := by
  have finished : finish (drafted (pre ++ after)) = .ok prog := asm
  exact drafted_counts pre ((drafted_extends pre after).fault (finish_eq_ok finished).1)

theorem assemble_locals (asm : assemble ds = .ok prog) :
    prog.locals.toList = ds.filterMap Directive.declared? := by
  have finished : finish (drafted ds) = .ok prog := asm
  obtain ⟨clean, _, -, rfl⟩ := finish_eq_ok finished
  exact (drafted_counts ds clean).locals

theorem assemble_size (asm : assemble ds = .ok prog) : prog.code.size = Directive.extent ds := by
  have finished : finish (drafted ds) = .ok prog := asm
  obtain ⟨clean, _, filled, rfl⟩ := finish_eq_ok finished
  exact (patches_size filled).trans (drafted_counts ds clean).position

section Assembled

/-!
The directives of an assembled program one kind at a time, at the position that the
directives before them add up to.
-/

variable {after : List Directive}

variable {op : Op}

theorem assembled_null (asm : assemble (pre ++ .constant .null :: after) = .ok prog) :
    prog.code[Directive.extent pre]? = some Op.pushNull.code := by
  obtain ⟨pos, holds⟩ := assemble_holds asm
  rw [← pos]
  exact holds

theorem assembled_constant (notNull : val ≠ .null)
    (asm : assemble (pre ++ .constant val :: after) = .ok prog) :
    ∃ idx found, prog.HasInstruction (Directive.extent pre) Op.push idx ∧
      prog.constants[idx]? = some found ∧
      (found = val ∨ .constant found ∈ pre ∧ val.equals found) := by
  obtain ⟨pos, holds⟩ := assemble_holds asm
  have counts := assemble_counts asm
  rw [← pos]
  have pooled : ∃ idx found, prog.HasInstruction (drafted pre).position Op.push idx ∧
        prog.constants[idx]? = some found ∧
        (found = val ∨ found ∈ (drafted pre).program.constants ∧ val.equals found) := by
    cases val <;> first | exact absurd rfl notNull | exact holds
  obtain ⟨idx, found, written, present, origin⟩ := pooled
  refine ⟨idx, found, written, present, ?_⟩
  rcases origin with rfl | ⟨mem, same⟩
  · exact .inl rfl
  · exact .inr ⟨counts.constants found mem, same⟩

variable {label : Nat}

theorem assembled_jump (asm : assemble (pre ++ .jump op label :: after) = .ok prog) :
    ∃ target, target? (pre ++ .jump op label :: after) label = some target ∧
      prog.HasInstruction (Directive.extent pre) op target := by
  obtain ⟨pos, target, marked, written⟩ := assemble_holds asm
  rw [← pos]
  exact ⟨target, target?_eq_some.mpr marked, written⟩

theorem assembled_mark (asm : assemble (pre ++ .mark label :: after) = .ok prog)
    (defined : label < Directive.labels pre) :
    target? (pre ++ .mark label :: after) label = some (Directive.extent pre) := by
  obtain ⟨pos, holds⟩ := assemble_holds asm
  have counts := assemble_counts asm
  rw [← pos, target?_eq_some]
  exact holds (by rwa [counts.labels])

end Assembled

end Assembly

end HostScript
