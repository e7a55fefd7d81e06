import HostScript.Proofs.Assembly.Decoding
import HostScript.Proofs.Machine.Runs
import HostScript.Proofs.Machine.Effect

namespace HostScript

open List

/-!
# Structured control

Structured control knows one stack: the parts of a program that an invocation is in, the
innermost first.
-/

/-- A part of a program that an invocation is in. -/
inductive Open where
  /-- The protected part of a region. -/
  | trying (region : Region)
  /-- A handler, with what it resumes in the end. -/
  | handling (pending : Resumption)
  deriving Repr, DecidableEq

variable {opens first : List Open} {frame : Frame}

namespace Open

def isHandling : Open → Bool
  | .trying _ => false
  | .handling _ => true

def regions : List Open → List Region
  | [] => []
  | .trying region :: outer => region :: regions outer
  | .handling _ :: outer => regions outer

def completions : List Open → List Completion
  | [] => []
  | .trying _ :: outer => completions outer
  | .handling pending :: outer =>
    { resumption := pending, depth := (regions outer).length } :: completions outer

theorem depth_le (mem : completion ∈ completions opens) :
    completion.depth ≤ (regions opens).length := by
  induction opens with
  | nil => cases mem
  | cons first _ ih =>
    cases first with
    | trying _ => exact Nat.le_succ_of_le (ih mem)
    | handling _ =>
      rcases mem_cons.mp mem with rfl | more
      · exact Nat.le_refl _
      · exact ih more

/-- The two stacks tell which parts are open. -/
theorem eq_of_regions_completions (sameRegions : regions first = regions second)
    (sameCompletions : completions first = completions second) : first = second := by
  induction first generalizing second with
  | nil =>
    cases second with
    | nil => rfl
    | cons head outer => cases head <;> first | cases sameRegions | cases sameCompletions
  | cons head outer ih =>
    -- a handler is never as deep as a region that was entered inside of it
    have apart : ∀ {region : Region} {pending : Resumption} {inside outside : List Open},
        regions (.trying region :: inside) = regions (.handling pending :: outside) →
        completions (.trying region :: inside) =
          completions (.handling pending :: outside) → False := by
      intro region pending inside outside regionsSame completionsSame
      have deep : ({ resumption := pending, depth := (regions outside).length } : Completion) ∈
          completions inside := completionsSame ▸ mem_cons_self
      have bounded := depth_le deep
      have counted : (regions inside).length + 1 = (regions outside).length :=
        congrArg List.length regionsSame
      dsimp only at bounded
      omega
    cases second with
    | nil => cases head <;> first | cases sameRegions | cases sameCompletions
    | cons other others =>
      cases head with
      | trying region =>
        cases other with
        | trying otherRegion =>
          obtain ⟨rfl, rest⟩ := List.cons.inj sameRegions
          rw [ih rest sameCompletions]
        | handling pending => exact (apart sameRegions sameCompletions).elim
      | handling pending =>
        cases other with
        | trying otherRegion =>
          exact (apart sameRegions.symm sameCompletions.symm).elim
        | handling otherPending =>
          obtain ⟨same, rest⟩ := List.cons.inj sameCompletions
          have samePending : pending = otherPending := congrArg Completion.resumption same
          have sameOuter : outer = others := ih sameRegions rest
          rw [sameOuter, samePending]

theorem regions_dropWhile (opens : List Open) :
    regions (opens.dropWhile isHandling) = regions opens := by
  induction opens with
  | nil => rfl
  | cons first _ ih =>
    cases first with
    | trying _ => rfl
    | handling _ => exact ih

theorem completions_dropWhile (opens : List Open) :
    ((completions opens).dropWhile fun completion => (regions opens).length ≤ completion.depth) =
      completions (opens.dropWhile isHandling) := by
  induction opens with
  | nil => rfl
  | cons first outer ih =>
    cases first with
    | trying _ =>
      simp only [completions, regions, isHandling, dropWhile_cons, Bool.false_eq_true,
        if_false, length_cons]
      rcases shape : completions outer with _ | ⟨completion, _⟩
      · rfl
      · have bounded := depth_le (shape ▸ mem_cons_self : completion ∈ completions outer)
        have shallow : ¬(regions outer).length + 1 ≤ completion.depth := by omega
        rw [dropWhile_cons_of_neg (by simp only [shallow, decide_false,
          Bool.false_eq_true, not_false_eq_true])]
    | handling _ =>
      simp only [completions, regions, isHandling, dropWhile_cons, Nat.le_refl,
        decide_true, if_true]
      exact ih

end Open

/-- The stacks of a frame are those of open parts. -/
structure Frame.IsIn (frame : Frame) (opens : List Open) : Prop where
  regions : frame.regions = Open.regions opens
  completions : frame.completions = Open.completions opens

theorem Frame.IsIn.unique (isFirst : frame.IsIn first) (isSecond : frame.IsIn second) :
    first = second :=
  Open.eq_of_regions_completions (isFirst.regions.symm.trans isSecond.regions)
    (isFirst.completions.symm.trans isSecond.completions)

def Frame.placed (frame : Frame) (place : Nat × List Open) : Frame :=
  { frame with
    next := place.1
    regions := Open.regions place.2
    completions := Open.completions place.2 }

theorem Frame.placed_isIn (frame : Frame) (place : Nat × List Open) :
    (frame.placed place).IsIn place.2 :=
  ⟨rfl, rfl⟩

/-- Where control goes when something is resumed inside of open parts: a jump out of a protected
part goes through its handler, a failure to the innermost handler, replacing what those inside had
to resume. -/
def Resumption.resume : Resumption → List Open → Option (Nat × List Open)
  | .jump target, .trying region :: outer =>
    if region.contains target then some (target, .trying region :: outer)
    else some (region.handler, .handling (.jump target) :: outer)
  | .jump target, opens => some (target, opens)
  | .failure reason, .trying region :: outer =>
    some (region.handler, .handling (.failure reason) :: outer)
  | .failure reason, .handling _ :: outer => resume (.failure reason) outer
  | .failure _, [] => none

namespace Resumption

variable {resumption : Resumption} {inner base after : List Open} {next : Nat}

theorem resume_open {part}
    (resumed : resumption.resume (inner ++ part :: base) = some (next, after)) :
    (∃ inside, after = inside ++ part :: base) ∨
      resumption.resume (part :: base) = some (next, after) := by
  cases resumption with
  | jump tgt =>
    rcases inner with _ | ⟨innermost | pending, inner⟩
    · exact .inr resumed
    · simp only [cons_append, resume] at resumed
      split at resumed
      · cases resumed
        exact .inl ⟨.trying innermost :: inner, rfl⟩
      · cases resumed
        exact .inl ⟨.handling (.jump tgt) :: inner, rfl⟩
    · cases resumed
      exact .inl ⟨.handling pending :: inner, rfl⟩
  | failure reason =>
    induction inner with
    | nil => exact .inr resumed
    | cons first inner ih =>
      cases first with
      | trying innermost =>
        cases resumed
        exact .inl ⟨.handling (.failure reason) :: inner, rfl⟩
      | handling pending => exact ih resumed

theorem resume_trying
    (resumed : resumption.resume (inner ++ .trying region :: base) = some (next, after)) :
    (∃ inside, after = inside ++ .trying region :: base) ∨
      next = region.handler ∧ after = .handling resumption :: base := by
  refine (resume_open resumed).elim Or.inl fun left => ?_
  cases resumption with
  | jump _ =>
    simp only [resume] at left
    split at left
    · cases left
      exact .inl ⟨[], rfl⟩
    · cases left
      exact .inr ⟨rfl, rfl⟩
  | failure _ =>
    cases left
    exact .inr ⟨rfl, rfl⟩

theorem resume_handling
    (resumed : resumption.resume (inner ++ .handling pending :: base) = some (next, after)) :
    (∃ inside, after = inside ++ .handling pending :: base) ∨
      (∃ reason, resumption = .failure reason) ∧ resumption.resume base = some (next, after) := by
  refine (resume_open resumed).elim Or.inl fun left => ?_
  cases resumption with
  | jump _ =>
    cases left
    exact .inl ⟨[], rfl⟩
  | failure reason => exact .inr ⟨⟨reason, rfl⟩, left⟩

theorem resume_failure (reason : RunFailure) (opens : List Open) :
    resume (.failure reason) opens =
      match opens.dropWhile Open.isHandling with
      | .trying region :: outer =>
        some (region.handler, .handling (.failure reason) :: outer)
      | _ => none := by
  induction opens with
  | nil => rfl
  | cons first outer ih =>
    cases first with
    | trying region => rfl
    | handling _ => exact ih

end Resumption

theorem Machine.raise_eq (isIn : frame.IsIn opens) (failure : RunFailure) :
    raise failure frame = (Resumption.resume (.failure failure) opens).map fun place =>
        { frame.placed place with stack := [] } := by
  have handlers := Open.completions_dropWhile opens
  have kept := Open.regions_dropWhile opens
  rw [Resumption.resume_failure]
  simp only [raise, isIn.regions, isIn.completions, handlers]
  rw [← kept]
  rcases shape : opens.dropWhile Open.isHandling with _ | ⟨⟨_⟩ | ⟨_⟩, _⟩
  · rfl
  · rfl
  · have first := head?_dropWhile_not Open.isHandling opens
    simp [shape, Open.isHandling] at first

/--
A jump goes where structured control resumes it; inside of a handler it has to stay in the
region around.
-/
theorem Step.leave_eq {cfg : Configuration H} (isIn : cfg.frame.IsIn opens)
    (inside : opens.head?.any Open.isHandling →
      ∀ region ∈ (Open.regions opens).head?, region.contains tgt) :
    ∃ place, Resumption.resume (.jump tgt) opens = some place ∧ Step.leave tgt cfg =
        (.ok (), { cfg with frame := cfg.frame.placed place }) := by
  obtain ⟨frame, world⟩ := cfg
  obtain ⟨num, locals, stack, _, _, next, pos, operations⟩ := frame
  obtain ⟨rfl, rfl⟩ := isIn
  have jumped : (∀ region ∈ (Open.regions opens).head?, region.contains tgt) →
      Step.leave tgt ⟨⟨num, locals, stack, Open.regions opens, Open.completions opens, next,
          pos, operations⟩, world⟩ =
        (.ok (), ⟨⟨num, locals, stack, Open.regions opens, Open.completions opens, tgt,
          pos, operations⟩, world⟩) := by
    intro contained
    simp only [Step.leave, modifyFrame, modify_apply]
    rcases shape : Open.regions opens with _ | ⟨region, outer⟩
    · rfl
    · simp [contained region (by simp [shape])]
  rcases opens with _ | ⟨⟨region⟩ | ⟨_⟩, outer⟩
  · exact ⟨_, rfl, jumped (by rintro _ ⟨⟩)⟩
  · by_cases contained : region.contains tgt
    · refine ⟨(tgt, .trying region :: outer), by simp [Resumption.resume, contained], jumped ?_⟩
      rintro _ ⟨⟩
      exact contained
    · refine ⟨(region.handler, .handling (.jump tgt) :: outer),
        by simp [Resumption.resume, contained], ?_⟩
      simp only [Step.leave, modifyFrame, modify_apply, Open.regions, contained]
      rfl
  · exact ⟨_, rfl, jumped (inside rfl)⟩

end HostScript

namespace HostScript

/-!
# Programs with nested regions

A program is nested if its regions are written with borders only, plain jumps stay in their
part, and jumps that leave go to their own part or to one around it without leaving a handler.
-/

def Part.canLeave : (here there : List Part) → Bool
  | [], there => there.isEmpty
  | part :: outer, there => part :: outer == there || (!part.isHandler && canLeave outer there)

theorem Part.suffix_of_canLeave (canLeave : Part.canLeave here there = true) : there <:+ here := by
  induction here with
  | nil =>
    obtain rfl := List.isEmpty_iff.mp canLeave
    exact List.suffix_rfl
  | cons _ _ ih =>
    simp only [Part.canLeave, Bool.or_eq_true, beq_iff_eq, Bool.and_eq_true] at canLeave
    rcases canLeave with rfl | ⟨_, more⟩
    · exact List.suffix_rfl
    · exact (ih more).trans (List.suffix_cons _ _)

variable {code : UInt8} {d : Directive}

theorem Op.code_of_ofCode? (found : Op.ofCode? code = some op) : code = op.code := by
  have distinct : Op.all.Nodup := by decide
  obtain ⟨_, same⟩ := List.getElem?_eq_some_iff.mp found
  rw [Op.code, ← same, distinct.idxOf_getElem]
  simp

theorem Op.exists_of_any (any : (Op.ofCode? code).any known = true) :
    ∃ op : Op, code = op.code ∧ known op = true := by
  cases found : Op.ofCode? code with
  | none =>
    rw [found] at any
    cases any
  | some op =>
    rw [found] at any
    exact ⟨op, Op.code_of_ofCode? found, any⟩

/-- Whether an operation goes on with the next instruction, or ends the invocation. -/
def Op.isOrdinary (op : Op) : Bool :=
  op.goesOn || op == .ret

namespace Directive

/-- Whether a directive writes an operation of some kind, and is no jump. -/
def isOf (known : Op → Bool) : Directive → Bool
  | .constant .null => known .pushNull
  | .constant _ => known .push
  | .convert _ => known .convert
  | .plain code => (Op.ofCode? code).any fun op => known op && op.operand == .absent
  | .slot code _ | .type code _ | .rank code _ | .field code _ | .property code _
  | .method code _ | .name code _ =>
    (Op.ofCode? code).any fun op => known op && op.operand != .absent
  | _ => false

def jumpsWell (directives here : List Directive) (code : UInt8) (label : Nat) : Bool :=
  (List.range directives.length).any fun place =>
    let there := directives.take place
    directives[place]? == some (.mark label) && decide (label < labels there) &&
      match Op.ofCode? code with
      | some .leave => Part.canLeave (parts here) (parts there)
      | some op => op.isJump && parts here == parts there
      | none => false

/-- Whether a directive may follow the first ones of a nested program. -/
def isAllowed (directives here : List Directive) : Directive → Bool
  | .declareLocal _ | .defineLabel | .mark _ | .beginTry | .beginFinally | .endTry => true
  | .jump code label => jumpsWell directives here code label
  | other => other.isOf Op.isOrdinary

def isNested (directives : List Directive) : Bool :=
  (List.range directives.length).all fun place =>
    directives[place]?.all (isAllowed directives (directives.take place))

section

theorem isAllowed_of_isNested (nested : isNested ds = true) (split : ds = pre ++ d :: after) :
    d.isAllowed ds pre = true := by
  have inside : pre.length < ds.length := by simp [split]
  have allowed := List.all_eq_true.mp nested pre.length (List.mem_range.mpr inside)
  have present : ds[pre.length]? = some d := by simp [split]
  have taken : ds.take pre.length = pre := by simp [split]
  rwa [present, taken] at allowed

theorem exists_of_jumpsWell (well : jumpsWell ds pre code label = true) :
    ∃ there rest, ds = there ++ .mark label :: rest ∧ label < labels there ∧
      (match Op.ofCode? code with
        | some .leave => Part.canLeave (parts pre) (parts there)
        | some op => op.isJump && parts pre == parts there
        | none => false) = true := by
  obtain ⟨place, _, found⟩ := List.any_eq_true.mp well
  simp only [Bool.and_eq_true, beq_iff_eq, decide_eq_true_eq] at found
  obtain ⟨⟨marked, defined⟩, goes⟩ := found
  obtain ⟨inside, same⟩ := List.getElem?_eq_some_iff.mp marked
  refine ⟨ds.take place, ds.drop (place + 1), ?_, defined, goes⟩
  rw [← same, ← List.drop_eq_getElem_cons inside, List.take_append_drop]

theorem isBorder_of_size_zero (empty : d.size = 0) : d.isBorder = false := by
  cases d <;> first | rfl | cases empty

theorem parts_of_empty (empty : ∀ d ∈ skipped, d.size = 0) :
    parts (pre ++ skipped) = parts pre ∧ extent (pre ++ skipped) = extent pre := by
  induction skipped using List.reverseRecOn with
  | nil => simp
  | append_singleton skipped last ih =>
    obtain ⟨same, still⟩ := ih fun d mem => empty d (List.mem_append_left _ mem)
    have lastEmpty := empty last (by simp)
    rw [← List.append_assoc, parts_concat,
      partsAfter_of_not_isBorder (isBorder_of_size_zero lastEmpty), same]
    refine ⟨rfl, ?_⟩
    rw [extent_append, still]
    simp [lastEmpty]

theorem exists_next (after : List Directive) :
    (∀ d ∈ after, d.size = 0) ∨ ∃ skipped d rest, after = skipped ++ d :: rest ∧ 0 < d.size ∧
        ∀ other ∈ skipped, other.size = 0 := by
  induction after with
  | nil => exact .inl fun _ mem => nomatch mem
  | cons first after ih =>
    by_cases empty : first.size = 0
    · rcases ih with nothing | ⟨skipped, d, rest, rfl, writes, others⟩
      · exact .inl (List.forall_mem_cons.mpr ⟨empty, nothing⟩)
      · exact .inr ⟨first :: skipped, d, rest, rfl, writes,
          List.forall_mem_cons.mpr ⟨empty, others⟩⟩
    · exact .inr ⟨[], first, after, rfl, Nat.pos_of_ne_zero empty, fun _ mem => nomatch mem⟩

end

end Directive

namespace Assembly

/--
A directive other than a jump writes its operation with the operand; one that sets a local
variable names it.
-/
theorem operation_assembled (asm : assemble ds = .ok prog) (split : ds = pre ++ d :: after)
    (isOf : d.isOf known = true) :
    ∃ op : Op, prog.code[Directive.extent pre]? = some op.code ∧ known op = true ∧
      d.size = 1 + op.operandSize ∧ (op = .storeLocal → d.IsClassed → ∃ slot : Nat,
        d = .slot Op.storeLocal slot ∧
          prog.HasInstruction (Directive.extent pre) Op.storeLocal slot) := by
  subst split
  obtain ⟨pos, holds⟩ := assemble_holds asm
  rw [← pos]
  have withOperand : ∀ {code : UInt8},
      ((Op.ofCode? code).any fun op => known op && op.operand != .absent) = true →
      ∃ op : Op, code = op.code ∧ known op = true ∧ 3 = 1 + op.operandSize := by
    intro code isOf
    obtain ⟨op, rfl, fits⟩ := Op.exists_of_any isOf
    simp only [Bool.and_eq_true, bne_iff_ne] at fits
    refine ⟨op, rfl, fits.1, ?_⟩
    rw [Op.operandSize, if_neg fits.2]
  cases d with
  | constant val =>
    cases val with
    | null => exact ⟨.pushNull, holds, isOf, rfl, nofun⟩
    | _ =>
      obtain ⟨_, _, instr, _⟩ := holds
      exact ⟨.push, instr.code, isOf, rfl, nofun⟩
  | convert _ => exact ⟨.convert, holds.code, isOf, rfl, nofun⟩
  | plain code =>
    obtain ⟨op, rfl, fits⟩ := Op.exists_of_any isOf
    simp only [Bool.and_eq_true, beq_iff_eq] at fits
    refine ⟨op, holds, fits.1, ?_, ?_⟩
    · rw [Op.operandSize, if_pos fits.2]
      rfl
    · rintro rfl
      cases fits.2
  | slot code slot =>
    obtain ⟨num, rfl, instr⟩ := holds
    obtain ⟨op, rfl, isKnown, size⟩ := withOperand isOf
    refine ⟨op, instr.code, isKnown, size, ?_⟩
    rintro rfl -
    exact ⟨num, rfl, instr⟩
  | rank code _ =>
    obtain ⟨_, _, instr⟩ := holds
    obtain ⟨op, rfl, isKnown, size⟩ := withOperand isOf
    exact ⟨op, instr.code, isKnown, size, by rintro rfl ⟨⟩⟩
  | type code _ | field code _ | property code _ | method code _ | name code _ =>
    obtain ⟨_, instr, _⟩ := holds
    obtain ⟨op, rfl, isKnown, size⟩ := withOperand isOf
    exact ⟨op, instr.code, isKnown, size, by rintro rfl ⟨⟩⟩
  | _ => cases isOf

end Assembly

end HostScript
