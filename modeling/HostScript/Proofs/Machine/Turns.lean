import HostScript.Proofs.Machine.Nesting

namespace HostScript

open Directive
open Assembly
open Configuration (begun)
open List
open Machine (cycle cycle_eq raise)
open Resumption (resume)
open Step (frame perform)

/-!
# Turns of structured control

In a nested program, the parts around the next instruction are the ones that the invocation is
in: `IsAt` says that the stacks of a frame are those of these parts.
-/

/-- A position lies in these parts, or in some that the first can leave for. -/
def Leads (directives : List Directive) (here : List Part) (target : Nat) : Prop :=
  ∃ there rest, directives = there ++ rest ∧ target = extent there ∧
    Part.canLeave here (parts there) = true

def Resumable (directives : List Directive) (here : List Part) : Resumption → Prop
  | .jump target => Leads directives here target
  | .failure reason => reason.isClassified = true

/-- The parts that an invocation is in are these parts of the program. -/
inductive Agrees (directives : List Directive) : List Part → List Open → Prop
  | nil : Agrees directives [] []
  | trying {part outer opens handler} (isProtected : part.isHandler = false)
      (handled : target? directives part.label = some handler)
      (around : Agrees directives outer opens) :
      Agrees directives (part :: outer) (.trying { start := part.start, handler } :: opens)
  | handling {part outer opens pending} (isHandler : part.isHandler = true)
      (resumable : Resumable directives outer pending) (around : Agrees directives outer opens) :
      Agrees directives (part :: outer) (.handling pending :: opens)

variable {here inner : List Part} {opens : List Open}

theorem Agrees.exists_part (agrees : Agrees ds here opens) (mem : region ∈ Open.regions opens) :
    ∃ part ∈ here, part.isHandler = false ∧ ∃ handler, target? ds part.label = some handler ∧
        region = { start := part.start, handler } := by
  induction agrees with
  | nil => cases mem
  | @trying part _ opens handler isProtected handled around ih =>
    rcases mem_cons.mp mem with rfl | further
    · exact ⟨part, mem_cons_self, isProtected, handler, handled, rfl⟩
    · obtain ⟨part, inOuter, known⟩ := ih further
      exact ⟨part, mem_cons_of_mem _ inOuter, known⟩
  | handling _ _ around ih =>
    obtain ⟨part, inOuter, known⟩ := ih mem
    exact ⟨part, mem_cons_of_mem _ inOuter, known⟩

/-- A position is the one after some directives, and these parts are open there. -/
def Placed (directives : List Directive) (place : Nat × List Open) : Prop :=
  ∃ before after, directives = before ++ after ∧ place.1 = extent before ∧
    Agrees directives (parts before) place.2

/-- A frame is at a place of the program. -/
structure IsAt (directives : List Directive) (frame : Frame) (opens : List Open) : Prop where
  placed : Placed directives (frame.next, opens)
  isIn : frame.IsIn opens

section Places

variable {ds pre after : List Directive} {prog : Program}
  (asm : Assembly.assemble ds = .ok prog) (split : ds = pre ++ after)

include asm split

variable {part : Part} {handler : Nat}

theorem handler_placed (opened : parts pre = inner ++ part :: outer)
    (isProtected : part.isHandler = false) (handled : target? ds part.label = some handler)
    (around : Agrees ds outer opens) (resumable : Resumable ds outer pending) :
    Placed ds (handler, .handling pending :: opens) := by
  obtain ⟨between, rest, found, shape⟩ := exists_handler asm split opened isProtected
  obtain ⟨_, _, _, same, _, marked, _⟩ := beginFinally_assembled asm found
  rw [shape] at same
  cases same
  rw [handled, Option.some.injEq] at marked
  refine ⟨pre ++ between ++ [.beginFinally], rest, by simpa using found, ?_, ?_⟩
  · simp [marked, Nat.add_assoc]
  · rw [parts_concat, shape]
    exact .handling rfl resumable around

theorem contains_of_mem (mem : part ∈ parts pre) (isProtected : part.isHandler = false)
    (handled : target? ds part.label = some handler) :
    Region.contains { start := part.start, handler } (extent pre) := by
  obtain ⟨_, _, opened⟩ := append_of_mem mem
  obtain ⟨_, _, found, shape⟩ := exists_handler asm split opened isProtected
  obtain ⟨_, _, _, same, _, marked, _⟩ := beginFinally_assembled asm found
  rw [shape] at same
  cases same
  rw [handled, Option.some.injEq] at marked
  have started := start_le mem
  rw [extent_append] at marked
  simp only [Region.contains, Bool.and_eq_true, decide_eq_true_eq]
  omega

theorem not_contains_of_missing (mem : part ∈ parts pre) (isProtected : part.isHandler = false)
    (handled : target? ds part.label = some handler) (elsewhere : ds = there ++ rest)
    (missing : ∀ other ∈ parts there, other.start ≠ part.start) :
    Region.contains { start := part.start, handler } (extent there) = false := by
  have outside : extent there < part.start ∨ handler ≤ extent there := by
    rcases append_eq_append_iff.mp (split.symm.trans elsewhere) with
      ⟨more, rfl, _⟩ | ⟨more, rfl, _⟩
    · refine .inr ?_
      obtain ⟨_, known, below⟩ := handler_le_of_missing asm elsewhere mem
        isProtected fun present => missing part present rfl
      rw [handled, Option.some.injEq] at known
      exact known ▸ below
    · have later := le_start_of_later missing mem
      exact .inl (by omega)
  simp only [Region.contains, Bool.and_eq_false_iff, decide_eq_false_iff_not]
  omega

theorem failure_placed (opened : parts pre = inner ++ here) (agrees : Agrees ds here opens) {reason}
    (isClassified : reason.isClassified) (resumed : resume (.failure reason) opens = some place) :
    Placed ds place := by
  induction agrees generalizing inner with
  | nil => cases resumed
  | trying isProtected handled around =>
    cases resumed
    exact handler_placed asm split opened isProtected handled around isClassified
  | @handling part outer opens _ _ _ around ih =>
    have shifted : parts pre = (inner ++ [part]) ++ outer := by simp [opened]
    exact ih shifted resumed

theorem contains_of_agrees (agrees : Agrees ds (parts pre) opens)
    (mem : region ∈ Open.regions opens) : region.contains (extent pre) := by
  obtain ⟨_, inParts, isProtected, _, handled, rfl⟩ := agrees.exists_part mem
  exact contains_of_mem asm split inParts isProtected handled

theorem jump_placed (opened : parts pre = inner ++ here) (agrees : Agrees ds here opens)
    (leads : Leads ds here tgt) :
    (opens.head?.any Open.isHandling → ∀ region ∈ (Open.regions opens).head?, region.contains tgt) ∧
      ∀ place, resume (.jump tgt) opens = some place → Placed ds place := by
  obtain ⟨there, rest, elsewhere, rfl, canLeave⟩ := leads
  have stayed : here = parts there → Placed ds (extent there, opens) := by
    rintro rfl
    exact ⟨there, rest, elsewhere, rfl, agrees⟩
  cases agrees with
  | nil =>
    refine ⟨Bool.noConfusion, ?_⟩
    rintro _ ⟨⟩
    exact stayed (isEmpty_iff.mp canLeave).symm
  | @handling part outer opens pending isHandler resumable around =>
    have same : part :: outer = parts there := by
      simpa [Part.canLeave, isHandler] using canLeave
    refine ⟨fun _ region first => ?_, ?_⟩
    · have agreesThere : Agrees ds (parts there) (.handling pending :: opens) :=
        same ▸ .handling isHandler resumable around
      exact contains_of_agrees asm elsewhere agreesThere (mem_of_mem_head? first)
    · rintro _ ⟨⟩
      exact stayed same
  | @trying part outer opens _ isProtected handled around =>
    refine ⟨Bool.noConfusion, fun place resumed => ?_⟩
    have mem : part ∈ parts pre := by simp [opened]
    simp only [Part.canLeave, Bool.or_eq_true, beq_iff_eq, Bool.and_eq_true] at canLeave
    rcases canLeave with same | ⟨_, further⟩
    · have contained := contains_of_mem asm elsewhere
        (same ▸ mem_cons_self : part ∈ parts there) isProtected handled
      simp only [resume, contained, if_true, Option.some.injEq] at resumed
      rw [← resumed]
      exact stayed same
    · have missing : ∀ other ∈ parts there, other.start ≠ part.start := by
        intro other isThere
        have ordered := (start_pairwise pre).2
        rw [opened, pairwise_append] at ordered
        have below := rel_of_pairwise_cons ordered.2.1
          ((Part.suffix_of_canLeave further).subset isThere)
        omega
      have outside := not_contains_of_missing asm split mem isProtected handled elsewhere missing
      simp only [resume, outside, Bool.false_eq_true, if_false, Option.some.injEq] at resumed
      rw [← resumed]
      exact handler_placed asm split opened isProtected handled around
        ⟨there, rest, elsewhere, rfl, further⟩

end Places

/-- At a place of a program something has to be resumed inside of some parts. -/
inductive Occasion (prog : Program) : (here : Nat × List Open) → Resumption → List Open → Prop
  | leave {here target opens} (instr : prog.HasInstruction here Op.leave target) :
      Occasion prog (here, opens) (.jump target) opens
  | failure {here : Nat} {opens : List Open} {op : Op} (code : prog.code[here]? = some op.code)
      (within : op.goesOn = true ∨ op.isJump = true) (reason : RunFailure) :
      Occasion prog (here, opens) (.failure reason) opens
  | completion {here : Nat} {outer : List Open} (code : prog.code[here]? = some Op.endFinally.code)
      (pending : Resumption) :
      Occasion prog (here, .handling pending :: outer) pending outer

/-- A turn of structured control, from one place of a program to the next. -/
inductive Turn (prog : Program) : (here after : Nat × List Open) → Prop
  /-- An instruction goes on, or jumps within its part. -/
  | goes {here next : Nat} {opens : List Open} {op : Op} (code : prog.code[here]? = some op.code)
      (within : op.goesOn = true ∨ op.isJump = true) :
      Turn prog (here, opens) (next, opens)
  | enters {here handler opens} (instr : prog.HasInstruction here Op.tryRegion handler) :
      Turn prog (here, opens) (here + 3, .trying { start := here + 3, handler } :: opens)
  /-- A jump, a failure, or what was pending is resumed. -/
  | resumes {here after : Nat × List Open} {resumption : Resumption} {opens : List Open}
      (occasion : Occasion prog here resumption opens)
      (resumed : resumption.resume opens = some after) :
      Turn prog here after

/-- How an invocation ends at a place of a program. -/
inductive Halt (prog : Program) : (here : Nat × List Open) → Ending → Prop
  | returns {here : Nat} {opens : List Open} (code : prog.code[here]? = some Op.ret.code) :
      Halt prog (here, opens) (.ok ())
  /-- A failure is resumed where no region is open. -/
  | fails {here : Nat × List Open} {opens : List Open} {reason : RunFailure}
      (occasion : Occasion prog here (.failure reason) opens)
      (unhandled : Open.regions opens = []) : Halt prog here (.error reason)
  | runsOut {here : Nat} {opens : List Open} (code : prog.code[here]? = none) :
      Halt prog (here, opens) (.error (Machine.stopped .brokenCode))

def Follows (directives : List Directive) (prog : Program) (here : Nat × List Open) :
    Round H → Prop
  | .continues next =>
    ∃ opens, IsAt directives next.frame opens ∧ Turn prog here (next.frame.next, opens)
  | .ends ending _ => Halt prog here ending

theorem Part.canLeave_refl (here : List Part) : Part.canLeave here here := by
  cases here <;> simp [Part.canLeave]

section Rounds

variable {ds pre after : List Directive} {prog : Program}
  {cfg : Configuration H} (asm : Assembly.assemble ds = .ok prog)

include asm

theorem raise_placed (split : ds = pre ++ after) (opened : parts pre = inner ++ here)
    (agrees : Agrees ds here opens) {reason}
    (isClassified : reason.isClassified) {frame} (isIn : frame.IsIn opens) :
    match raise reason frame with
    | some raised => ∃ opened, IsAt ds raised opened ∧
        resume (.failure reason) opens = some (raised.next, opened)
    | none => Open.regions opens = [] := by
  cases regions : Open.regions opens with
  | nil => simp only [raise, isIn.regions, regions]
  | cons _ _ =>
    have raised := Machine.raise_eq isIn reason
    cases resumed : resume (.failure reason) opens with
    | none => simp [resumed, raise, isIn.regions, regions] at raised
    | some place =>
      have placed := failure_placed asm split opened agrees isClassified resumed
      rw [resumed] at raised
      rw [raised]
      exact ⟨place.2, ⟨placed, rfl, rfl⟩, rfl⟩

section Follows

variable (host : Host H) (agrees : Agrees ds (parts pre) opens)
  (isIn : cfg.frame.IsIn opens)

include agrees isIn

theorem follows_of_perform {op : Op} (split : ds = pre ++ after)
    (code : prog.code[cfg.frame.next]? = some op.code) (within : op.goesOn ∨ op.isJump)
    (unmoved : Step.Unmoved (fun _ => ()) kept cfg.begun (perform host prog op cfg.begun).2)
    (succeeds : ∀ res, (perform host prog op cfg.begun).1 = .ok res → res = false ∧ Placed ds
        ((perform host prog op cfg.begun).2.frame.next, opens)) :
    Follows ds prog (cfg.frame.next, opens) (cycle host prog {} cfg) := by
  rw [cycle_eq host code]
  have stillIn : Frame.IsIn _ opens :=
    ⟨unmoved.regions.trans isIn.regions, unmoved.completions.trans isIn.completions⟩
  rcases ran : perform host prog op cfg.begun with
    ⟨trouble | res, next⟩
  · rw [ran] at stillIn
    have raised := raise_placed asm split (nil_append _).symm agrees
      (show (Machine.classify op.code next.frame.position trouble).isClassified from
        Failure.isClassified_classifyUnless _ _ _ _) stillIn
    cases led : raise (Machine.classify op.code next.frame.position trouble) next.frame with
    | none =>
      rw [led] at raised
      simp only [led]
      exact .fails (.failure code within _) raised
    | some _ =>
      rw [led] at raised
      simp only [led]
      obtain ⟨opened, isAt, resumed⟩ := raised
      exact ⟨opened, isAt, .resumes (.failure code within _) resumed⟩
  · rw [ran] at stillIn succeeds
    obtain ⟨rfl, placed⟩ := succeeds res rfl
    exact ⟨opens, ⟨placed, stillIn⟩, .goes code within⟩

theorem follows_leave {tgt} (split : ds = pre ++ after)
    (instr : prog.HasInstruction cfg.frame.next Op.leave tgt) (leads : Leads ds (parts pre) tgt) :
    Follows ds prog (cfg.frame.next, opens) (cycle host prog {} cfg) := by
  obtain ⟨inside, placed⟩ := jump_placed asm split (nil_append _).symm agrees leads
  let taken : Configuration H := cfg.moved (cfg.frame.next + 1 + 2) cfg.frame.stack cfg.world
  have isInTaken : taken.frame.IsIn opens := ⟨isIn.regions, isIn.completions⟩
  obtain ⟨place, resumed, left⟩ := Step.leave_eq isInTaken inside
  have ran : perform host prog .leave cfg.begun =
      (.ok false, { taken with frame := taken.frame.placed place }) := by
    simp only [Step.perform.eq_def, bind_apply, begun, Step.operand_moved _ _ _ _ instr.word]
    rw [left]
    rfl
  rw [cycle_eq host instr.code, ran]
  exact ⟨place.2, ⟨placed place resumed, Frame.placed_isIn _ _⟩, .resumes (.leave instr) resumed⟩

variable (pos : cfg.frame.next = extent pre)

include pos

theorem follows_ordinary (split : ds = pre ++ d :: after) (ordinary : d.isOf Op.isOrdinary) :
    Follows ds prog (cfg.frame.next, opens) (cycle host prog {} cfg) := by
  obtain ⟨_, code, within, size, -⟩ := operation_assembled asm split ordinary
  rw [← pos] at code
  simp only [Op.isOrdinary, Bool.or_eq_true, beq_iff_eq] at within
  rcases within with goesOn | rfl
  · have effect : Step.Unmoved (fun _ => ()) (fun _ => False) cfg.begun _ ∧ _ :=
      Step.perform_goesOn host.spares_nothing prog goesOn (fun _ _ _ _ _ _ => rfl)
        cfg.begun fun _ _ _ kept => kept
    obtain ⟨unmoved, succeeds⟩ := effect
    refine follows_of_perform asm host agrees isIn split code (.inl goesOn) unmoved
      fun res done => ?_
    obtain ⟨isFalse, moved⟩ := succeeds res done
    have notBorder : d.isBorder = false := by
      cases d <;> first | rfl | cases ordinary
    refine ⟨isFalse, pre ++ [d], after, by simp [split], ?_, ?_⟩
    · rw [moved, extent_append]
      simp [begun, pos, size, Nat.add_assoc]
    · rw [parts_concat, partsAfter_of_not_isBorder notBorder]
      exact agrees
  · rw [(Machine.cycle_ret host code).2]
    exact .returns code

theorem follows_jump {op : Op} {label : Nat} {there rest : List Directive}
    (split : ds = pre ++ .jump op label :: after) (isJump : op.isJump)
    (marked : ds = there ++ .mark label :: rest) (defined : label < labels there)
    (same : parts pre = parts there) :
    Follows ds prog (cfg.frame.next, opens) (cycle host prog {} cfg) := by
  obtain ⟨_, led, instr⟩ := assembled_jump (split ▸ asm)
  rw [← split, marked, assembled_mark (marked ▸ asm) defined] at led
  obtain rfl := Option.some.inj led
  rw [← pos] at instr
  have effect : Step.Unmoved (fun _ => ()) (fun _ => False) cfg.begun _ ∧ _ :=
    Step.perform_jump host prog isJump instr.word
  obtain ⟨unmoved, succeeds⟩ := effect
  refine follows_of_perform asm host agrees isIn split instr.code (.inr isJump) unmoved
    fun res done => ?_
  obtain ⟨isFalse, taken | passed⟩ := succeeds res done
  · exact ⟨isFalse, there, _, marked, taken, same ▸ agrees⟩
  · refine ⟨isFalse, pre ++ [.jump op label], after, by simp [split], ?_, ?_⟩
    · rw [passed, extent_append]
      simp [begun, pos, Nat.add_assoc]
    · rw [parts_concat]
      exact agrees

theorem follows_endTry (split : ds = pre ++ .endTry :: after) :
    Follows ds prog (cfg.frame.next, opens) (cycle host prog {} cfg) := by
  obtain ⟨part, outer, shape, isHandler, _, code⟩ := endTry_assembled asm split
  rw [← pos] at code
  have opened : parts pre = [part] ++ outer := shape
  rw [shape] at agrees
  cases agrees with
  | trying isProtected => exact absurd isHandler (by simp [isProtected])
  | @handling _ _ outerOpens pending _ resumable around =>
    let ended : Configuration H :=
      { cfg.begun with
        frame := { cfg.begun.frame with
          completions := Open.completions outerOpens } }
    have isInEnded : ended.frame.IsIn outerOpens := ⟨isIn.regions, rfl⟩
    have completions : cfg.begun.frame.completions =
        { resumption := pending, depth := (Open.regions outerOpens).length } ::
          Open.completions outerOpens := isIn.completions
    rw [cycle_eq host code]
    cases pending with
    | jump _ =>
      obtain ⟨inside, placed⟩ := jump_placed asm split opened around resumable
      obtain ⟨place, resumed, left⟩ := Step.leave_eq isInEnded inside
      have ran : perform host prog .endFinally cfg.begun =
          (.ok false, { ended with frame := ended.frame.placed place }) := by
        simp only [Step.perform.eq_def, bind_apply, Step.endFinally, frame, get_apply,
          pure_apply, completions, Step.modifyFrame, modify_apply]
        rw [left]
      rw [ran]
      exact ⟨place.2, ⟨placed place resumed, Frame.placed_isIn _ _⟩,
        .resumes (.completion code _) resumed⟩
    | failure reason =>
      have ran : perform host prog .endFinally cfg.begun = (.error (.failed reason), ended) := by
        simp only [Step.perform.eq_def, bind_apply, Step.endFinally, frame, get_apply,
          pure_apply, completions, Step.modifyFrame, modify_apply]
        rfl
      have raised := raise_placed asm split opened around resumable isInEnded
      rw [ran]
      simp only [Machine.classify, Failure.classifyUnless, show reason.isClassified from resumable,
        if_true]
      cases led : raise reason ended.frame with
      | none =>
        rw [led] at raised
        exact .fails (.completion code _) raised
      | some frame =>
        rw [led] at raised
        obtain ⟨opened, isAt, resumed⟩ := raised
        exact ⟨opened, isAt, .resumes (.completion code _) resumed⟩

/-- A round of the start of a region. -/
theorem follows_beginTry (split : ds = pre ++ .beginTry :: after) :
    Follows ds prog (cfg.frame.next, opens) (cycle host prog {} cfg) := by
  obtain ⟨handler, handled, instr⟩ := beginTry_assembled asm split
  rw [← pos] at instr
  rw [(Machine.cycle_tryRegion host instr).2]
  refine ⟨.trying { start := cfg.frame.next + 3, handler } :: opens, ⟨?_, ?_⟩, .enters instr⟩
  · refine ⟨pre ++ [.beginTry], after, by simp [split], ?_, ?_⟩
    · simp [pos]
    · rw [parts_concat, pos]
      exact .trying rfl handled agrees
  · exact ⟨congrArg _ isIn.regions, isIn.completions⟩

/-- A round at the start of a handler, which the protected part leaves. -/
theorem follows_beginFinally (split : ds = pre ++ .beginFinally :: after) :
    Follows ds prog (cfg.frame.next, opens) (cycle host prog {} cfg) := by
  obtain ⟨part, outer, exit, shape, isProtected, _, marked, instr⟩ :=
    beginFinally_assembled asm split
  rw [← pos] at instr
  refine follows_leave asm host agrees isIn split instr ?_
  obtain ⟨between, rest, found, inHandler⟩ :=
    exists_end asm split (show parts pre = [] ++ part :: outer from shape)
  obtain ⟨_, _, otherShape, _, exitMarked, _⟩ := endTry_assembled asm found
  rw [inHandler] at otherShape
  cases otherShape
  have atExit : exit = extent (pre ++ between) + 1 := Option.some.inj (marked.symm.trans exitMarked)
  refine ⟨pre ++ between ++ [.endTry], rest, by simp [found], ?_, ?_⟩
  · simp [atExit, Nat.add_assoc]
  · rw [parts_concat, inHandler, shape]
    simp [Part.canLeave, isProtected, partsAfter, Part.canLeave_refl]

end Follows

theorem IsAt.round (host : Host H) (nested : isNested ds)
    (isAt : IsAt ds cfg.frame opens) :
    Follows ds prog (cfg.frame.next, opens) (cycle host prog {} cfg) := by
  obtain ⟨⟨pre, after, split, pos, agrees⟩, isIn⟩ := isAt
  rcases exists_next after with nothing | ⟨skipped, d, rest, rfl, writes, others⟩
  · -- no code follows
    have missing : prog.code[cfg.frame.next]? = none := by
      rw [Array.getElem?_eq_none_iff, assemble_size asm, split]
      rw [(parts_of_empty nothing).2]
      exact Nat.le_of_eq pos.symm
    simp only [cycle, missing]
    exact .runsOut missing
  · have same : parts (pre ++ skipped) = parts pre ∧ _ := parts_of_empty others
    obtain ⟨sameParts, sameExtent⟩ := same
    have split : ds = (pre ++ skipped) ++ d :: rest := by simp [split]
    rw [← sameParts] at agrees
    have pos : cfg.frame.next = extent (pre ++ skipped) := by
      rw [sameExtent]
      exact pos
    have allowed := isAllowed_of_isNested nested split
    cases d with
    | declareLocal | defineLabel | mark => exact absurd writes (Nat.lt_irrefl 0)
    | beginTry => exact follows_beginTry asm host agrees isIn pos split
    | beginFinally => exact follows_beginFinally asm host agrees isIn pos split
    | endTry => exact follows_endTry asm host agrees isIn pos split
    | jump code _ =>
      obtain ⟨there, _, marked, defined, goes⟩ := exists_of_jumpsWell allowed
      cases found : Op.ofCode? code with
      | none =>
        rw [found] at goes
        cases goes
      | some op =>
        obtain rfl := Op.code_of_ofCode? found
        rw [found] at goes
        by_cases isLeave : op = .leave
        · subst isLeave
          obtain ⟨_, led, instr⟩ := assembled_jump (split ▸ asm)
          rw [← split, marked, assembled_mark (marked ▸ asm) defined] at led
          obtain rfl := Option.some.inj led
          rw [← pos] at instr
          exact follows_leave asm host agrees isIn split instr ⟨there, _, marked, rfl, goes⟩
        · have stays : op.isJump ∧ parts (pre ++ skipped) = parts there := by
            cases op <;> first | exact absurd rfl isLeave | simpa using goes
          exact follows_jump asm host agrees isIn pos split stays.1 marked defined stays.2
    | _ => exact follows_ordinary asm host agrees isIn pos split allowed

end Rounds

end HostScript
