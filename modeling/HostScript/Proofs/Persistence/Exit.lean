import HostScript.Proofs.Emission.Heights
import HostScript.Proofs.Emission.Whole
import HostScript.Proofs.Machine.Nesting
import HostScript.Proofs.Persistence.Code

namespace HostScript

open Directive
open Emission
open Assembly (assemble assembled_mark target?)
open List

/-!
# Leaving the body of a script with a store

The body runs inside of its region and touches neither the store nor the slot that holds it,
until a jump or a failure leads to the handler.
-/

theorem Directive.Steps.of_slot {chk : Checker} {want : Expectation}
    {pre : List Directive} {start finish : Shape} {byte : UInt8} {slot : Nat}
    (steps : Directive.Steps chk want pre (.slot byte slot) start finish) :
    ∃ type, want.slots slot = some type := by
  generalize written : Directive.slot byte (slot : Int) = d at steps
  cases steps with
  | passes _ passes =>
    cases passes with
    | loadLocal _ known | storeLocal _ known | loadLocalAddress _ known =>
      injection written with _ same
      obtain rfl : slot = _ := Int.ofNat.inj same
      exact ⟨_, known⟩
    | _ => cases written
  | _ => cases written

theorem Directive.isOf_of_isStraight {d : Directive} (straight : d.isStraight)
    (writes : 0 < d.size) : d.isOf Op.isStraight = true := by
  cases d with
  | constant val => cases val <;> rfl
  | declareLocal | defineLabel | mark => exact absurd writes (Nat.lt_irrefl 0)
  | _ => exact straight

/-- The program of a script with a store, and the draft of its body. -/
structure Stored (rules : Typed.Rules) (types : Universe) (field : Field) (typed : Typed.Script)
    (body : Draft) (prog : Program) : Prop where
  proper : rules.Proper
  sound : typed.Sound rules types
  code : BodyCode { types, exit := 0 } (.block typed.body) (opening (some field) typed) body
  assembled : Assembly.assemble
    (body.wroteAll (closingDirectives (some field) typed)).directives.reverse = .ok prog

variable {op : Op}

namespace Stored

variable {rules : Typed.Rules} {field : Field} {typed : Typed.Script} {body : Draft}
  {prog : Program}

theorem labels_opening : 0 < labels (opening (some field) typed).directives := by
  rw [opening, Draft.directives_wroteAll, openingDirectives]
  simp only [reverse_append, reverse_cons, labels_append,
    labels_reverse, labels_cons, labelCount]
  omega

variable (stored : Stored rules tys field typed body prog)

include stored

theorem steps :
    ∃ (want : Expectation) (shapes : Nat → Shape), want.slots typed.locals.size = none ∧
      ∀ {pre d rest}, body.directives.reverse = pre ++ d :: rest →
        (opening (some field) typed).directives.length ≤ pre.length →
        d.Steps (scriptChecker rules tys (some field) typed)
          want pre (shapes pre.length) (shapes (pre.length + 1)) := by
  obtain ⟨shapes, marks, flow⟩ := stored.code.flows stored.proper rfl
    (show Emission.Prepared (scriptChecker rules tys (some field) typed) _ _ from
      opening_prepared)
    (fun want => want.marks 0 = []) (fun _ bare => ⟨bare, fun _ => nofun⟩)
    stored.sound.body
  have labelled : 0 < labels (opening (some field) typed).directives := labels_opening
  let want : Expectation :=
    ⟨fun slot => if slot = typed.locals.size then none else body.declared[slot]?,
      fun label => if label = 0 then [] else marks label⟩
  refine ⟨want, shapes, if_pos rfl, ?_⟩
  intro pre d rest split inside
  refine flow.steps want ?_ rfl ?_ split inside
  · intro slot _ decl own
    have differs : slot ≠ typed.locals.size := by
      rcases own with isVariable | isScratch
      · exact Nat.ne_of_lt isVariable
      · exact Nat.ne_of_gt isScratch
    exact (if_neg differs).trans decl
  · intro label _ _
    exact if_neg (by omega)

variable {rest : List Directive}

theorem defined (split : body.directives.reverse = pre ++ .mark label :: rest)
    (inside : (opening (some field) typed).directives.length ≤ pre.length) :
    label < labels pre := by
  obtain ⟨_, _, _, steps⟩ := stored.steps
  exact (Directive.Steps.of_mark (steps split inside)).1

theorem apart {byte : UInt8} {slot : Nat}
    (split : body.directives.reverse = pre ++ .slot byte slot :: rest)
    (inside : (opening (some field) typed).directives.length ≤ pre.length) :
    slot ≠ typed.locals.size := by
  obtain ⟨_, _, unknown, steps⟩ := stored.steps
  obtain ⟨_, known⟩ := Directive.Steps.of_slot (steps split inside)
  rintro rfl
  rw [unknown] at known
  cases known

theorem stays (split : body.directives.reverse = pre ++ d :: rest)
    (within : (opening (some field) typed).directives.reverse <+: pre) :
    d.Stays (fun label => ∃ first second, body.directives.reverse = first ++ .mark label :: second ∧
        (opening (some field) typed).directives.reverse <+: first)
      (fun label => label = 0) := by
  obtain ⟨new, shape, stays⟩ := stored.code.encloses (fun _ => False) fun _ ⟨_, mem, _⟩ =>
    nomatch mem
  obtain ⟨inner, rfl⟩ := within
  have reversed : body.directives.reverse =
      (opening (some field) typed).directives.reverse ++ new.reverse := by
    rw [shape, reverse_append]
  have isNew : new.reverse = inner ++ d :: rest := by
    rw [reversed, append_assoc] at split
    exact append_cancel_left split
  refine stays _ (fun _ absurd => absurd.elim) ?_ d
    (mem_reverse.mp (isNew ▸ mem_append_right _ mem_cons_self))
  intro label mem
  obtain ⟨first, second, found⟩ := append_of_mem (mem_reverse.mpr mem)
  refine ⟨(opening (some field) typed).directives.reverse ++ first, second, ?_, prefix_append _ _⟩
  rw [reversed, found, append_assoc]

def whole (field : Field) (typed : Typed.Script) (body : Draft) : List Directive :=
  (body.wroteAll (closingDirectives (some field) typed)).directives.reverse

omit stored in
theorem whole_eq (split : body.directives.reverse = pre ++ d :: rest) :
    whole field typed body = pre ++ d :: (rest ++ closingDirectives (some field) typed) := by
  rw [whole, Draft.directives_wroteAll, reverse_append, reverse_reverse, split]
  simp

theorem jumps (split : body.directives.reverse = pre ++ .jump op label :: rest) :
    ∃ tgt, target? (whole field typed body) label = some tgt ∧
      prog.HasInstruction (extent pre) op tgt := by
  have asm : assemble (whole field typed body) = .ok prog := stored.assembled
  rw [whole_eq split] at asm ⊢
  exact Assembly.assembled_jump asm

theorem marks (split : body.directives.reverse = pre ++ .mark label :: rest)
    (inside : (opening (some field) typed).directives.length ≤ pre.length) :
    target? (whole field typed body) label = some (extent pre) := by
  have asm : assemble (whole field typed body) = .ok prog := stored.assembled
  rw [whole_eq split] at asm ⊢
  exact assembled_mark asm (stored.defined split inside)

def exit (typed : Typed.Script) (body : Draft) : Nat :=
  extent ((leaving typed body).wrote .endTry).directives

theorem opening_suffix :
    (opening (some field) typed).directives <:+
      ((leaving typed body).wrote .endTry).directives := by
  obtain ⟨new, shape, _⟩ := stored.code.encloses (fun _ => True) fun _ _ => trivial
  have inBody : (opening (some field) typed).directives <:+ body.directives := ⟨new, shape.symm⟩
  have saved : (body.wrote .beginFinally).directives <:+ (leaving typed body).directives :=
    Draft.suffix_wroteAll _ _
  exact (inBody.trans (suffix_cons _ _)).trans (saved.trans (suffix_cons _ _))

theorem marks_exit : target? (whole field typed body) 0 = some (exit typed body) := by
  have shape : whole field typed body =
      ((leaving typed body).wrote .endTry).directives.reverse ++ [.mark 0, .plain Op.ret] := by
    rw [whole, closing_eq]
    simp [Draft.wrote]
  have asm : assemble (whole field typed body) = .ok prog := stored.assembled
  rw [shape] at asm ⊢
  have marked := assembled_mark asm (by
    rw [labels_reverse]
    exact Nat.lt_of_lt_of_le labels_opening (labels_le_of_suffix stored.opening_suffix))
  rwa [extent_reverse] at marked

theorem emitted :
    ((((leaving typed body).wrote .endTry).wrote (.mark 0)).wrote
      (.plain Op.ret)).Emitted prog := by
  have asm := stored.assembled
  rw [closing_eq] at asm
  exact ⟨[], by rwa [append_nil]⟩

theorem emitted_opening : (opening (some field) typed).Emitted prog :=
  stored.emitted.earlier (stored.opening_suffix.trans ((suffix_cons _ _).trans (suffix_cons _ _)))

theorem held_lt : typed.locals.size < prog.locals.size := by
  have suffix : (declaring typed).directives <:+
      (opening (some field) typed).directives := by
    rw [opening_eq]
    exact (Draft.suffix_wroteAll _ _).trans ((Draft.suffix_wroteAll _ _).trans (suffix_cons _ _))
  obtain ⟨_, asm⟩ := stored.emitted_opening.earlier suffix
  have counted := congrArg List.length (Assembly.assemble_locals asm)
  have decl := congrArg List.length (declared_declaring typed)
  rw [Draft.declared] at decl
  rw [filterMap_append, length_append, decl] at counted
  simp only [Array.length_toList, length_append, length_singleton] at counted
  omega

theorem slot_lt (mem : decl ∈ typed.persistent) : decl.slot < typed.locals.size :=
  (Array.getElem?_eq_some_iff.mp (stored.sound.persistent decl mem).1).1

end Stored

/-- How a configuration leaves the body that it is in. -/
inductive Machine.Quits (host : Host H) (prog : Program) (cfg : Configuration H) :
    Ending → Prop
  | leaves {target} (instr : prog.HasInstruction cfg.frame.next Op.leave target) :
      Quits host prog cfg (.ok ())
  | fails {op : Op} {trouble : Trouble} (code : prog.code[cfg.frame.next]? = some op.code)
      (failed : (Step.perform host prog op cfg.begun).1 = .error trouble) :
      Quits host prog cfg (.error (Machine.classify op.code cfg.frame.next trouble))

/-- How an invocation ends that resumes this last. -/
def Resumption.ending : Resumption → Ending
  | .jump _ => .ok ()
  | .failure reason => .error reason

namespace Stored

open Machine

def region (field : Field) (typed : Typed.Script) (body : Draft) : Region where
  start := extent (opening (some field) typed).directives
  handler := extent (body.wrote .beginFinally).directives

/-- A configuration whose store is this one, and is held in the slot for it. -/
structure Holds (typed : Typed.Script) (prog : Program) (store : Store)
    (cfg : Configuration H) : Prop where
  held : cfg.frame.locals[typed.locals.size]? = some .state
  size : cfg.frame.locals.size = prog.locals.size
  store : cfg.world.store = store

/-- A configuration inside of the body. -/
structure Inside (field : Field) (typed : Typed.Script) (body : Draft) (prog : Program)
    (store : Store) (cfg : Configuration H) : Prop where
  holds : Holds typed prog store cfg
  regions : cfg.frame.regions = [region field typed body]
  completions : cfg.frame.completions = []
  place : ∃ before rest, body.directives.reverse = before ++ rest ∧
    (opening (some field) typed).directives.reverse <+: before ∧
    cfg.frame.next = extent before

/-- A configuration at the start of the handler. -/
structure Left (typed : Typed.Script) (body : Draft) (prog : Program) (store : Store)
    (resumption : Resumption) (cfg : Configuration H) : Prop where
  holds : Holds typed prog store cfg
  next : cfg.frame.next = extent (body.wrote .beginFinally).directives
  regions : cfg.frame.regions = []
  completions : cfg.frame.completions = [{ resumption, depth := 0 }]
  resumes : resumption = .jump (exit typed body) ∨
    ∃ failure, resumption = .failure failure ∧ failure.isClassified = true

section

variable {rules : Typed.Rules} {field : Field} {typed : Typed.Script} {body : Draft}
  {prog : Program} {host : Host H} {store : Store} {cfg : Configuration H}

/-- What an instruction of the body does not move. -/
def Still (typed : Typed.Script) (before after : Configuration H) : Prop :=
  Step.Unmoved (fun store => store) (fun slot => slot = typed.locals.size) before after

variable {after : Configuration H}

theorem Holds.still (holds : Holds typed prog store cfg) (still : Still typed cfg.begun after) :
    Holds typed prog store after where
  held := (still.locals _ rfl).trans holds.held
  size := still.size.trans holds.size
  store := still.store.trans holds.store

section

variable (inside : Inside field typed body prog store cfg)

include inside

theorem Inside.failed (code : prog.code[cfg.frame.next]? = some op.code)
    (ran : Step.perform host prog op cfg.begun = (.error trouble, after))
    (still : Still typed cfg.begun after) :
    ∃ next resumption, cycle host prog {} cfg = .continues next ∧
      Quits host prog cfg resumption.ending ∧ Left typed body prog store resumption next := by
  have pos : after.frame.position = cfg.frame.next := still.position
  have regions : after.frame.regions = [region field typed body] :=
    still.regions.trans inside.regions
  have completions : after.frame.completions = [] := still.completions.trans inside.completions
  have holds := inside.holds.still still
  let reason := classify op.code cfg.frame.next trouble
  have continues : cycle host prog {} cfg = .continues
        { after with
          frame :=
            { after.frame with
              regions := []
              completions := [{ resumption := .failure reason, depth := 0 }]
              stack := []
              next := (region field typed body).handler } } := by
    rw [cycle_eq host code, ran]
    simp only [raise, regions, completions, pos]
    rfl
  exact ⟨_, .failure reason, continues, .fails code (by rw [ran]),
    ⟨holds.held, holds.size, holds.store⟩, rfl, rfl, rfl,
    Or.inr ⟨_, rfl, Failure.isClassified_classifyUnless _ _ _ _⟩⟩

theorem Inside.moved (code : prog.code[cfg.frame.next]? = some op.code)
    (ran : Step.perform host prog op cfg.begun = (.ok false, after))
    (still : Still typed cfg.begun after)
    (place : ∃ pre rest, body.directives.reverse = pre ++ rest ∧
      (opening (some field) typed).directives.reverse <+: pre ∧
      after.frame.next = extent pre) :
    ∃ next, cycle host prog {} cfg = .continues next ∧ Inside field typed body prog store next := by
  refine ⟨after, ?_, ⟨inside.holds.still still, still.regions.trans inside.regions,
    still.completions.trans inside.completions, place⟩⟩
  rw [cycle_eq host code, ran]

theorem Inside.leaves (instr : prog.HasInstruction cfg.frame.next Op.leave (exit typed body)) :
    ∃ next resumption, cycle host prog {} cfg = .continues next ∧
      Quits host prog cfg resumption.ending ∧ Left typed body prog store resumption next := by
  have outside : (region field typed body).contains (exit typed body) = false := by
    have handled : extent (body.wrote .beginFinally).directives ≤ exit typed body := by
      rw [exit, leaving]
      simp only [Draft.wrote, Draft.directives_wroteAll, extent_append,
        extent_cons]
      omega
    rw [Region.contains, Bool.and_eq_false_iff]
    exact .inr (decide_eq_false (Nat.not_lt.mpr handled))
  have left := (cycle_leave_region host instr inside.regions outside).2
  refine ⟨_, .jump (exit typed body), left, .leaves instr, ?_⟩
  exact ⟨⟨inside.holds.held, inside.holds.size, inside.holds.store⟩, rfl, rfl,
    by simp [inside.completions], .inl rfl⟩

end

theorem Inside.round (stored : Stored rules tys field typed body prog)
    (spares : host.Spares fun store => store) (inside : Inside field typed body prog store cfg) :
    (∃ next, cycle host prog {} cfg = .continues next ∧ Inside field typed body prog store next) ∨
    ∃ next resumption, cycle host prog {} cfg = .continues next ∧
      Quits host prog cfg resumption.ending ∧ Left typed body prog store resumption next := by
  obtain ⟨pre, rest, split, within, next⟩ := inside.place
  rcases exists_next rest with empty | ⟨skipped, d, further, rfl, writes, others⟩
  · -- nothing more is written in the body
    refine .inr (inside.leaves ?_)
    have last : extent body.directives = cfg.frame.next := by
      have same : extent (pre ++ rest) = extent pre := (parts_of_empty empty).2
      rw [← split, extent_reverse] at same
      exact same.trans next.symm
    rw [← last]
    exact (region_assembled stored.code stored.assembled).2.1
  rw [← (parts_of_empty others).2] at next
  rw [← append_assoc] at split
  replace within := within.trans (prefix_append pre skipped)
  generalize pre ++ skipped = here at next split within
  have long : (opening (some field) typed).directives.length ≤ here.length := by
    simpa using within.length_le
  have asm : assemble (whole field typed body) = .ok prog := stored.assembled
  have following : ∃ first second, body.directives.reverse = first ++ second ∧
      (opening (some field) typed).directives.reverse <+: first ∧
      cfg.frame.next + d.size = extent first :=
    ⟨here ++ [d], further, by simp [split], within.trans (prefix_append _ _), by simp [next]⟩
  rcases stored.stays split within with straight | ⟨op, label, isJump, marked, rfl⟩ |
    ⟨label, rfl, rfl⟩
  · obtain ⟨_, _, _, steps⟩ := stored.steps
    obtain ⟨op, code, isStraight, size, sets⟩ := Assembly.operation_assembled asm
      (whole_eq split) (isOf_of_isStraight straight writes)
    rw [← next] at code sets
    simp only [Op.isStraight, Bool.and_eq_true, bne_iff_ne] at isStraight
    have notHeld : op = .storeLocal → ∀ slot, prog.word? cfg.begun.frame.next = some slot →
        ¬slot = typed.locals.size := by
      rintro rfl slot word
      obtain ⟨named, rfl, instr⟩ := sets rfl (steps split long).isClassed
      have same : named = slot := Option.some.inj (instr.word.symm.trans word)
      exact same ▸ stored.apart split long
    obtain ⟨still, goesOn⟩ := Step.perform_goesOn spares prog isStraight.1.1
      (fun isSet => absurd isSet isStraight.2) cfg.begun notHeld
    rcases ran : Step.perform host prog op cfg.begun with
      ⟨trouble | res, after⟩
    · rw [ran] at still
      exact .inr (inside.failed code ran still)
    · rw [ran] at still goesOn
      obtain ⟨rfl, moved⟩ := goesOn res rfl
      refine .inl (inside.moved code ran still ?_)
      have place : after.frame.next = cfg.frame.next + d.size := by
        rw [size, ← Nat.add_assoc]
        exact moved
      rwa [place]
  · obtain ⟨tgt, found, instr⟩ := stored.jumps split
    obtain ⟨first, second, marking, inBody⟩ := marked
    have there : tgt = extent first :=
      Option.some.inj (found.symm.trans (stored.marks marking (by simpa using inBody.length_le)))
    rw [← next] at instr
    have jumps : Still typed cfg.begun (Step.perform host prog op cfg.begun).2 ∧ _ :=
      Step.perform_jump host prog isJump
        (show prog.word? cfg.begun.frame.next = some tgt from instr.word)
    obtain ⟨still, goesOn⟩ := jumps
    rcases ran : Step.perform host prog op cfg.begun with
      ⟨trouble | res, after⟩
    · rw [ran] at still
      exact .inr (inside.failed instr.code ran still)
    · rw [ran] at still goesOn
      obtain ⟨rfl, jumped | passed⟩ := goesOn res rfl
      · exact .inl (inside.moved instr.code ran still
          ⟨first, _, marking, inBody, jumped.trans there⟩)
      · exact .inl (inside.moved instr.code ran still (passed ▸ following))
  · refine .inr (inside.leaves ?_)
    obtain ⟨tgt, found, instr⟩ := stored.jumps split
    rwa [Option.some.inj (found.symm.trans stored.marks_exit), ← next] at instr

theorem Inside.onward (stored : Stored rules tys field typed body prog)
    (spares : host.Spares fun store => store) (inside : Inside field typed body prog store cfg)
    {rounds : Nat} {answer : Option Ending} {last : Configuration H}
    (done : runFor host prog {} rounds cfg = (answer, last)) :
    (answer = none ∧ Inside field typed body prog store last) ∨
    ∃ quitting left resumption more,
      Passes host prog (Inside field typed body prog store) cfg quitting ∧
      Inside field typed body prog store quitting ∧ cycle host prog {} quitting = .continues left ∧
      Quits host prog quitting resumption.ending ∧ Left typed body prog store resumption left ∧
      runFor host prog {} more left = (answer, last) := by
  induction rounds generalizing cfg with
  | zero =>
    cases done
    exact .inl ⟨rfl, inside⟩
  | succ rounds ih =>
    rcases inside.round stored spares with
      ⟨next, continues, stays⟩ | ⟨left, resumption, continues, quits, atHandler⟩
    · simp only [runFor, continues] at done
      rcases ih stays done with
        ended | ⟨quitting, left, resumption, more, passes, facts⟩
      · exact .inl ended
      · exact .inr ⟨quitting, left, resumption, more, .step inside continues passes, facts⟩
    · simp only [runFor, continues] at done
      exact .inr ⟨cfg, left, resumption, rounds, .refl _, inside, continues, quits, atHandler, done⟩

/-- While the handler runs, some of the persistent variables are saved. -/
def Saving (typed : Typed.Script) (values : Entries Value) (locals : Array Value)
    (cfg : Configuration H) : Prop :=
  cfg.frame.regions = [] ∧ ∃ count,
    cfg.world.store = .memory (values.saved locals (typed.persistent.take count))

theorem Left.ends (stored : Stored rules tys field typed body prog)
    (left : Left typed body prog (.memory vals) resumption cfg) :
    ∃ final last, Passes host prog (Saving typed vals cfg.frame.locals) cfg final ∧
      Saving typed vals cfg.frame.locals final ∧
      cycle host prog {} final = .ends resumption.ending last ∧
      last.world.store = .memory (vals.saved cfg.frame.locals typed.persistent) := by
  have savesEmitted : (leaving typed body).Emitted prog :=
    stored.emitted.earlier ((suffix_cons _ _).trans ((suffix_cons _ _).trans (suffix_cons _ _)))
  have inside : ∀ decl ∈ typed.persistent, decl.slot < cfg.frame.locals.size := by
    intro decl mem
    have slot := stored.slot_lt mem
    have held := stored.held_lt
    have size := left.holds.size
    omega
  have known : ∀ (other : Configuration H) (count : Nat), other.frame.regions = cfg.frame.regions →
      other.world.store = .memory (vals.saved cfg.frame.locals (typed.persistent.take count)) →
      Saving typed vals cfg.frame.locals other :=
    fun other count sameRegions sameStore => ⟨sameRegions.trans left.regions, count, sameStore⟩
  obtain ⟨saved, passes, arrives, _, store⟩ := passes_saves left.next host savesEmitted rfl
    left.holds.held inside left.holds.store known
  have code : prog.code[saved.frame.next]? = some Op.endFinally.code := by
    rw [arrives.next]
    exact (region_assembled stored.code stored.assembled).2.2
  have regions := arrives.regions.trans left.regions
  have completions := arrives.completions.trans left.completions
  have saving : ∀ other : Configuration H, other.frame.regions = [] →
      other.world.store = saved.world.store →
      Saving typed vals cfg.frame.locals other := by
    intro other sameRegions sameStore
    refine ⟨sameRegions, typed.persistent.length, ?_⟩
    rw [take_length]
    exact sameStore.trans store
  rcases left.resumes with rfl | ⟨_, rfl, isClassified⟩
  · have jumps := (cycle_endFinally_jump host code completions regions).2
    refine ⟨_, _, passes.trans (.single (saving _ regions rfl) jumps), saving _ regions rfl,
      (cycle_ret host ?_).2, store⟩
    have ret := stored.emitted.plain
    rwa [Draft.extent_wrote] at ret
  · exact ⟨saved, _, passes, saving _ regions rfl,
      (cycle_endFinally_failure host code completions regions isClassified).2, store⟩

end

end Stored

end HostScript
