import HostScript.Proofs.Emission.Region
import HostScript.Proofs.Simulation.Statement

namespace HostScript.Simulation

open Machine Evaluation Emission
open Typed (Rules)
open Carries (push)
open Draft (wroteAll_append wroteAll_leads wrote_leads)
open Interaction (on)
open List
open Performs (after give later)

/-!
# Code that reads and writes persistent variables

The store is held in a local variable of its own.
-/

section

variable {env : Setting H} {rounds : Nat} {slots : Array Value} {draft : Draft}
  {cfg : Configuration H} {held : Nat} {holder : Value}

def Setting.IsVariable (env : Setting H) (slot : Nat) : Prop :=
  slot < env.locals.size

/-- The store is in a slot that is no variable's. -/
structure Holding (env : Setting H) (held : Nat) (holder : Value)
    (cfg : Configuration H) : Prop where
  above : env.locals.size ≤ held
  present : cfg.frame.locals[held]? = some holder
  isPlain : holder.isPlain = true

variable {decl : Variable} {persistent : List Variable}

section

variable (holding : Holding env held holder cfg)

include holding

theorem Holding.kept (kept : Kept owned cfg last) (notOwned : ¬owned held) :
    Holding env held holder last :=
  ⟨holding.above, (kept.locals held notOwned).trans holding.present, holding.isPlain⟩

theorem performs_load (holds : env.Holds slots) (ready : Ready env slots draft cfg)
    (written : env.Written (draft.wroteAll (loadDirectives held decl)))
    (sound : Typed.VariableSound env.locals decl) :
    Performs env rounds env.IsVariable slots cfg (Performance.after (fun _ => act
          (fun _ => on (.readState decl.type) holder [.string decl.name])
          (Act.readState env.host decl.type holder (.string decl.name)))
        (Performance.put decl.slot)) fun signal slots last =>
        signal = .passed ∧ last.frame.stack = cfg.frame.stack ∧ env.Holds slots ∧
          Ready env slots (draft.wroteAll (loadDirectives held decl)) last := by
  have readWritten := written.earlier (wrote_leads _ _)
  have nameWritten := readWritten.earlier (wrote_leads _ _)
  have inside := inside_of_variable
    (Draft.wroteAll_proper ready.proper (loadDirectives held decl)) written sound
  have isVariable : env.IsVariable decl.slot := (Array.getElem?_eq_some_iff.mp sound.1).1
  have read : Carries env (fun _ => False) cfg
      (act (fun _ => on (.readState decl.type) holder [.string decl.name])
        (Act.readState env.host decl.type holder (.string decl.name)))
      (Gives env slots (draft.wroteAll [.slot Op.loadLocal held, .constant (.string decl.name),
        .type Op.stateGet decl.type]) cfg.frame.stack) := by
    refine push ready (.slot Op.loadLocal held)
      (ready.yields_local (nameWritten.earlier (wrote_leads _ _)) holding.present) ?_
    intro _ readyFirst stackFirst _ _ _
    refine push readyFirst (.constant (.string decl.name))
      (readyFirst.yields_constant nameWritten) ?_
    intro _ readySecond stackSecond _ _ _
    rw [stackFirst] at stackSecond
    obtain ⟨_, instr, present⟩ := readWritten.emitted.type
    rw [← readySecond.next] at instr
    exact .value readySecond (.type Op.stateGet decl.type)
      (yields_stateGet env.host instr present stackSecond holding.isPlain)
      (Act.readState_plain env.host _ _ _)
  refine after ⟨holds, ready.slots⟩ read (fun _ owns => owns.elim)
    (fun _ owns => owns.elim) fun stored _ _ ⟨readyMid, stackMid, isPlain⟩ => ?_
  refine later (readyMid.runs_store written stackMid inside) rfl
    ((Kept.moved _ _ _ _).stored isVariable stored) ?_
  exact fun _ => ⟨0, [], _, .refl _, by rw [append_nil], .refl _ _, rfl, rfl,
    holds.put decl.slot isPlain, readyMid.stored_variable holds inside _ stored⟩

theorem performs_loaded (holds : env.Holds slots) (ready : Ready env slots draft cfg)
    (written : env.Written (draft.wroteAll (persistent.flatMap (loadDirectives held))))
    (sound : ∀ decl ∈ persistent, Typed.VariableSound env.locals decl) :
    Performs env rounds env.IsVariable slots cfg
      (loaded env.host holder persistent) fun signal slots last =>
        signal = .passed ∧ last.frame.stack = cfg.frame.stack ∧ env.Holds slots ∧
          Ready env slots (draft.wroteAll (persistent.flatMap (loadDirectives held))) last := by
  induction persistent generalizing slots draft cfg with
  | nil => exact give ⟨rfl, rfl, holds, ready⟩
  | cons decl _ ih =>
    rw [flatMap_cons, wroteAll_append] at written ⊢
    refine .andThen (performs_load holding holds ready
      (written.earlier (wroteAll_leads _ _)) (sound decl mem_cons_self)) ?_
      fun _ _ _ unusual reached => absurd reached.1 unusual
    intro slots _ kept ⟨_, stackMid, holdsMiddle, readyMid⟩
    have ran := ih (holding.kept kept (Nat.not_lt.mpr holding.above)) holdsMiddle readyMid written
      fun other mem => sound other (mem_cons_of_mem _ mem)
    rwa [stackMid] at ran

omit holding in
theorem Carries.boxed (ready : Ready env slots draft cfg) (isBoxed : Bool)
    (written : env.Written (draft.wroteAll (if isBoxed then [.type Op.box type] else [])))
    (stack : cfg.frame.stack = given :: rest) (following : ∀ last,
      Ready env slots (draft.wroteAll (if isBoxed then [.type Op.box type] else [])) last →
      last.frame.stack = given :: rest → Carries env owned last evaluated suits) :
    Carries env owned cfg evaluated suits := by
  cases isBoxed with
  | false => exact following cfg ready stack
  | true =>
    obtain ⟨_, instr, _⟩ := written.emitted.type
    rw [← ready.next] at instr
    exact push ready (.type Op.box type) (yields_box env.host instr stack)
      fun last readyLast stackLast _ _ _ => following last readyLast stackLast

theorem carries_save (ready : Ready env slots draft cfg)
    (written : env.Written (draft.wroteAll (saveDirectives held decl)))
    (isVariable : env.IsVariable decl.slot) (known : slots[decl.slot]? = some given)
    (isPlain : given.isPlain) :
    Carries env (fun _ => False) cfg
      (act (fun _ => on .writeState holder [.string decl.name, given])
        (Act.writeState holder (.string decl.name) given)) fun _ last =>
        Ready env slots (draft.wroteAll (saveDirectives held decl)) last ∧
          last.frame.stack = cfg.frame.stack := by
  unfold saveDirectives at written ⊢
  rw [wroteAll_append, wroteAll_append] at written ⊢
  have boxWritten := written.earlier (wrote_leads _ _)
  have loadWritten := boxWritten.earlier (wroteAll_leads _ _)
  have nameWritten := loadWritten.earlier (wrote_leads _ _)
  refine push ready (.slot Op.loadLocal held)
    (ready.yields_local (nameWritten.earlier (wrote_leads _ _)) holding.present) ?_
  intro _ readyFirst stackFirst _ _ _
  refine push readyFirst (.constant (.string decl.name)) (readyFirst.yields_constant nameWritten) ?_
  intro _ readySecond stackSecond _ _ _
  refine push readySecond (.slot Op.loadLocal decl.slot)
    (readySecond.yields_local loadWritten ((readySecond.slots _ isVariable).trans known)) ?_
  intro _ readyThird stackThird _ _ _
  rw [stackSecond, stackFirst] at stackThird
  refine Carries.boxed readyThird _ boxWritten stackThird ?_
  intro boxed readyBoxed stackBoxed
  have code : env.program.code[boxed.frame.next]? = some Op.stateSet.code :=
    readyBoxed.next ▸ written.emitted.plain
  exact Carries.effect readyBoxed (.plain Op.stateSet)
    (yields_stateSet env.host code stackBoxed holding.isPlain)
    (Act.writeState_plain isPlain _ _)

theorem performs_saved (holds : env.Holds slots) (ready : Ready env slots draft cfg)
    (written : env.Written (draft.wroteAll (persistent.flatMap (saveDirectives held))))
    (sound : ∀ decl ∈ persistent, Typed.VariableSound env.locals decl) :
    Performs env rounds env.IsVariable slots cfg (saved holder persistent) fun signal after last =>
        signal = .passed ∧ after = slots ∧
          Ready env slots (draft.wroteAll (persistent.flatMap (saveDirectives held))) last := by
  induction persistent generalizing draft cfg with
  | nil => exact give ⟨rfl, rfl, ready⟩
  | cons decl _ ih =>
    rw [flatMap_cons, wroteAll_append] at written ⊢
    have isVariable : env.IsVariable decl.slot :=
      (Array.getElem?_eq_some_iff.mp (sound decl mem_cons_self).1).1
    have inSlots : decl.slot < slots.size := holds.size ▸ isVariable
    have known : slots[decl.slot]? = some (slots.getD decl.slot .null) := by
      rw [Array.getD_eq_getD_getElem?, Array.getElem?_eq_getElem inSlots]
      rfl
    have isPlain := holds.plain _ (Array.mem_of_getElem? known)
    have carried := carries_save holding ready (written.earlier (wroteAll_leads _ _))
      isVariable known isPlain
    have first : Performs env rounds env.IsVariable slots cfg (.after (fun slots => act
            (fun _ => on .writeState holder [.string decl.name, slots.getD decl.slot .null])
            (Act.writeState holder (.string decl.name) (slots.getD decl.slot .null)))
          fun _ => .give .passed) fun signal after last =>
          signal = .passed ∧ after = slots ∧
            Ready env slots (draft.wroteAll (saveDirectives held decl)) last :=
      after ⟨holds, ready.slots⟩ carried (fun _ owns => owns.elim)
        (fun _ owns => owns.elim) fun _ _ _ ⟨readyLast, _⟩ => give ⟨rfl, rfl, readyLast⟩
    refine first.andThen ?_ fun _ _ _ unusual reached => absurd reached.1 unusual
    rintro _ _ kept ⟨_, rfl, readyMid⟩
    exact ih (holding.kept kept (Nat.not_lt.mpr holding.above)) readyMid
      written fun other mem => sound other (mem_cons_of_mem _ mem)

end

end

end HostScript.Simulation

namespace HostScript.Simulation

open Machine Evaluation Emission
open Typed (Rules)
open Directive (extent)
open Draft (wroteAll_leads wrote_leads)
open List

/-!
# Programs of scripts carry out their evaluation

The body of a script with a store stands in a protected region whose handler writes the
persistent variables.
-/

/-- The program of a setting is that of a script. -/
structure Compiled (env : Setting H) (state : Option Field) (typed : Typed.Script)
    (body : Draft) : Prop where
  locals : env.locals = typed.locals
  bodyCode : BodyCode { types := env.types, exit := 0 } (.block typed.body)
    (opening state typed) body
  directives : env.directives = (body.wroteAll (closingDirectives state typed)).directives.reverse
  sound : typed.Sound Rules.valued env.types
  field : ∀ field, state = some field → Rules.valued.field field

/-- An invocation ends as an evaluation does, with the same log, world and variables, and with
success or the same trouble; it does not end soon if the evaluation was cut off. -/
def Concludes (env : Setting H) (rounds : Nat) (cfg : Configuration H) (log : List Interaction) :
    Option (Except Trouble Signal × Moment H) → Prop
  | none =>
    ∃ many seen last, rounds ≤ many ∧ Runs env.host env.program many cfg seen last
  | some (result, moment) =>
    ∃ many ending last, runFor env.host env.program {} many cfg = (some ending, last) ∧
      moment.scene.log = log ++ trace env.host env.program many cfg ∧
      last.world = moment.scene.world ∧ Shows env moment.slots last ∧
      match result with
      | .ok _ => ending = .ok ()
      | .error trouble => ∃ byte pos, ending = .error (classify byte pos trouble)

section

variable {env : Setting H} {rounds : Nat} {cfg : Configuration H}

theorem Concludes.later (run : Runs env.host env.program many cfg seen mid)
    (concludes : Concludes env rounds mid (log ++ seen) res) :
    Concludes env rounds cfg log res := by
  cases res with
  | none =>
    obtain ⟨more, _, last, _, further⟩ := concludes
    exact ⟨many + more, _, last, by omega, run.trans further⟩
  | some res =>
    obtain ⟨more, ending, last, ended, logged, rest⟩ := concludes
    obtain ⟨ran, traced⟩ := run.runFor_add more
    refine ⟨many + more, ending, last, ran.trans ended, ?_, rest⟩
    rw [logged, traced, append_assoc]

variable {log : List Interaction} {typed : Typed.Script}

theorem Concludes.stopped {moment}
    (stops : Stops env.host env.program cfg trouble moment.scene.world)
    (outside : cfg.frame.regions = []) (logged : moment.scene.log = log ++ observe env.program cfg)
    (shows : Shows env moment.slots cfg) :
    Concludes env rounds cfg log (some (.error trouble, moment)) := by
  obtain ⟨byte, pos, _, _, ends⟩ := stops.cycle_free env.host outside
  obtain ⟨ended, traced⟩ := (Runs.refl cfg).ends ends
  refine ⟨_, _, _, ended, ?_, rfl, ⟨shows.holds, shows.slots⟩, byte, pos, rfl⟩
  rw [traced, logged]
  rfl

/-- The last instruction ends the invocation with success. -/
theorem Concludes.returned (holds : env.Holds slots) (ready : Ready env slots draft cfg)
    (written : env.Written (draft.wrote (.plain Op.ret))) :
    Concludes env rounds cfg log
      (some (.ok signal, ⟨slots, cfg.scene log⟩)) := by
  have code := written.emitted.plain
  rw [← ready.next] at code
  obtain ⟨silent, ends⟩ := cycle_ret env.host code
  obtain ⟨ended, traced⟩ := (Runs.refl cfg).ends ends
  refine ⟨_, _, _, ended, ?_, rfl, ⟨holds, ready.slots⟩, rfl⟩
  rw [traced, silent, append_nil, append_nil]

theorem opening_defines (state : Option Field) (typed : Typed.Script) :
    0 < (opening state typed).nextLabel := by
  unfold opening openingDirectives
  rw [nextLabel_wroteAll, Directive.labels_append, Directive.labels_cons]
  simp only [Directive.labelCount]
  omega

variable {body : Draft}

theorem AtJump.instruction (standing : AtJump env slots op label cfg)
    (marked : Assembly.target? env.directives label = some tgt) :
    env.program.HasInstruction cfg.frame.next op tgt := by
  obtain ⟨_, ready, written⟩ := standing
  exact ready.jump written marked

theorem AtJump.elsewhere {last} (standing : AtJump env slots op label cfg)
    (proper : place.Proper env.locals.size)
    (next : last.frame.next = extent place.directives)
    (locals : last.frame.locals = cfg.frame.locals) (world : last.world = cfg.world) :
    Ready env slots place last :=
  let ⟨_, ready, _⟩ := standing
  ready.elsewhere proper next locals world

theorem Compiled.openingWritten (compiled : Compiled env state typed body) :
    env.Written (opening state typed) := by
  have all : env.Written (body.wroteAll (closingDirectives state typed)) :=
    Setting.written_of_eq compiled.directives
  exact (all.earlier (wroteAll_leads _ _)).earlier
    ((compiled.bodyCode.grows _) (opening_proper state typed)).2

/-- A script without a store: what its body comes to is what the invocation ends with. -/
theorem Compiled.concludes_plain (compiled : Compiled env none typed body) (holds : env.Holds slots)
    (ready : Ready env slots (opening none typed) cfg) (outside : cfg.frame.regions = []) :
    Concludes env rounds cfg [] (Evaluation.script env.host env.types rounds none typed
        ⟨slots, cfg.scene []⟩) := by
  have written : env.Written ((body.wrote (.mark 0)).wrote (.plain Op.ret)) :=
    Setting.written_of_eq compiled.directives
  have markWritten := written.earlier (wrote_leads _ _)
  have bodyWritten := markWritten.earlier (wrote_leads _ _)
  have sound := compiled.sound.body
  rw [← compiled.locals] at sound
  have performed := accomplished rounds compiled.bodyCode rfl bodyWritten sound slots
    cfg holds ready []
  change Performed env rounds _ _ cfg []
    (Evaluation.script env.host env.types rounds none typed _) at performed
  rcases res : Evaluation.script env.host env.types rounds none typed
      ⟨slots, cfg.scene []⟩ with
    _ | ⟨trouble | signal, moment⟩ <;> rw [res] at performed
  · exact performed
  · obtain ⟨many, seen, last, run, logged, stops, _, kept, shows⟩ := performed
    exact .later run (.stopped stops (kept.regions.trans outside) (by simpa using logged) shows)
  · obtain ⟨many, seen, last, run, same, kept, _, holdsLast, stands⟩ := performed
    refine .later run ?_
    obtain ⟨slots, scene⟩ := moment
    obtain rfl : scene = _ := same
    cases signal with
    | passed => exact .returned holdsLast (stands.skip rfl) written
    | broke | continued =>
      obtain ⟨_, _, absurd, _⟩ := stands
      cases absurd
    | returned =>
      have stands : AtJump env slots Op.leave 0 last := stands
      obtain ⟨bodyProper, leads⟩ := compiled.bodyCode.grows _ ready.proper
      have known := labels_le leads ready.proper
      have marked := markWritten.target (Nat.lt_of_lt_of_le (opening_defines none typed) known)
      have leave := Runs.silently
        (cycle_leave_free env.host (stands.instruction marked) (kept.regions.trans outside))
      have readyLast : Ready env slots body
          (last.moved (extent body.directives) last.frame.stack last.world) :=
        stands.elsewhere bodyProper rfl rfl rfl
      refine .later leave ?_
      rw [append_nil]
      exact .returned holdsLast (readyLast.skip rfl) written

theorem carries_fetch (allowed : Rules.valued.field field) (sameLocals : env.locals = typed.locals)
    (ready : Ready env slots (declaring typed) cfg) (written : env.Written (fetching field typed)) :
    Carries env (Eq typed.locals.size) cfg (self >>= fun recv =>
        onReceiver (.readField field) recv [] (env.host.loadField field))
      fun holder last =>
        Ready env slots (fetching field typed) last ∧
          Holding env typed.locals.size holder last := by
  have loadWritten := written.earlier (wrote_leads _ _)
  have hostWritten := loadWritten.earlier (wrote_leads _ _)
  have decl : (declaring typed).declared[typed.locals.size]? = some .scriptState := by
    rw [declared_declaring]
    simp
  have inside := (hostWritten.earlier (wrote_leads _ _)).inside decl
  have above : env.locals.size ≤ typed.locals.size := sameLocals ▸ Nat.le_refl _
  refine (carries_self ready hostWritten).bind
    fun recv first _ ⟨readyFirst, stackFirst, recvPlain⟩ => ?_
  refine .andThen (.on readyFirst loadWritten (.loadField true field) stackFirst
    (first.look_of_isPlain recvPlain)
    (env.guards.loadField recvPlain allowed.2))
    fun holder _ _ ⟨readySecond, stackSecond, isPlain⟩ => ?_
  refine .after (readySecond.runs_store written stackSecond inside) rfl
    ((Kept.moved _ _ _ _).stored rfl holder) (Carries.pure ⟨?_, above, ?_, isPlain⟩)
  · exact readySecond.stored_scratch above _ holder
  · exact readySecond.stored_present inside _ _ _ holder

theorem Concludes.after (shows : Shows env slots cfg) (outside : cfg.frame.regions = [])
    (carries : Carries env owned cfg (evaluated slots) between)
    (above : ∀ slot, owned slot → env.locals.size ≤ slot)
    (rest : ∀ res mid seen, Kept owned cfg mid → between res mid →
      Concludes env rounds mid (log ++ seen)
        (cont res ⟨slots, mid.scene (log ++ seen)⟩)) :
    Concludes env rounds cfg log (Performance.after evaluated cont
        ⟨slots, cfg.scene log⟩) := by
  have carried := carries log
  unfold Performance.after
  rcases evaluation : evaluated slots (cfg.scene log) with
    ⟨trouble | res, scene⟩ <;> simp only [evaluation] at carried ⊢
  · obtain ⟨many, seen, _, run, logged, stops, _, kept⟩ := carried
    refine .later run (.stopped stops (kept.regions.trans outside)
      (by rw [logged, append_assoc]) ⟨shows.holds, fun slot isVariable => ?_⟩)
    rw [kept.locals slot fun owns => absurd (above slot owns) (by omega)]
    exact shows.slots slot isVariable
  · obtain ⟨many, seen, mid, run, rfl, kept, reached⟩ := carried
    exact .later run (rest res mid seen kept reached)

/-- Statements that pass, followed by more. -/
theorem Concludes.andThen (outside : cfg.frame.regions = [])
    (performs : Performs env rounds owned slots cfg first reached)
    (passes : ∀ signal slots last, reached signal slots last → signal = .passed)
    (rest : ∀ slots mid seen, Kept owned cfg mid → reached .passed slots mid →
      Concludes env rounds mid (log ++ seen)
        (second ⟨slots, mid.scene (log ++ seen)⟩)) :
    Concludes env rounds cfg log (Performance.andThen first second
        ⟨slots, cfg.scene log⟩) := by
  have performed := performs log
  unfold Performance.andThen
  rcases started : first ⟨slots, cfg.scene log⟩ with
    _ | ⟨trouble | signal, moment⟩ <;> rw [started] at performed
  · exact performed
  · obtain ⟨many, seen, last, run, logged, stops, _, kept, shows⟩ := performed
    exact .later run (.stopped stops (kept.regions.trans outside)
      (by rw [logged, append_assoc]) shows)
  · obtain ⟨many, seen, mid, run, same, kept, suited⟩ := performed
    obtain rfl := passes signal _ _ suited
    obtain ⟨slots, scene⟩ := moment
    obtain rfl : scene = _ := same
    exact .later run (rest slots mid seen kept suited)

/-- What a handler resumes after a body: the way out, or the failure. -/
def Resumes (exit : Nat) : Except Trouble Signal → Resumption → Prop
  | .ok _, resumption => resumption = .jump exit
  | .error trouble, resumption =>
    ∃ byte pos, resumption = .failure (classify byte pos trouble)

section Region

variable {field : Field} (compiled : Compiled env (some field) typed body)

include compiled

theorem Compiled.written :
    env.Written ((((leaving typed body).wrote .endTry).wrote (.mark 0)).wrote (.plain Op.ret)) :=
  Setting.written_of_eq (closing_eq field typed body ▸ compiled.directives)

variable {resumption : Resumption}

theorem Compiled.concludes_handler (holds : env.Holds slots)
    (ready : Ready env slots (body.wrote .beginFinally) cfg)
    (holding : Holding env typed.locals.size holder cfg) (outside : cfg.frame.regions = [])
    (pending : cfg.frame.completions = [{ resumption, depth := 0 }])
    (resumes : Resumes (extent ((leaving typed body).wrote .endTry).directives) res resumption) :
    Concludes env rounds cfg log (match saved holder typed.persistent
          ⟨slots, cfg.scene log⟩ with
        | some (.ok _, after) => some (res, after)
        | other => other) := by
  have written := compiled.written
  have markWritten := written.earlier (wrote_leads _ _)
  have endWritten := markWritten.earlier (wrote_leads _ _)
  have sound : ∀ decl ∈ typed.persistent, Typed.VariableSound env.locals decl := by
    rw [compiled.locals]
    exact compiled.sound.persistent
  have asm := env.assembled
  rw [compiled.directives] at asm
  obtain ⟨_, _, endsHandler⟩ := region_assembled compiled.bodyCode asm
  have performed : Performed env rounds _ _ cfg log _ :=
    performs_saved holding holds ready (endWritten.earlier (wrote_leads _ _)) sound log
  rcases result' : saved holder typed.persistent
      ⟨slots, cfg.scene log⟩ with
    _ | ⟨trouble | signal, moment⟩ <;> rw [result'] at performed
  · exact performed
  · obtain ⟨many, seen, last, run, logged, stops, _, kept, shows⟩ := performed
    exact .later run (.stopped stops (kept.regions.trans outside)
      (by rw [logged, append_assoc]) shows)
  · obtain ⟨many, seen, last, run, same, kept, rfl, rfl, readyLast⟩ := performed
    obtain ⟨slots, scene⟩ := moment
    obtain rfl : scene = _ := same
    refine .later run ?_
    have code : env.program.code[last.frame.next]? = some Op.endFinally.code := by
      rw [readyLast.next]
      exact endsHandler
    have pendingLast := kept.completions.trans pending
    cases res with
    | ok signal =>
      obtain rfl : resumption = _ := resumes
      have resumed := Runs.silently
        (cycle_endFinally_jump env.host code pendingLast (kept.regions.trans outside))
      have readyExit : Ready env slots ((leaving typed body).wrote .endTry)
          { frame :=
              { (last.moved (extent ((leaving typed body).wrote .endTry).directives)
                  last.frame.stack last.world).frame with
                completions := [] }
            world := last.world } :=
        readyLast.elsewhere (Draft.wrote_proper readyLast.proper _) rfl rfl rfl
      refine .later resumed ?_
      rw [append_nil]
      exact .returned holds (readyExit.skip rfl) written
    | error trouble =>
      obtain ⟨byte, pos, rfl⟩ := resumes
      obtain ⟨silent, ends⟩ := cycle_endFinally_failure env.host code pendingLast
        (kept.regions.trans outside) (Failure.isClassified_classifyUnless _ _ _ _)
      obtain ⟨ended, traced⟩ := (Runs.refl last).ends ends
      refine ⟨_, _, _, ended, ?_, rfl, ⟨holds, readyLast.slots⟩, byte, pos, rfl⟩
      rw [traced, silent]
      simp

theorem Compiled.concludes_left {world} (shows : Shows env slots cfg)
    (size : cfg.frame.locals.size = env.program.locals.size) (plain : world.IsPlain env.clear)
    (holding : Holding env typed.locals.size holder cfg)
    (continues : cycle env.host env.program {} cfg = .continues
      { frame :=
          { (cfg.moved (extent (body.wrote .beginFinally).directives) stack
              world).frame with
            regions := []
            completions := [{ resumption, depth := 0 }] }
        world }) (logs : logged = log ++ observe env.program cfg)
    (resumes : Resumes (extent ((leaving typed body).wrote .endTry).directives) res resumption) :
    Concludes env rounds cfg log
      (match saved holder typed.persistent { slots, scene := { world, log := logged } } with
        | some (.ok _, after) => some (res, after)
        | other => other) := by
  have proper := (compiled.bodyCode.grows _ (opening_proper (some field) typed)).1
  rw [← compiled.locals] at proper
  exact logs ▸ Concludes.later (.single continues) (compiled.concludes_handler shows.holds
    ⟨Draft.wrote_proper proper _, rfl, size, shows.slots, plain⟩
    ⟨holding.above, holding.present, holding.isPlain⟩ rfl rfl resumes)

/-- The slot of the store is no slot that the body uses. -/
theorem Compiled.notChanges : ¬Changes env (opening (some field) typed) typed.locals.size := by
  have nothingFree : (opening (some field) typed).free = [] := free_wroteAll {} _
  have leads : (declaring typed).Leads (opening (some field) typed) := by
    rw [opening_eq]
    exact ((wroteAll_leads _ _).trans (wroteAll_leads _ _)).trans (wrote_leads _ _)
  have beneath := Nat.le_trans (declaring_proper typed).above leads.slots
  rintro (isVariable | _ | ⟨_, free, _⟩)
  · rw [compiled.locals] at isVariable
    omega
  · omega
  · rw [nothingFree] at free
    cases free

/-- The body inside its region: however it ends, the handler runs next. -/
theorem Compiled.concludes_inside (holds : env.Holds slots)
    (ready : Ready env slots (opening (some field) typed) cfg)
    (holding : Holding env typed.locals.size holder cfg) (inside : cfg.frame.regions = [region])
    (handler : region.handler = extent (body.wrote .beginFinally).directives)
    (idle : cfg.frame.completions = []) :
    Concludes env rounds cfg log (ensuring (Evaluation.block env.host env.types rounds typed.body)
        (saved holder typed.persistent)
        ⟨slots, cfg.scene log⟩) := by
  have sound := compiled.sound.body
  rw [← compiled.locals] at sound
  have markWritten := compiled.written.earlier (wrote_leads _ _)
  have bodyWritten := (markWritten.earlier (wrote_leads _ _)).earlier
    ((wrote_leads _ _).trans ((wroteAll_leads _ _).trans (wrote_leads _ _)))
  have asm := env.assembled
  rw [compiled.directives] at asm
  obtain ⟨_, leaves, _⟩ := region_assembled compiled.bodyCode asm
  have beyond : region.contains
      (extent ((leaving typed body).wrote .endTry).directives) = false := by
    have later := ((wroteAll_leads (body.wrote .beginFinally) _).trans
      (wrote_leads (leaving typed body) .endTry)).extent_le
    simp only [Region.contains, handler, Bool.and_eq_false_iff, decide_eq_false_iff_not]
    omega
  have leads : Draft.Leads _ ((leaving typed body).wrote .endTry) :=
    (compiled.bodyCode.grows _ ready.proper).2.trans ((wrote_leads _ _).trans
      ((wroteAll_leads _ _).trans (wrote_leads _ _)))
  have known := Nat.lt_of_lt_of_le (opening_defines (some field) typed)
    (labels_le leads ready.proper)
  have performed : Performed env rounds _ _ cfg log
      (Evaluation.block env.host env.types rounds typed.body _) :=
    accomplished rounds compiled.bodyCode rfl bodyWritten sound slots cfg holds ready log
  unfold ensuring
  rcases ended : Evaluation.block env.host env.types rounds typed.body
      ⟨slots, cfg.scene log⟩ with
    _ | ⟨trouble | signal, moment⟩ <;> rw [ended] at performed
  · exact performed
  · obtain ⟨many, seen, last, run, logged, stops, plain, kept, shows⟩ := performed
    obtain ⟨byte, pos, continues⟩ := stops.cycle_region env.host
      (kept.regions.trans inside) (kept.completions.trans idle)
    rw [handler] at continues
    exact .later run (compiled.concludes_left shows (kept.size.trans ready.size) plain
      (holding.kept kept compiled.notChanges) continues
      (by rw [logged, append_assoc]) ⟨byte, pos, rfl⟩)
  · obtain ⟨many, seen, last, run, same, kept, _, holdsLast, stands⟩ := performed
    obtain ⟨slots, scene⟩ := moment
    obtain rfl : scene = _ := same
    obtain ⟨place, readyLast, leave⟩ : ∃ place, Ready env slots place last ∧
        env.program.HasInstruction last.frame.next Op.leave
          (extent ((leaving typed body).wrote .endTry).directives) := by
      cases signal with
      | passed =>
        have readyBody : Ready env slots body last := stands
        exact ⟨body, readyBody, readyBody.next ▸ leaves⟩
      | broke | continued =>
        obtain ⟨_, _, absurd, _⟩ := stands
        cases absurd
      | returned =>
        have atJump : AtJump env slots Op.leave 0 last := stands
        have leave := atJump.instruction (markWritten.target known)
        obtain ⟨place, readyPlace, _⟩ := atJump
        exact ⟨place, readyPlace, leave⟩
    obtain ⟨silent, continues⟩ := cycle_leave_region env.host leave
      (kept.regions.trans inside) beyond
    rw [handler, kept.completions.trans idle] at continues
    exact .later run (compiled.concludes_left ⟨holdsLast, readyLast.slots⟩
      readyLast.size readyLast.plain (holding.kept kept compiled.notChanges) continues
      (by rw [silent, append_nil]) rfl)

theorem Compiled.concludes_body (holds : env.Holds slots)
    (ready : Ready env slots (entering field typed) cfg)
    (holding : Holding env typed.locals.size holder cfg)
    (outside : cfg.frame.regions = []) (idle : cfg.frame.completions = []) :
    Concludes env rounds cfg log (ensuring (Evaluation.block env.host env.types rounds typed.body)
        (saved holder typed.persistent)
        ⟨slots, cfg.scene log⟩) := by
  have asm := env.assembled
  rw [compiled.directives] at asm
  obtain ⟨enters, _, _⟩ := region_assembled compiled.bodyCode asm
  rw [← ready.next] at enters
  have enter := Runs.silently (cycle_tryRegion env.host enters)
  rw [outside] at enter
  refine .later enter ?_
  rw [append_nil]
  refine compiled.concludes_inside holds ?_ ⟨holding.above, holding.present, holding.isPlain⟩
    rfl rfl idle
  rw [opening_eq]
  exact ready.wrote .beginTry rfl rfl ready.plain

/-- A script with a store: it is asked for, read, and written after the body. -/
theorem Compiled.concludes_stored (holds : env.Holds slots)
    (ready : Ready env slots (declaring typed) cfg)
    (outside : cfg.frame.regions = []) (idle : cfg.frame.completions = []) :
    Concludes env rounds cfg log (Evaluation.script env.host env.types rounds (some field) typed
        ⟨slots, cfg.scene log⟩) := by
  have openingWritten := compiled.openingWritten
  rw [opening_eq] at openingWritten
  have enteringWritten := openingWritten.earlier (wrote_leads _ _)
  have fetchingWritten := enteringWritten.earlier (wroteAll_leads _ _)
  have sound : ∀ decl ∈ typed.persistent, Typed.VariableSound env.locals decl := by
    rw [compiled.locals]
    exact compiled.sound.persistent
  have size : env.locals.size = typed.locals.size := by rw [compiled.locals]
  have above : ∀ slot, typed.locals.size = slot → env.locals.size ≤ slot := fun slot _ => by omega
  unfold Evaluation.script
  refine .after ⟨holds, ready.slots⟩ outside
    (carries_fetch (compiled.field field rfl) compiled.locals ready fetchingWritten) above ?_
  intro _ _ _ kept ⟨readyMid, holding⟩
  refine .andThen (kept.regions.trans outside)
    (performs_loaded holding holds readyMid enteringWritten sound)
    (fun _ _ _ reached => reached.1) ?_
  intro slots _ _ keptLast ⟨_, _, holdsLast, readyLast⟩
  exact compiled.concludes_body holdsLast readyLast
    (holding.kept keptLast (Nat.not_lt.mpr holding.above))
    (keptLast.regions.trans (kept.regions.trans outside))
    (keptLast.completions.trans (kept.completions.trans idle))

end Region

section Start

variable {state : Option Field} {world : World H}

section

variable (compiled : Compiled env state typed body)

include compiled

theorem Compiled.program_locals (isVariable : slot < typed.locals.size) :
    env.program.locals[slot]? = typed.locals[slot]? := by
  obtain ⟨_, shape⟩ := compiled.openingWritten
  obtain ⟨_, decl⟩ := declared_opening state typed
  have locals := Assembly.assemble_locals env.assembled
  rw [← shape, filterMap_append] at locals
  change _ = (opening state typed).declared ++ _ at locals
  rw [← decl, append_assoc] at locals
  rw [← Array.getElem?_toList, locals, getElem?_append_left (by simpa using isVariable),
    Array.getElem?_toList]

theorem Compiled.ready_start (plain : (start env.program world).world.IsPlain env.clear)
    (proper : place.Proper typed.locals.size) (beginning : extent place.directives = 0) :
    Ready env (typed.locals.map Value.default) place (start env.program world) where
  proper := compiled.locals ▸ proper
  next := beginning.symm
  size := Array.size_map
  slots slot isVariable := by
    rw [compiled.locals] at isVariable
    simp only [start, Array.getElem?_map, compiled.program_locals isVariable]
  plain := plain

theorem Compiled.concludes (plain : (start env.program world).world.IsPlain env.clear)
    (rounds : Nat) : Concludes env rounds (start env.program world) []
      (Evaluation.script env.host env.types rounds state typed
        { slots := typed.locals.map Value.default
          scene := { world := (start env.program world).world, log := [] } }) := by
  have holds : env.Holds (typed.locals.map Value.default) := by
    refine ⟨by rw [Array.size_map, compiled.locals], fun _ mem => ?_⟩
    obtain ⟨type, _, rfl⟩ := Array.mem_map.mp mem
    exact Value.isPlain_default type
  cases state with
  | none =>
    exact compiled.concludes_plain holds (compiled.ready_start plain (opening_proper none typed)
      (extent_opening _)) rfl
  | some _ =>
    exact compiled.concludes_stored holds (compiled.ready_start plain
      ((declaring_proper typed).mono (Nat.le_succ _)) (extent_declaring _)) rfl rfl

end

end Start

end

end HostScript.Simulation
