import HostScript.Proofs.Emission.Flow
import HostScript.Proofs.Simulation.Assignment

namespace HostScript

namespace Emission

open Evaluation (Performance)
open Typed (Rules)

def BodyItem.performance (host : Host H) (types : Universe) (rounds : Nat) :
    BodyItem → Performance H
  | .one tree => Evaluation.statement host types rounds tree
  | .block tree => Evaluation.block host types rounds tree
  | .many trees => Evaluation.statements host types rounds trees

end Emission

namespace Simulation

open Machine Evaluation Emission Draft
open Typed (Expr Rules)

/-!
# Code of statements carries out their evaluation

A statement that does not end in the usual way leaves the machine at a jump: to the end or the
start of the loop around it, or out of the script.
-/

def AtJump (env : Setting H) (slots : Array Value) (op : Op) (label : Nat)
    (cfg : Configuration H) : Prop :=
  ∃ draft, Ready env slots draft cfg ∧ env.Written (draft.wrote (.jump op label))

def Stands (env : Setting H) (around : Surroundings) (after : Draft) (slots : Array Value)
    (cfg : Configuration H) : Signal → Prop
  | .passed => Ready env slots after cfg
  | .broke => ∃ loop outer, around.loops = loop :: outer ∧
      AtJump env slots Op.jump loop.exit cfg
  | .continued => ∃ loop outer, around.loops = loop :: outer ∧
      AtJump env slots Op.jump loop.start cfg
  | .returned => AtJump env slots Op.leave around.exit cfg

/-- What the machine has come to when a statement hands on control. -/
def Reaches (env : Setting H) (around : Surroundings) (after : Draft) (stack : List Value)
    (signal : Signal) (slots : Array Value) (last : Configuration H) : Prop :=
  last.frame.stack = stack ∧ env.Holds slots ∧ Stands env around after slots last signal

/-- The code of statements carries them out, wherever it is ready to run. -/
def Accomplishes (env : Setting H) (rounds : Nat) (around : Surroundings) (item : BodyItem)
    (draft after : Draft) : Prop :=
  around.types = env.types → env.Written after →
    item.Sound Rules.valued env.types env.locals →
    ∀ slots cfg, env.Holds slots → Ready env slots draft cfg →
      Performs env rounds (Changes env draft) slots cfg (item.performance env.host env.types rounds)
        (Reaches env around after cfg.frame.stack)

section

variable {env : Setting H} {rounds : Nat} {around : Surroundings} {slots : Array Value}
  {draft after : Draft} {cfg : Configuration H}

theorem performs_effect (holds : env.Holds slots) (ready : Ready env slots draft cfg)
    (effects : Effects env slots draft after cfg (evaluated slots)) :
    Performs env rounds (Changes env draft) slots cfg
      (Performance.after evaluated fun _ => Performance.give .passed)
      (Reaches env around after cfg.frame.stack) :=
  Performs.after ⟨holds, ready.slots⟩ effects (fun _ owns => .inr owns)
    (fun _ owns => ready.proper.le_of_owns owns) fun _ _ _ ⟨readyLast, stackLast⟩ =>
      Performs.give ⟨stackLast, holds, readyLast⟩

theorem inside_of_variable (proper : draft.Proper env.locals.size)
    (written : env.Written draft) (sound : Typed.VariableSound env.locals decl) :
    decl.slot < env.program.locals.size := by
  have inLocals := (Array.getElem?_eq_some_iff.mp sound.1).1
  have inDraft : decl.slot < draft.declared.length :=
    proper.slots ▸ Nat.lt_of_lt_of_le inLocals proper.above
  exact written.inside (List.getElem?_eq_getElem inDraft)

theorem Ready.stored_variable (ready : Ready env slots draft cfg) (holds : env.Holds slots)
    (inside : slot < env.program.locals.size) (rest : List Value) (given : Value) :
    Ready env (slots.setIfInBounds slot given) (draft.wrote (.slot Op.storeLocal slot))
      ((cfg.moved (cfg.frame.next + 3) rest cfg.world).stored slot given) where
  proper := wrote_proper ready.proper _
  next := by
    change cfg.frame.next + 3 = _
    rw [ready.next, Draft.wrote, Directive.extent_cons, Nat.add_comm]
    rfl
  size := (Array.size_setIfInBounds).trans ready.size
  slots other known := by
    by_cases same : slot = other
    · subst same
      rw [Array.getElem?_setIfInBounds_self_of_lt (holds.size ▸ known)]
      exact ready.stored_present inside _ _ _ given
    · rw [Array.getElem?_setIfInBounds_ne same]
      exact (Array.getElem?_setIfInBounds_ne same).trans (ready.slots other known)
  plain := ready.plain

variable {second : Draft}

theorem accomplishes_put {item} (same : item.performance env.host env.types rounds =
      Performance.after (fun slots => value env.host env.types slots given)
        (Performance.put decl.slot))
    (asks : item.Sound Rules.valued env.types env.locals →
      Typed.VariableSound env.locals decl ∧ given.Sound Rules.valued env.types env.locals ∧
        Rules.valued.Fits given.type decl.type)
    (givenCode : Code around.types (.one given) draft second) :
    Accomplishes env rounds around item draft (second.wrote (.slot Op.storeLocal decl.slot)) := by
  intro sameTypes written sound slots _ holds ready
  obtain ⟨isVariable, givenSound, fits⟩ := asks sound
  have onGiven := holds.coded sameTypes givenCode
  have secondWritten := written.earlier (wrote_leads second _)
  have inside := inside_of_variable (onGiven.grows ready.proper).1 secondWritten isVariable
  rw [same]
  refine .after ⟨holds, ready.slots⟩ (onGiven.carries ready secondWritten
    givenSound (ne_void_of_fits fits isVariable.2)) (fun _ owns => .inr owns)
    (fun _ owns => ready.proper.le_of_owns owns)
    fun stored _ _ ⟨readyMid, stackMid, isPlain⟩ => ?_
  refine .later (readyMid.runs_store written stackMid inside) rfl
    ((Kept.moved _ _ _ _).stored (.inl (Array.getElem?_eq_some_iff.mp isVariable.1).1) stored) ?_
  exact fun _ => ⟨0, [], _, .refl _, by rw [List.append_nil], .refl _ _, rfl,
    holds.put decl.slot isPlain, readyMid.stored_variable holds inside _ stored⟩

variable {cond : Expr} {place : Draft} {label : Nat}

theorem performs_choice {owned yes no suits} (holds : env.Holds slots)
    (proper : place.Proper env.locals.size) (ready : Ready env slots draft cfg)
    (onCondition : Coded env slots (.one cond) draft second)
    (written : env.Written (second.wrote (.jump Op.jumpIfFalse label)))
    (marked : Assembly.target? env.directives label = some (Directive.extent place.directives))
    (sound : cond.Sound Rules.valued env.types env.locals)
    (fits : Rules.valued.Fits cond.type .bool) (included : ∀ slot, draft.Owns slot → owned slot)
    (performsYes : ∀ mid, mid.frame.stack = cfg.frame.stack →
      Ready env slots (second.wrote (.jump Op.jumpIfFalse label)) mid →
      Performs env rounds owned slots mid yes suits)
    (performsNo : ∀ mid, mid.frame.stack = cfg.frame.stack → Ready env slots place mid →
      Performs env rounds owned slots mid no suits) :
    Performs env rounds owned slots cfg (choice env.host env.types cond yes no) suits := by
  refine .after ⟨holds, ready.slots⟩
    (carries_decision false onCondition.simulates proper ready written
      marked sound fits) included (fun _ owns => ready.proper.le_of_owns owns)
    fun chosen mid _ ⟨stackMid, readyMid⟩ => ?_
  cases chosen with
  | true => exact performsYes mid stackMid readyMid
  | false => exact performsNo mid stackMid readyMid

theorem AtJump.runs (owned : Nat → Prop) (standing : AtJump env slots Op.jump label cfg)
    (proper : place.Proper env.locals.size)
    (marked : Assembly.target? env.directives label = some (Directive.extent place.directives)) :
    ∃ next, Runs env.host env.program 1 cfg [] next ∧ next.world = cfg.world ∧ Kept owned cfg next ∧
      next.frame.stack = cfg.frame.stack ∧ Ready env slots place next := by
  obtain ⟨_, ready, written⟩ := standing
  exact ⟨_, ready.runs_jump written marked, rfl, .moved _ _ _ _, rfl,
    ready.elsewhere proper rfl rfl rfl⟩

variable {stack : List Value} {signal : Signal}

theorem Reaches.following (unusual : signal ≠ .passed)
    (reaches : Reaches env around second stack signal slots cfg) :
    Reaches env around after stack signal slots cfg := by
  cases signal with
  | passed => exact absurd rfl unusual
  | broke | continued | returned => exact reaches

/-- What ends at a draft ends at what is written after it that is no instruction. -/
theorem Reaches.skip {d} (noCode : d.size = 0)
    (reaches : Reaches env around draft stack signal slots cfg) :
    Reaches env around (draft.wrote d) stack signal slots cfg := by
  cases signal with
  | passed => exact ⟨reaches.1, reaches.2.1, .skip reaches.2.2 noCode⟩
  | broke | continued | returned => exact reaches

/-- The code of statements is written between two drafts, and carries them out. -/
structure BodyCoded (env : Setting H) (rounds : Nat) (around : Surroundings) (item : BodyItem)
    (draft after : Draft) : Prop where
  code : BodyCode around item draft after
  accomplishes : Accomplishes env rounds around item draft after

theorem accomplishes_ifThen
    (condCode : Code around.types (.one cond) (draft.wrote .defineLabel) second)
    (onYes : BodyCoded env rounds around (.block yes)
      (second.wrote (.jump Op.jumpIfFalse draft.nextLabel)) third) :
    Accomplishes env rounds around (.one (.ifThen off cond yes)) draft
      (third.wrote (.mark draft.nextLabel)) := by
  intro sameTypes written ⟨condSound, fits, yesSound⟩ slots _ holds ready
  have onCondition := holds.coded sameTypes condCode
  have labelled := wrote_proper ready.proper .defineLabel
  have labelledLeads := wrote_leads draft .defineLabel
  obtain ⟨secondProper, conditionLeads⟩ := onCondition.grows labelled
  have jumpLeads := wrote_leads second (.jump Op.jumpIfFalse draft.nextLabel)
  obtain ⟨thirdProper, yesLeads⟩ := onYes.code.grows _ (wrote_proper secondProper _)
  have thirdWritten := written.earlier (wrote_leads third _)
  have known : draft.nextLabel + 1 ≤ Directive.labels third.directives :=
    labels_le (conditionLeads.trans (jumpLeads.trans yesLeads)) labelled
  have upToYes := labelledLeads.trans (conditionLeads.trans jumpLeads)
  simp only [BodyItem.performance, Evaluation.statement]
  refine performs_choice holds thirdProper (ready.skip rfl) onCondition
    (thirdWritten.earlier yesLeads) (written.target (by omega)) condSound fits
    (fun slot owns => .inr (labelledLeads.owns slot owns)) ?_ ?_
  · intro mid stackMid readyMid
    have ran := onYes.accomplishes sameTypes thirdWritten yesSound slots mid holds readyMid
    rw [stackMid] at ran
    exact ran.mono (.earlier upToYes) fun _ _ _ reaches => reaches.skip rfl
  · intro mid stackMid readyMid
    exact .give ⟨stackMid, holds, readyMid.skip rfl⟩

theorem accomplishes_ifElse (condCode : Code around.types (.one cond)
      ((draft.wrote .defineLabel).wrote .defineLabel) second)
    (onYes : BodyCoded env rounds around (.block yes)
      (second.wrote (.jump Op.jumpIfFalse draft.nextLabel)) third)
    (onNo : BodyCoded env rounds around (.block no)
      ((third.wrote (.jump Op.jump (draft.nextLabel + 1))).wrote (.mark draft.nextLabel))
      fourth) :
    Accomplishes env rounds around (.one (.ifElse off cond yes no)) draft
      (fourth.wrote (.mark (draft.nextLabel + 1))) := by
  intro sameTypes written ⟨condSound, fits, yesSound, noSound⟩ slots _ holds ready
  have onCondition := holds.coded sameTypes condCode
  have choice := Choice.of_grows ready.proper onCondition.grows (onYes.code.grows _)
    (onNo.code.grows _) written
  simp only [BodyItem.performance, Evaluation.statement]
  refine performs_choice holds choice.exitProper ((ready.skip rfl).skip rfl) onCondition
    choice.jumpWritten choice.otherMarked condSound fits
    (fun slot owns => .inr (choice.conditionLeads.owns slot owns)) ?_ ?_
  · intro mid stackMid readyMid
    have ran := onYes.accomplishes sameTypes choice.firstWritten yesSound slots mid holds readyMid
    rw [stackMid] at ran
    refine ran.further (Nat.le_refl _) (.earlier choice.firstLeads)
      fun signal slots last _ reaches => ?_
    by_cases usual : signal = .passed
    · -- what ends in the usual way jumps over the other branch
      subst usual
      obtain ⟨stackLast, holdsLast, readyLast⟩ := reaches
      obtain ⟨next, run, sameWorld, kept, stackNext, readyNext⟩ :=
        AtJump.runs _ ⟨third, readyLast, choice.exitWritten⟩ choice.otherProper
          choice.exitMarked
      exact ⟨1, next, run, sameWorld, kept, stackNext.trans stackLast, holdsLast,
        readyNext.skip rfl⟩
    · exact ⟨0, last, .refl last, rfl, .refl _ _, reaches.following usual⟩
  · intro mid stackMid readyMid
    have ran := onNo.accomplishes sameTypes choice.otherWritten noSound slots mid holds
      (readyMid.skip rfl)
    rw [stackMid] at ran
    exact ran.mono (.earlier choice.otherLeads) fun _ _ _ reaches => reaches.skip rfl

/-- A loop: its condition comes before each round, and its end jumps back. -/
theorem accomplishes_whileLoop (condCode : Code around.types (.one cond)
      (draft.wroteAll [.defineLabel, .defineLabel, .mark draft.nextLabel]) second)
    (onBody : BodyCoded env rounds
      { around with
        loops := { start := draft.nextLabel, exit := draft.nextLabel + 1 } :: around.loops }
      (.block body) (second.wrote (.jump Op.jumpIfFalse (draft.nextLabel + 1))) third) :
    Accomplishes env rounds around (.one (.whileLoop off cond body)) draft
      ((third.wrote (.jump Op.jump draft.nextLabel)).wrote (.mark (draft.nextLabel + 1))) := by
  rintro sameTypes written ⟨condSound, fits, bodySound⟩ slots cfg holds ready
  -- the drafts in between
  have startProper := wroteAll_proper ready.proper
    [.defineLabel, .defineLabel, .mark draft.nextLabel]
  have startLeads := wroteAll_leads draft [.defineLabel, .defineLabel, .mark draft.nextLabel]
  obtain ⟨secondProper, conditionLeads⟩ := (holds.coded sameTypes condCode).grows startProper
  have jumpLeads := wrote_leads second (.jump Op.jumpIfFalse (draft.nextLabel + 1))
  obtain ⟨thirdProper, bodyLeads⟩ := onBody.code.grows _ (wrote_proper secondProper _)
  have exitProper := wrote_proper thirdProper (.jump Op.jump draft.nextLabel)
  have backLeads := wrote_leads third (.jump Op.jump draft.nextLabel)
  have backWritten := written.earlier (wrote_leads _ _)
  have thirdWritten := backWritten.earlier backLeads
  have bodyWritten := thirdWritten.earlier bodyLeads
  have startWritten := (bodyWritten.earlier jumpLeads).earlier conditionLeads
  -- the labels
  have known : draft.nextLabel + 2 ≤
      Directive.labels (third.wrote (.jump Op.jump draft.nextLabel)).directives :=
    labels_le (conditionLeads.trans (jumpLeads.trans (bodyLeads.trans backLeads))) startProper
  have startMarked := Setting.Written.target startWritten (by
    simp only [Draft.wrote, Directive.labels_cons, ready.proper.labels, Directive.labelCount]
    omega)
  have exitMarked := written.target (by omega)
  have upToBody := startLeads.trans (conditionLeads.trans jumpLeads)
  simp only [BodyItem.performance, Evaluation.statement]
  -- a round starts at the cond; its end is the body's, or the exit if there is no round
  refine .repeated (fun slots entered => entered.frame.stack = cfg.frame.stack ∧ env.Holds slots ∧
      Ready env slots (draft.wroteAll [.defineLabel, .defineLabel, .mark draft.nextLabel]) entered)
    (fun signal slots last =>
      Reaches env
          { around with
            loops := { start := draft.nextLabel, exit := draft.nextLabel + 1 } :: around.loops }
          third cfg.frame.stack signal slots last ∨
        signal = .broke ∧ last.frame.stack = cfg.frame.stack ∧ env.Holds slots ∧
          Ready env slots (third.wrote (.jump Op.jump draft.nextLabel)) last)
    ?_ ?_ ?_ ?_ (Nat.le_refl rounds) ⟨rfl, holds, ((ready.skip rfl).skip rfl).skip rfl⟩
  · rintro slots entered ⟨stackEntered, holdsEntered, readyEntered⟩
    refine performs_choice holdsEntered exitProper readyEntered
      (holdsEntered.coded sameTypes condCode) bodyWritten exitMarked condSound fits
      (fun slot owns => .inr (startLeads.owns slot owns)) ?_ ?_
    · intro mid stackMid readyMid
      have ran := onBody.accomplishes sameTypes thirdWritten bodySound slots mid holdsEntered
        readyMid
      rw [stackMid, stackEntered] at ran
      exact ran.mono (.earlier upToBody) fun _ _ _ reaches => .inl reaches
    · intro mid stackMid readyMid
      exact .give (.inr ⟨rfl, stackMid.trans stackEntered, holdsEntered, readyMid⟩)
  · intro signal slots last goes reached
    have backAt : ∀ {last}, last.frame.stack = cfg.frame.stack →
        env.Holds slots → AtJump env slots Op.jump draft.nextLabel last →
        ∃ next, Runs env.host env.program 1 last [] next ∧ next.world = last.world ∧
          Kept (Changes env draft) last next ∧
          next.frame.stack = cfg.frame.stack ∧ env.Holds slots ∧
          Ready env slots
            (draft.wroteAll [.defineLabel, .defineLabel, .mark draft.nextLabel]) next := by
      intro last stackLast holdsLast standing
      obtain ⟨next, run, sameWorld, kept, stackNext, readyNext⟩ :=
        standing.runs (Changes env draft) (wroteAll_proper ready.proper [_, _]) startMarked
      exact ⟨next, run, sameWorld, kept, stackNext.trans stackLast, holdsLast, readyNext.skip rfl⟩
    rcases reached with ⟨stackLast, holdsLast, stands⟩ | ⟨rfl, _⟩
    · rcases goes with rfl | rfl
      · exact backAt stackLast holdsLast ⟨third, stands, backWritten⟩
      · obtain ⟨_, _, same, standing⟩ := stands
        cases same
        exact backAt stackLast holdsLast standing
    · rcases goes with absurd | absurd <;> cases absurd
  · intro slots last reached
    rcases reached with ⟨stackLast, holdsLast, _, _, same, standing⟩ |
      ⟨_, stackLast, holdsLast, readyLast⟩
    · cases same
      obtain ⟨next, run, sameWorld, kept, stackNext, readyNext⟩ :=
        standing.runs (Changes env draft) exitProper exitMarked
      exact ⟨1, next, run, sameWorld, kept, stackNext.trans stackLast, holdsLast,
        readyNext.skip rfl⟩
    · exact ⟨0, last, .refl last, rfl, .refl _ _, stackLast, holdsLast, readyLast.skip rfl⟩
  · intro slots last reached
    rcases reached with reaches | ⟨absurd, _⟩
    · exact reaches
    · cases absurd

theorem accomplishes_call {item} (same : item.performance env.host env.types rounds =
      Performance.after (fun slots => value env.host env.types slots call)
        fun _ => Performance.give .passed)
    (asks : item.Sound Rules.valued env.types env.locals →
      call.Sound Rules.valued env.types env.locals)
    (callCode : Code around.types (.one call) draft second) :
    Accomplishes env rounds around item draft
      (second.wroteAll (if call.type != .void then [.plain Op.pop] else [])) := by
  intro sameTypes written sound slots cfg holds ready
  rw [same]
  refine performs_effect holds ready ?_
  refine ((holds.coded sameTypes callCode).simulates
    (written.earlier (wroteAll_leads _ _)) cfg ready (asks sound)).andThen
    fun _ _ _ ⟨readyLast, stackLast, _⟩ => ?_
  by_cases isVoid : call.type = .void
  · simp only [isVoid, bne_self_eq_false, Bool.false_eq_true, if_false]
    rw [pushed, if_pos isVoid] at stackLast
    exact .pure ⟨readyLast, stackLast⟩
  · simp only [bne_iff_ne, ne_eq, isVoid, not_false_eq_true, if_true] at written ⊢
    rw [pushed_eq isVoid] at stackLast
    have code := written.emitted.plain
    rw [← readyLast.next] at code
    exact .push readyLast (.plain Op.pop) (yields_pop env.host code stackLast)
      fun _ readyPopped stackPopped _ _ _ => .pure ⟨readyPopped, stackPopped⟩

theorem leavesValue_eq (call : Expr) : leavesValue call = (call.type != .void) := by
  cases call <;> rfl

theorem accomplishes_assignment (assigns : Assigns env around.types tgt given draft after)
    (isElsewhere : localVariable? tgt = none) :
    Accomplishes env rounds around (.one (.assignment off tgt given)) draft after := by
  intro sameTypes written sound slots cfg holds ready
  have same : Evaluation.statement env.host env.types rounds (.assignment off tgt given) =
        Performance.after (fun slots => assigned env.host env.types slots tgt given)
          fun _ => .give .passed := by
    rw [Evaluation.statement, assignment]
    rintro _ _ _ rfl
    cases isElsewhere
  rw [BodyItem.performance, same]
  exact performs_effect holds ready
    (assigns sameTypes written sound slots cfg holds ready)

theorem accomplished (rounds : Nat) (code : BodyCode around item draft after) :
    Accomplishes env rounds around item draft after := by
  induction code with
  | assignVariable _ _ _ _ givenCode | declaration _ _ _ _ givenCode =>
    exact accomplishes_put rfl (fun sound => sound) givenCode
  | assignShared _ _ _ _ _ isShared givenCode =>
    exact accomplishes_assignment (assigns_shared isShared givenCode) rfl
  | assignOwn _ _ _ _ _ isOwn givenCode =>
    exact accomplishes_assignment (assigns_own isOwn givenCode) rfl
  | assignStaticMember _ _ _ _ _ isStatic givenCode =>
    exact accomplishes_assignment (assigns_staticMember isStatic givenCode) rfl
  | assignMember _ _ _ _ isInstance tgtCode givenCode =>
    exact accomplishes_assignment (assigns_member isInstance tgtCode givenCode) rfl
  | assignLate _ _ _ tgtCode givenCode =>
    exact accomplishes_assignment (assigns_late tgtCode givenCode) rfl
  | assignElement _ _ _ tgtCode idxsCode givenCode =>
    exact accomplishes_assignment (assigns_element tgtCode idxsCode givenCode) rfl
  | assignStaticIndexer _ _ _ _ _ isStatic idxsCode givenCode =>
    exact accomplishes_assignment (assigns_staticIndexer isStatic idxsCode givenCode) rfl
  | assignIndexer _ _ _ _ isInstance tgtCode idxsCode givenCode =>
    exact accomplishes_assignment (assigns_indexer isInstance tgtCode idxsCode givenCode) rfl
  | persistent | nil => exact fun _ _ _ _ _ holds ready => .give ⟨rfl, holds, ready⟩
  | inner _ body | block _ _ _ body =>
    intro sameTypes written sound slots cfg holds ready
    exact body sameTypes written sound slots cfg holds ready
  | ifThen _ condCode yesCode yes => exact accomplishes_ifThen condCode ⟨yesCode, yes⟩
  | ifElse _ condCode yesCode noCode yes no =>
    exact accomplishes_ifElse condCode ⟨yesCode, yes⟩ ⟨noCode, no⟩
  | whileLoop _ condCode bodyCode body => exact accomplishes_whileLoop condCode ⟨bodyCode, body⟩
  | breakLoop _ _ inLoop | continueLoop _ _ inLoop =>
    exact fun _ written _ _ _ holds ready =>
      Performs.give ⟨rfl, holds, _, _, inLoop, _, ready, written⟩
  | leave =>
    exact fun _ written _ _ _ holds ready => .give ⟨rfl, holds, _, ready, written⟩
  | callStatement _ callCode => exact accomplishes_call rfl (fun sound => sound) callCode
  | invocationStatement _ callCode =>
    rw [leavesValue_eq]
    exact accomplishes_call rfl (fun sound => sound) callCode
  | cons firstCode restCode first rest =>
    intro sameTypes written sound slots cfg holds ready
    obtain ⟨secondProper, firstLeads⟩ := firstCode.grows _ ready.proper
    have restLeads := (restCode.grows _ secondProper).2
    refine .andThen (first sameTypes (written.earlier restLeads) sound.1 slots
      cfg holds ready) ?_ fun _ _ _ unusual reaches => reaches.following unusual
    intro slots mid _ ⟨stackMid, holdsMiddle, readyMid⟩
    have ran := rest sameTypes written sound.2 slots mid holdsMiddle readyMid
    rw [stackMid] at ran
    exact ran.mono (.earlier firstLeads) fun _ _ _ reaches => reaches

end

end Simulation

end HostScript
