import HostScript.Proofs.Machine.Instruction

namespace HostScript.Machine

/-!
# Runs

Runs of the machine as a relation: a count of rounds leads from one configuration to another,
and asks something of the host on the way.
-/

/-- A count of rounds leads to a configuration, and asks this of the host. -/
inductive Runs (host : Host H) (prog : Program) :
    Nat → Configuration H → List Interaction → Configuration H → Prop
  | refl (cfg : Configuration H) : Runs host prog 0 cfg [] cfg
  | step {cfg next last rounds log} (first : cycle host prog {} cfg = .continues next)
      (rest : Runs host prog rounds next log last) :
      Runs host prog (rounds + 1) cfg (observe prog cfg ++ log) last

section

variable {host : Host H} {prog : Program} {first : Configuration H}

/-- One round that goes on. -/
theorem Runs.single (continues : cycle host prog {} first = .continues second) :
    Runs host prog 1 first (observe prog first) second := by
  have run := Runs.step continues (.refl second)
  rwa [List.append_nil] at run

theorem Runs.silently (turn : Silently host prog first (.continues second)) :
    Runs host prog 1 first [] second := by
  have run := Runs.single turn.2
  rwa [turn.1] at run

theorem Runs.trans {rounds more log following} (prev : Runs host prog rounds first log second)
    (later : Runs host prog more second following third) :
    Runs host prog (rounds + more) first (log ++ following) third := by
  induction prev with
  | refl => simpa using later
  | @step _ _ _ rounds log continues _ ih =>
    have run := Runs.step continues (ih later)
    rwa [← List.append_assoc, Nat.add_right_comm] at run

variable {rounds : Nat} {log : List Interaction}

section

variable (run : Runs host prog rounds first log second)

include run

theorem Runs.runFor_add (more : Nat) :
    runFor host prog {} (rounds + more) first = runFor host prog {} more second ∧
      trace host prog (rounds + more) first = log ++ trace host prog more second := by
  induction run with
  | refl => simp
  | @step _ _ _ rounds log continues _ ih =>
    have shape : rounds + 1 + more = (rounds + more) + 1 := by omega
    rw [shape]
    simp only [runFor, trace, continues, List.append_assoc]
    exact ⟨ih.1, by rw [ih.2]⟩

theorem Runs.runFor_none : (runFor host prog {} rounds first).1 = none := by
  have reached := (run.runFor_add 0).1
  rw [Nat.add_zero] at reached
  rw [reached]
  rfl

omit run in
theorem runFor_mono (ended : runFor host prog {} rounds first = (some ending, after)) (more : Nat) :
    runFor host prog {} (rounds + more) first = (some ending, after) ∧
      trace host prog (rounds + more) first = trace host prog rounds first := by
  induction rounds generalizing first with
  | zero => simp [runFor] at ended
  | succ rounds ih =>
    have shape : rounds + 1 + more = (rounds + more) + 1 := by omega
    rw [shape]
    simp only [runFor, trace] at ended ⊢
    cases round : cycle host prog {} first with
    | ends ending after =>
      rw [round] at ended
      exact ⟨ended, rfl⟩
    | continues _ =>
      rw [round] at ended
      obtain ⟨same, traced⟩ := ih ended
      exact ⟨same, by simp only [traced]⟩

theorem Runs.ends (last : cycle host prog {} second = .ends ending after) :
    runFor host prog {} (rounds + 1) first = (some ending, after) ∧
      trace host prog (rounds + 1) first = log ++ observe prog second := by
  obtain ⟨ran, traced⟩ := run.runFor_add 1
  refine ⟨ran.trans ?_, traced.trans ?_⟩
  · simp only [runFor, last]
  · simp only [trace, last, List.append_nil]

omit run in
theorem runFor_unique (ended : runFor host prog {} rounds first = (some ending, after))
    (otherEnded : runFor host prog {} others first = (some other, otherAfter)) :
    ending = other ∧ after = otherAfter ∧
      trace host prog rounds first = trace host prog others first := by
  obtain ⟨long, traced⟩ := runFor_mono ended others
  obtain ⟨otherLong, otherTraced⟩ := runFor_mono otherEnded rounds
  rw [Nat.add_comm] at otherLong otherTraced
  rw [long] at otherLong
  cases otherLong
  exact ⟨rfl, rfl, traced.symm.trans otherTraced⟩

theorem Runs.lt_of_ended (ended : runFor host prog {} bound first = (some ending, after)) :
    rounds < bound := by
  by_contra long
  have shape : rounds = bound + (rounds - bound) := by omega
  have going := run.runFor_none
  rw [shape, (runFor_mono ended _).1] at going
  cases going

end

/-- Rounds lead from one configuration to another, through configurations of one kind. -/
inductive Passes (host : Host H) (prog : Program) (holds : Configuration H → Prop) :
    Configuration H → Configuration H → Prop
  | refl (cfg : Configuration H) : Passes host prog holds cfg cfg
  | step {cfg next last} (known : holds cfg) (first : cycle host prog {} cfg = .continues next)
      (rest : Passes host prog holds next last) :
      Passes host prog holds cfg last

namespace Passes

variable {holds : Configuration H → Prop}

/-- One round that goes on. -/
theorem single (known : holds first) (continues : cycle host prog {} first = .continues second) :
    Passes host prog holds first second :=
  .step known continues (.refl second)

theorem trans (prev : Passes host prog holds first second)
    (later : Passes host prog holds second third) : Passes host prog holds first third := by
  induction prev with
  | refl => exact later
  | step known continues _ ih =>
    exact .step known continues (ih later)

theorem mono {more} (passes : Passes host prog holds first second)
    (included : ∀ cfg, holds cfg → more cfg) : Passes host prog more first second := by
  induction passes with
  | refl => exact .refl _
  | step known continues _ ih =>
    exact .step (included _ known) continues ih

theorem onward (passes : Passes host prog holds first second)
    (done : runFor host prog {} rounds first = (answer, last)) :
    (answer = none ∧ holds last) ∨ ∃ more, runFor host prog {} more second = (answer, last) := by
  induction passes generalizing rounds with
  | refl => exact .inr ⟨rounds, done⟩
  | step known continues _ ih =>
    cases rounds with
    | zero =>
      cases done
      exact .inl ⟨rfl, known⟩
    | succ rounds =>
      simp only [runFor, continues] at done
      exact ih done

end Passes

end

/-- A run that ends does so within some count of rounds, and conversely. -/
theorem run_eq_some_iff {host : Host H} {program : Program} {bounds : Bounds}
    {configuration after : Configuration H} {ending : Ending} :
    run host program bounds configuration = some (ending, after) ↔
      ∃ rounds, runFor host program bounds rounds configuration = (some ending, after) := by
  constructor
  · -- the run is the least solution of its equation, so what holds of one unfolding holds of it
    refine run.partial_correctness host program
      (fun bounds configuration result => ∃ rounds,
        runFor host program bounds rounds configuration = (some result.1, result.2))
      ?_ bounds configuration (ending, after)
    intro further inductionHypothesis bounds configuration result done
    split at done
    · next continued =>
      obtain ⟨rounds, ran⟩ := inductionHypothesis _ _ _ done
      refine ⟨rounds + 1, ?_⟩
      rw [runFor, continued]
      exact ran
    · next ended =>
      cases done
      refine ⟨1, ?_⟩
      rw [runFor, ended]
  · rintro ⟨rounds, ran⟩
    induction rounds generalizing configuration with
    | zero => cases ran
    | succ rounds inductionHypothesis =>
      rw [run]
      rw [runFor] at ran
      cases round : cycle host program bounds configuration with
      | continues _ =>
        rw [round] at ran
        exact inductionHypothesis ran
      | ends _ _ =>
        rw [round] at ran
        cases ran
        rfl

/-- A run has no result exactly if no count of rounds is enough. -/
theorem run_eq_none_iff {host : Host H} {program : Program} {bounds : Bounds}
    {configuration : Configuration H} :
    run host program bounds configuration = none ↔
      ∀ rounds, (runFor host program bounds rounds configuration).1 = none := by
  constructor
  · intro never rounds
    rcases ran : runFor host program bounds rounds configuration with ⟨_ | ending, after⟩
    · rfl
    · cases never.symm.trans (run_eq_some_iff.mpr ⟨rounds, ran⟩)
  · intro never
    rcases done : run host program bounds configuration with _ | ⟨ending, after⟩
    · rfl
    · obtain ⟨rounds, ran⟩ := run_eq_some_iff.mp done
      cases (congrArg Prod.fst ran).symm.trans (never rounds)

end HostScript.Machine
