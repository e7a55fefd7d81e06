import HostScript.Proofs.Machine.Effect
import HostScript.Proofs.Meter

namespace HostScript

/-!
# Limits of operations

A limit cuts an invocation off and changes nothing else.
-/

namespace Machine

section

variable {host : Host H}

theorem cycle_missing (bounds : Bounds) (missing : prog.code[cfg.frame.next]? = none) :
    cycle host prog bounds cfg = .ends (.error (stopped .brokenCode)) cfg := by
  simp only [cycle, missing]

theorem cycle_free (host : Host H) (prog : Program) (free : obstacle? bounds cfg.frame = none) :
    cycle host prog bounds cfg = cycle host prog {} cfg := by
  have unlimited : obstacle? {} cfg.frame = none := rfl
  simp only [cycle, free, unlimited]

theorem operations_cycle (host : Host H) (code : prog.code[cfg.frame.next]? ≠ none) :
    (cycle host prog {} cfg).last.frame.operations = cfg.frame.operations + 1 := by
  rcases cycle_cases host prog {} cfg with ⟨_, missing | obstacle⟩ | ⟨byte, _, same, counted⟩
  · exact absurd missing code
  · exact absurd rfl obstacle
  · have uncounted := (Step.Spares.performByte host.spares_nothing (fun _ _ _ _ _ => rfl) prog
      byte cfg.begun).2
    rw [same]
    exact counted.trans uncounted

theorem operations_cycle_bounds (host : Host H) (prog : Program) (cfg : Configuration H) :
    cfg.frame.operations ≤ (cycle host prog {} cfg).last.frame.operations ∧
      (cycle host prog {} cfg).last.frame.operations ≤ cfg.frame.operations + 1 := by
  by_cases missing : prog.code[cfg.frame.next]? = none
  · rw [cycle_missing {} missing]
    exact ⟨Nat.le_refl _, Nat.le_succ _⟩
  · rw [operations_cycle host missing]
    exact ⟨Nat.le_succ _, Nat.le_refl _⟩

theorem operations_continues (continues : cycle host prog {} cfg = .continues next) :
    next.frame.operations = cfg.frame.operations + 1 := by
  have code : prog.code[cfg.frame.next]? ≠ none := by
    intro missing
    rw [cycle_missing {} missing] at continues
    cases continues
  have counted := operations_cycle host code
  rwa [continues] at counted

theorem operations_le_runFor (host : Host H) (prog : Program) (rounds : Nat)
    (cfg : Configuration H) :
    cfg.frame.operations ≤ (runFor host prog {} rounds cfg).2.frame.operations := by
  induction rounds generalizing cfg with
  | zero => exact Nat.le_refl _
  | succ rounds ih =>
    have counted := (operations_cycle_bounds host prog cfg).1
    unfold runFor
    cases round : cycle host prog {} cfg with
    | continues next =>
      rw [round] at counted
      exact Nat.le_trans counted (ih next)
    | ends _ _ =>
      rw [round] at counted
      exact counted

theorem lt_operations_of_ended {rounds ending after} (code : prog.code[cfg.frame.next]? ≠ none)
    (ended : runFor host prog {} rounds cfg = (some ending, after)) :
    cfg.frame.operations < after.frame.operations := by
  cases rounds with
  | zero => cases ended
  | succ rounds =>
    have counted := Nat.le_of_eq (operations_cycle host code).symm
    unfold runFor at ended
    cases round : cycle host prog {} cfg with
    | continues next =>
      rw [round] at ended counted
      have further := operations_le_runFor host prog rounds next
      rw [show runFor host prog {} rounds next = _ from ended] at further
      exact Nat.lt_of_succ_le (Nat.le_trans counted further)
    | ends _ _ =>
      rw [round] at ended counted
      cases ended
      exact Nat.lt_of_succ_le counted

/-- Under a limit that leaves so many operations, a run ends as it does without the limit, or it
takes more operations and is stopped after as many rounds. -/
theorem runFor_cut (count : Nat) (cfg : Configuration H) (positive : limit ≠ 0)
    (left : cfg.frame.operations + count = limit) :
    (∃ ending after, runFor host prog {} (count + 1) cfg = (some ending, after) ∧
        after.frame.operations ≤ limit ∧
        runFor host prog { limit } (count + 1) cfg = (some ending, after)) ∨
      ∃ mid, runFor host prog {} count cfg = (none, mid) ∧ mid.frame.operations = limit ∧
        runFor host prog { limit } (count + 1) cfg = (some (.error (stopped .limitExceeded)), mid) ∧
        ∀ rounds ending after, runFor host prog {} rounds cfg = (some ending, after) →
          limit < after.frame.operations := by
  induction count generalizing cfg with
  | zero =>
    cases code : prog.code[cfg.frame.next]? with
    | none =>
      refine .inl ⟨.error (stopped .brokenCode), cfg, ?_, Nat.le_of_eq left, ?_⟩ <;>
        simp only [runFor, cycle_missing _ code]
    | some _ =>
      have reached : obstacle? { limit } cfg.frame = some (stopped .limitExceeded) :=
        if_pos ⟨positive, Nat.le_of_eq left.symm⟩
      refine .inr ⟨cfg, rfl, left, ?_, fun _ _ _ ended => ?_⟩
      · simp only [runFor, cycle, code, reached]
      · exact left ▸ lt_operations_of_ended (code ▸ Option.some_ne_none _) ended
  | succ count ih =>
    have free : obstacle? { limit } cfg.frame = none := by
      unfold obstacle?
      rw [if_neg (by dsimp only; omega)]
      rfl
    have same := cycle_free host prog free
    cases round : cycle host prog {} cfg with
    | ends ending after =>
      have counted := (operations_cycle_bounds host prog cfg).2
      rw [round] at same counted
      refine .inl ⟨ending, after, ?_, ?_, ?_⟩
      · simp only [runFor, round]
      · exact Nat.le_trans counted (by omega)
      · simp only [runFor, same]
    | continues next =>
      have counted := operations_continues round
      rw [round] at same
      rcases ih next (by omega) with ⟨ending, after, ended, within, limited⟩ |
        ⟨mid, _, counts, limited, longer⟩
      · refine .inl ⟨ending, after, ?_, within, ?_⟩
        · rwa [runFor, round]
        · rwa [runFor, same]
      · refine .inr ⟨mid, ?_, counts, ?_, fun rounds ending after ended => ?_⟩
        · rwa [runFor, round]
        · rwa [runFor, same]
        · cases rounds with
          | zero => cases ended
          | succ rounds =>
            rw [runFor, round] at ended
            exact longer rounds ending after ended

end

end Machine

namespace Function

/--
An invocation performs as many instructions as its limit allows, the first of those that it
would perform without the limit, and then fails.
-/
def IsCutOff (function : Function) (host : Host H) (world : World H) : Prop :=
  ∃ middle, Machine.runFor host function.program {} function.limit
      (Machine.start function.program world) = (none, middle) ∧
    middle.frame.operations = function.limit ∧
    function.invoke host false world =
      function.reported (some (.error (Machine.stopped .limitExceeded))) middle

end Function

/-- A limit only cuts: an invocation that would end within its limit ends in the same way, and any
other is cut off at the limit. -/
theorem limit_only_cuts
    (host : Host H) (function : Function) (world : World H) (limited : function.limit ≠ 0) :
    (∀ rounds ending after,
        Machine.runFor host function.program {} rounds (Machine.start function.program world) =
          (some ending, after) →
        if after.frame.operations ≤ function.limit then
          function.invoke host false world = function.reported (some ending) after
        else function.IsCutOff host world) ∧
      ((∀ rounds, (Machine.runFor host function.program {} rounds
          (Machine.start function.program world)).1 = none) →
        function.IsCutOff host world) := by
  have invoked : ∀ ending after, Machine.runFor host function.program { limit := function.limit }
      (function.limit + 1) (Machine.start function.program world) = (some ending, after) →
      function.invoke host false world = function.reported (some ending) after := by
    intro ending after ran
    unfold Function.invoke
    rw [Machine.run_eq_some_iff.mpr ⟨_, ran⟩]
  rcases Machine.runFor_cut function.limit (Machine.start function.program world) limited
    (Nat.zero_add _) with ⟨ending, after, ended, within, ran⟩ | ⟨middle, going, counts, ran, longer⟩
  · refine ⟨fun rounds _ _ otherEnded => ?_, fun endless => ?_⟩
    · obtain ⟨rfl, rfl, _⟩ := Machine.runFor_unique ended otherEnded
      rw [if_pos within]
      exact invoked _ _ ran
    · have going := endless (function.limit + 1)
      rw [ended] at going
      cases going
  · have cut : function.IsCutOff host world := ⟨middle, going, counts, invoked _ _ ran⟩
    refine ⟨fun rounds ending after ended => ?_, fun _ => cut⟩
    rw [if_neg (Nat.not_le.mpr (longer rounds ending after ended))]
    exact cut

namespace Meter

/-- Code that fails in a protected region, and then does nothing in its handler. -/
def failing : Program :=
  { code := #[Op.tryRegion.code, 0, 4, Op.pop.code, Op.nop.code, Op.endFinally.code] }

theorem failing_cut :
    ∃ ending after,
      Machine.runFor host failing {} 5 (Machine.start failing world) = (some ending, after) ∧
        after.frame.operations = 4 ∧
        Function.invoke { program := failing, limit := 4 } host false world =
          Function.reported { program := failing, limit := 4 } (some ending) after ∧
        Function.IsCutOff { program := failing, limit := 3 } host world := by
  have isSome : (Machine.runFor host failing {} 5 (Machine.start failing world)).1.isSome := by
    decide +kernel
  have counts :
      (Machine.runFor host failing {} 5 (Machine.start failing world)).2.frame.operations = 4 := by
    decide +kernel
  rcases ran : Machine.runFor host failing {} 5 (Machine.start failing world) with
    ⟨_ | ending, after⟩
  · rw [ran] at isSome
    cases isSome
  · rw [ran] at counts
    have whole := (limit_only_cuts host { program := failing, limit := 4 } world (by decide)).1
      5 ending after ran
    have cut := (limit_only_cuts host { program := failing, limit := 3 } world (by decide)).1
      5 ending after ran
    rw [if_pos (Nat.le_of_eq counts)] at whole
    rw [if_neg (by rw [counts]; decide)] at cut
    exact ⟨ending, after, rfl, counts, whole, cut⟩

end Meter

end HostScript
