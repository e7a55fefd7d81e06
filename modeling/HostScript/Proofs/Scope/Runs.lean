import HostScript.Proofs.Machine.Effect
import HostScript.Proofs.Session.Transparency
import HostScript.Scope.Basic

namespace HostScript

open List
open Panel (dial host)

/-!
# Runs of the scripts of a scope

`Scope.Plays` says which scripts a scope runs, in which order, and which failures come of it;
between two scripts it only sets dials.
-/

def Store.isMemory : Store → Bool
  | .memory _ => true
  | _ => false

theorem Store.isMemory_putsUnseen : Store.PutsUnseen Store.isMemory := by
  intro store _ _ _ done
  cases store with
  | memory vals =>
    cases done
    rfl
  | durable _ _ =>
    obtain ⟨_, _, rest⟩ := ok_of_bind done
    cases rest
    rfl
  | faulty _ _ vals =>
    simp only [Store.put] at done
    split at done
    · cases done
    · cases done
      rfl

theorem Panel.host_spares (view : Store → β) : host.Spares view where
  readField label recv := by
    change Act.Spares view (Panel.readField label recv)
    unfold Panel.readField dial
    split
    · exact fun _ => rfl
    · split
      · exact fun _ => rfl
      · split <;> exact fun _ => rfl
  writeField label recv val := by
    change Act.Spares view (Panel.writeField label recv val)
    unfold Panel.writeField dial
    split
    · exact fun _ => rfl
    · split <;> exact fun _ => rfl
  readProperty _ _ _ _ := rfl
  writeProperty _ _ _ _ _ := rfl
  invoke _ _ _ _ := rfl

variable {isCancelled : Bool}

namespace Function

variable {function counted : Function} {host : Host H} {world after : World H}

/-- An invocation that ends is counted, and the program stays. -/
theorem counted_of_invoke {ending : Ending}
    (invoked : function.invoke host isCancelled world = (some ending, counted, after)) :
    counted.stats.invocations = function.stats.invocations + 1 := by
  unfold invoke at invoked
  split at invoked
  · cases invoked
    rfl
  · cases invoked

theorem program_invoke (function : Function) (host : Host H) (isCancelled : Bool)
    (world : World H) :
    (function.invoke host isCancelled world).2.1.program = function.program := by
  unfold invoke
  split <;> rfl

theorem invoke_spares {view : Store → β} (spares : host.Spares view)
    (unseen : Store.PutsUnseen view) (function : Function) (isCancelled : Bool) (world : World H) :
    view (function.invoke host isCancelled world).2.2.store = view world.store := by
  unfold invoke
  split
  · next done =>
    obtain ⟨rounds, ran⟩ := Machine.run_eq_some_iff.mp done
    have spared := Machine.runFor_spares spares unseen function.program
      { limit := function.limit, isCancelled } rounds (Machine.start function.program world)
    rw [ran] at spared
    exact spared
  · rfl

end Function

theorem Session.invoke_of_found (session : Session) {host : Host H} {fn counted : Function}
    {world after : World H} {ending : Option Ending} (found : session.function? num = some fn)
    (invoked : fn.invoke host isCancelled world = (ending, counted, after)) :
    ∃ metrics, session.invoke host num isCancelled world = (ending,
        { session with functions := session.functions.setIfInBounds num counted, metrics },
        after) := by
  unfold Session.function? at found
  simp only [Session.invoke, found, invoked]
  exact ⟨_, rfl⟩

theorem Session.function?_counted {session : Session} (found : session.function? num = some fn)
    (counted : Function) (metrics : Metrics) (other : Nat) :
    Session.function?
        { session with functions := session.functions.setIfInBounds num counted, metrics }
        other =
      if other = num then some counted else session.function? other := by
  unfold Session.function? at found ⊢
  rw [Array.getElem?_setIfInBounds]
  by_cases same : other = num
  · rw [if_pos same.symm, if_pos same, if_pos (Array.getElem?_eq_some_iff.mp found).1]
  · rw [if_neg (Ne.symm same), if_neg same]

theorem Session.invoke_goesOn (session : Session) (host : Host H) (num : Nat)
    (isCancelled : Bool) (world : World H) :
    session.GoesOn (session.invoke host num isCancelled world).2.1 ∧
      (session.invoke host num isCancelled world).2.1.cache = session.cache := by
  cases found : session.function? num with
  | none =>
    unfold Session.function? at found
    unfold Session.invoke
    rw [found]
    exact ⟨⟨rfl, rfl, fun _ _ => id⟩, rfl⟩
  | some fn =>
    rcases invoked : fn.invoke host isCancelled world with ⟨_, counted, _⟩
    obtain ⟨_, made⟩ := session.invoke_of_found found invoked
    rw [made]
    refine ⟨⟨rfl, rfl, fun _ _ isThere => ?_⟩, rfl⟩
    have sameProgram := fn.program_invoke host isCancelled world
    rw [invoked] at sameProgram
    unfold program? at isThere ⊢
    rw [Session.function?_counted found]
    split
    · next same =>
      rw [same, found] at isThere
      rw [Option.map_some, sameProgram]
      exact isThere
    · exact isThere

namespace Scope

/-- What running scripts and setting dials leave as it is. -/
structure Continues (scope after : Scope) : Prop where
  sources : after.sources = scope.sources
  scripts : after.scripts = scope.scripts
  needsInit : after.needsInit = scope.needsInit
  session : scope.session.GoesOn after.session
  cache : after.session.cache = scope.session.cache
  isMemory : after.world.store.isMemory = scope.world.store.isMemory

namespace Continues

variable {scope between after : Scope}

theorem refl (scope : Scope) : Continues scope scope :=
  ⟨rfl, rfl, rfl, ⟨rfl, rfl, fun _ _ => id⟩, rfl, rfl⟩

theorem trans (first : Continues scope between) (second : Continues between after) :
    Continues scope after where
  sources := second.sources.trans first.sources
  scripts := second.scripts.trans first.scripts
  needsInit := second.needsInit.trans first.needsInit
  session := first.session.trans second.session
  cache := second.cache.trans first.cache
  isMemory := second.isMemory.trans first.isMemory

end Continues

theorem turn_continues (scope : Scope) (change : Panel → Panel) :
    Continues scope (scope.turn change) :=
  ⟨rfl, rfl, rfl, ⟨rfl, rfl, fun _ _ => id⟩, rfl, rfl⟩

theorem invoke_continues {scope after : Scope} {failure : Option ScopeFailure}
    (done : scope.invoke kind isCancelled ctx = some (failure, after)) :
    Continues scope after := by
  unfold invoke at done
  cases script : scope.scripts.get kind with
  | none =>
    rw [script] at done
    cases done
    exact .refl scope
  | some num =>
    obtain ⟨goesOn, cache⟩ := scope.session.invoke_goesOn host num isCancelled scope.world
    have isMemory : (scope.session.invoke host num isCancelled scope.world).2.2.store.isMemory =
        scope.world.store.isMemory := by
      unfold Session.invoke
      cases scope.session.functions[num]? with
      | none => rfl
      | some fn => exact fn.invoke_spares (Panel.host_spares _) Store.isMemory_putsUnseen _ _
    simp only [script] at done
    rcases invoked : scope.session.invoke host num isCancelled scope.world with
      ⟨ending, session, world⟩
    rw [invoked] at goesOn cache isMemory done
    rcases ending with _ | (_ | _) <;> cases done <;>
      exact ⟨rfl, rfl, rfl, goesOn, cache, isMemory⟩

theorem invokeFrame_continues {scope after : Scope}
    (done : scope.invokeFrame kind isCancelled = some (failures, after)) :
    Continues scope after := by
  obtain ⟨_, ran, same⟩ := Option.map_eq_some_iff.mp done
  cases same
  exact invoke_continues ran

theorem renderFrom_continues {samples : Array Nat} {count rest : Nat} {scope after : Scope}
    {failure : Option ScopeFailure}
    (done : renderFrom samples count rest scope = some (points, failure, after)) :
    Continues scope after := by
  induction rest generalizing scope points with
  | zero =>
    cases done
    exact .refl _
  | succ rest ih =>
    have placed := scope.turn_continues fun panel =>
      panel.set .place (placeOf (count - (rest + 1)) count)
    unfold renderFrom at done
    dsimp only at done
    split at done
    · cases done
      exact placed
    · next sample _ =>
      have ready := placed.trans (turn_continues _ fun panel => panel.set .sample sample)
      split at done
      · cases done
      · next ran =>
        cases done
        exact ready.trans (invoke_continues ran)
      · next ran =>
        obtain ⟨_, rendered, same⟩ := Option.map_eq_some_iff.mp done
        cases same
        exact (ready.trans (invoke_continues ran)).trans (ih rendered)

/-- A script is invoked and never ends. -/
def Hangs (scope : Scope) (kind : ScriptKind) (isCancelled : Bool) : Prop :=
  ∃ number function, scope.scripts.get kind = some number ∧
    scope.session.function? number = some function ∧
    ∀ rounds, (Machine.runFor Panel.host function.program { limit := function.limit, isCancelled }
      rounds (Machine.start function.program scope.world)).1 = none

/-- There is no answer only if the script never ends. -/
theorem hangs_of_invoke {scope : Scope} (noAnswer : scope.invoke kind isCancelled ctx = none) :
    scope.Hangs kind isCancelled := by
  unfold invoke at noAnswer
  split at noAnswer
  · cases noAnswer
  · next number script =>
    split at noAnswer
    · next unended =>
      unfold Session.invoke at unended
      split at unended
      · cases unended
      · next function found =>
        refine ⟨number, function, script, found, Machine.run_eq_none_iff.mp ?_⟩
        cases run : Machine.run host function.program { limit := function.limit, isCancelled }
            (Machine.start function.program scope.world) with
        | none => rfl
        | some _ =>
          simp only [Function.invoke, run] at unended
          cases unended
    · cases noAnswer
    · cases noAnswer

def failureOf (kind : ScriptKind) : Ending → List ScopeFailure
  | .error failure => [.within (.script kind) (failure.map ScopeFault.run)]
  | .ok _ => []

/-- The scope after an invocation of a function: other functions, the scripts and the sources
are as before. -/
structure Ran (scope : Scope) (number : Nat) (counted : Function) (world : World Panel)
    (after : Scope) : Prop where
  world : after.world = world
  sources : after.sources = scope.sources
  scripts : after.scripts = scope.scripts
  needsInit : after.needsInit = scope.needsInit
  functions : ∀ other, after.session.function? other =
    if other = number then some counted else scope.session.function? other

/-- The scope before a script of a frame runs: the frame is described on its dials, and before the
init script there are as many points as samples. -/
def prepared (scope : Scope) (info : FrameInfo) : ScriptKind → Scope
  | .init =>
    let described := scope.turn (describeFrame info)
    { described.turn fun panel => panel.set .count (panel.get .nativeCount) with
      needsInit := false }
  | _ => scope.turn (describeFrame info)

/-- In a frame a scope runs the scripts of these kinds that are set, one after the other and each
of them once, with these failures. -/
inductive Plays (info : FrameInfo) (isCancelled : Bool) :
    Scope → List ScriptKind → List ScopeFailure → Scope → Prop where
  | done {scope} : Plays info isCancelled scope [] [] scope
  | unset {scope after kind kinds failures} (noScript : scope.scripts.get kind = none)
      (rest : Plays info isCancelled (scope.prepared info kind) kinds failures after) :
      Plays info isCancelled scope (kind :: kinds) failures after
  | run
      {scope next after kind kinds failures number function counted ending world}
      (script : scope.scripts.get kind = some number)
      (found : scope.session.function? number = some function)
      (invoked : function.invoke Panel.host isCancelled (scope.prepared info kind).world =
        (some ending, counted, world))
      (ran : Ran (scope.prepared info kind) number counted world next)
      (rest : Plays info isCancelled next kinds failures after) :
      Plays info isCancelled scope (kind :: kinds) (failureOf kind ending ++ failures) after

theorem prepared_session (scope : Scope) (info : FrameInfo) (kind : ScriptKind) :
    (scope.prepared info kind).session = scope.session ∧
      (scope.prepared info kind).scripts = scope.scripts := by
  cases kind <;> exact ⟨rfl, rfl⟩

namespace Plays

variable {info : FrameInfo} {scope between after : Scope} {kinds : List ScriptKind}
  {failures : List ScopeFailure}

theorem append (first : Plays info isCancelled scope kinds failures between)
    (second : Plays info isCancelled between others more after) :
    Plays info isCancelled scope (kinds ++ others) (failures ++ more) after := by
  induction first with
  | done => exact second
  | unset noScript _ ih => exact .unset noScript (ih second)
  | run script found invoked ran _ ih =>
    rw [append_assoc]
    exact .run script found invoked ran (ih second)

end Plays

def invocations (scope : Scope) (number : Nat) : Nat :=
  ((scope.session.function? number).map fun function => function.stats.invocations).getD 0

theorem Plays.invocations_eq {info scope after kinds failures}
    (plays : Plays info isCancelled scope kinds failures after) (num : Nat) :
    after.invocations num =
      scope.invocations num + kinds.countP fun kind => scope.scripts.get kind = some num := by
  induction plays with
  | done => rfl
  | @unset scope _ kind _ _ noScript _ ih =>
    obtain ⟨sameSession, sameScripts⟩ := scope.prepared_session info kind
    rw [ih, countP_cons_of_neg (by simp [noScript]), sameScripts]
    unfold invocations
    rw [sameSession]
  | @run scope _ _ kind _ _ played fn counted _ _ script found invoked ran _
      ih =>
    obtain ⟨sameSession, sameScripts⟩ := scope.prepared_session info kind
    have isCounted := Function.counted_of_invoke invoked
    rw [ih, ran.scripts, sameScripts]
    unfold invocations
    rw [ran.functions, sameSession]
    by_cases same : num = played
    · subst same
      rw [if_pos rfl, found, countP_cons_of_pos (by simp [script])]
      simp only [Option.map_some, Option.getD_some, isCounted]
      omega
    · rw [if_neg same, countP_cons_of_neg]
      simpa [script] using fun isSame => same isSame.symm

def HasFunctions (scope : Scope) : Prop :=
  ∀ kind number, scope.scripts.get kind = some number →
    ∃ function, scope.session.function? number = some function

theorem invokeFrame_ran {scope : Scope} {kind : ScriptKind} {fn counted : Function}
    {ending : Ending} {world : World Panel} (script : scope.scripts.get kind = some num)
    (found : scope.session.function? num = some fn)
    (invoked : fn.invoke host isCancelled scope.world = (some ending, counted, world)) :
    ∃ after, scope.invokeFrame kind isCancelled = some (failureOf kind ending, after) ∧
      Ran scope num counted world after := by
  obtain ⟨metrics, session⟩ := scope.session.invoke_of_found found invoked
  have functions := fun other => Session.function?_counted found counted metrics other
  unfold invokeFrame invoke
  simp only [script, session]
  rcases ending with _ | _ <;> exact ⟨_, rfl, rfl, rfl, rfl, rfl, functions⟩

theorem invokeFrame_plays {scope after} (hasFunctions : scope.HasFunctions)
    (done : (scope.prepared info kind).invokeFrame kind isCancelled = some (failures, after)) :
    Plays info isCancelled scope [kind] failures after := by
  obtain ⟨sameSession, sameScripts⟩ := scope.prepared_session info kind
  cases script : scope.scripts.get kind with
  | none =>
    rw [← sameScripts] at script
    simp only [invokeFrame, invoke, script, Option.map_some] at done
    cases done
    exact .unset (sameScripts ▸ script) .done
  | some num =>
    obtain ⟨fn, found⟩ := hasFunctions kind num script
    rcases invoked : fn.invoke host isCancelled (scope.prepared info kind).world with
      ⟨_ | ending, counted, world⟩
    · obtain ⟨_, session⟩ :=
        (scope.prepared info kind).session.invoke_of_found (sameSession ▸ found) invoked
      simp only [invokeFrame, invoke, sameScripts, script, session, Option.map_none] at done
      cases done
    · obtain ⟨_, same, ran⟩ := invokeFrame_ran (sameScripts ▸ script) (sameSession ▸ found) invoked
      cases same.symm.trans done
      rw [← append_nil (failureOf kind ending)]
      exact .run script found invoked ran .done

end Scope

end HostScript
