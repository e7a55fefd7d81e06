import HostScript.Proofs.Scope.Runs

namespace HostScript

open List

/-!
# The life of a scope

A scope is driven by four calls: a script is set, the scope is reset, a frame is prepared and
points are rendered.
-/

namespace PerScript

theorem get_set (things : PerScript α) (kind other : ScriptKind) (thing : α) :
    (things.set kind thing).get other = if other = kind then thing else things.get other := by
  cases kind <;> cases other <;> rfl

end PerScript

theorem Session.compileKeyed_functions {session : Session}
    (fails : (session.compileKeyed keyOf src).1 = .error fail) :
    (session.compileKeyed keyOf src).2.functions = session.functions := by
  have unfinished : ∀ {compiled : Except CompileFailure Program} {reason : CompileFailure}
      {after : Session}, session.finish compiled = (.error reason, after) →
      after.functions = session.functions := by
    intro compiled reason after finished
    cases compiled with
    | ok _ => cases finished
    | error _ =>
      cases finished
      rfl
  unfold compileKeyed at fails ⊢
  cases cached : session.cache with
  | none =>
    rw [cached] at fails
    exact unfinished (Prod.ext fails rfl)
  | some cache =>
    simp only [cached] at fails ⊢
    rcases found : cache.find? keyOf src with ⟨_ | num, _⟩
    · rcases finished : session.finish (session.dialect.compile src) with
        ⟨reason | num, after⟩
      · exact (unfinished finished :)
      · simp only [found, finished] at fails
        cases fails
    · simp only [found] at fails
      cases fails

/-- The calls on a scope. -/
inductive ScopeAction where
  | setScript (number : Int) (source : Text)
  | reset
  | nextFrame (info : FrameInfo) (isCancelled : Bool)
  | render (samples : Array Nat) (isCancelled : Bool)

namespace ScopeAction

/-- Whether a call prepares a frame. -/
def isFrame : ScopeAction → Bool
  | .nextFrame _ _ => true
  | _ => false

/-- Whether a call makes the init script due: a reset, or one that is set to nothing or to what
compiles. -/
def Renews : ScopeAction → Prop
  | .setScript number source => ScriptKind.ofNumber? number = some .init ∧
      (source = [] ∨ ∃ prog, Scope.dialect.compile source = .ok prog)
  | .reset => True
  | _ => False

/-- Whether the init script is due after calls: since the creation, or the last call that made
it due, there was no frame. -/
def AwaitInit (actions : List ScopeAction) : Prop :=
  ∃ before since, actions = before ++ since ∧ (∀ action ∈ since, action.isFrame = false) ∧
    (before = [] ∨ ∃ earlier action, before = earlier ++ [action] ∧ action.Renews)

theorem awaitInit_nil : AwaitInit [] := ⟨[], [], rfl, nofun, .inl rfl⟩

theorem awaitInit_of_renews {action} (actions : List ScopeAction)
    (renews : action.Renews) : AwaitInit (actions ++ [action]) :=
  ⟨actions ++ [action], [], (append_nil _).symm, nofun, .inr ⟨actions, action, rfl, renews⟩⟩

theorem awaitInit_concat {action} (actions : List ScopeAction) (notRenews : ¬action.Renews) :
    AwaitInit (actions ++ [action]) ↔ action.isFrame = false ∧ AwaitInit actions := by
  constructor
  · rintro ⟨pre, since, split, noFrame, begins⟩
    rcases eq_nil_or_concat since with rfl | ⟨since, _, rfl⟩
    · rw [append_nil] at split
      rcases begins with rfl | ⟨prev, _, rfl, renews⟩
      · exact absurd split (concat_ne_nil _ _)
      · obtain ⟨-, same⟩ := append_inj' split rfl
        cases same
        exact absurd renews notRenews
    · rw [concat_eq_append, ← append_assoc] at split
      obtain ⟨rfl, same⟩ := append_inj' split rfl
      cases same
      rw [concat_eq_append] at noFrame
      exact ⟨noFrame action (by simp), pre, since, rfl,
        fun other mem => noFrame other (mem_append_left _ mem), begins⟩
  · rintro ⟨isNoFrame, pre, since, rfl, noFrame, begins⟩
    refine ⟨pre, since ++ [action], (append_assoc ..), fun other mem => ?_, begins⟩
    rcases mem_append.mp mem with prev | atEnd
    · exact noFrame other prev
    · cases mem_singleton.mp atEnd
      exact isNoFrame

end ScopeAction

namespace Scope

/-- The scope after a call; there is none if the call never returns. -/
def act (scope : Scope) : ScopeAction → Option Scope
  | .setScript number source => some (scope.setNumbered number source).2
  | .reset => some scope.reset.2
  | .nextFrame info isCancelled => (scope.nextFrame info isCancelled).map Prod.snd
  | .render samples isCancelled => (scope.render samples isCancelled).map fun drawn => drawn.2.2

/-- The scope after calls one after the other, if all of them return. -/
def actAll (scope : Scope) (actions : List ScopeAction) : Option Scope :=
  actions.foldlM act scope

def IsCompiled (scope : Scope) (kind : ScriptKind) : Prop :=
  match scope.scripts.get kind with
  | none => scope.sources.get kind = []
  | some number => scope.sources.get kind ≠ [] ∧
      ∃ prog, dialect.compile (scope.sources.get kind) = .ok prog ∧
        scope.session.program? number = some prog

/-- What holds of a scope with a memory after any calls. -/
structure InOrder (scope : Scope) : Prop where
  dialect : scope.session.dialect = Scope.dialect
  sound : scope.session.IsSound Session.sourceKey
  isMemory : scope.world.store.isMemory = true
  compiled : ∀ kind, scope.IsCompiled kind

theorem IsCompiled.of_goesOn {scope after : Scope} (compiled : scope.IsCompiled kind)
    (goesOn : scope.session.GoesOn after.session)
    (sources : after.sources.get kind = scope.sources.get kind)
    (scripts : after.scripts.get kind = scope.scripts.get kind) : after.IsCompiled kind := by
  unfold IsCompiled at compiled ⊢
  rw [sources, scripts]
  cases script : scope.scripts.get kind with
  | none =>
    rw [script] at compiled
    exact compiled
  | some num =>
    rw [script] at compiled
    obtain ⟨notEmpty, prog, made, isThere⟩ := compiled
    exact ⟨notEmpty, prog, made, goesOn.programs num prog isThere⟩

namespace InOrder

variable {scope : Scope}

theorem of_continues {after : Scope} (inOrder : scope.InOrder) (continues : Continues scope after) :
    after.InOrder where
  dialect := continues.session.dialect.trans inOrder.dialect
  sound cache isThere :=
    continues.session.isSound (inOrder.sound cache (continues.cache.symm.trans isThere))
  isMemory := continues.isMemory.trans inOrder.isMemory
  compiled kind := (inOrder.compiled kind).of_goesOn continues.session
    (by rw [continues.sources]) (by rw [continues.scripts])

theorem hasFunctions (inOrder : scope.InOrder) : scope.HasFunctions := by
  intro kind _ script
  have compiled := inOrder.compiled kind
  unfold IsCompiled at compiled
  rw [script] at compiled
  obtain ⟨_, _, _, isThere⟩ := compiled
  obtain ⟨fn, found, _⟩ := Option.map_eq_some_iff.mp isThere
  exact ⟨fn, found⟩

end InOrder

variable {scope : Scope}

/-- Setting a script that does not compile changes only what the session has counted and the
order in its cache. -/
theorem setScript_fails (inOrder : scope.InOrder) (kind : ScriptKind) (notEmpty : src ≠ [])
    (fails : dialect.compile src = .error fail) :
    ∃ session reason, scope.setScript kind src = (.error reason, { scope with session }) ∧
      session.IsSound Session.sourceKey ∧ scope.session.GoesOn session ∧
      session.functions = scope.session.functions := by
  have compiles := Session.compileKeyed_compiles inOrder.sound src
  have answers := compiles.answers
  rw [inOrder.dialect, fails] at answers
  have isEmpty : src.isEmpty = false := by simpa using notEmpty
  unfold setScript Session.compile
  rw [isEmpty]
  rcases compiled : scope.session.compileKeyed Session.sourceKey src with
    ⟨reason | num, session⟩
  · have functions := Session.compileKeyed_functions (congrArg Prod.fst compiled)
    rw [compiled] at compiles functions
    exact ⟨session, _, rfl, compiles.sound, compiles.goesOn, functions⟩
  · rw [compiled] at answers
    obtain ⟨_, impossible, _⟩ := answers
    cases impossible

theorem setScript_succeeds (inOrder : scope.InOrder) (kind : ScriptKind)
    (compiles : src = [] ∨ ∃ prog, dialect.compile src = .ok prog) :
    ∃ after, scope.setScript kind src = (.ok (), after) ∧ after.InOrder ∧
      after.needsInit = (scope.needsInit || kind = .init) := by
  have others : ∀ (session : Session) (num : Option Nat), scope.session.GoesOn session →
      ∀ other, other ≠ kind → IsCompiled
        { scope with
          session
          sources := scope.sources.set kind src
          scripts := scope.scripts.set kind num
          needsInit := scope.needsInit || kind = .init } other := by
    intro session num goesOn other differs
    refine (inOrder.compiled other).of_goesOn goesOn ?_ ?_ <;>
      rw [PerScript.get_set, if_neg differs]
  by_cases empty : src = []
  · subst empty
    refine ⟨_, rfl, ⟨inOrder.dialect, inOrder.sound, inOrder.isMemory, fun other => ?_⟩, rfl⟩
    by_cases same : other = kind
    · simp only [IsCompiled, PerScript.get_set, if_pos same]
    · exact others scope.session none ⟨rfl, rfl, fun _ _ => id⟩ other same
  · obtain ⟨prog, made⟩ := compiles.resolve_left empty
    have once := Session.compileKeyed_compiles inOrder.sound src
    have answers := once.answers
    rw [inOrder.dialect, made] at answers
    have isEmpty : src.isEmpty = false := by simpa using empty
    unfold setScript Session.compile
    rw [isEmpty]
    rcases compiled : scope.session.compileKeyed Session.sourceKey src with
      ⟨reason | num, session⟩
    · rw [compiled] at answers
      cases answers
    · rw [compiled] at answers once
      obtain ⟨_, same, isThere⟩ := answers
      cases same
      refine ⟨_, rfl, ⟨once.goesOn.dialect.trans inOrder.dialect, once.sound, inOrder.isMemory,
        fun other => ?_⟩, rfl⟩
      by_cases sameKind : other = kind
      · simp only [IsCompiled, PerScript.get_set, if_pos sameKind]
        exact ⟨empty, prog, made, isThere⟩
      · exact others session (some num) once.goesOn other sameKind

theorem reset_of_isMemory (isMemory : scope.world.store.isMemory) :
    scope.reset = (.ok (),
      { scope with world := { scope.world with store := .empty }, needsInit := true }) := by
  unfold reset
  cases store : scope.world.store with
  | memory _ => rfl
  | durable => rw [store] at isMemory; cases isMemory
  | faulty => rw [store] at isMemory; cases isMemory

theorem InOrder.initialised (inOrder : scope.InOrder) : InOrder { scope with needsInit := false } :=
  ⟨inOrder.dialect, inOrder.sound, inOrder.isMemory, inOrder.compiled⟩

theorem initialise_continues {ready : Scope}
    (done : scope.initialise info isCancelled = some (failures, ready)) :
    Continues { scope with needsInit := false } ready := by
  unfold initialise at done
  split at done
  · have prepared : Continues { scope with needsInit := false } (scope.prepared info .init) :=
      ⟨rfl, rfl, rfl, ⟨rfl, rfl, fun _ _ => id⟩, rfl, rfl⟩
    exact prepared.trans (invokeFrame_continues done)
  · next notDue =>
    cases done
    have same : { scope with needsInit := false } = scope := by
      rw [Bool.not_eq_true] at notDue
      rw [← notDue]
    rw [same]
    exact .refl scope

/-- The scripts that are due before the frame script: the init script, or none. -/
def initialScripts (scope : Scope) : List ScriptKind :=
  if scope.needsInit then [.init] else []

theorem initialise_plays {ready : Scope} (inOrder : scope.InOrder)
    (done : scope.initialise info isCancelled = some (failures, ready)) :
    Plays info isCancelled scope scope.initialScripts failures ready := by
  unfold initialise at done
  unfold initialScripts
  split at done
  · next due =>
    rw [if_pos due]
    exact invokeFrame_plays inOrder.hasFunctions done
  · next notDue =>
    rw [if_neg notDue]
    cases done
    exact .done

/-- The scripts that are due when the init script has run. -/
def laterScripts (panel : Panel) (info : FrameInfo) : List ScriptKind :=
  if isIdle panel then [] else .frame :: if info.isBeat then [.beat] else []

/-- A frame runs the init script if it is due and, if there are points then, the frame script and
on a beat the beat script, and it returns the failures of all of them. -/
structure RunsFrame (scope : Scope) (info : FrameInfo) (isCancelled : Bool)
    (failures : List ScopeFailure) (ready after : Scope) : Prop where
  runs : ∃ initial further, failures = initial ++ further ∧
    Plays info isCancelled scope scope.initialScripts initial ready ∧
    Plays info isCancelled ready (laterScripts ready.panel info) further after
  continues : Continues { scope with needsInit := false } after

theorem nextFrame_runsFrame {after : Scope} (inOrder : scope.InOrder)
    (done : scope.nextFrame info isCancelled = some (failures, after)) :
    ∃ ready, RunsFrame scope info isCancelled failures ready after := by
  unfold nextFrame at done
  obtain ⟨⟨initial, ready⟩, started, done⟩ := Option.bind_eq_some_iff.mp done
  have continues := initialise_continues started
  have readyInOrder := inOrder.initialised.of_continues continues
  have initialPlays := initialise_plays inOrder started
  refine ⟨ready, ?_⟩
  dsimp only at done
  split at done
  · next isIdle =>
    cases done
    refine ⟨⟨failures, [], (append_nil _).symm, initialPlays, ?_⟩, continues⟩
    rw [laterScripts, if_pos isIdle]
    exact .done
  · next isActive =>
    obtain ⟨⟨framed, drawn⟩, framing, done⟩ := Option.bind_eq_some_iff.mp done
    have framePlays : Plays info isCancelled ready [.frame] framed drawn :=
      invokeFrame_plays readyInOrder.hasFunctions framing
    have frameContinues := (ready.turn_continues (describeFrame info)).trans
      (invokeFrame_continues framing)
    have scripts : laterScripts ready.panel info =
        [.frame] ++ if info.isBeat then [.beat] else [] := by
      rw [laterScripts, if_neg isActive]
      rfl
    dsimp only at done
    split at done
    · next isBeat =>
      obtain ⟨⟨beaten, _⟩, beating, done⟩ := Option.bind_eq_some_iff.mp done
      have beatPlays : Plays info isCancelled drawn [.beat] beaten _ :=
        invokeFrame_plays (readyInOrder.of_continues frameContinues).hasFunctions beating
      have beatContinues := (drawn.turn_continues (describeFrame info)).trans
        (invokeFrame_continues beating)
      cases done
      refine ⟨⟨initial, framed ++ beaten, append_assoc .., initialPlays, ?_⟩,
        (continues.trans frameContinues).trans beatContinues⟩
      rw [scripts, if_pos isBeat]
      exact framePlays.append beatPlays
    · next noBeat =>
      cases done
      refine ⟨⟨initial, framed, rfl, initialPlays, ?_⟩, continues.trans frameContinues⟩
      rw [scripts, if_neg noBeat, append_nil]
      exact framePlays

/-- A frame runs some of the scripts that are due, and then one that never ends. -/
def Stalls (scope : Scope) (info : FrameInfo) (isCancelled : Bool) : Prop :=
  ∃ played kind failures before, Plays info isCancelled scope played failures before ∧
    (before.prepared info kind).Hangs kind isCancelled ∧
    played ++ [kind] <+: scope.initialScripts ++ .frame :: if info.isBeat then [.beat] else []

theorem nextFrame_stalls (inOrder : scope.InOrder)
    (noAnswer : scope.nextFrame info isCancelled = none) : scope.Stalls info isCancelled := by
  have hangs : ∀ {before : Scope} {kind : ScriptKind},
      before.invokeFrame kind isCancelled = none → before.Hangs kind isCancelled :=
    fun unanswered => hangs_of_invoke (Option.map_eq_none_iff.mp unanswered)
  unfold nextFrame at noAnswer
  cases started : scope.initialise info isCancelled with
  | none =>
    unfold initialise at started
    split at started
    · next due =>
      refine ⟨[], .init, [], scope, .done, hangs started, ?_⟩
      rw [initialScripts, if_pos due]
      exact prefix_append _ _
    · cases started
  | some begun =>
    obtain ⟨initial, ready⟩ := begun
    have initialPlays := initialise_plays inOrder started
    have readyInOrder := inOrder.initialised.of_continues (initialise_continues started)
    rw [started] at noAnswer
    simp only [Option.bind_eq_bind, Option.bind_some] at noAnswer
    split at noAnswer
    · cases noAnswer
    · cases framing : (ready.turn (describeFrame info)).invokeFrame .frame isCancelled with
      | none =>
        refine ⟨_, .frame, initial, ready, initialPlays, hangs framing, ?_⟩
        exact (prefix_append_right_inj _).mpr (prefix_append [ScriptKind.frame] _)
      | some begun =>
        obtain ⟨framed, drawn⟩ := begun
        rw [framing] at noAnswer
        simp only [Option.bind_some] at noAnswer
        split at noAnswer
        · next isBeat =>
          have framePlays : Plays info isCancelled ready [.frame] framed drawn :=
            invokeFrame_plays readyInOrder.hasFunctions framing
          cases beating : (drawn.turn (describeFrame info)).invokeFrame .beat isCancelled with
          | none =>
            refine ⟨_, .beat, _, drawn, initialPlays.append framePlays, hangs beating, ?_⟩
            rw [if_pos isBeat, append_assoc]
            exact prefix_rfl
          | some _ =>
            rw [beating] at noAnswer
            cases noAnswer
        · cases noAnswer

theorem render_continues {after : Scope} {failure : Option ScopeFailure}
    (done : scope.render samples isCancelled = some (points, failure, after)) :
    Continues scope after := by
  unfold render at done
  dsimp only at done
  split_ifs at done
  · cases done
    exact .refl _
  · cases done
    exact .refl _
  · cases done
    exact .refl _
  · exact renderFrom_continues done

/-- A scope stays in order, and the init script is due after a call if the call makes it due, or it
was due and the call is no frame. -/
structure Steps (scope : Scope) (action : ScopeAction) (after : Scope) : Prop where
  inOrder : after.InOrder
  renewed : action.Renews → after.needsInit = true
  kept : ¬action.Renews → after.needsInit = (scope.needsInit && !action.isFrame)

theorem setNumbered_steps (inOrder : scope.InOrder) (num : Int) (src : Text) :
    Steps scope (.setScript num src) (scope.setNumbered num src).2 := by
  unfold setNumbered
  cases numbered : ScriptKind.ofNumber? num with
  | none =>
    refine ⟨inOrder, fun renews => ?_, fun _ => (Bool.and_true _).symm⟩
    rw [renews.1] at numbered
    cases numbered
  | some kind =>
    by_cases succeeds : src = [] ∨ ∃ prog, dialect.compile src = .ok prog
    · obtain ⟨_, done, afterInOrder, needsInit⟩ := setScript_succeeds inOrder kind succeeds
      dsimp only
      rw [done]
      refine ⟨afterInOrder, fun renews => ?_, fun notRenews => ?_⟩
      · have isInit : kind = .init := Option.some.inj (numbered.symm.trans renews.1)
        rw [needsInit, isInit]
        exact Bool.or_true _
      · have notInit : kind ≠ .init := fun isInit => notRenews ⟨isInit ▸ numbered, succeeds⟩
        rw [needsInit, decide_eq_false notInit, Bool.or_false]
        exact (Bool.and_true _).symm
    · have notEmpty : src ≠ [] := fun empty => succeeds (.inl empty)
      cases compiled : dialect.compile src with
      | ok prog => exact absurd (.inr ⟨prog, compiled⟩) succeeds
      | error _ =>
        obtain ⟨_, _, done, sound, goesOn, _⟩ := setScript_fails inOrder kind notEmpty compiled
        dsimp only
        rw [done]
        refine ⟨⟨goesOn.dialect.trans inOrder.dialect, sound, inOrder.isMemory, fun other => ?_⟩,
          fun renews => absurd renews.2 succeeds, fun _ => (Bool.and_true _).symm⟩
        exact (inOrder.compiled other).of_goesOn goesOn rfl rfl

theorem act_steps {after : Scope} (inOrder : scope.InOrder)
    (done : scope.act action = some after) : Steps scope action after := by
  cases action with
  | setScript num src =>
    cases done
    exact setNumbered_steps inOrder num src
  | reset =>
    cases done
    rw [reset_of_isMemory inOrder.isMemory]
    exact ⟨⟨inOrder.dialect, inOrder.sound, rfl, inOrder.compiled⟩, fun _ => rfl,
      fun notRenews => absurd trivial notRenews⟩
  | nextFrame info isCancelled =>
    obtain ⟨_, framed, rfl⟩ := Option.map_eq_some_iff.mp done
    obtain ⟨_, runs⟩ := nextFrame_runsFrame inOrder framed
    exact ⟨inOrder.initialised.of_continues runs.continues, False.elim,
      fun _ => runs.continues.needsInit.trans (Bool.and_false _).symm⟩
  | render samples isCancelled =>
    obtain ⟨_, rendered, rfl⟩ := Option.map_eq_some_iff.mp done
    have continues := render_continues rendered
    exact ⟨inOrder.of_continues continues, False.elim,
      fun _ => continues.needsInit.trans (Bool.and_true _).symm⟩

theorem start_inOrder (vals : Entries Value) (limit cacheSize : Nat) (chance : List Nat) :
    (start (.memory vals) limit cacheSize chance).InOrder where
  dialect := rfl
  sound := Session.start_isSound _ _ _ _
  isMemory := rfl
  compiled kind := by cases kind <;> rfl

theorem actAll_spec {values : Entries Value} {limit cacheSize : Nat} {chance : List Nat}
    (done : actAll (start (.memory values) limit cacheSize chance) actions = some scope) :
    scope.InOrder ∧ (scope.needsInit ↔ ScopeAction.AwaitInit actions) := by
  induction actions using List.reverseRecOn generalizing scope with
  | nil =>
    cases done
    exact ⟨start_inOrder values limit cacheSize chance, iff_of_true rfl ScopeAction.awaitInit_nil⟩
  | append_singleton actions action ih =>
    unfold actAll at done
    rw [foldlM_append] at done
    obtain ⟨before, earlier, last⟩ := Option.bind_eq_some_iff.mp done
    obtain ⟨inOrder, due⟩ := ih earlier
    have steps : Steps before action scope := by
      rw [foldlM_cons] at last
      obtain ⟨_, acted, same⟩ := Option.bind_eq_some_iff.mp last
      cases same
      exact act_steps inOrder acted
    refine ⟨steps.inOrder, ?_⟩
    by_cases renews : action.Renews
    · exact iff_of_true (steps.renewed renews) (ScopeAction.awaitInit_of_renews actions renews)
    · rw [steps.kept renews, ScopeAction.awaitInit_concat actions renews, ← due,
        Bool.and_eq_true, Bool.not_eq_true', and_comm]

/-- A scope has the same scripts, sources, dials, stored values and init script due. -/
structure Untouched (scope after : Scope) : Prop where
  sources : after.sources = scope.sources
  scripts : after.scripts = scope.scripts
  functions : ∀ kind, after.function? kind = scope.function? kind
  world : after.world = scope.world
  needsInit : after.needsInit = scope.needsInit

/-- Setting a script fails exactly if there is no such kind or the source does not compile, and
then it changes nothing. -/
theorem setNumbered_fails_iff (inOrder : scope.InOrder) (num : Int) (src : Text) :
    ((∃ reason, (scope.setNumbered num src).1 = .error reason) ↔ ScriptKind.ofNumber? num = none ∨
          src ≠ [] ∧ ∃ fail, dialect.compile src = .error fail) ∧
      (∀ reason, (scope.setNumbered num src).1 = .error reason →
        Untouched scope (scope.setNumbered num src).2) := by
  unfold setNumbered
  cases numbered : ScriptKind.ofNumber? num with
  | none =>
    exact ⟨iff_of_true ⟨_, rfl⟩ (.inl rfl), fun _ _ => ⟨rfl, rfl, fun _ => rfl, rfl, rfl⟩⟩
  | some kind =>
    by_cases succeeds : src = [] ∨ ∃ prog, dialect.compile src = .ok prog
    · obtain ⟨_, done, -, -⟩ := setScript_succeeds inOrder kind succeeds
      dsimp only
      rw [done]
      refine ⟨iff_of_false nofun ?_, nofun⟩
      rintro (none | ⟨notEmpty, fail, fails⟩)
      · cases none
      · obtain ⟨prog, compiled⟩ := succeeds.resolve_left notEmpty
        rw [fails] at compiled
        cases compiled
    · have notEmpty : src ≠ [] := fun empty => succeeds (.inl empty)
      cases compiled : dialect.compile src with
      | ok prog => exact absurd (.inr ⟨prog, compiled⟩) succeeds
      | error fail =>
        obtain ⟨_, reason, done, -, -, functions⟩ := setScript_fails inOrder kind notEmpty compiled
        dsimp only
        rw [done]
        refine ⟨iff_of_true ⟨reason, rfl⟩ (.inr ⟨notEmpty, fail, rfl⟩), fun _ _ => ?_⟩
        refine ⟨rfl, rfl, fun _ => ?_, rfl, rfl⟩
        unfold function?
        rw [functions]

/-- The function of a script is missing if its source is empty, and else it has the program
that the source compiles to. -/
theorem IsCompiled.function? (compiled : scope.IsCompiled kind) :
    (scope.sources.get kind = [] → scope.function? kind = none) ∧
      (scope.sources.get kind ≠ [] → ∃ fn, scope.function? kind = some fn ∧
        dialect.compile (scope.sources.get kind) = .ok fn.program) := by
  unfold IsCompiled at compiled
  unfold Scope.function?
  cases script : scope.scripts.get kind with
  | none =>
    rw [script] at compiled
    exact ⟨fun _ => rfl, fun notEmpty => absurd compiled notEmpty⟩
  | some _ =>
    rw [script] at compiled
    obtain ⟨notEmpty, _, made, isThere⟩ := compiled
    obtain ⟨fn, found, rfl⟩ := Option.map_eq_some_iff.mp isThere
    exact ⟨fun empty => absurd empty notEmpty, fun _ => ⟨fn, found, made⟩⟩

/-- How a scope lives after calls. -/
structure Lives (actions : List ScopeAction) (scope : Scope) : Prop where
  /-- The init script is due exactly if no frame came since the creation, a new init script or
  a reset. -/
  due : scope.needsInit = true ↔ ScopeAction.AwaitInit actions
  /-- A frame that returns ran the scripts that are due, each once and in order, whatever fails. -/
  frames : ∀ info isCancelled failures after,
    scope.nextFrame info isCancelled = some (failures, after) →
      ∃ ready, RunsFrame scope info isCancelled failures ready after ∧
        ∀ number, after.invocations number = scope.invocations number +
          (scope.initialScripts ++ laterScripts ready.panel info).countP fun kind =>
            scope.scripts.get kind = some number
  /-- A frame returns, unless it comes to a script that never ends. -/
  stalls : ∀ info isCancelled, scope.nextFrame info isCancelled = none →
    scope.Stalls info isCancelled
  /-- Every script is what its source compiles to. -/
  scripts : ∀ kind, (scope.sources.get kind = [] → scope.function? kind = none) ∧
    (scope.sources.get kind ≠ [] → ∃ function, scope.function? kind = some function ∧
      dialect.compile (scope.sources.get kind) = .ok function.program)
  /-- A script cannot be set exactly if there is no such kind or it does not compile. -/
  refusals : ∀ number source, (∃ reason, (scope.setNumbered number source).1 = .error reason) ↔
    ScriptKind.ofNumber? number = none ∨
      source ≠ [] ∧ ∃ failure, dialect.compile source = .error failure
  /-- A script that cannot be set leaves everything as it was. -/
  untouched : ∀ number source reason, (scope.setNumbered number source).1 = .error reason →
    Untouched scope (scope.setNumbered number source).2

/-- Whatever calls on a new scope with a memory have returned, the scope lives as it should. -/
theorem scope_lifecycle
    (values : Entries Value) (limit cacheSize : Nat) (chance : List Nat)
    (actions : List ScopeAction) (scope : Scope)
    (done : actAll (start (.memory values) limit cacheSize chance) actions = some scope) :
    Lives actions scope := by
  obtain ⟨inOrder, due⟩ := actAll_spec done
  refine ⟨due, fun info isCancelled failures after framed => ?_,
    fun info isCancelled => nextFrame_stalls inOrder,
    fun kind => (inOrder.compiled kind).function?,
    fun number source => (setNumbered_fails_iff inOrder number source).1,
    fun number source => (setNumbered_fails_iff inOrder number source).2⟩
  obtain ⟨ready, runsFrame⟩ := nextFrame_runsFrame inOrder framed
  refine ⟨ready, runsFrame, fun number => ?_⟩
  obtain ⟨_, _, -, first, second⟩ := runsFrame.runs
  exact (first.append second).invocations_eq number

/-- After a frame, a new init script and a failed one, the init script is due. -/
theorem renewed_lives :
    let actions : List ScopeAction :=
      [.nextFrame { samples := 3 } false, .setScript 0 (List.map Text.byte ['x', '=', '1', ';']),
        .setScript 0 (List.map Text.byte ['x']), .render #[] false]
    ∃ scope, actAll (start (.memory []) 0 0 []) actions = some scope ∧ Lives actions scope ∧
      scope.needsInit = true := by
  intro actions
  have returns : ((actAll (start (.memory []) 0 0 []) actions).map (·.needsInit)) = some true := by
    decide +kernel
  obtain ⟨scope, done, due⟩ := Option.map_eq_some_iff.mp returns
  exact ⟨scope, done, scope_lifecycle [] 0 0 [] actions scope done, due⟩

end Scope

end HostScript
