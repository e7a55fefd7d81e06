import HostScript.Proofs.Meter
import HostScript.Proofs.Simulation.Script

namespace HostScript

/-!
# Outcomes of scripts

An outcome is all that can be told of an invocation from outside: what was asked of the host, in
order, the values of the variables at the end, the world that is left, and success or a failure.
-/

def RunFault.unplaced : RunFault → RunFault
  | .instruction _ _ => .instruction [] 0
  | fault => fault

/-- What can be told of an invocation from outside. -/
structure Invocation.Outcome (H : Type) where
  interactions : List Interaction
  slots : Array Value
  world : World H
  failure : Option RunFailure

namespace Machine

/-- How an invocation ended, but for the name and position of an instruction. -/
def failure? : Ending → Option RunFailure
  | .ok () => none
  | .error failure => some (failure.map RunFault.unplaced)

/-- An invocation in a world ends with an outcome; as many local variables are looked at. -/
def HasOutcome (host : Host H) (prog : Program) (count : Nat) (world : World H)
    (outcome : Invocation.Outcome H) : Prop :=
  ∃ rounds ending last, runFor host prog {} rounds (start prog world) = (some ending, last) ∧
      outcome =
        { interactions := trace host prog rounds (start prog world)
          slots := last.frame.locals.extract 0 count
          world := last.world
          failure := failure? ending }

theorem HasOutcome.unique (first : HasOutcome host prog count world outcome)
    (second : HasOutcome host prog count world other) : outcome = other := by
  obtain ⟨_, _, _, ended, rfl⟩ := first
  obtain ⟨_, _, _, otherEnded, rfl⟩ := second
  obtain ⟨rfl, rfl, traced⟩ := runFor_unique ended otherEnded
  rw [traced]

end Machine

namespace Evaluation

def failure? : Except Trouble Signal → Option RunFailure
  | .ok _ => none
  | .error trouble => some ((Machine.classify 0 0 trouble).map RunFault.unplaced)

def HasOutcome (host : Host H) (dialect : Dialect) (typed : Typed.Script) (world : World H)
    (outcome : Invocation.Outcome H) : Prop :=
  ∃ rounds result moment, script host dialect.types rounds dialect.binding.state typed
        { slots := typed.locals.map Value.default
          scene := { world := { world with frames := world.frames.push #[] } } } =
      some (result, moment) ∧
      outcome =
        { interactions := moment.scene.log
          slots := moment.slots
          world := moment.scene.world
          failure := failure? result }

end Evaluation

def Dialect.constants (dialect : Dialect) (typed : Typed.Script) : List Value :=
  match Emission.directives dialect.types dialect.binding.state typed with
  | .error _ => []
  | .ok directives =>
    directives.filterMap fun
      | .constant value => some value
      | _ => none

namespace Simulation

open Machine Emission
open Evaluation (Signal Moment)
open Typed (Rules)

theorem classify_unplaced (byte : UInt8) (pos : Nat) (trouble : Trouble) :
    (classify byte pos trouble).map RunFault.unplaced =
      (classify 0 0 trouble).map RunFault.unplaced := by
  unfold classify Failure.classifyUnless
  cases trouble <;> dsimp only <;> split <;> rfl

section

variable {typed : Typed.Script} {world : World H}

theorem Shows.extract_eq {slots cfg} (shows : Shows env slots cfg) :
    cfg.frame.locals.extract 0 env.locals.size = slots := by
  have size := shows.holds.size
  refine Array.ext_getElem? fun slot => ?_
  rw [Array.getElem?_extract, Nat.zero_add]
  by_cases isVariable : slot < env.locals.size
  · have present := shows.slots slot isVariable
    have inside : slot < cfg.frame.locals.size := by
      rw [Array.getElem?_eq_getElem (by omega : slot < slots.size)] at present
      exact (Array.getElem?_eq_some_iff.mp present).1
    rw [if_pos (by omega), present]
  · rw [if_neg (by omega), Array.getElem?_eq_none (by omega)]

theorem Concludes.hasOutcome {rounds res moment}
    (concludes : Concludes env rounds (start env.program world) [] (some (res, moment))) :
    HasOutcome env.host env.program env.locals.size world
      { interactions := moment.scene.log
        slots := moment.slots
        world := moment.scene.world
        failure := Evaluation.failure? res } := by
  obtain ⟨many, ending, last, ended, logged, sameWorld, shows, ends⟩ := concludes
  refine ⟨many, ending, last, ended, ?_⟩
  rw [logged, List.nil_append, shows.extract_eq, sameWorld]
  cases res with
  | ok _ =>
    obtain rfl : ending = _ := ends
    rfl
  | error _ =>
    obtain ⟨byte, pos, rfl⟩ := ends
    simp only [Machine.failure?, Evaluation.failure?, classify_unplaced byte pos]

theorem Compiled.hasOutcome_iff {dialect} (compiled : Compiled env dialect.binding.state typed body)
    (sameTypes : env.types = dialect.types) (plain : world.IsPlain env.clear)
    (outcome : Invocation.Outcome H) :
    HasOutcome env.host env.program typed.locals.size world outcome ↔
      Evaluation.HasOutcome env.host dialect typed world outcome := by
  have started : (start env.program world).world.IsPlain env.clear :=
    ⟨plain.host, plain.arrays, plain.store⟩
  have concludes := fun rounds => compiled.concludes started rounds
  rw [sameTypes] at concludes
  rw [← compiled.locals]
  constructor
  · intro finishes
    obtain ⟨rounds, _, _, ended, _⟩ := id finishes
    have concluded := concludes rounds
    rcases evaluated : Evaluation.script env.host dialect.types rounds dialect.binding.state
        typed { slots := typed.locals.map Value.default
                scene := { world := (start env.program world).world, log := [] } } with
      _ | ⟨res, moment⟩ <;> rw [evaluated] at concluded
    · obtain ⟨_, _, _, _, run⟩ := concluded
      exact absurd (run.lt_of_ended ended) (by omega)
    · exact ⟨rounds, res, moment, evaluated, finishes.unique concluded.hasOutcome⟩
  · rintro ⟨rounds, res, moment, evaluated, rfl⟩
    have concluded := concludes rounds
    change Concludes _ _ _ _ (Evaluation.script _ _ _ _ _
      { slots := _, scene := { world := { world with frames := _ }, log := [] } }) at concluded
    rw [evaluated] at concluded
    exact concluded.hasOutcome

end

end Simulation

open Typed (Rules)

/-!
# Compiled scripts do what their trees mean

The program of a script has the outcomes that the evaluation of its tree has, provided that no
two constants in it share an entry of the pool without being the same.
-/

/-- The members of a dialect hold data, and so do the fields and methods that it names. -/
structure Dialect.IsValued (dialect : Dialect) : Prop where
  members : dialect.types.Obeys Rules.valued
  names : ∀ symbol ∈ dialect.binding.symbols, symbol.isVariable = false →
    symbol.Sound Rules.valued #[]
  state : ∀ field, dialect.binding.state = some field → Rules.valued.field field
  /-- A comparison with zero that a primitive type declares yields something. -/
  truth : ∀ primitive method,
    Analysis.overload? dialect.types .notEqual (.prim primitive) .int32 = some method →
      method.type.isData = true

theorem Dialect.IsValued.governed {dialect : Dialect} (valued : dialect.IsValued) :
    Analysis.Governed dialect.types Rules.valued where
  proper := Rules.valued_proper
  obeys := valued.members
  truth prim meth found := by
    by_cases isBool : meth.type = .bool
    · exact .inl isBool
    · exact .inr ⟨rfl, valued.truth prim meth found⟩

theorem Dialect.program_eq_ok {dialect : Dialect} (built : dialect.program typed = .ok prog) :
    ∃ ds, Emission.directives dialect.types dialect.binding.state typed = .ok ds ∧
        Assembly.assemble ds = .ok prog := by
  obtain ⟨ds, emitted, rest⟩ := ok_of_bind built
  refine ⟨ds, emitted, ?_⟩
  split at rest
  · next asm =>
    cases rest
    exact asm
  · cases rest

theorem Emission.directives_eq_ok (direct : typed.body.isDirect)
    (emitted : Emission.directives types state typed = .ok ds) :
    ∃ body, BodyCode { types, exit := 0 } (.block typed.body) (opening state typed) body ∧
      ds = (body.wroteAll (closingDirectives state typed)).directives.reverse := by
  obtain ⟨⟨_, _⟩, scripted, rest⟩ := ok_of_bind emitted
  cases rest
  obtain ⟨body, bodyCode, rfl⟩ := script_ensures direct _ _ scripted
  exact ⟨body, bodyCode, rfl⟩

theorem Dialect.mem_constants {dialect : Dialect}
    (emitted : Emission.directives dialect.types dialect.binding.state typed = .ok ds) :
    val ∈ dialect.constants typed ↔ Directive.constant val ∈ ds := by
  simp only [constants, emitted, List.mem_filterMap]
  constructor
  · rintro ⟨d, member, same⟩
    split at same
    · cases same
      exact member
    · cases same
  · exact fun member => ⟨_, member, rfl⟩

/--
The machine and the evaluation of the analysed tree agree on the outcome of a script, for
every dialect, host, world and script without transforms.
-/
theorem compiled_hasOutcome_iff
    (dialect : Dialect) (valued : dialect.IsValued) (host : Host H) (clear : H → Prop)
    (discreet : host.Discreet clear) (root : Tree.Block) (spelled : root.isSpelled = true)
    (analysed : Typed.Script) (accepted : Analysis.script dialect root = .ok analysed)
    (direct : analysed.body.isDirect = true) (program : Program)
    (built : dialect.program analysed = .ok program)
    (coherent : ∀ first ∈ dialect.constants analysed, ∀ second ∈ dialect.constants analysed,
      first.equals second = true → first = second)
    (world : World H) (plain : world.IsPlain clear) (outcome : Invocation.Outcome H) :
    Machine.HasOutcome host program analysed.locals.size world outcome ↔
      Evaluation.HasOutcome host dialect analysed world outcome := by
  obtain ⟨directives, emitted, assembled⟩ := Dialect.program_eq_ok built
  obtain ⟨body, bodyCode, shape⟩ := Emission.directives_eq_ok direct emitted
  let setting : Simulation.Setting H :=
    { host, clear, guards := discreet.guards, types := dialect.types, locals := analysed.locals,
      directives, program, assembled
      coherent := fun first second firstMember secondMember =>
        coherent first ((Dialect.mem_constants emitted).mpr firstMember) second
          ((Dialect.mem_constants emitted).mpr secondMember) }
  have compiled : Simulation.Compiled setting dialect.binding.state analysed body :=
    { locals := rfl
      bodyCode
      directives := shape
      sound := Analysis.script_sound valued.governed valued.names spelled accepted
      field := valued.state }
  exact compiled.hasOutcome_iff rfl plain outcome

namespace Meter

theorem isValued : dialect.IsValued where
  members := obeys _
  names := names_sound
  state := by
    rintro _ ⟨⟩
    exact ⟨rfl, nofun⟩
  truth prim meth found := by
    obtain ⟨⟨_, isData⟩, _⟩ : Rules.valued.method meth ∧ _ :=
      Analysis.overload?_eq_some (obeys _) found
    cases prim <;> cases found

/-- A script that keeps the level, changes it, and fails. -/
def alarmed : Tree.Block :=
  let kept : Text := [Text.byte 'k']
  .mk 0 [.persistent 0 ⟨floatName, 0⟩ ⟨kept, 0⟩,
      .assignment 0 (.reference 0 kept) (.reference 0 levelName),
      .assignment 0 (.reference 0 levelName) (.literal 0 (.float 0x3f800000)),
      .callStatement 0 (.call 0 ⟨alarmName, 0⟩ [])]

theorem alarmed_hasOutcome :
    ∃ outcome, Evaluation.HasOutcome host dialect (analysed alarmed) world outcome ∧
      Machine.HasOutcome host (program alarmed) (analysed alarmed).locals.size world outcome := by
  have evaluated : ∃ outcome,
      Evaluation.HasOutcome host dialect (analysed alarmed) world outcome :=
    ⟨_, 0, _, _, rfl, rfl⟩
  obtain ⟨outcome, evaluated⟩ := evaluated
  exact ⟨outcome, evaluated, (compiled_hasOutcome_iff dialect isValued host _ discreet alarmed rfl
    (analysed alarmed) rfl rfl (program alarmed) (built_of_isSome (by decide +kernel))
    (by decide +kernel) world world_isPlain outcome).mpr evaluated⟩

/-- A script that sets the level to one zero and then to the other. -/
def zeros : Tree.Block :=
  .mk 0 [.assignment 0 (.reference 0 levelName) (.literal 0 (.float 0)),
      .assignment 0 (.reference 0 levelName) (.literal 0 (.float 0x80000000))]

/-- The level is set to the first zero twice, though the script means both. -/
theorem zeros_differ :
    ∃ outcome, Evaluation.HasOutcome host dialect (analysed zeros) world outcome ∧
      ¬Machine.HasOutcome host (program zeros) (analysed zeros).locals.size world outcome := by
  refine ⟨_, ⟨0, _, _, rfl, rfl⟩, ?_⟩
  rintro ⟨_, _, _, ended, same⟩
  injection same with logged
  have ends : (Machine.runFor host (program zeros) {} 20
      (Machine.start (program zeros) world)).1.isSome = true := by decide +kernel
  rcases run : Machine.runFor host (program zeros) {} 20 (Machine.start (program zeros) world) with
    ⟨_ | other, after⟩
  · rw [run] at ends
    cases ends
  have traced := (Machine.runFor_unique ended run).2.2
  rw [traced] at logged
  exact absurd logged (by decide +kernel)

end Meter

end HostScript
