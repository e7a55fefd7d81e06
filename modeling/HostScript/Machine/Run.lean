import HostScript.Machine.Step

/-!
# Invocations

An invocation performs instruction after instruction until one ends it, a failure finds no
protected region, the code ends, or the limit of operations is reached.
-/

namespace HostScript

/-- How an invocation is bounded from outside. -/
structure Bounds where
  /-- The most operations; zero is no limit. -/
  limit : Nat := 0
  /-- Whether the caller gave up before the start. -/
  isCancelled : Bool := false
  deriving Repr, DecidableEq

/-- How often an invocation looks whether its caller gave up. -/
def Bounds.interval : Nat :=
  1024

/-- How an invocation ends. -/
abbrev Ending := Except RunFailure Unit

/-- What a round leads to. -/
inductive Round (H : Type) where
  | continues (configuration : Configuration H)
  | ends (ending : Ending) (configuration : Configuration H)

namespace Machine

def stopped (fault : RunFault) : RunFailure :=
  .classified .execution Failure.noOffset (.cause fault)

def classify (byte : UInt8) (position : Nat) (trouble : Trouble) : RunFailure :=
  let failure : RunFailure :=
    match trouble with
    | .failed failure => failure
    | .crashed crash => .cause (.crashed crash)
  failure.classifyUnless .execution Failure.noOffset
    (.instruction (Code.mnemonic byte) position)

def raise (failure : RunFailure) (frame : Frame) : Option Frame :=
  let completions := frame.completions.dropWhile fun completion =>
    frame.regions.length ≤ completion.depth
  match frame.regions with
  | [] => none
  | region :: outer =>
    some
      { frame with
        regions := outer
        completions := { resumption := .failure failure, depth := outer.length } :: completions
        stack := []
        next := region.handler }

/-- What stands in the way of the next instruction. -/
def obstacle? (bounds : Bounds) (frame : Frame) : Option RunFailure :=
  if bounds.limit ≠ 0 ∧ bounds.limit ≤ frame.operations then some (stopped .limitExceeded)
  else if bounds.isCancelled ∧ frame.operations % Bounds.interval = 0 then
    some (.classified .execution Failure.noOffset (.within .aborted (.cause .cancelled)))
  else none

def cycle (host : Host H) (program : Program) (bounds : Bounds)
    (configuration : Configuration H) : Round H :=
  let frame := configuration.frame
  match program.code[frame.next]? with
  | none => .ends (.error (stopped .brokenCode)) configuration
  | some byte =>
    match obstacle? bounds frame with
    | some failure => .ends (.error failure) configuration
    | none =>
      let begun : Frame :=
        { frame with
          operations := frame.operations + 1, position := frame.next, next := frame.next + 1 }
      match Step.performByte host program byte { configuration with frame := begun } with
      | (.ok false, after) => .continues after
      | (.ok true, after) => .ends (.ok ()) after
      | (.error trouble, after) =>
        let failure := classify byte after.frame.position trouble
        match raise failure after.frame with
        | some raised => .continues { after with frame := raised }
        | none => .ends (.error failure) after

/-- At most the given count of rounds; `none` when they were not enough. -/
def runFor (host : Host H) (program : Program) (bounds : Bounds) :
    (rounds : Nat) → Configuration H → Option Ending × Configuration H
  | 0, configuration => (none, configuration)
  | rounds + 1, configuration =>
    match cycle host program bounds configuration with
    | .continues after => runFor host program bounds rounds after
    | .ends ending after => (some ending, after)

/-- Round after round until the invocation ends; `none` when it never does. -/
def run (host : Host H) (program : Program) (bounds : Bounds) (c : Configuration H) :
    Option (Ending × Configuration H) :=
  match cycle host program bounds c with
  | .continues after => (run host program (c := after)) bounds
  | .ends ending after => some (ending, after)
partial_fixpoint

/-- The configuration that an invocation of a program begins with. -/
def start (program : Program) (world : World H) : Configuration H :=
  { frame := { number := world.frames.size, locals := program.locals.map Value.default }
    world := { world with frames := world.frames.push #[] } }

end Machine

/-- Counts of what a function did. -/
structure Stats where
  invocations : Nat := 0
  failures : Nat := 0
  operations : Nat := 0
  deriving Repr, DecidableEq

/-- The counts as a line. -/
def Stats.text (stats : Stats) : Text :=
  Text.join ["invocations=", Text.decimal stats.invocations, " failures=",
    Text.decimal stats.failures, " operations=", Text.decimal stats.operations]

/-- A program ready to be invoked. -/
structure Function where
  program : Program
  name : Text := "script"
  limit : Nat := 0
  stats : Stats := {}
  deriving Repr, DecidableEq

namespace Function

/-- The function after an invocation of it. -/
def counted (function : Function) (ending : Option Ending) (operations : Nat) : Function :=
  let failed : Nat :=
    match ending with
    | some (.error _) => 1
    | _ => 0
  { function with
    stats :=
      { invocations := function.stats.invocations + 1
        failures := function.stats.failures + failed
        operations := function.stats.operations + operations } }

/-- What an invocation that came to a configuration reports. -/
def reported (function : Function) (ending : Option Ending) (after : Configuration H) :
    Option Ending × Function × World H :=
  (ending, function.counted ending after.frame.operations,
    { after.world with
      frames := after.world.frames.setIfInBounds after.frame.number after.frame.locals })

/-- Runs a function in a world.  The ending is missing when the invocation never ends. -/
def invoke (function : Function) (host : Host H) (isCancelled : Bool) (world : World H) :
    Option Ending × Function × World H :=
  match Machine.run host function.program { limit := function.limit, isCancelled }
      (Machine.start function.program world) with
  | some (ending, after) => function.reported (some ending) after
  | none => (none, function, world)

end Function

end HostScript
