import HostScript.Command.Config

/-!
# Runs

A run loads the persistent variables, compiles the scripts, prepares and renders
frames, prints points and dials, and keeps the persistent variables again.
-/

namespace HostScript

/-- What runs read and leave behind. -/
structure Workspace where
  files : Files := {}
  databases : Entries Database := []
  deriving Repr, DecidableEq

/-- A run in progress. -/
structure Run where
  scope : Scope
  workspace : Workspace
  /-- What was printed, the last piece first. -/
  printed : List Text := []

/-- What a run amounts to. -/
structure Outcome where
  failure : Option CommandFailure
  output : Text
  warnings : List Warning
  workspace : Workspace

namespace Run

def stateScope : Text :=
  "superscope"

/-- The sample of a synthetic signal, as a 32-bit pattern. -/
def sample (count frame point : Nat) : Nat :=
  let angle := 6.283185307179586 * (point * (frame + 1)).toFloat / count.toFloat
  Binary.double.convert Binary.single angle.sin.toBits.toNat

def signal (count frame : Nat) : Array Nat :=
  ((List.range count).map (sample count frame)).toArray

def print (run : Run) (piece : Text) : Run :=
  { run with printed := piece :: run.printed }

def number (bits : Nat) : Text :=
  Binary.single.text Binary.general bits

def printPoint (frame place : Nat) (point : Point) : Text :=
  Text.join ["frame ", Text.decimal frame, " point ", Text.decimal place, ": x=",
    number point.x, " y=", number point.y, " rgba=(", number point.red, ", ",
    number point.green, ", ", number point.blue, ", ", number point.alpha, ")\n"]

def shownDials : List Dial :=
  [.count, .x, .y, .red, .green, .blue, .alpha, .lineWidth]

/-- The line of dials. -/
def printPanel (panel : Panel) : Text :=
  let shown (dial : Dial) : Text := Text.join [dial.name, "=", number (panel.get dial)]
  Text.joinWith " " (shownDials.map shown) ++ [Text.byte '\n']

def warn (run : Run) (message : Text) (frame : Nat) (failures : List ScopeFailure) : Run :=
  let warning : Warning := { speaker := [], message, subject := Text.decimal frame, failures }
  { run with scope := { run.scope with warnings := warning :: run.scope.warnings } }

def setScripts (config : Config) : List ScriptKind → Run → Except CommandFailure Unit × Run
  | [], run => (.ok (), run)
  | kind :: rest, run =>
    match run.scope.setScript kind (config.scripts.get kind) with
    | (.error failure, scope) =>
      (.error (failure.map CommandFault.scope), { run with scope })
    | (.ok _, scope) =>
      let set : Run := { run with scope }
      match scope.function? kind with
      | some function =>
        let listing :=
          Text.join ["; ", kind.text, " script ", function.name, "\n",
            function.program.listing]
        setScripts config rest (if config.disasm then set.print listing else set)
      | none => setScripts config rest set

/-- Prepares a frame; failures of its scripts are warnings. -/
def prepare (config : Config) (isCancelled : Bool) (frame : Nat) (run : Run) : Option Run :=
  let info : FrameInfo :=
    { width := config.width
      height := config.height
      isBeat := 0 < config.beatEvery ∧ ((frame : Int) + 1) % config.beatEvery = 0
      samples := config.points }
  (run.scope.nextFrame info isCancelled).map fun
    | ([], scope) => { run with scope }
    | (failures, scope) => { run with scope }.warn "Frame failed" frame failures

/-- Prints the points of a frame; a crash is all that stops the run. -/
def showPoints (frame : Nat) (run : Run) (points : List Point) (failure : Option ScopeFailure)
    (scope : Scope) : Except CommandFailure Unit × Run :=
  let pieces := points.zipIdx.map fun (point, place) => printPoint frame place point
  let shown : Run := { run with scope, printed := pieces.reverse ++ run.printed }
  match failure with
  | some (.cause fault) =>
    if fault.isCrash then (.error (.cause (.scope fault)), { run with scope })
    else (.ok (), shown.warn "Render failed" frame [.cause fault])
  | some failure => (.ok (), shown.warn "Render failed" frame [failure])
  | none => (.ok (), shown)

/-- Renders a frame and prints its points. -/
def render (config : Config) (isCancelled : Bool) (frame : Nat) (run : Run) :
    Option (Except CommandFailure Unit × Run) :=
  (run.scope.render (signal config.points.toNat frame) isCancelled).map
    fun (points, failure, scope) => run.showPoints frame points failure scope

/-- The frames from one on, if every script ends; the rest of the count tells how many. -/
def frames (config : Config) (isCancelled : Bool) :
    (rest frame : Nat) → Run → Option (Except CommandFailure Unit × Run)
  | 0, _, run => some (.ok (), run)
  | rest + 1, frame, run =>
    (run.prepare config isCancelled frame).bind fun prepared =>
      if config.scripts.point.isEmpty then frames config isCancelled rest (frame + 1) prepared
      else
        (prepared.render config isCancelled frame).bind fun
          | (.error crash, stopped) => some (.error crash, stopped)
          | (.ok _, rendered) =>
            if isCancelled then some (.error (.cause (.scope .cancelled)), rendered)
            else frames config isCancelled rest (frame + 1) rendered

def keep (config : Config) (run : Run) : Except CommandFailure Unit × Run :=
  if config.snapshot.isEmpty then (.ok (), run)
  else
    match Snapshot.save run.workspace.files config.snapshot run.scope.world.store with
    | .error failure => (.error (failure.map CommandFault.store), run)
    | .ok files => (.ok (), { run with workspace := { run.workspace with files } })

/-- Prints the persistent variables if asked to. -/
def dump (config : Config) (run : Run) : Except CommandFailure Unit × Run :=
  if config.dumpState then
    match run.scope.world.store.dump (run.scope.world.textOf Panel.host) with
    | .error failure => (.error (failure.map CommandFault.store), run)
    | .ok text => (.ok (), run.print (text ++ [Text.byte '\n']))
  else (.ok (), run)

/-- Does one thing after another as long as they succeed. -/
def andThen (first : Except CommandFailure Unit × Run)
    (next : Run → Except CommandFailure Unit × Run) : Except CommandFailure Unit × Run :=
  match first with
  | (.ok _, run) => next run
  | failed => failed

/-- All that a run does with its store; there is no answer if a script never ends. -/
def work (config : Config) (isCancelled : Bool) (run : Run) :
    Option (Except CommandFailure Unit × Run) :=
  match run.setScripts config ScriptKind.all with
  | (.error failure, failed) => some (.error failure, failed)
  | (.ok _, ready) =>
    (ready.frames config isCancelled config.times.toNat 0).map fun framed =>
      andThen framed fun shown =>
        andThen ((shown.print (printPanel shown.scope.panel)).keep config) fun kept =>
          kept.dump config

def openStore (config : Config) (workspace : Workspace) : Except CommandFailure Store :=
  if config.stateDb.isEmpty then .ok .empty
  else if (workspace.files.contents.find? config.stateDb).isSome then
    .error (.cause (.notDirectory config.stateDb))
  else .ok (.durable stateScope ((workspace.databases.find? config.stateDb).getD {}))

def restored (config : Config) (files : Files) (store : Store) :
    Except CommandFailure Unit × Store :=
  if !config.snapshot.isEmpty && (files.contents.find? config.snapshot).isSome then
    match Snapshot.load files config.snapshot store with
    | (.error failure, changed) => (.error (failure.map CommandFault.store), changed)
    | (.ok _, changed) => (.ok (), changed)
  else (.ok (), store)

def close (config : Config) (workspace : Workspace) : Store → Workspace
  | .durable _ database =>
    { workspace with databases := workspace.databases.insert config.stateDb database }
  | _ => workspace

/-- Runs with some settings; there is no outcome if a script never ends. -/
def perform (config : Config) (isCancelled : Bool) (workspace : Workspace) : Option Outcome :=
  match openStore config workspace with
  | .error failure => some { failure := some failure, output := [], warnings := [], workspace }
  | .ok opened =>
    match restored config workspace.files opened with
    | (.error failure, store) =>
      some
        { failure := some failure, output := [], warnings := []
          workspace := close config workspace store }
    | (.ok _, store) =>
      let run : Run :=
        { scope := Scope.start store config.operationLimit.toNat 0 [], workspace }
      (run.work config isCancelled).map fun (result, done) =>
        { failure :=
            match result with
            | .ok _ => none
            | .error failure => some failure
          output := Text.join done.printed.reverse
          warnings := done.scope.warnings.reverse
          workspace := close config done.workspace done.scope.world.store }

end Run

end HostScript
