import HostScript.Scope.Basic
import HostScript.Store.Snapshot

/-!
# Settings of a run

The scripts and numbers that a run is made with.
-/

namespace HostScript

/-- The settings of a run. -/
structure Config where
  scripts : PerScript Text := .all []
  times : Int := 0
  points : Int := 0
  beatEvery : Int := 0
  width : Int := 0
  height : Int := 0
  operationLimit : Int := 0
  stateDb : Text := []
  snapshot : Text := []
  disasm : Bool := false
  dumpState : Bool := false
  deriving Repr, DecidableEq

/-- What goes wrong with settings or a run, or what was being done then. -/
inductive CommandFault where
  | scope (fault : ScopeFault)
  | store (fault : StoreFault)
  | malformed
  | bothSources
  | noScript
  | negativeCount
  | unknownKind (name : Text)
  | notDirectory (path : Text)
  | readingConfig (path : Text)
  | parsingConfig (path : Text)
  | readingScript
  deriving Repr, DecidableEq

def CommandFault.text (word : Cbor.ReadFault → Text) : CommandFault → Text
  | .scope fault => fault.text word
  | .store fault => fault.text word
  | .malformed => word .malformed
  | .bothSources => "--file and --expr are mutually exclusive"
  | .noScript => "no script given"
  | .negativeCount => "counts must not be negative"
  | .unknownKind name => "unknown script kind " ++ name.inQuotes
  | .notDirectory path => Text.join ["mkdir ", path, ": not a directory"]
  | .readingConfig path => "failed to read configuration " ++ path.quoted
  | .parsingConfig path => "failed to parse configuration " ++ path.quoted
  | .readingScript => "failed to read script"

/-- Failures of settings and runs. -/
abbrev CommandFailure := Failure CommandFault

namespace Config

/-- What holds where nothing else is said. -/
def default : Config :=
  { times := 1, width := 640, height := 480 }

def folded (name : Text) : Text :=
  name.runes.flatMap fun rune =>
    if rune.codePoint = 0x17f then "s"
    else if rune.codePoint = 0x212a then "k"
    else rune.bytes.map Text.lowerByte

/-- A written integer that fits 64 bits. -/
def integer? (literal : Text) : Option Int :=
  let (isNegative, digits) : Bool × Text :=
    match literal with
    | 45 :: rest => (true, rest)
    | _ => (false, literal)
  if digits.isEmpty || !digits.all Json.isDigit then none
  else
    let magnitude : Int := digits.foldl (fun value b => value * 10 + (b.toNat - 48 : Nat)) 0
    let value := if isNegative then -magnitude else magnitude
    if -(Nat.pow 2 63 : Nat) ≤ value ∧ value < (Nat.pow 2 63 : Nat) then some value else none

def textOr (before : Text) : Json.Item → Option Text
  | .string content => some content
  | .null => some before
  | _ => none

def integerOr (before : Int) : Json.Item → Option Int
  | .number literal => integer? literal
  | .null => some before
  | _ => none

def boolOr (before : Bool) : Json.Item → Option Bool
  | .bool value => some value
  | .null => some before
  | _ => none

/-- Follows one member of a file of settings; names that mean nothing are passed over. -/
def withMember? (config : Config) (name : Text) (item : Json.Item) : Option Config :=
  let key := folded name
  let isCalled (setting : String) : Bool := key == folded setting
  if let some kind := ScriptKind.ofText? key then
    (textOr (config.scripts.get kind) item).map fun source =>
      { config with scripts := config.scripts.set kind source }
  else if isCalled "times" then
    (integerOr config.times item).map fun times => { config with times }
  else if isCalled "points" then
    (integerOr config.points item).map fun points => { config with points }
  else if isCalled "beatEvery" then
    (integerOr config.beatEvery item).map fun beatEvery => { config with beatEvery }
  else if isCalled "width" then
    (integerOr config.width item).map fun width => { config with width }
  else if isCalled "height" then
    (integerOr config.height item).map fun height => { config with height }
  else if isCalled "operationLimit" then
    (integerOr config.operationLimit item).map fun operationLimit => { config with operationLimit }
  else if isCalled "stateDb" then
    (textOr config.stateDb item).map fun stateDb => { config with stateDb }
  else if isCalled "snapshot" then
    (textOr config.snapshot item).map fun snapshot => { config with snapshot }
  else if isCalled "disasm" then
    (boolOr config.disasm item).map fun disasm => { config with disasm }
  else if isCalled "dumpState" then
    (boolOr config.dumpState item).map fun dumpState => { config with dumpState }
  else some config

def ofItem? : Json.Item → Option Config
  | .object members =>
    members.foldlM (fun (config : Config) (name, item) => config.withMember? name item) {}
  | .null => some {}
  | _ => none

def load (files : Files) (path : Text) : Except CommandFailure Config :=
  match files.read path with
  | .error failure => .error (.within (.readingConfig path) (failure.map CommandFault.store))
  | .ok content =>
    match (Json.read? content).bind ofItem? with
    | some config => .ok config
    | none => .error (.within (.parsingConfig path) (.cause .malformed))

def overlay (below above : Config) : Config :=
  let text (a b : Text) : Text := if b.isEmpty then a else b
  let number (a b : Int) : Int := if b = 0 then a else b
  { scripts :=
      { init := text below.scripts.init above.scripts.init
        frame := text below.scripts.frame above.scripts.frame
        beat := text below.scripts.beat above.scripts.beat
        point := text below.scripts.point above.scripts.point }
    times := number below.times above.times
    points := number below.points above.points
    beatEvery := number below.beatEvery above.beatEvery
    width := number below.width above.width
    height := number below.height above.height
    operationLimit := number below.operationLimit above.operationLimit
    stateDb := text below.stateDb above.stateDb
    snapshot := text below.snapshot above.snapshot
    disasm := below.disasm || above.disasm
    dumpState := below.dumpState || above.dumpState }

/-- Refuses settings without a script or with a negative count. -/
def validate (config : Config) : Except CommandFailure Config :=
  if ScriptKind.all.all fun kind => (config.scripts.get kind).isEmpty then
    .error (.cause .noScript)
  else if config.times < 0 ∨ config.points < 0 ∨ config.beatEvery < 0 ∨ config.operationLimit < 0
  then .error (.cause .negativeCount)
  else .ok config

def givenSource (files : Files) (file inline : Text) : Except CommandFailure Text :=
  if file.isEmpty then .ok inline
  else if !inline.isEmpty then .error (.cause .bothSources)
  else
    match files.read file with
    | .ok content => .ok content
    | .error failure => .error (.within .readingScript (failure.map CommandFault.store))

def withSource (config : Config) (kind source : Text) : Except CommandFailure Config :=
  if source.isEmpty then .ok config
  else
    match ScriptKind.ofText? kind with
    | some script => .ok { config with scripts := config.scripts.set script source }
    | none => .error (.cause (.unknownKind kind))

def build (files : Files) (path file inline kind : Text) (flags : Config) :
    Except CommandFailure Config := do
  let loaded ← if path.isEmpty then pure {} else load files path
  let source ← givenSource files file inline
  let given ← flags.withSource kind source
  ((default.overlay loaded).overlay given).validate

end Config

end HostScript
