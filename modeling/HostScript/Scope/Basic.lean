import HostScript.Session.Basic

/-!
# Scopes

A scope is a programmable oscilloscope.
-/

namespace HostScript

/-- The dials of a scope. -/
inductive Dial where
  | red | green | blue | alpha
  | count
  | x | y
  | previousX | previousY | previousAlpha
  | width | height
  | beat
  | place
  | sample
  | nativeCount
  | lineWidth
  deriving Repr, DecidableEq

namespace Dial

def all : List Dial :=
  [.red, .green, .blue, .alpha, .count, .x, .y, .previousX, .previousY, .previousAlpha, .width,
    .height, .beat, .place, .sample, .nativeCount, .lineWidth]

def name : Dial → String
  | .red => "red"
  | .green => "green"
  | .blue => "blue"
  | .alpha => "alpha"
  | .count => "n"
  | .x => "x"
  | .y => "y"
  | .previousX => "px"
  | .previousY => "py"
  | .previousAlpha => "palpha"
  | .width => "w"
  | .height => "h"
  | .beat => "b"
  | .place => "i"
  | .sample => "v"
  | .nativeCount => "nativen"
  | .lineWidth => "linewidth"

def ofName? (name : String) : Option Dial :=
  all.find? fun dial => dial.name == name

end Dial

/-- The settings of the dials that are not at zero, as 32-bit patterns. -/
structure Panel where
  settings : List (Dial × Nat)
  deriving Repr, DecidableEq

namespace Panel

def get (panel : Panel) (dial : Dial) : Nat :=
  (panel.settings.lookup dial).getD 0

def set (panel : Panel) (dial : Dial) (bits : Nat) : Panel :=
  { settings := (dial, bits) :: panel.settings.filter fun entry => entry.1 != dial }

/-- The pattern of one. -/
def one : Nat :=
  0x3f800000

/-- The dials of a new scope. -/
def start : Panel :=
  { settings :=
      [(.red, one), (.green, one), (.blue, one), (.alpha, one), (.previousAlpha, 0x3dcccccd),
        (.lineWidth, one)] }

def dial (label : String) : Act Panel Dial :=
  match Dial.ofName? label with
  | some dial => return dial
  | none => Act.crash .foreignValue

def readField (label : String) (receiver : Value) : Act Panel Value := do
  if receiver ≠ .host then Act.crash .foreignValue
  else if label == "State" then return if (← MonadState.get).attached then .state else .null
  else
    let chosen ← dial label
    return .single ((← MonadState.get).host.get chosen)

/-- Sets a dial; what is no number of its sort sets it to zero. -/
def writeField (label : String) (receiver value : Value) : Act Panel Unit := do
  if receiver ≠ .host then Act.crash .foreignValue
  else
    let chosen ← dial label
    let bits : Nat :=
      match value with
      | .float .single pattern => pattern.toNat
      | _ => 0
    modify fun world => { world with host := world.host.set chosen bits }

/-- A scope as a host: it has nothing but its dials and the store. -/
def host : Host Panel :=
  { types := Universe.predeclared
    readField
    writeField
    readProperty := fun _ _ _ => Act.crash .foreignValue
    writeProperty := fun _ _ _ _ => Act.crash .foreignValue
    invoke := fun _ _ _ => Act.crash .foreignValue
    describe := fun _ _ => none }

def bind (binding : Binding) : Option BindFailure × Binding :=
  let dials : List Binder :=
    Dial.all.map fun dial => fun bound => bound.field dial.name .single dial.name
  let state : Binder := fun bound => bound.bindState "State" "State"
  Binding.bindEach (dials ++ [state]) binding

end Panel

/-- The scripts of a scope. -/
inductive ScriptKind where
  | init | frame | beat | point
  deriving Repr, DecidableEq

namespace ScriptKind

def all : List ScriptKind :=
  [.init, .frame, .beat, .point]

def text : ScriptKind → Text
  | .init => "init"
  | .frame => "frame"
  | .beat => "beat"
  | .point => "point"

def ofText? (name : Text) : Option ScriptKind :=
  all.find? fun kind => kind.text == name

def ofNumber? (number : Int) : Option ScriptKind :=
  if number < 0 then none else all[number.toNat]?

def numberedText (number : Int) : Text :=
  match ofNumber? number with
  | some kind => kind.text
  | none => "unknown"

end ScriptKind

/-- What goes wrong in a scope, or what was being done then. -/
inductive ScopeFault where
  | run (fault : RunFault)
  | compile (fault : CompileFault)
  | store (fault : StoreFault)
  | unknownKind (name : Text)
  | invalidKind (number : Int)
  | cancelled
  | compiling (kind : ScriptKind)
  | script (kind : ScriptKind)
  | pointScript (place : Nat)
  /-- There cannot be room for so many points: this ends the program. -/
  | noRoom
  /-- No sample stands where one is looked for: this ends the program. -/
  | noSample
  deriving Repr, DecidableEq

def ScopeFault.isCrash : ScopeFault → Bool
  | .noRoom | .noSample => true
  | _ => false

def ScopeFault.text (word : Cbor.ReadFault → Text) : ScopeFault → Text
  | .run fault => fault.text word
  | .compile fault => fault.text
  | .store fault => fault.text word
  | .unknownKind name => "unknown script kind " ++ name.inQuotes
  | .invalidKind number => "invalid script kind " ++ Text.integer number
  | .cancelled => RunFault.text word .cancelled
  | .compiling kind => Text.join ["failed to compile ", kind.text, " script"]
  | .script kind => kind.text ++ " script"
  | .pointScript place => "point script at " ++ Text.decimal place
  | .noRoom => "makeslice: cap out of range"
  | .noSample => "index out of range"

/-- Failures of scopes. -/
abbrev ScopeFailure := Failure ScopeFault

/-- A warning: who says it, what it says, and about what. -/
structure Warning where
  speaker : Text
  message : Text
  subject : Text
  failures : List ScopeFailure
  deriving Repr, DecidableEq

/-- One thing for every kind of script. -/
structure PerScript (α : Type) where
  init : α
  frame : α
  beat : α
  point : α
  deriving Repr, DecidableEq

namespace PerScript

def all (thing : α) : PerScript α :=
  { init := thing, frame := thing, beat := thing, point := thing }

def get (things : PerScript α) : ScriptKind → α
  | .init => things.init
  | .frame => things.frame
  | .beat => things.beat
  | .point => things.point

def set (things : PerScript α) (kind : ScriptKind) (thing : α) : PerScript α :=
  match kind with
  | .init => { things with init := thing }
  | .frame => { things with frame := thing }
  | .beat => { things with beat := thing }
  | .point => { things with point := thing }

end PerScript

/-- What a frame is prepared with. -/
structure FrameInfo where
  width : Int := 0
  height : Int := 0
  isBeat : Bool := false
  samples : Int := 0
  deriving Repr, DecidableEq

/-- A rendered point as 32-bit patterns. -/
structure Point where
  x : Nat
  y : Nat
  red : Nat
  green : Nat
  blue : Nat
  alpha : Nat
  deriving Repr, DecidableEq

/-- A scope with its scripts. -/
structure Scope where
  session : Session
  world : World Panel
  sources : PerScript Text := .all []
  scripts : PerScript (Option Nat) := .all none
  /-- Whether the next frame runs the init script. -/
  needsInit : Bool := true
  warnings : List Warning := []

namespace Scope

/-- The dialect of scopes; it has no transforms. -/
def dialect : Dialect :=
  { types := Universe.predeclared
    binding := (Panel.bind Binding.standard).2
    expand := fun _ _ => [] }

def start (store : Store) (limit cacheSize : Nat) (chance : List Nat) : Scope :=
  { session := Session.start dialect limit cacheSize
    world := { host := Panel.start, store, chance } }

def panel (scope : Scope) : Panel :=
  scope.world.host

def turn (scope : Scope) (change : Panel → Panel) : Scope :=
  { scope with world := { scope.world with host := change scope.world.host } }

def function? (scope : Scope) (kind : ScriptKind) : Option Function :=
  (scope.scripts.get kind).bind fun number => scope.session.functions[number]?

/-- Sets a script; an empty source removes it. -/
def setScript (scope : Scope) (kind : ScriptKind) (source : Text) :
    Except ScopeFailure Unit × Scope :=
  let installed (changed : Scope) (number : Option Nat) : Except ScopeFailure Unit × Scope :=
    (.ok (),
      { changed with
        sources := changed.sources.set kind source
        scripts := changed.scripts.set kind number
        needsInit := changed.needsInit || kind = .init })
  if source.isEmpty then installed scope none
  else
    match scope.session.compile source with
    | (.error failure, session) =>
      (.error ((failure.map ScopeFault.compile).extend (.compiling kind)),
        { scope with session })
    | (.ok number, session) => installed { scope with session } (some number)

def setNumbered (scope : Scope) (number : Int) (source : Text) :
    Except ScopeFailure Unit × Scope :=
  match ScriptKind.ofNumber? number with
  | some kind => scope.setScript kind source
  | none => (.error (.cause (.invalidKind number)), scope)

/-- Forgets the persistent variables and asks for the init script. -/
def reset (scope : Scope) : Except ScopeFailure Unit × Scope :=
  match scope.world.store.clear with
  | .error failure => (.error (failure.map ScopeFault.store), scope)
  | .ok store => (.ok (), { scope with world := { scope.world with store }, needsInit := true })

def describeFrame (info : FrameInfo) (panel : Panel) : Panel :=
  panel
    |>.set .width (Binary.single.ofInt info.width)
    |>.set .height (Binary.single.ofInt info.height)
    |>.set .beat (if info.isBeat then Panel.one else 0)
    |>.set .nativeCount (Binary.single.ofInt info.samples)

def warn (scope : Scope) (kind : ScriptKind) (failure : ScopeFailure) : Scope :=
  let warning : Warning :=
    { speaker := "superscope", message := "Script failed", subject := kind.text,
      failures := [failure] }
  { scope with warnings := warning :: scope.warnings }

/-- Runs a script, if there is one.  There is no answer if the script never ends. -/
def invoke (scope : Scope) (kind : ScriptKind) (isCancelled : Bool) (context : ScopeFault) :
    Option (Option ScopeFailure × Scope) :=
  match scope.scripts.get kind with
  | none => some (none, scope)
  | some number =>
    match scope.session.invoke Panel.host number isCancelled scope.world with
    | (none, _, _) => none
    | (some (.error failure), session, world) =>
      let cause := failure.map ScopeFault.run
      some (some (.within context cause), { scope with session, world }.warn kind cause)
    | (some (.ok _), session, world) => some (none, { scope with session, world })

/-- Runs a script of a frame, and lists its failure. -/
def invokeFrame (scope : Scope) (kind : ScriptKind) (isCancelled : Bool) :
    Option (List ScopeFailure × Scope) :=
  (scope.invoke kind isCancelled (.script kind)).map fun (failure, after) =>
    (failure.toList, after)

/-- Runs the init script if it is due. -/
def initialise (scope : Scope) (info : FrameInfo) (isCancelled : Bool) :
    Option (List ScopeFailure × Scope) :=
  if scope.needsInit then
    let described := scope.turn (describeFrame info)
    let counted := described.turn fun panel => panel.set .count (panel.get .nativeCount)
    { counted with needsInit := false }.invokeFrame .init isCancelled
  else some ([], scope)

/-- Whether there are points to prepare for: a count that is no number is taken as one. -/
def isIdle (panel : Panel) : Bool :=
  let count := panel.get .count
  Binary.single.isZero count || Binary.single.less count 0

/-- Prepares a frame, if its scripts end: init script if due, frame script, and beat script on a
beat. -/
def nextFrame (scope : Scope) (info : FrameInfo) (isCancelled : Bool) :
    Option (List ScopeFailure × Scope) := do
  let (initial, ready) ← scope.initialise info isCancelled
  if isIdle ready.panel then return (initial, ready)
  else
    let (framed, drawn) ← (ready.turn (describeFrame info)).invokeFrame .frame isCancelled
    if info.isBeat then
      let (beaten, done) ← (drawn.turn (describeFrame info)).invokeFrame .beat isCancelled
      return (initial ++ framed ++ beaten, done)
    else return (initial ++ framed, drawn)

/-- The place of the sample for a point; the product wraps at 64 bits. -/
def samplePlace (size point count : Nat) : Int :=
  if size = count then point else (BitVec.ofNat 64 (point * size)).toInt.tdiv count

/-- The sample at the place of a point, if there is one; without samples all is silent. -/
def sampleAt? (samples : Array Nat) (point count : Nat) : Option Nat :=
  if samples.isEmpty then some 0
  else
    let place := samplePlace samples.size point count
    if place < 0 then none else samples[place.toNat]?

def placeOf (point count : Nat) : Nat :=
  if count ≤ 1 then 0
  else Binary.single.divide (Binary.single.ofInt point) (Binary.single.ofInt (count - 1))

def pointOf (panel : Panel) : Point :=
  { x := panel.get .x, y := panel.get .y, red := panel.get .red, green := panel.get .green,
    blue := panel.get .blue, alpha := panel.get .alpha }

/-- Renders points from a place on; the rest of a count tells how many. -/
def renderFrom (samples : Array Nat) (count : Nat) :
    (rest : Nat) → Scope → Option (List Point × Option ScopeFailure × Scope)
  | 0, scope => some ([], none, scope)
  | rest + 1, scope =>
    let point := count - (rest + 1)
    let placed := scope.turn fun panel => panel.set .place (placeOf point count)
    match sampleAt? samples point count with
    | none => some ([], some (.cause .noSample), placed)
    | some sample =>
      let ready := placed.turn fun panel => panel.set .sample sample
      match ready.invoke .point false (.pointScript point) with
      | none => none
      | some (some failure, after) => some ([], some failure, after)
      | some (none, after) =>
        (renderFrom samples count rest after).map fun (points, failure, done) =>
          (pointOf after.panel :: points, failure, done)

/-- The most points that there can be room for: each takes 24 of `2 ^ 48` bytes. -/
def mostPoints : Nat :=
  Nat.pow 2 48 / 24

/-- Renders the points of a frame, if the point script ends; a failure keeps the points before it.
-/
def render (scope : Scope) (samples : Array Nat) (isCancelled : Bool) :
    Option (List Point × Option ScopeFailure × Scope) :=
  let count := (Binary.single.truncate (scope.panel.get .count)).toNat
  if count = 0 then some ([], none, scope)
  else if mostPoints < count then some ([], some (.cause .noRoom), scope)
  else if isCancelled then some ([], some (.cause .cancelled), scope)
  else renderFrom samples count count scope

end Scope

end HostScript
