import HostScript.Code.Op

/-!
# Assembly

A program is assembled from directives in order: declarations of locals and labels, instructions
by operand class, and the borders of protected regions.
-/

namespace HostScript

/-- Steps of writing a program. -/
inductive Directive where
  | declareLocal (type : Ty)
  | defineLabel
  | mark (label : Nat)
  | plain (op : UInt8)
  | constant (value : Value)
  | slot (op : UInt8) (index : Int)
  | jump (op : UInt8) (label : Nat)
  | type (op : UInt8) (operand : Ty)
  | convert (kind : Nat)
  | rank (op : UInt8) (rank : Int)
  | field (op : UInt8) (operand : Field)
  | property (op : UInt8) (operand : Property)
  | method (op : UInt8) (operand : Method)
  | name (op : UInt8) (operand : Text)
  | beginTry
  /-- Ends the protected part of the innermost region and starts its handler. -/
  | beginFinally
  | endTry
  deriving Repr, DecidableEq

/-- Why directives make no program. -/
inductive AssemblyFault where
  | tooMany (what : Text) (index : Int)
  | markedTwice (label : Nat)
  | needsParameter (op : UInt8)
  | finallyOutside
  | noFinally
  | unterminated
  | neverMarked (label : Nat)
  | codeTooLong (position : Nat)
  deriving Repr, DecidableEq

namespace AssemblyFault

/-- What is wrong with a number that does not fit an operand. -/
def rangeText (n : Int) : Text :=
  if n < 0 then
    Text.join ["conversion issue: ", Text.integer n,
      " (int) is less than 0 (uint16): minimum value for this type exceeded"]
  else
    Text.join ["conversion issue: ", Text.integer n,
      " (int) is greater than 65535 (uint16): maximum value for this type exceeded"]

def text : AssemblyFault → Text
  | .tooMany what index => Text.join ["too many ", what, ": ", rangeText index]
  | .markedTwice label => Text.join ["label ", Text.decimal label, " marked twice"]
  | .needsParameter op => Text.join ["operation ", Code.mnemonic op, " requires a parameter"]
  | .finallyOutside => "finally outside of protected region"
  | .noFinally => "protected region has no finally handler"
  | .unterminated => "unterminated protected region"
  | .neverMarked label => Text.join ["label ", Text.decimal label, " is never marked"]
  | .codeTooLong position => Text.join ["code too long: ", rangeText position]

end AssemblyFault

namespace Assembly

/-- A protected region that is not closed yet. -/
structure Region where
  handler : Nat
  exit : Nat
  inHandler : Bool
  deriving Repr, DecidableEq

/-- A program in the making. -/
structure Draft where
  program : Program := {}
  /-- The position of every label, once it is marked. -/
  labels : Array (Option Nat) := #[]
  /-- Places of operands that wait for a label. -/
  fixups : Array (Nat × Nat) := #[]
  regions : List Region := []
  fault : Option AssemblyFault := none
  deriving Repr, DecidableEq

namespace Draft

def fail (draft : Draft) (fault : AssemblyFault) : Draft :=
  { draft with fault := some (draft.fault.getD fault) }

def position (draft : Draft) : Nat :=
  draft.program.code.size

def byte (draft : Draft) (b : UInt8) : Draft :=
  { draft with program := { draft.program with code := draft.program.code.push b } }

def instruction (draft : Draft) (op : UInt8) (operand : Nat) : Draft :=
  ((draft.byte op).byte (operand / 256).toUInt8).byte (operand % 256).toUInt8

/-- Writes an instruction whose operand must fit sixteen bits. -/
def checked (draft : Draft) (what : Text) (op : UInt8) (operand : Int) : Draft :=
  if 0 ≤ operand ∧ operand < 65536 then draft.instruction op operand.toNat
  else (draft.fail (.tooMany what operand)).instruction op 0

def defineLabel (draft : Draft) : Draft :=
  { draft with labels := draft.labels.push none }

def mark (draft : Draft) (label : Nat) : Draft :=
  match draft.labels[label]? with
  | some (some _) => draft.fail (.markedTwice label)
  | _ => { draft with labels := draft.labels.setIfInBounds label (some draft.position) }

/-- Writes an instruction whose operand is the position of a label. -/
def jump (draft : Draft) (op : UInt8) (label : Nat) : Draft :=
  { draft.instruction op 0 with fixups := draft.fixups.push (draft.position + 1, label) }

end Draft

def intern (same : α → α → Bool) (pool : Array α) (entry : α) : Array α × Nat :=
  match pool.findIdx? (same entry) with
  | some index => (pool, index)
  | none => (pool.push entry, pool.size)

def step (draft : Draft) : Directive → Draft
  | .declareLocal type =>
    { draft with program := { draft.program with locals := draft.program.locals.push type } }
  | .defineLabel => draft.defineLabel
  | .mark label => draft.mark label
  | .plain op =>
    let noted := if Code.size op = 1 then draft else draft.fail (.needsParameter op)
    noted.byte op
  | .constant .null => draft.byte Op.pushNull
  | .constant value =>
    let (constants, index) := intern Value.equals draft.program.constants value
    { draft with program := { draft.program with constants } }.checked "constants" Op.push index
  | .slot op index => draft.checked "locals" op index
  | .jump op label => draft.jump op label
  | .type op operand =>
    let (types, index) := intern (· == ·) draft.program.types operand
    { draft with program := { draft.program with types } }.checked "types" op index
  | .convert kind => draft.instruction Op.convert (kind % 65536)
  | .rank op rank => draft.checked "dimensions" op rank
  | .field op operand =>
    let (fields, index) := intern (· == ·) draft.program.fields operand
    { draft with program := { draft.program with fields } }.checked "fields" op index
  | .property op operand =>
    let (properties, index) := intern (· == ·) draft.program.properties operand
    { draft with program := { draft.program with properties } }.checked "properties" op index
  | .method op operand =>
    let (methods, index) := intern (· == ·) draft.program.methods operand
    { draft with program := { draft.program with methods } }.checked "methods" op index
  | .name op operand =>
    let (names, index) := intern (· == ·) draft.program.names operand
    { draft with program := { draft.program with names } }.checked "names" op index
  | .beginTry =>
    let handler := draft.labels.size
    let opened := draft.defineLabel.defineLabel
    let region := { handler, exit := handler + 1, inHandler := false }
    { opened with regions := region :: opened.regions }.jump Op.tryRegion handler
  | .beginFinally =>
    match draft.regions with
    | { handler, exit, inHandler := false } :: outer =>
      let region := { handler, exit, inHandler := true }
      ({ draft with regions := region :: outer }.jump Op.leave exit).mark handler
    | _ => draft.fail .finallyOutside
  | .endTry =>
    match draft.regions with
    | { handler := _, exit, inHandler := true } :: outer =>
      ({ draft with regions := outer }.byte Op.endFinally).mark exit
    | _ => draft.fail .noFinally

def patch (labels : Array (Option Nat)) (code : Array UInt8) (fixup : Nat × Nat) :
    Except AssemblyFault (Array UInt8) :=
  match (labels[fixup.2]?).join with
  | none => .error (.neverMarked fixup.2)
  | some position =>
    if position < 65536 then
      .ok ((code.setIfInBounds fixup.1 (position / 256).toUInt8).setIfInBounds (fixup.1 + 1)
        (position % 256).toUInt8)
    else .error (.codeTooLong position)

def finish (draft : Draft) : Except AssemblyFault Program :=
  match draft.fault with
  | some fault => .error fault
  | none =>
    if draft.regions.isEmpty then do
      let code ← draft.fixups.toList.foldlM (patch draft.labels) draft.program.code
      return { draft.program with code }
    else .error .unterminated

def assemble (directives : List Directive) : Except AssemblyFault Program :=
  finish (directives.foldl step {})

end Assembly

end HostScript
