import HostScript.Command.Config

/-!
# Flags of the command line

A flag has a name and perhaps a letter.
-/

namespace HostScript

/-- Why a text is no numeral. -/
inductive NumeralFault where
  | malformed
  | outOfRange
  deriving Repr, DecidableEq

def NumeralFault.text : NumeralFault → Text
  | .malformed => "invalid syntax"
  | .outOfRange => "value out of range"

namespace Numeral

/-- The least number that does not fit 64 bits. -/
def wordBound : Nat :=
  Nat.pow 2 64

def digit? (base : Nat) (b : UInt8) : Option Nat :=
  let lower := Text.lowerByte b
  let value? : Option Nat :=
    if Text.byte '0' ≤ b ∧ b ≤ Text.byte '9' then some (b.toNat - 48)
    else if Text.byte 'a' ≤ lower ∧ lower ≤ Text.byte 'z' then some (lower.toNat - 87)
    else none
  value?.filter fun value => value < base

def base (numeral : Text) : Nat × Text :=
  match numeral with
  | 48 :: second :: third :: rest =>
    let letter := Text.lowerByte second
    if letter = Text.byte 'b' then (2, third :: rest)
    else if letter = Text.byte 'o' then (8, third :: rest)
    else if letter = Text.byte 'x' then (16, third :: rest)
    else (8, second :: third :: rest)
  | 48 :: rest => (8, rest)
  | _ => (10, numeral)

/-- The number that digits write after a number; underscores between them are passed over. -/
def digits (base : Nat) : (value : Nat) → Text → Except NumeralFault Nat
  | value, [] => .ok value
  | value, b :: rest =>
    if b = Text.byte '_' then digits base value rest
    else
      match digit? base b with
      | none => .error .malformed
      | some next =>
        let longer := value * base + next
        if longer < wordBound then digits base longer rest else .error .outOfRange

/-- What stood last when underscores are looked at. -/
inductive Seen where
  | start | digit | underscore | other
  deriving Repr, DecidableEq

def underscoresFit (isHex : Bool) : Seen → Text → Bool
  | seen, [] => seen != .underscore
  | seen, b :: rest =>
    if (digit? (if isHex then 16 else 10) b).isSome then underscoresFit isHex .digit rest
    else if b = Text.byte '_' then seen = .digit && underscoresFit isHex .underscore rest
    else seen != .underscore && underscoresFit isHex .other rest

/-- Whether the underscores of a numeral without sign stand between digits; a base counts as one. -/
def underscoresOk (numeral : Text) : Bool :=
  match numeral with
  | 48 :: second :: rest =>
    let letter := Text.lowerByte second
    if letter = Text.byte 'x' then underscoresFit true .digit rest
    else if letter = Text.byte 'b' ∨ letter = Text.byte 'o' then
      underscoresFit false .digit rest
    else underscoresFit false .start numeral
  | _ => underscoresFit false .start numeral

def magnitude (numeral : Text) : Except NumeralFault Nat := do
  if numeral.isEmpty then .error .malformed
  else
    let (base, rest) := base numeral
    let value ← digits base 0 rest
    if numeral.contains (Text.byte '_') && !underscoresOk numeral then .error .malformed
    else return value

def sign (numeral : Text) : Bool × Text :=
  match numeral with
  | first :: rest =>
    if first = Text.byte '-' then (true, rest)
    else if first = Text.byte '+' then (false, rest)
    else (false, numeral)
  | [] => (false, [])

def integer (numeral : Text) : Except NumeralFault Int := do
  let (isNegative, rest) := sign numeral
  let value ← magnitude rest
  if isNegative then
    if value ≤ Nat.pow 2 63 then return -(value : Int) else .error .outOfRange
  else if value < Nat.pow 2 63 then return value
  else .error .outOfRange

def truth? (word : Text) : Option Bool :=
  let yes : List Text := ["1", "t", "T", "TRUE", "true", "True"]
  let no : List Text := ["0", "f", "F", "FALSE", "false", "False"]
  if yes.contains word then some true
  else if no.contains word then some false
  else none

end Numeral

/-- The flags. -/
inductive Flag where
  | file | expr | kind | config | disasm | times | points | beatEvery | limit | stateDb
  | snapshot | dumpState | help | version | logLevel | logType | logFilter
  deriving Repr, DecidableEq

/-- What a flag takes. -/
inductive FlagSort where
  | text | integer | switch
  deriving Repr, DecidableEq

namespace Flag

def all : List Flag :=
  [.file, .expr, .kind, .config, .disasm, .times, .points, .beatEvery, .limit, .stateDb,
    .snapshot, .dumpState, .help, .version, .logLevel, .logType, .logFilter]

def name : Flag → Text
  | .file => "file"
  | .expr => "expr"
  | .kind => "kind"
  | .config => "config"
  | .disasm => "disasm"
  | .times => "times"
  | .points => "points"
  | .beatEvery => "beat-every"
  | .limit => "limit"
  | .stateDb => "state-db"
  | .snapshot => "snapshot"
  | .dumpState => "dump-state"
  | .help => "help"
  | .version => "version"
  | .logLevel => "log-level"
  | .logType => "log-type"
  | .logFilter => "log-filter"

def letter? : Flag → Option UInt8
  | .file => some (Text.byte 'f')
  | .expr => some (Text.byte 'e')
  | .kind => some (Text.byte 'k')
  | .help => some (Text.byte 'h')
  | .version => some (Text.byte 'v')
  | _ => none

def sort : Flag → FlagSort
  | .disasm | .dumpState | .help | .version => .switch
  | .times | .points | .beatEvery | .limit => .integer
  | _ => .text

def ofName? (name : Text) : Option Flag :=
  all.find? fun flag => flag.name == name

def ofLetter? (letter : UInt8) : Option Flag :=
  all.find? fun flag => flag.letter? == some letter

def shown (flag : Flag) : Text :=
  match flag.letter? with
  | some letter => Text.join ["-", [letter], ", --", flag.name]
  | none => "--" ++ flag.name

end Flag

/-- Why a command line is refused. -/
inductive FlagFault where
  | badSyntax (argument : Text)
  | unknown (name : Text)
  | unknownLetter (letter : UInt8) (group : Text)
  | needsArgument (argument : Text)
  | letterNeedsArgument (letter : UInt8) (group : Text)
  | badInteger (flag : Flag) (value : Text) (fault : NumeralFault)
  | badSwitch (flag : Flag) (value : Text)
  deriving Repr, DecidableEq

namespace FlagFault

def valueText (flag : Flag) (value reader reason : Text) : Text :=
  Text.join ["invalid argument ", value.quoted, " for ", flag.shown.quoted, " flag: strconv.",
    reader, ": parsing ", value.quoted, ": ", reason]

def text : FlagFault → Text
  | .badSyntax argument => "bad flag syntax: " ++ argument
  | .unknown name => "unknown flag: --" ++ name
  | .unknownLetter letter group =>
    Text.join ["unknown shorthand flag: ", Text.quotedCharacter letter.toNat, " in -", group]
  | .needsArgument argument => "flag needs an argument: " ++ argument
  | .letterNeedsArgument letter group =>
    Text.join ["flag needs an argument: ", Text.quotedCharacter letter.toNat, " in -", group]
  | .badInteger flag value fault => valueText flag value "ParseInt" fault.text
  | .badSwitch flag value => valueText flag value "ParseBool" NumeralFault.malformed.text

end FlagFault

/-- What a command line asks for. -/
structure Options where
  file : Text := []
  expr : Text := []
  kind : Text := "frame"
  config : Text := []
  flags : Config := {}
  help : Bool := false
  version : Bool := false
  logLevel : Text := "info"
  logType : Text := "text"
  logFilter : Text := []
  deriving Repr, DecidableEq

namespace Options

def takeInteger (flag : Flag) (value : Text) (take : Int → Options) : Except FlagFault Options :=
  match Numeral.integer value with
  | .ok number => .ok (take number)
  | .error fault => .error (.badInteger flag value fault)

def takeSwitch (flag : Flag) (value : Text) (take : Bool → Options) : Except FlagFault Options :=
  match Numeral.truth? value with
  | some truth => .ok (take truth)
  | none => .error (.badSwitch flag value)

def assign (options : Options) (flag : Flag) (value : Text) : Except FlagFault Options :=
  let change (f : Config → Config) : Options := { options with flags := f options.flags }
  match flag with
  | .file => .ok { options with file := value }
  | .expr => .ok { options with expr := value }
  | .kind => .ok { options with kind := value }
  | .config => .ok { options with config := value }
  | .stateDb => .ok (change fun flags => { flags with stateDb := value })
  | .snapshot => .ok (change fun flags => { flags with snapshot := value })
  | .logLevel => .ok { options with logLevel := value }
  | .logType => .ok { options with logType := value }
  | .logFilter => .ok { options with logFilter := value }
  | .times => takeInteger flag value fun times => change fun flags => { flags with times }
  | .points => takeInteger flag value fun points => change fun flags => { flags with points }
  | .beatEvery =>
    takeInteger flag value fun beatEvery => change fun flags => { flags with beatEvery }
  | .limit =>
    takeInteger flag value fun limit => change fun flags => { flags with operationLimit := limit }
  | .disasm => takeSwitch flag value fun disasm => change fun flags => { flags with disasm }
  | .dumpState =>
    takeSwitch flag value fun dumpState => change fun flags => { flags with dumpState }
  | .help => takeSwitch flag value fun help => { options with help }
  | .version => takeSwitch flag value fun version => { options with version }

def switchedOn : Text :=
  "true"

/-- Follows a flag by name; the answer tells whether the next argument was its value. -/
def longFlag (options : Options) (argument : Text) (next? : Option Text) :
    Except FlagFault (Options × Bool) := do
  let body := argument.drop 2
  if body.head? == some (Text.byte '-') || body.head? == some (Text.byte '=') then
    .error (.badSyntax argument)
  else
    let name := body.takeWhile fun b => b != Text.byte '='
    match Flag.ofName? name with
    | none => .error (.unknown name)
    | some flag =>
      if name.length < body.length then
        return (← options.assign flag (body.drop (name.length + 1)), false)
      else if flag.sort = .switch then return (← options.assign flag switchedOn, false)
      else
        match next? with
        | some value => return (← options.assign flag value, true)
        | none => .error (.needsArgument argument)

/-- Follows flags by letter; the answer tells whether the next argument was a value. -/
def shortFlags (options : Options) (next? : Option Text) :
    (group : Text) → Except FlagFault (Options × Bool)
  | [] => .ok (options, false)
  | letter :: rest => do
    let group := letter :: rest
    if (Text.ofString "test.").isPrefixOf group then return (options, false)
    else
      match Flag.ofLetter? letter with
      | none => .error (.unknownLetter letter group)
      | some flag =>
        if 1 < rest.length && rest.head? == some (Text.byte '=') then
          return (← options.assign flag (rest.drop 1), false)
        else if flag.sort = .switch then
          shortFlags (← options.assign flag switchedOn) next? rest
        else if !rest.isEmpty then return (← options.assign flag rest, false)
        else
          match next? with
          | some value => return (← options.assign flag value, true)
          | none => .error (.letterNeedsArgument letter group)

def follow (options : Options) (argument : Text) (next? : Option Text) :
    Except FlagFault (Options × Bool) :=
  match argument with
  | 45 :: 45 :: _ => options.longFlag argument next?
  | 45 :: letter :: rest => options.shortFlags next? (letter :: rest)
  | _ => .ok (options, false)

def parse (options : Options) : List Text → Except FlagFault Options
  | [] => .ok options
  | [argument] =>
    if argument == Text.ofString "--" then .ok options
    else
      match options.follow argument none with
      | .ok (changed, _) => .ok changed
      | .error fault => .error fault
  | argument :: next :: rest =>
    if argument == Text.ofString "--" then .ok options
    else
      match options.follow argument (some next) with
      | .ok (changed, true) => parse changed rest
      | .ok (changed, false) => parse changed (next :: rest)
      | .error fault => .error fault

end Options

end HostScript
