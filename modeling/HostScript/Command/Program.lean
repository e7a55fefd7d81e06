import HostScript.Command.Flags
import HostScript.Command.Run

/-!
# The command

From the arguments of a command line to what is printed, the status it ends with
and what it leaves behind.
-/

namespace HostScript

/-- The levels of messages. -/
inductive LogLevel where
  | debug | info | warn | error | developmentPanic | panic | fatal
  deriving Repr, DecidableEq

namespace LogLevel

def all : List LogLevel :=
  [.debug, .info, .warn, .error, .developmentPanic, .panic, .fatal]

def text : LogLevel → Text
  | .debug => "debug"
  | .info => "info"
  | .warn => "warn"
  | .error => "error"
  | .developmentPanic => "dpanic"
  | .panic => "panic"
  | .fatal => "fatal"

def lowered (name : Text) : Text :=
  name.runes.flatMap fun rune => if rune.codePoint = 0x130 then "i" else rune.bytes.lower

/-- The level with a name in any case; no name is `info`. -/
def ofText? (name : Text) : Option LogLevel :=
  if name.isEmpty then some .info else all.find? fun level => level.text == lowered name

end LogLevel

/-- The forms of messages. -/
inductive LogType where
  | text | json | dev
  deriving Repr, DecidableEq

namespace LogType

/-- All forms in the order of their numbers. -/
def all : List LogType :=
  [.text, .json, .dev]

def name : LogType → Text
  | .text => "text"
  | .json => "json"
  | .dev => "dev"

def numberedName (number : Nat) : Text :=
  match all[number]? with
  | some form => form.name
  | none => "unknown"

def ofName? (name : Text) : Option LogType :=
  all.find? fun form => form.name == name.lower

end LogType

/-- What is wrong with parameters of logging, or what was being done then. -/
inductive LogFault where
  | unknownLevel (name : Text)
  | unknownType (name : Text)
  | badRule
  | unknownKeyword (word : Text)
  | parsing
  | level
  | type
  | filter
  deriving Repr, DecidableEq

def LogFault.text : LogFault → Text
  | .unknownLevel name => "unrecognized level: " ++ name.quoted
  | .unknownType name => "unsupported logger type " ++ name.inQuotes
  | .badRule => "bad syntax"
  | .unknownKeyword word => "unsupported keyword: " ++ word.quoted
  | .parsing => "failed to parse logger parameters"
  | .level => "invalid log level"
  | .type => "invalid logger type"
  | .filter => "invalid logger filter"

/-- Failures of parameters of logging. -/
abbrev LogFailure := Failure LogFault

/-- Parameters of logging. -/
structure LogParameters where
  level : LogLevel
  type : LogType
  filter : Text
  deriving Repr, DecidableEq

namespace LogParameters

def parse (level type filter : Text) : Except LogFailure LogParameters :=
  match LogLevel.ofText? level with
  | none => .error (.within .parsing (.within .level (.cause (.unknownLevel level))))
  | some level =>
    match LogType.ofName? type with
    | none => .error (.within .parsing (.within .type (.cause (.unknownType type))))
    | some type => .ok { level, type, filter }

def text (parameters : LogParameters) : Text :=
  Text.join ["\x7bLevel: ", parameters.level.text, ", Type: ", parameters.type.name,
    ", Filter: ", parameters.filter.quoted, "\x7d"]

def splitBy (isBorder : UInt8 → Bool) : Text → List Text
  | [] => [[]]
  | b :: rest =>
    if isBorder b then [] :: splitBy isBorder rest
    else
      match splitBy isBorder rest with
      | part :: parts => (b :: part) :: parts
      | [] => [[b]]

/-- The words of a level in a rule: all levels, one, or one and those above it. -/
def isLevelWord (word : Text) : Bool :=
  let name := LogLevel.lowered word
  let isNamed (text : Text) : Bool := LogLevel.all.any fun level => level.text == text
  name.isEmpty || name == Text.ofString "*" || isNamed name
    || (name.getLast? == some (Text.byte '+') && isNamed name.dropLast)

/-- Refuses a rule that is not of the form of levels, colon and names, or of names alone. -/
def checkRule (rule : Text) : Except LogFault Unit :=
  if rule.contains (Text.byte ':') then
    let levels := rule.takeWhile fun b => b != Text.byte ':'
    if levels.isEmpty || levels.length + 1 = rule.length then .error .badRule
    else
      match (splitBy (fun b => b == Text.byte ',') levels).find? fun word => !isLevelWord word with
      | some word => .error (.unknownKeyword word)
      | none => .ok ()
  else .ok ()

def isBlank (b : UInt8) : Bool :=
  b == Text.byte ' ' || (9 ≤ b && b ≤ 13)

def checkFilter (filter : Text) : Except LogFailure Unit :=
  let rules := (splitBy isBlank filter).filter fun rule => !rule.isEmpty
  match rules.mapM checkRule with
  | .ok _ => .ok ()
  | .error fault => .error (.within .filter (.cause fault))

end LogParameters

end HostScript

namespace HostScript.Command

/-- What a command amounts to. -/
structure Execution where
  status : Nat
  output : Text
  workspace : Workspace
  /-- What is to be said besides the output. -/
  remarks : List Text := []

def usage : Text :=
  "usage: affe [flags]\n"

def version : Text :=
  "affe (untagged)\n"

def warningText (warning : Warning) : Text :=
  Text.join [warning.message, " ", warning.subject, ": ",
    Text.joinWith "; " (warning.failures.map fun failure =>
      failure.text (ScopeFault.text Cbor.ReadFault.text))]

/-- Whether a failure ended the program from within. -/
def isCrash : CommandFailure → Bool
  | .cause (.scope fault) => fault.isCrash
  | _ => false

/-- What a run that came to an outcome leaves for its caller. -/
def report (outcome : Outcome) : Execution :=
  let warnings := outcome.warnings.map warningText
  match outcome.failure with
  | none =>
    { status := 0, output := outcome.output, workspace := outcome.workspace,
      remarks := warnings }
  | some failure =>
    { status := if isCrash failure then 2 else 1
      output := outcome.output, workspace := outcome.workspace
      remarks := warnings ++ [failure.text (CommandFault.text Cbor.ReadFault.text)] }

/-- Follows options; there is no execution if a script never ends. -/
def perform (options : Options) (workspace : Workspace) : Option Execution :=
  let refused (message : Text) : Option Execution :=
    some { status := 2, output := [], workspace, remarks := [message] }
  if options.help then some { status := 0, output := usage, workspace }
  else if options.version then some { status := 0, output := version, workspace }
  else
    let checked := do
      let _ ← LogParameters.parse options.logLevel options.logType options.logFilter
      LogParameters.checkFilter options.logFilter
    match checked with
    | .error failure => refused (failure.text LogFault.text)
    | .ok _ =>
      let built :=
        Config.build workspace.files options.config options.file options.expr options.kind
          options.flags
      match built with
      | .error failure => refused (failure.text (CommandFault.text Cbor.ReadFault.text))
      | .ok config => (Run.perform config false workspace).map report

/-- Follows the arguments of a command. -/
def execute (arguments : List Text) (workspace : Workspace) : Option Execution :=
  match Options.parse {} arguments with
  | .error fault => some { status := 2, output := fault.text ++ [Text.byte '\n'], workspace }
  | .ok options => perform options workspace

end HostScript.Command
