import HostScript.Failure
import HostScript.Member.Basic
import HostScript.Token.Lexer

/-!
# Bindings

A binding gives names to what a host offers.
-/

namespace HostScript

/-- Why a binding refuses a name, or what was being done then. -/
inductive BindFault where
  | invalidName (name : Text)
  | noType (name : Text)
  | stateBound (name : Text)
  | symbol (fault : SymbolFault)
  | binding
  | installingTypes
  | installingMath
  deriving Repr, DecidableEq

/-- The wording of a cause or context. -/
def BindFault.text : BindFault → Text
  | .invalidName name => "invalid binding name " ++ name.inQuotes
  | .noType name => Text.join ["constant ", name.inQuotes, " has no type"]
  | .stateBound name => "script state is already bound as " ++ name.inQuotes
  | .symbol fault => fault.text
  | .binding => "failed to bind"
  | .installingTypes => "failed to install base types"
  | .installingMath => "failed to install math library"

/-- Failures of bindings. -/
abbrev BindFailure := Failure BindFault

/-- Names for what a host offers. -/
structure Binding where
  symbols : SymbolTable := []
  /-- How names are changed on their way in. -/
  mapping : Text → Text := id
  /-- The field that holds the store of persistent variables. -/
  state : Option Field := none

/-- Something that can be bound. -/
abbrev Binder := Binding → Except BindFailure Binding

namespace Binding

def add (binding : Binding) (name : Text) (symbol : Text → Symbol) :
    Except BindFailure Binding :=
  let mapped := binding.mapping name
  if mapped.isIdentifier then
    match binding.symbols.add (symbol mapped) with
    | .ok symbols => .ok { binding with symbols }
    | .error fault => .error (.within .binding (.cause (.symbol fault)))
  else .error (.cause (.invalidName mapped))

def addField (binding : Binding) (field : Field) : Except BindFailure Binding :=
  binding.add field.name fun name => .field name { field with name }

def field (binding : Binding) (name : Text) (type : Ty) (label : String) :
    Except BindFailure Binding :=
  binding.addField { name, type, label }

def readOnlyField (binding : Binding) (name : Text) (type : Ty) (label : String) :
    Except BindFailure Binding :=
  binding.addField { name, type, readOnly := true, hasWriter := false, label }

def constant (binding : Binding) (name : Text) (value : Value) : Except BindFailure Binding :=
  match value.typeOf with
  | none => .error (.cause (.noType name))
  | some type =>
    binding.addField { name, type, literal := some value, hasReader := false, hasWriter := false }

def staticField (binding : Binding) (name : Text) (type : Ty) (label : String)
    (isWritable : Bool) : Except BindFailure Binding :=
  binding.addField
    { name, type, shared := true, readOnly := !isWritable, hasWriter := isWritable, label }

def method (binding : Binding) (name : Text) (params : List Ty) (result : Ty) (label : String) :
    Except BindFailure Binding :=
  binding.add name fun name =>
    .method name { name, params, result := some result, routine := .host label }

def staticMethod (binding : Binding) (name : Text) (params : List Ty) (result : Ty)
    (routine : Routine) : Except BindFailure Binding :=
  binding.add name fun name =>
    .method name { name, params, result := some result, isStatic := true, routine }

def transform (binding : Binding) (name : Text) (result : Ty) (key : String) :
    Except BindFailure Binding :=
  binding.add name fun name => .transform name { result, key }

/-- Binds the name of a type; `void` stands for the type of an initial value. -/
def typeName (binding : Binding) (name : Text) (type : Ty) : Except BindFailure Binding :=
  binding.add name fun name => .typeName name type

/-- Binds the store of persistent variables; there can be one. -/
def bindState (binding : Binding) (name : Text) (label : String) : Except BindFailure Binding :=
  match binding.state with
  | some bound => .error (.cause (.stateBound bound.name))
  | none => do
    let field : Field :=
      { name, type := .scriptState, readOnly := true, hasWriter := false, label }
    let changed ← binding.addField field
    return { changed with state := some { field with name := binding.mapping name } }

/-- Binds one thing after another; the first refusal ends it, and what was bound before stays. -/
def bindEach : List Binder → Binding → Option BindFailure × Binding
  | [], binding => (none, binding)
  | bind :: rest, binding =>
    match bind binding with
    | .ok changed => bindEach rest changed
    | .error failure => (some failure, binding)

end Binding

end HostScript

namespace HostScript.Binding

/-- The names of the primitive types; `var` stands for the type of an initial value. -/
def baseTypes : List (Text × Ty) :=
  let integers : List (Text × Ty) := IntKind.all.map fun kind => (kind.text, .prim (.int kind))
  let others : List (Text × Ty) :=
    [("float", .single), ("double", .double), ("string", .string), ("object", .object),
      ("var", .void), ("int", .int32), ("bool", .bool)]
  integers ++ others

def installTypes (binding : Binding) : Option BindFailure × Binding :=
  let names : List Binder :=
    baseTypes.map fun (name, type) => fun bound => bound.typeName name type
  let (refusal, bound) := bindEach names binding
  (refusal.map (.within .installingTypes), bound)

def mathFunctions : List (Text × MathFunction × List Ty × Ty) :=
  [("abs", .abs, [.single], .single), ("sin", .sin, [.double], .double),
    ("cos", .cos, [.double], .double), ("tan", .tan, [.double], .double),
    ("asin", .asin, [.double], .double), ("acos", .acos, [.double], .double),
    ("atan", .atan, [.double], .double), ("sqrt", .sqrt, [.double], .double),
    ("pow", .pow, [.double, .double], .double), ("log", .log, [.double, .double], .double),
    ("log10", .log10, [.double], .double), ("sign", .sign, [.single], .int32),
    ("min", .min, [.single, .single], .single), ("max", .max, [.single, .single], .single),
    ("rand", .rand, [.double], .double), ("sigmoid", .sigmoid, [.double, .double], .double),
    ("sqr", .sqr, [.single], .single)]

/-- The circle constant as a 64-bit pattern. -/
def piBits : Nat :=
  0x400921fb54442d18

def installMath (binding : Binding) : Option BindFailure × Binding :=
  let functions : List Binder :=
    mathFunctions.map fun (name, function, params, result) => fun bound =>
      bound.staticMethod name params result (.intrinsic (.math function))
  let pi : Binder := fun bound => bound.constant "pi" (.double piBits)
  let (refusal, bound) := bindEach (functions ++ [pi]) binding
  (refusal.map (.within .installingMath), bound)

/-- What scripts expect of any host. -/
def standard : Binding :=
  (installTypes {}).2.installMath.2

end HostScript.Binding
