import HostScript.Member.Basic

/-!
# The universe of types

A universe lists the declarations of the types in use: their base, the interfaces they implement
or extend, and their members.
-/

namespace HostScript

/-- The declaration of a type. -/
structure TypeDecl where
  isInterface : Bool := false
  base : Option Ty := some .object
  interfaces : List Ty := []
  fields : List Field := []
  properties : List Property := []
  methods : List Method := []
  indexer : Option Property := none
  deriving Repr, DecidableEq

/-- Type declarations; the first entry of a type counts. -/
structure Universe where
  declarations : List (Ty × TypeDecl)
  deriving Repr

namespace Universe

variable (types : Universe)

/-- The declaration of a type; an array has no members and the base `object`. -/
def declaration (type : Ty) : TypeDecl :=
  match types.declarations.lookup type with
  | some declared => declared
  | none =>
    match type with
    | .void | .object => { base := none }
    | _ => {}

def base (type : Ty) : Option Ty :=
  (types.declaration type).base

def interfaces (type : Ty) : List Ty :=
  (types.declaration type).interfaces

/-- A bound on the length of chains of bases and interfaces. -/
def depth : Nat :=
  types.declarations.length + 2

def kind : Ty → Kind
  | .void => .void
  | .prim primitive => .prim primitive
  | .string => .string
  | .object => .object
  | .named declared =>
    if (types.declaration (.named declared)).isInterface then .interface else .classKind
  | .array _ _ => .array

def ancestorsWithin : (bound : Nat) → Ty → List Ty
  | 0, type => [type]
  | bound + 1, type =>
    match types.base type with
    | some parent => type :: ancestorsWithin bound parent
    | none => [type]

def ancestors (type : Ty) : List Ty :=
  types.ancestorsWithin types.depth type

def implementsWithin : (bound : Nat) → (type interface : Ty) → Bool
  | 0, type, interface => type == interface
  | bound + 1, type, interface =>
    (types.ancestors type).any fun ancestor =>
      ancestor == interface ||
        (types.interfaces ancestor).any fun implemented =>
          implementsWithin bound implemented interface

def implements (type interface : Ty) : Bool :=
  types.implementsWithin types.depth type interface

/-- Whether a value of type `source` can be stored in a location of type `target`. -/
def isAssignable (target source : Ty) : Bool :=
  target == source ||
    (source != .void &&
      match target, source with
      | .object, _ => true
      | .array element rank, .array other otherRank =>
        rank == otherRank && !element.isValue && !other.isValue && isAssignable element other
      | .array _ _, _ => false
      | target, source =>
        if types.kind target = .interface then types.implements source target
        else (types.ancestors source).tail.contains target)

/-- Whether the value fits a location without conversion; the null reference fits none here. -/
def isAssignableFrom (target : Ty) : Option Ty → Bool
  | some source => types.isAssignable target source
  | none => false

def walkInterface : (bound : Nat) → (seen : List Ty) → Ty → List Ty
  | 0, seen, type => if seen.contains type then seen else seen ++ [type]
  | bound + 1, seen, type =>
    if seen.contains type then seen
    else (types.interfaces type).foldl (walkInterface bound) (seen ++ [type])

/-- A type, its bases, then the interfaces; the list of an interface ends with `object`. -/
def hierarchy (type : Ty) : List Ty :=
  if types.kind type = .interface then
    types.walkInterface types.depth [] type ++ [.object]
  else
    let bases := types.ancestors type
    (bases.flatMap types.interfaces).foldl (types.walkInterface types.depth) bases

def ownDataMembers (type : Ty) (name : Text) (isStatic : Bool) : List DataMember :=
  let declared := types.declaration type
  (declared.fields.filter fun field => field.name == name && field.isStatic == isStatic).map .field
    ++ (declared.properties.filter fun property =>
        property.name == name && property.isStatic == isStatic && property.params.isEmpty).map
      .property

def dataMembers (type : Ty) (name : Text) (isStatic : Bool) : List DataMember :=
  ((types.hierarchy type).map fun level => types.ownDataMembers level name isStatic).find?
    (fun found => !found.isEmpty) |>.getD []

def addUnhidden (found : List Method) (method : Method) : List Method :=
  if found.any fun other => other.params == method.params then found else found ++ [method]

/-- The methods of a name; a nearer declaration hides those with the same parameters. -/
def methods (type : Ty) (name : Text) (isStatic : Bool) : List Method :=
  let declared := (types.hierarchy type).flatMap fun level =>
    (types.declaration level).methods.filter fun method =>
      method.name == name && method.isStatic == isStatic
  declared.foldl addUnhidden []

def indexer? (type : Ty) : Option Property :=
  (types.ancestors type).findSome? fun level => (types.declaration level).indexer

/-- Whether an argument may be passed for a parameter; no type stands for the null reference. -/
def accepts (param : Ty) : Option Ty → Bool
  | none => param.isReference
  | some argument =>
    types.isAssignable param argument || (param.isValue && argument.isValue)

/-- Why a call means no method, or an access no member. -/
inductive Absence where
  | notFound
  | ambiguous
  deriving Repr, DecidableEq

def Absence.text : Absence → Text
  | .notFound => "no matching member"
  | .ambiguous => "ambiguous match"

def matchesExactly (method : Method) (arguments : List (Option Ty)) : Bool :=
  method.params.map some == arguments

def matchesLoosely (method : Method) (arguments : List (Option Ty)) : Bool :=
  method.params.length == arguments.length &&
    (method.params.zip arguments).all fun (param, argument) => types.accepts param argument

def select (candidates : List Method) (arguments : List (Option Ty)) : Except Absence Method :=
  match candidates.find? fun method => matchesExactly method arguments with
  | some method => .ok method
  | none =>
    match candidates.filter fun method => types.matchesLoosely method arguments with
    | [] => .error .notFound
    | [method] => .ok method
    | _ => .error .ambiguous

/-- The type that two operands or branches have in common. -/
def compatible (left right : Ty) : Ty :=
  if left == right then left
  else
    match left, right with
    | .prim a, .prim b =>
      if a.isI4 && b.isI4 then .int32
      else if a == .float .double || b == .float .double then .double
      else .single
    | _, _ =>
      if types.isAssignable left right then left
      else if types.isAssignable right left then right
      else .object

/-- Adapts a value to a location: numbers are converted, references checked. -/
def coerce (value : Value) (target : Ty) : Except ValueFault Value :=
  match target with
  | .prim primitive =>
    if value = .null then .error (.nullStored target)
    else if value.typeOf = some target then .ok value
    else value.convert primitive
  | _ =>
    if value = .null || types.isAssignableFrom target value.typeOf then .ok value
    else .error (.notAssignable value.typeOf target)

def declare (type : Ty) (declared : TypeDecl) : Universe :=
  { declarations := (type, declared) :: types.declarations }

def amend (type : Ty) (change : TypeDecl → TypeDecl) : Universe :=
  types.declare type (change (types.declaration type))

end Universe

end HostScript

namespace HostScript.Universe

def objectDecl : TypeDecl :=
  { base := none
    methods :=
      [{ name := "ToString", result := some .string, routine := .intrinsic .toText },
        { name := "GetType", result := some .typeType, routine := .intrinsic .typeOf }] }

def typeDecl : TypeDecl :=
  { properties :=
      [{ name := "Name", type := .string, routine := .intrinsic .typeName },
        { name := "Kind", type := .string, routine := .intrinsic .typeKind }] }

/-- Members of ordered values. -/
def comparableDecl : TypeDecl :=
  { isInterface := true
    base := none
    methods :=
      [{ name := "CompareTo", params := [.object], result := some .int32,
         routine := .intrinsic .compareTo }] }

def textOperator (name : Text) (agree : Bool) : Method :=
  { name, params := [.string, .string], result := some .bool, isStatic := true,
    routine := .intrinsic (.textEquality agree) }

def stringDecl : TypeDecl :=
  { interfaces := [.comparable]
    properties :=
      [{ name := "Length", type := .int32, routine := .intrinsic .textLength }]
    methods := [textOperator "op_Equality" true, textOperator "op_Inequality" false] }

/-- Every primitive but `bool` is ordered. -/
def primDecl (primitive : Prim) : TypeDecl :=
  { interfaces := if primitive = .bool then [] else [.comparable] }

def predeclared : Universe :=
  { declarations :=
      [(.object, objectDecl), (.void, { base := none }), (.string, stringDecl),
        (.comparable, comparableDecl), (.typeType, typeDecl), (.scriptState, {})]
        ++ Prim.all.map fun primitive => (.prim primitive, primDecl primitive) }

end HostScript.Universe
