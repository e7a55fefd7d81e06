import HostScript.Member.Basic

/-!
# Operations

An instruction is an operation byte, followed by a big-endian 16-bit operand when the operation
takes one.
-/

namespace HostScript

/-- Operations of the machine, in the order of their codes. -/
inductive Op where
  | nop | push | pushNull | pop | dup | loadHost | loadLocal | storeLocal | loadLocalAddress
  | loadField | storeField | loadStaticField | storeStaticField
  | getProperty | setProperty | getStaticProperty | setStaticProperty
  | call | callVirtual | loadElement | storeElement | newArray
  | lateGet | lateSet | lateCall
  | add | subtract | multiply | divide | remainder | negate | complement | bitAnd | bitOr
  | equal | greater | less | convert | box | unbox | castClass
  | jump | jumpIfTrue | jumpIfFalse | tryRegion | leave | endFinally
  | stateGet | stateSet | ret
  deriving Repr, DecidableEq

/-- What the operand of an operation means. -/
inductive OperandClass where
  | absent | constant | localSlot | field | property | method | name | type | kind | rank | position
  deriving Repr, DecidableEq

namespace Op

/-- All operations, in the order of their codes. -/
def all : List Op :=
  [.nop, .push, .pushNull, .pop, .dup, .loadHost, .loadLocal, .storeLocal, .loadLocalAddress,
    .loadField, .storeField, .loadStaticField, .storeStaticField,
    .getProperty, .setProperty, .getStaticProperty, .setStaticProperty,
    .call, .callVirtual, .loadElement, .storeElement, .newArray,
    .lateGet, .lateSet, .lateCall,
    .add, .subtract, .multiply, .divide, .remainder, .negate, .complement, .bitAnd, .bitOr,
    .equal, .greater, .less, .convert, .box, .unbox, .castClass,
    .jump, .jumpIfTrue, .jumpIfFalse, .tryRegion, .leave, .endFinally,
    .stateGet, .stateSet, .ret]

/-- The byte of an operation. -/
def code (op : Op) : UInt8 :=
  (all.idxOf op).toUInt8

instance : Coe Op UInt8 where
  coe := code

def ofCode? (byte : UInt8) : Option Op :=
  all[byte.toNat]?

def mnemonic : Op → Text
  | .nop => "NOP"
  | .push => "PUSH"
  | .pushNull => "PUSHNULL"
  | .pop => "POP"
  | .dup => "DUP"
  | .loadHost => "LDHOST"
  | .loadLocal => "LDLOC"
  | .storeLocal => "STLOC"
  | .loadLocalAddress => "LDLOCA"
  | .loadField => "LDFLD"
  | .storeField => "STFLD"
  | .loadStaticField => "LDSFLD"
  | .storeStaticField => "STSFLD"
  | .getProperty => "GETPROP"
  | .setProperty => "SETPROP"
  | .getStaticProperty => "GETSPROP"
  | .setStaticProperty => "SETSPROP"
  | .call => "CALL"
  | .callVirtual => "CALLVIRT"
  | .loadElement => "LDELEM"
  | .storeElement => "STELEM"
  | .newArray => "NEWARR"
  | .lateGet => "LATEGET"
  | .lateSet => "LATESET"
  | .lateCall => "LATECALL"
  | .add => "ADD"
  | .subtract => "SUB"
  | .multiply => "MUL"
  | .divide => "DIV"
  | .remainder => "REM"
  | .negate => "NEG"
  | .complement => "NOT"
  | .bitAnd => "AND"
  | .bitOr => "OR"
  | .equal => "CEQ"
  | .greater => "CGT"
  | .less => "CLT"
  | .convert => "CONV"
  | .box => "BOX"
  | .unbox => "UNBOX"
  | .castClass => "CASTCLASS"
  | .jump => "JMP"
  | .jumpIfTrue => "JMPT"
  | .jumpIfFalse => "JMPF"
  | .tryRegion => "TRY"
  | .leave => "LEAVE"
  | .endFinally => "ENDFINALLY"
  | .stateGet => "STATEGET"
  | .stateSet => "STATESET"
  | .ret => "RET"

def operand : Op → OperandClass
  | .push => .constant
  | .loadLocal | .storeLocal | .loadLocalAddress => .localSlot
  | .loadField | .storeField | .loadStaticField | .storeStaticField => .field
  | .getProperty | .setProperty | .getStaticProperty | .setStaticProperty => .property
  | .call | .callVirtual => .method
  | .loadElement | .storeElement => .rank
  | .newArray | .box | .unbox | .castClass | .stateGet => .type
  | .lateGet | .lateSet | .lateCall => .name
  | .convert => .kind
  | .jump | .jumpIfTrue | .jumpIfFalse | .tryRegion | .leave => .position
  | _ => .absent

end Op

namespace Code

def mnemonic (byte : UInt8) : Text :=
  match Op.ofCode? byte with
  | some op => op.mnemonic
  | none => "???"

/-- The class of the operand of an operation byte; an unknown byte has none. -/
def operandClass (byte : UInt8) : OperandClass :=
  match Op.ofCode? byte with
  | some op => op.operand
  | none => .absent

/-- The length of an instruction with its operand. -/
def size (byte : UInt8) : Nat :=
  if operandClass byte = .absent then 1 else 3

def ofMnemonic? (name : Text) : Option UInt8 :=
  (Op.all.find? fun op => op.mnemonic == name).map Op.code

end Code

/-- Encoded instructions and their pools. -/
structure Program where
  code : Array UInt8 := #[]
  constants : Array Value := #[]
  types : Array Ty := #[]
  fields : Array Field := #[]
  properties : Array Property := #[]
  methods : Array Method := #[]
  names : Array Text := #[]
  locals : Array Ty := #[]
  deriving Repr, DecidableEq

namespace Program

/-- The 16-bit number that two bytes of code from a position on write. -/
def word? (program : Program) (position : Nat) : Option Nat :=
  match program.code[position]?, program.code[position + 1]? with
  | some high, some low => some (high.toNat * 256 + low.toNat)
  | _, _ => none

end Program

end HostScript
