namespace PapyrusBackend

inductive Opcode where
  | nop | iadd | fadd | isub | fsub | imul | fmul | idiv | fdiv | imod
  | not | ineg | fneg | assign | cast
  | cmpEq | cmpLt | cmpLe | cmpGt | cmpGe
  | jmp | jmpt | jmpf
  | callMethod | callParent | callStatic | ret
  | strcat | propGet | propSet
  | arrayCreate | arrayLength | arrayGet | arraySet | arrayFind | arrayFindLast
  | is | structCreate | structGet | structSet
  | arrayFindStruct | arrayFindLastStruct
  | arrayAdd | arrayInsert | arrayRemoveLast | arrayRemove | arrayClear
  deriving DecidableEq, Inhabited

namespace Opcode

/-- All opcodes, each at the place of its number. -/
def all : List Opcode :=
  [nop, iadd, fadd, isub, fsub, imul, fmul, idiv, fdiv, imod,
   not, ineg, fneg, assign, cast,
   cmpEq, cmpLt, cmpLe, cmpGt, cmpGe,
   jmp, jmpt, jmpf,
   callMethod, callParent, callStatic, ret,
   strcat, propGet, propSet,
   arrayCreate, arrayLength, arrayGet, arraySet, arrayFind, arrayFindLast,
   is, structCreate, structGet, structSet,
   arrayFindStruct, arrayFindLastStruct,
   arrayAdd, arrayInsert, arrayRemoveLast, arrayRemove, arrayClear]

def toByte : Opcode → UInt8
  | nop => 0x00 | iadd => 0x01 | fadd => 0x02 | isub => 0x03 | fsub => 0x04
  | imul => 0x05 | fmul => 0x06 | idiv => 0x07 | fdiv => 0x08 | imod => 0x09
  | not => 0x0A | ineg => 0x0B | fneg => 0x0C | assign => 0x0D | cast => 0x0E
  | cmpEq => 0x0F | cmpLt => 0x10 | cmpLe => 0x11 | cmpGt => 0x12 | cmpGe => 0x13
  | jmp => 0x14 | jmpt => 0x15 | jmpf => 0x16
  | callMethod => 0x17 | callParent => 0x18 | callStatic => 0x19 | ret => 0x1A
  | strcat => 0x1B | propGet => 0x1C | propSet => 0x1D
  | arrayCreate => 0x1E | arrayLength => 0x1F | arrayGet => 0x20 | arraySet => 0x21
  | arrayFind => 0x22 | arrayFindLast => 0x23
  | is => 0x24 | structCreate => 0x25 | structGet => 0x26 | structSet => 0x27
  | arrayFindStruct => 0x28 | arrayFindLastStruct => 0x29
  | arrayAdd => 0x2A | arrayInsert => 0x2B | arrayRemoveLast => 0x2C | arrayRemove => 0x2D
  | arrayClear => 0x2E

def ofByte? (b : UInt8) : Option Opcode := all[b.toNat]?

theorem ofByte?_toByte (o : Opcode) : ofByte? o.toByte = some o := by
  cases o <;> rfl

def mnemonic : Opcode → String
  | nop => "nop" | iadd => "iadd" | fadd => "fadd" | isub => "isub" | fsub => "fsub"
  | imul => "imul" | fmul => "fmul" | idiv => "idiv" | fdiv => "fdiv" | imod => "imod"
  | not => "not" | ineg => "ineg" | fneg => "fneg" | assign => "assign" | cast => "cast"
  | cmpEq => "cmp_eq" | cmpLt => "cmp_lt" | cmpLe => "cmp_le" | cmpGt => "cmp_gt"
  | cmpGe => "cmp_ge"
  | jmp => "jmp" | jmpt => "jmpt" | jmpf => "jmpf"
  | callMethod => "callmethod" | callParent => "callparent" | callStatic => "callstatic"
  | ret => "return" | strcat => "strcat" | propGet => "propget" | propSet => "propset"
  | arrayCreate => "array_create" | arrayLength => "array_length"
  | arrayGet => "array_getelement" | arraySet => "array_setelement"
  | arrayFind => "array_findelement" | arrayFindLast => "array_rfindelement"
  | is => "is" | structCreate => "struct_create"
  | structGet => "struct_get" | structSet => "struct_set"
  | arrayFindStruct => "array_findstruct" | arrayFindLastStruct => "array_rfindstruct"
  | arrayAdd => "array_add" | arrayInsert => "array_insert"
  | arrayRemoveLast => "array_removelast" | arrayRemove => "array_remove"
  | arrayClear => "array_clear"

def ofMnemonic? (s : String) : Option Opcode := all.find? fun o => o.mnemonic == s

def title : Opcode → String
  | nop => "Nop" | iadd => "IAdd" | fadd => "FAdd" | isub => "ISubtract" | fsub => "FSubtract"
  | imul => "IMultiply" | fmul => "FMultiply" | idiv => "IDivide" | fdiv => "FDivide"
  | imod => "IMod" | not => "Not" | ineg => "INegate" | fneg => "FNegate" | assign => "Assign"
  | cast => "Cast" | cmpEq => "CmpEq" | cmpLt => "CmpLt" | cmpLe => "CmpLte" | cmpGt => "CmpGt"
  | cmpGe => "CmpGte" | jmp => "Jmp" | jmpt => "Jmpt" | jmpf => "Jmpf"
  | callMethod => "CallMethod" | callParent => "CallParent" | callStatic => "CallStatic"
  | ret => "Return" | strcat => "StrCat" | propGet => "PropGet" | propSet => "PropSet"
  | arrayCreate => "ArrayCreate" | arrayLength => "ArrayLength"
  | arrayGet => "ArrayGetElement" | arraySet => "ArraySetElement"
  | arrayFind => "ArrayFindElement" | arrayFindLast => "ArrayRFindElement"
  | is => "Is" | structCreate => "StructCreate"
  | structGet => "StructGet" | structSet => "StructSet"
  | arrayFindStruct => "ArrayFindStruct" | arrayFindLastStruct => "ArrayRFindStruct"
  | arrayAdd => "ArrayAdd" | arrayInsert => "ArrayInsert"
  | arrayRemoveLast => "ArrayRemoveLast" | arrayRemove => "ArrayRemove"
  | arrayClear => "ArrayClear"

def arity : Opcode → Nat
  | nop => 0
  | jmp | ret | structCreate | arrayRemoveLast | arrayClear => 1
  | not | ineg | fneg | assign | cast | jmpt | jmpf | callParent | arrayCreate | arrayLength => 2
  | arrayFind | arrayFindLast => 4
  | arrayFindStruct | arrayFindLastStruct => 5
  | _ => 3

def isCall : Opcode → Bool
  | callMethod | callParent | callStatic => true
  | _ => false

def variadic (o : Opcode) : Bool := o.isCall

def jumpArgument? : Opcode → Option Nat
  | jmp => some 0
  | jmpt | jmpf => some 1
  | _ => none

def isJump (o : Opcode) : Bool := o.jumpArgument?.isSome

def isLater (o : Opcode) : Bool := 0x24 ≤ o.toByte

end Opcode

end PapyrusBackend
