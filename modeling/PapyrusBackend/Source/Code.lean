import PapyrusBackend.Number.Single
import PapyrusBackend.Source.Reference

namespace PapyrusBackend.Source

inductive Code where
  | nop
  | ldarg | ldloc | ldcI4 | ldcR4 | ldcR8 | ldstr | ldnull | ldfld | ldflda | ldsfld
  | ldelem | ldlen | ldftn | newobj | newarr
  | stloc | starg | stfld | stsfld | stelem
  | call | callvirt
  | ret
  | br | brtrue | brfalse | beq | bneUn | bgt | bgtUn | bge | bgeUn | blt | bltUn | ble | bleUn
  | ceq | cgt | cgtUn | clt | cltUn
  | add | sub | mul | div | rem | neg | not
  | dup | pop | box | convI4 | convR4 | convR8
  deriving DecidableEq, Inhabited

inductive Category where
  | nop | load | store | call | branch | conditional | ret | arithmetic | stack
  deriving DecidableEq, Inhabited

def Category.title : Category → String
  | nop => "Nop" | load => "Load" | store => "Store" | call => "Call" | branch => "Branch"
  | conditional => "Conditional" | ret => "Return" | arithmetic => "Arithmetic" | stack => "Stack"

inductive Pop where
  | fixed (count : UInt8)
  | perParameter
  | all
  deriving DecidableEq, Inhabited

def Pop.count (p : Pop) (parameters depth : Nat) : Nat :=
  match p with
  | fixed n => n.toNat
  | perParameter => parameters
  | all => depth

namespace Code

def title : Code → String
  | nop => "Nop" | ldarg => "Ldarg" | ldloc => "Ldloc" | ldcI4 => "LdcI4" | ldcR4 => "LdcR4"
  | ldcR8 => "LdcR8" | ldstr => "Ldstr" | ldnull => "Ldnull" | ldfld => "Ldfld"
  | ldflda => "Ldflda" | ldsfld => "Ldsfld" | ldelem => "Ldelem" | ldlen => "Ldlen"
  | ldftn => "Ldftn" | newobj => "Newobj" | newarr => "Newarr" | stloc => "Stloc"
  | starg => "Starg" | stfld => "Stfld" | stsfld => "Stsfld" | stelem => "Stelem"
  | call => "Call" | callvirt => "Callvirt" | ret => "Ret" | br => "Br" | brtrue => "Brtrue"
  | brfalse => "Brfalse" | beq => "Beq" | bneUn => "BneUn" | bgt => "Bgt" | bgtUn => "BgtUn"
  | bge => "Bge" | bgeUn => "BgeUn" | blt => "Blt" | bltUn => "BltUn" | ble => "Ble"
  | bleUn => "BleUn" | ceq => "Ceq" | cgt => "Cgt" | cgtUn => "CgtUn" | clt => "Clt"
  | cltUn => "CltUn" | add => "Add" | sub => "Sub" | mul => "Mul" | div => "Div" | rem => "Rem"
  | neg => "Neg" | not => "Not" | dup => "Dup" | pop => "Pop" | box => "Box"
  | convI4 => "ConvI4" | convR4 => "ConvR4" | convR8 => "ConvR8"

def all : List Code :=
  [nop, ldarg, ldloc, ldcI4, ldcR4, ldcR8, ldstr, ldnull, ldfld, ldflda, ldsfld, ldelem, ldlen,
   ldftn, newobj, newarr, stloc, starg, stfld, stsfld, stelem, call, callvirt, ret, br, brtrue,
   brfalse, beq, bneUn, bgt, bgtUn, bge, bgeUn, blt, bltUn, ble, bleUn, ceq, cgt, cgtUn, clt,
   cltUn, add, sub, mul, div, rem, neg, not, dup, pop, box, convI4, convR4, convR8]

def ofTitle? (s : String) : Option Code := all.find? fun c => c.title == s

def category : Code → Category
  | nop => .nop
  | ldarg | ldloc | ldcI4 | ldcR4 | ldcR8 | ldstr | ldnull | ldfld | ldflda | ldsfld
  | ldelem | ldlen | ldftn | newobj | newarr => .load
  | stloc | starg | stfld | stsfld | stelem => .store
  | call | callvirt => .call
  | br | brtrue | brfalse | beq | bneUn | bgt | bgtUn | bge | bgeUn | blt | bltUn | ble | bleUn =>
    .branch
  | ceq | cgt | cgtUn | clt | cltUn => .conditional
  | ret => .ret
  | add | sub | mul | div | rem | neg | not => .arithmetic
  | dup | pop | box | convI4 | convR4 | convR8 => .stack

def defaultPop : Code → Pop
  | nop | ldarg | ldloc | ldcI4 | ldcR4 | ldcR8 | ldstr | ldnull | ldsfld | ldftn | br => .fixed 0
  | ldfld | ldflda | ldlen | newarr | stloc | starg | stsfld | brtrue | brfalse | neg | not | dup
  | pop | box | convI4 | convR4 | convR8 => .fixed 1
  | ldelem | stfld | beq | bneUn | bgt | bgtUn | bge | bgeUn | blt | bltUn | ble | bleUn | ceq
  | cgt | cgtUn | clt | cltUn | add | sub | mul | div | rem => .fixed 2
  | stelem => .fixed 3
  | call | callvirt | newobj | ret => .perParameter

/-- The stores whose variable a producing instruction can write itself. -/
def isStore : Code → Bool
  | stloc | starg | stfld | stsfld => true
  | _ => false

def isConditional (c : Code) : Bool := c.category = .conditional

end Code

inductive Operand where
  | none
  | int (value : Int32)
  | float (value : Double)
  | string (text : String)
  | index (position : UInt16)
  | field (ref : FieldRef)
  | method (ref : MethodRef)
  | target (offset : UInt32)
  | type (ref : TypeRef)
  deriving DecidableEq, Inhabited

structure Instr where
  offset : UInt32 := 0
  code : Code
  operand : Operand := .none
  pop : Pop := code.defaultPop
  line : Option UInt16 := none
  deriving DecidableEq, Inhabited

namespace Instr

def index? (i : Instr) : Option UInt16 :=
  match i.operand with
  | .index k => some k
  | _ => none

def method? (i : Instr) : Option MethodRef :=
  match i.operand with
  | .method m => some m
  | _ => none

def field? (i : Instr) : Option FieldRef :=
  match i.operand with
  | .field f => some f
  | _ => none

def target? (i : Instr) : Option UInt32 :=
  match i.operand with
  | .target t => some t
  | _ => none

def type? (i : Instr) : Option TypeRef :=
  match i.operand with
  | .type t => some t
  | _ => none

end Instr

structure Builder where
  code : List Instr := []
  line : Option UInt16 := none

namespace Builder

def nextOffset (b : Builder) : UInt32 := UInt32.ofNat b.code.length

def emit (b : Builder) (code : Code) (operand : Operand := .none) : Builder :=
  { b with code := b.code ++ [{ offset := b.nextOffset, code, operand, line := b.line }] }

end Builder

end PapyrusBackend.Source
