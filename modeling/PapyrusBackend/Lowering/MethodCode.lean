import PapyrusBackend.Listing
import PapyrusBackend.Lowering.Call

namespace PapyrusBackend.Lowering

open Source

structure Segment where
  offset : UInt32
  line : UInt16
  /-- code that carries stack items over to this place; jumps lead behind it -/
  entry : List Instruction := []
  code : List Instruction := []
  deriving DecidableEq, Inhabited

namespace Segment

def instructions (s : Segment) : List Instruction := s.entry ++ s.code

def rows (s : Segment) : List Row :=
  s.entry.map (fun i => Row.ofInstruction i none) ++
    Row.label (Listing.labelName s.offset.toNat) ::
    s.code.map fun i => Row.ofInstruction i (Listing.targetLabel i)

def lines (s : Segment) : List UInt16 := List.replicate s.instructions.length s.line

def boundaries (start : Nat) : List Segment → List Body.Boundary
  | [] => []
  | s :: rest =>
    ⟨s.offset, start + s.entry.length⟩ :: boundaries (start + s.instructions.length) rest

end Segment

namespace Lower

/-- Under the lenient policy an instruction that finds too few operands is left out. -/
def tolerate (policy : Policy) (i : Instr) (code : Lower (List Instruction)) :
    Lower (List Instruction) := fun s =>
  match code s with
  | .ok code s => .ok code s
  | .error fault s =>
    if policy = .lenient ∧ fault.isLocal then
      let message := "dropped IL_" ++ Text.hexPadded 4 i.offset.toNat ++ ": " ++ fault.message
      .ok [] { s with warnings := s.warnings ++ [message] }
    else .error fault s

def visit (f : Frame) (policy : Policy) (line : UInt16) (i : Instr) : Lower (Option Segment) := do
  let s ← get
  if s.skipNext then
    set { s with skipNext := false }
    return some { offset := i.offset, line }
  else if s.skipTo.any fun offset => i.offset < offset then return none
  else
    set { s with skipTo := none }
    let entry ← enter f i.offset
    let code ← tolerate policy i (step f i)
    return some { offset := i.offset, line, entry, code }

def visitAll (f : Frame) (policy : Policy) : Nat → UInt16 → List Instr → Lower (List Segment)
  | _, _, [] => return []
  | position, line, i :: rest => do
    let line := i.line.getD line
    let first ← visit { f with position } policy line i
    let segments ← visitAll f policy (position + 1) line rest
    return first.toList ++ segments

end Lower

structure LoweredMethod where
  method : Method
  listing : Listing
  lines : List UInt16
  warnings : List String

structure Setting where
  program : Source.Module
  owner : TypeDecl
  target : ObjectType
  generation : Generation
  coerce : String → Value → Value := Value.coerce
  policy : Policy := .lenient
  optimizeLabels : Bool := true

def Setting.frame (s : Setting) (m : MethodDecl) : Frame :=
  { program := s.program, owner := s.owner, method := m, target := s.target
    generation := s.generation, coerce := s.coerce }

def signature (m : MethodDecl) : Method :=
  { name := m.name
    returns := Naming.typeName m.returns
    documentation := m.documentation
    flags := (if m.isStatic then Method.globalFlag else 0) |||
      (if m.isNative then Method.nativeFlag else 0)
    parameters := m.parameters.map fun p => ⟨p.name, Naming.typeName p.type⟩ }

def assemble (name : String) (declared : List TypedName) (segments : List Segment) : Body :=
  let body := Body.append { owner := name, «variables» := declared }
    (segments.flatMap Segment.instructions)
  body.resolve (Segment.boundaries 0 segments)

def leftovers (stack : Stack) : List String :=
  if stack.isEmpty then []
  else [toString stack.length ++ " items left on the evaluation stack"]

def lowerCode (setting : Setting) (m : MethodDecl) : Except Fault LoweredMethod :=
  let start := Simulation.start m setting.owner.delegateBindings
  match Lower.visitAll (setting.frame m) setting.policy 0 0 m.body start with
  | .error fault _ => .error fault
  | .ok segments s =>
    let listing : Listing := { method := m.name, rows := segments.flatMap Segment.rows }
    .ok
      { method := { signature m with body := assemble m.name s.variables segments }
        listing := if setting.optimizeLabels then listing.optimize.2 else listing
        lines := segments.flatMap Segment.lines
        warnings := s.warnings ++ leftovers s.stack }

def lowerMethod (setting : Setting) (m : MethodDecl) : Except Fault LoweredMethod :=
  if m.isNative then
    .ok { method := signature m, listing := { method := m.name }, lines := [], warnings := [] }
  else lowerCode setting m

end PapyrusBackend.Lowering
