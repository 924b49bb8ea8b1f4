import Mathlib.Logic.Function.Basic
import PapyrusBackend.Source.Declaration

namespace PapyrusBackend.Semantics.Delegates

open Source

/-- What is known of a value. A delegate is bound if the code itself has made it for a method, and a
method that was loaded is a pointer; what comes from elsewhere is unknown. -/
inductive Entity where
  | bound (method : String)
  | pointer (method : String)
  | this
  | literal
  | unknown
  deriving DecidableEq

namespace Entity

def isPointer : Entity → Bool
  | pointer _ => true
  | _ => false

def isStorable : Entity → Bool
  | pointer _ | this => false
  | _ => true

def isCallable : Entity → Bool
  | bound _ | unknown => true
  | _ => false

end Entity

def place (field : FieldRef) : TypeRef × String := (field.owner, field.name)

structure State where
  stack : List Entity := []
  locals : Nat → Entity := fun _ => .unknown
  fields : TypeRef × String → Entity := fun _ => .unknown

/-- No value is given back: the type `void`, under either of its names. -/
def isNothing (t : TypeRef) : Bool :=
  !t.isArray && (t.name == "void" || (t.scope == "System" && t.name == "Void"))

structure Invokes (program : Source.Module) (i : Instr) (callee : MethodRef) : Prop where
  code : i.code = .call ∨ i.code = .callvirt
  operand : i.operand = .method callee
  name : callee.name = "Invoke"
  onObject : callee.convention = .thisCall ∨ callee.hasThis = true
  returns : isNothing callee.returns = true
  ordinary : ∀ declared, program.method? callee = some declared → declared.2.isConstructor = false

structure Passes (callee : MethodRef) (stack : List Entity) (receiver : Entity)
    (rest : List Entity) : Prop where
  literals : stack.take callee.parameters.length =
    List.replicate callee.parameters.length .literal
  receiver : stack.drop callee.parameters.length = receiver :: rest

variable (program : Source.Module) (m : MethodDecl)

/-- What an instruction does. There is no step for an instruction that is not straight code on
delegates, or that does not have the stack effect of its kind. The method that a delegate stands for
may store into fields as well, though nothing that is bound here. -/
inductive Step (i : Instr) (σ : State) : State → Prop
  | this (hcode : i.code = .ldarg) (hoperand : i.operand = .index 0)
      (hinstance : m.isStatic = false) : Step i σ { σ with stack := .this :: σ.stack }
  | argument (hcode : i.code = .ldarg) (hoperand : i.operand = .index 0)
      (hstatic : m.isStatic = true) (hparameter : m.parameters ≠ []) :
      Step i σ { σ with stack := .unknown :: σ.stack }
  | literal (hcode : i.code ∈ [.ldcI4, .ldcR4, .ldcR8, .ldstr, .ldnull]) :
      Step i σ { σ with stack := .literal :: σ.stack }
  | pointer {target : MethodRef} (hcode : i.code = .ldftn) (hoperand : i.operand = .method target) :
      Step i σ { σ with stack := .pointer target.name :: σ.stack }
  | construct {ctor : MethodRef} {method : String} (receiver : Option Entity)
      {rest : List Entity} (hcode : i.code = .newobj) (hoperand : i.operand = .method ctor)
      (hdelegate : ctor.owner.isDelegate = true)
      (hparameters : ctor.parameters.length = receiver.toList.length + 1)
      (hstack : σ.stack = .pointer method :: (receiver.toList ++ rest))
      (hreceiver : ∀ e ∈ receiver, e.isPointer = false) :
      Step i σ { σ with stack := .bound method :: rest }
  | loadLocal {k : UInt16} {l : Local} (hcode : i.code = .ldloc) (hoperand : i.operand = .index k)
      (hlocal : m.locals[k.toNat]? = some l) (hdelegate : l.type.isDelegate = true) :
      Step i σ { σ with stack := σ.locals k.toNat :: σ.stack }
  | storeLocal {k : UInt16} {l : Local} {e : Entity} {rest : List Entity} (hcode : i.code = .stloc)
      (hoperand : i.operand = .index k) (hlocal : m.locals[k.toNat]? = some l)
      (hdelegate : l.type.isDelegate = true) (hstack : σ.stack = e :: rest)
      (hstorable : e.isStorable = true) :
      Step i σ { σ with stack := rest, locals := Function.update σ.locals k.toNat e }
  | loadStatic {field : FieldRef} (hcode : i.code = .ldsfld) (hoperand : i.operand = .field field)
      (hdelegate : field.type.isDelegate = true) :
      Step i σ { σ with stack := σ.fields (place field) :: σ.stack }
  | storeStatic {field : FieldRef} {e : Entity} {rest : List Entity} (hcode : i.code = .stsfld)
      (hoperand : i.operand = .field field) (hdelegate : field.type.isDelegate = true)
      (hstack : σ.stack = e :: rest) (hstorable : e.isStorable = true) :
      Step i σ { σ with stack := rest, fields := Function.update σ.fields (place field) e }
  | loadField {field : FieldRef} {rest : List Entity} (hcode : i.code = .ldfld)
      (hoperand : i.operand = .field field) (hdelegate : field.type.isDelegate = true)
      (hstack : σ.stack = .this :: rest) :
      Step i σ { σ with stack := σ.fields (place field) :: rest }
  | storeField {field : FieldRef} {e : Entity} {rest : List Entity} (hcode : i.code = .stfld)
      (hoperand : i.operand = .field field) (hdelegate : field.type.isDelegate = true)
      (hstack : σ.stack = e :: .this :: rest) (hstorable : e.isStorable = true) :
      Step i σ { σ with stack := rest, fields := Function.update σ.fields (place field) e }
  | dup {e : Entity} {rest : List Entity} (hcode : i.code = .dup) (hstack : σ.stack = e :: rest) :
      Step i σ { σ with stack := e :: e :: rest }
  | pop {e : Entity} {rest : List Entity} (hcode : i.code = .pop) (hstack : σ.stack = e :: rest) :
      Step i σ { σ with stack := rest }
  | invoke {callee : MethodRef} {receiver : Entity} {rest : List Entity}
      {fields : TypeRef × String → Entity} (hinvokes : Invokes program i callee)
      (hpasses : Passes callee σ.stack receiver rest) (hreceiver : receiver.isCallable = true)
      (hfields : ∀ p, fields p = σ.fields p ∨ fields p = .unknown) :
      Step i σ { σ with stack := rest, fields }

inductive Runs : List Instr → State → State → Prop
  | nil (σ : State) : Runs [] σ σ
  | cons {i : Instr} {rest : List Instr} {σ σ₁ σ₂ : State} (hpop : i.pop = i.code.defaultPop)
      (h : Step program m i σ σ₁) (hrest : Runs rest σ₁ σ₂) : Runs (i :: rest) σ σ₂

variable {program m}

theorem Runs.append {front rest : List Instr} {σ σ₁ σ₂ : State} (h : Runs program m front σ σ₁)
    (hrest : Runs program m rest σ₁ σ₂) : Runs program m (front ++ rest) σ σ₂ := by
  induction h with
  | nil σ => exact hrest
  | cons hpop hstep _ ih => exact .cons hpop hstep (ih hrest)

end PapyrusBackend.Semantics.Delegates
