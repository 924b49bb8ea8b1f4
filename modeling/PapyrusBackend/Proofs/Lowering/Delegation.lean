import PapyrusBackend.Proofs.Lowering.SuppliedMethod
import PapyrusBackend.Proofs.Semantics.Delegates

namespace PapyrusBackend.Lowering

open Source Semantics
open Semantics.Delegates (Entity place isNothing Invokes Passes)

variable {f : Frame} {i : Instr} {s t : Simulation} {σ σ' : Delegates.State} {e : Entity}
  {item : Item} {target : String}

def Item.isPresent (item : Item) : Bool :=
  match item.content with
  | .literal _ | .held _ => true
  | _ => false

def Item.StandsFor (target : String) (item : Item) : Entity → Prop
  | .bound method => ∃ v, item.delegate? = some v ∧ v.invoke = some method
  | .pointer method => item.content = .method method
  | .this => item = .this target
  | .literal | .unknown => item.isPresent = true

/-- What a variable for delegates is bound to is in accord with its value. -/
structure Remembers (invoke : Option String) (e : Entity) : Prop where
  storable : e.isStorable = true
  bound : ∀ method, e = .bound method → invoke = some method

theorem isPresent_of_delegate? {v : Variable} (h : item.delegate? = some v) :
    item.isPresent = true := by
  rw [Item.delegate?] at h
  rw [Item.isPresent]
  cases hcontent : item.content with
  | literal value => rfl
  | held w => rfl
  | _ => simp [hcontent] at h

theorem Item.StandsFor.isPresent (h : item.StandsFor target e) (he : e.isPointer = false) :
    item.isPresent = true := by
  cases e with
  | bound method =>
    obtain ⟨v, hv, _⟩ := h
    exact isPresent_of_delegate? hv
  | pointer method => cases he
  | this =>
    cases h
    rfl
  | literal => exact h
  | unknown => exact h

theorem isPointer_of_isStorable (h : e.isStorable = true) : e.isPointer = false := by
  cases e <;> simp_all [Entity.isStorable, Entity.isPointer]

theorem isStorable_of_isCallable (h : e.isCallable = true) : e.isStorable = true := by
  cases e <;> simp_all [Entity.isStorable, Entity.isCallable]

/-- A variable for delegates stands for the value that it remembers. -/
theorem Remembers.standsFor {v : Variable} (h : Remembers v.invoke e) (hv : v.isDelegate = true) :
    (Item.ofVariable v).StandsFor target e := by
  cases e with
  | bound method => exact ⟨v, by simp [Item.delegate?, Item.ofVariable, hv], h.bound method rfl⟩
  | pointer method => cases h.storable
  | this => cases h.storable
  | literal => rfl
  | unknown => rfl

/-- A delegate that is stored brings its method along. -/
theorem Item.StandsFor.remembers (h : item.StandsFor target e) (he : e.isStorable = true)
    {v : Variable} (hv : item.delegate? = some v) : Remembers v.invoke e where
  storable := he
  bound method hbound := by
    subst hbound
    obtain ⟨w, hw, hinvoke⟩ := h
    cases hv.symm.trans hw
    exact hinvoke

/-- Where no delegate is stored, none is known. -/
theorem Item.StandsFor.remembers_of_none (h : item.StandsFor target e) (he : e.isStorable = true)
    (hnone : item.delegate? = none) (invoke : Option String) : Remembers invoke e where
  storable := he
  bound method hbound := by
    subst hbound
    obtain ⟨w, hw, _⟩ := h
    cases hnone.symm.trans hw

theorem remembers_unknown (invoke : Option String) : Remembers invoke .unknown :=
  ⟨rfl, fun _ h => by cases h⟩

theorem lookup_filter_ne {bound : Bindings} {name other : String} (h : other ≠ name) :
    (bound.filter fun entry => entry.1 != name).lookup other = bound.lookup other := by
  induction bound with
  | nil => rfl
  | cons entry rest ih =>
    obtain ⟨key, value⟩ := entry
    by_cases hkey : key = name
    · subst hkey
      simp [List.lookup_cons, beq_false_of_ne h, ih]
    · simp [List.lookup_cons, hkey, ih]

theorem lookup_bind_self (bound : Bindings) (name method : String) :
    (bound.bind name method).lookup name = some method := by
  simp [Bindings.bind]

theorem lookup_bind_ne (bound : Bindings) {name other : String} (h : other ≠ name)
    (method : String) : (bound.bind name method).lookup other = bound.lookup other := by
  rw [Bindings.bind, List.lookup_cons, beq_false_of_ne h]
  exact lookup_filter_ne h

def Bindings.rebound (bound : Bindings) (name : String) : Option String → Bindings
  | some method => bound.bind name method
  | none => bound.unbind name

theorem lookup_rebound_ne (bound : Bindings) {name other : String} (h : other ≠ name)
    (method : Option String) :
    (Bindings.rebound bound name method).lookup other = bound.lookup other := by
  cases method with
  | none => exact lookup_filter_ne h
  | some method => exact lookup_bind_ne bound h method

theorem remembers_rebound {bound : Bindings} {name : String} {invoke : Option String}
    (h : Remembers invoke e) :
    Remembers ((Bindings.rebound bound name invoke).lookup name) e where
  storable := h.storable
  bound method hbound := by
    rw [h.bound method hbound]
    exact lookup_bind_self bound name method

def DistinctFields (m : MethodDecl) : Prop :=
  ∀ field ∈ m.fieldOperands, ∀ other ∈ m.fieldOperands, field.name = other.name →
    field.owner = other.owner

instance (m : MethodDecl) : Decidable (DistinctFields m) :=
  inferInstanceAs (Decidable (∀ field ∈ m.fieldOperands, ∀ other ∈ m.fieldOperands,
    field.name = other.name → field.owner = other.owner))

/-- The simulation has followed the machine. -/
structure Tracks (f : Frame) (σ : Delegates.State) (s : Simulation) : Prop where
  stack : List.Forall₂ (Item.StandsFor f.target.name) s.stack σ.stack
  locals : ∀ k l, f.method.locals[k]? = some l → l.type.isDelegate = true →
    ∃ v, s.locals[k]? = some v ∧ v.isDelegate = true ∧ Remembers v.invoke (σ.locals k)
  fields : ∀ field ∈ f.method.fieldOperands,
    Remembers (s.delegates.lookup field.name) (σ.fields (place field))
  skipNext : s.skipNext = false
  skipTo : s.skipTo = none
  joins : s.joins = []

theorem tracks_start (f : Frame) (delegates : Bindings) :
    Tracks f {} (Simulation.start f.method delegates) where
  stack := .nil
  locals k l hl hdelegate := by
    refine ⟨{ name := Naming.localName k l.name, type := Naming.typeName l.type
              isDelegate := l.type.isDelegate }, ?_, hdelegate, remembers_unknown _⟩
    simp [Simulation.start, localVariables, hl]
  fields _ _ := remembers_unknown _
  skipNext := rfl
  skipTo := rfl
  joins := rfl

/-- Only the stacks change. -/
theorem Tracks.restack (h : Tracks f σ s) {items : Stack} {stack : List Entity}
    (hstack : List.Forall₂ (Item.StandsFor f.target.name) items stack) :
    Tracks f { σ with stack } { s with stack := items } where
  stack := hstack
  locals := h.locals
  fields := h.fields
  skipNext := h.skipNext
  skipTo := h.skipTo
  joins := h.joins

/-- Only the place of the current instruction changes. -/
theorem Tracks.moveTo (h : Tracks f σ s) (position : Nat) : Tracks { f with position } σ s where
  stack := h.stack
  locals := h.locals
  fields := h.fields
  skipNext := h.skipNext
  skipTo := h.skipTo
  joins := h.joins

theorem Tracks.push (h : Tracks f σ s) (hitem : item.StandsFor f.target.name e) :
    Tracks f { σ with stack := e :: σ.stack } { s with stack := item :: s.stack } :=
  h.restack (.cons hitem h.stack)

/-- The item on top of the stack. -/
theorem Tracks.top (h : Tracks f σ s) {rest : List Entity} (hstack : σ.stack = e :: rest) :
    ∃ item items, s.stack = item :: items ∧ item.StandsFor f.target.name e ∧
      List.Forall₂ (Item.StandsFor f.target.name) items rest := by
  have hforall := h.stack
  rw [hstack] at hforall
  obtain ⟨item, items, hitem, hitems, hs⟩ := List.forall₂_cons_right_iff.1 hforall
  exact ⟨item, items, hs, hitem, hitems⟩

theorem step_load (h : i.code.category = .load) : Lower.step f i = Lower.load f i := by
  simp only [Lower.step, h]

theorem step_store (h : i.code.category = .store) : Lower.step f i = Lower.store f i := by
  simp only [Lower.step, h]

theorem step_stack (h : i.code.category = .stack) : Lower.step f i = Lower.shuffle f i := by
  simp only [Lower.step, h]

theorem step_ret (h : i.code = .ret) (hreturns : f.method.returns.isVoid = true) :
    Lower.step f i s = .ok [{ opcode := .ret, arguments := [.none] }] s := by
  have hcategory : i.code.category = .ret := by
    rw [h]
    rfl
  simp only [Lower.step, hcategory, Lower.giveBack, hreturns, if_true]
  rfl

def Follows (f : Frame) (i : Instr) (s : Simulation) (σ : Delegates.State) : Prop :=
  ∃ code t, Lower.step f i s = .ok code t ∧ Tracks f σ t

theorem follows_push (item : Item) (h : Tracks f σ s) (hitem : item.StandsFor f.target.name e)
    (hrun : Lower.step f i s = .ok [] { s with stack := item :: s.stack }) :
    Follows f i s { σ with stack := e :: σ.stack } := ⟨_, _, hrun, h.push hitem⟩

theorem follows_this (h : Tracks f σ s) (hcode : i.code = .ldarg) (hoperand : i.operand = .index 0)
    (hinstance : f.method.isStatic = false) :
    Follows f i s { σ with stack := .this :: σ.stack } := by
  refine follows_push (.this f.target.name) h rfl ?_
  rw [step_load (by rw [hcode]; rfl), Lower.load, hcode]
  simp only [Instr.index?, hoperand]
  rw [bind_run (Lower.need_run rfl)]
  simp only [Lower.argument, hinstance]
  rfl

theorem follows_argument (h : Tracks f σ s) (hcode : i.code = .ldarg)
    (hoperand : i.operand = .index 0) (hstatic : f.method.isStatic = true)
    (hparameter : f.method.parameters ≠ []) :
    Follows f i s { σ with stack := .unknown :: σ.stack } := by
  obtain ⟨p, rest, hp⟩ := List.exists_cons_of_ne_nil hparameter
  refine follows_push (.ofVariable { name := p.name, type := Naming.typeName p.type }) h rfl ?_
  rw [step_load (by rw [hcode]; rfl), Lower.load, hcode]
  simp only [Instr.index?, hoperand]
  rw [bind_run (Lower.need_run rfl)]
  simp only [Lower.argument, hstatic, if_true, Frame.parameters, hp]
  rfl

theorem follows_literal (h : Tracks f σ s)
    (hcode : i.code ∈ [.ldcI4, .ldcR4, .ldcR8, .ldstr, .ldnull]) :
    Follows f i s { σ with stack := .literal :: σ.stack } := by
  refine follows_push (.ofValue (Lower.literalOf i.operand)) h rfl ?_
  simp only [List.mem_cons, List.not_mem_nil, or_false] at hcode
  obtain hcode | hcode | hcode | hcode | hcode := hcode <;>
    (rw [step_load (by rw [hcode]; rfl), Lower.load, hcode]; rfl)

theorem follows_pointer (h : Tracks f σ s) {target : MethodRef} (hcode : i.code = .ldftn)
    (hoperand : i.operand = .method target) :
    Follows f i s { σ with stack := .pointer target.name :: σ.stack } := by
  refine follows_push { content := .method target.name, type := "" } h rfl ?_
  rw [step_load (by rw [hcode]; rfl), Lower.load, hcode]
  simp only [Instr.method?, hoperand]
  rw [bind_run (Lower.need_run rfl)]
  rfl

theorem loadedMethod?_pointer {items : List Item} {pointer : Item} {method : String}
    (hitems : ∀ item ∈ items, item.isPresent = true) (h : pointer.content = .method method) :
    Lower.loadedMethod? (items ++ [pointer]) = some method := by
  rw [Lower.loadedMethod?, List.findSome?_append, List.findSome?_eq_none_iff.2]
  · simp [h]
  · intro item hitem
    have hpresent := hitems item hitem
    rw [Item.isPresent] at hpresent
    cases hcontent : item.content with
    | method name => simp [hcontent] at hpresent
    | _ => rfl

theorem forall_isPresent {items : Stack} {entities : List Entity}
    (h : List.Forall₂ (Item.StandsFor target) items entities)
    (hentities : ∀ e ∈ entities, e.isPointer = false) : ∀ item ∈ items, item.isPresent = true := by
  induction h with
  | nil => exact fun _ hitem => absurd hitem List.not_mem_nil
  | cons hitem _ ih =>
    obtain ⟨hfirst, hrest⟩ := List.forall_mem_cons.1 hentities
    exact List.forall_mem_cons.2 ⟨hitem.isPresent hfirst, ih hrest⟩

theorem follows_construct (h : Tracks f σ s) (hpop : i.pop = i.code.defaultPop) {ctor : MethodRef}
    {method : String} {receiver : Option Entity} {rest : List Entity} (hcode : i.code = .newobj)
    (hoperand : i.operand = .method ctor) (hdelegate : ctor.owner.isDelegate = true)
    (hparameters : ctor.parameters.length = receiver.toList.length + 1)
    (hstack : σ.stack = .pointer method :: (receiver.toList ++ rest))
    (hreceiver : ∀ e ∈ receiver, e.isPointer = false) :
    Follows f i s { σ with stack := .bound method :: rest } := by
  obtain ⟨pointer, items, hs, hpointer, hitems⟩ := h.top hstack
  have hbelow := List.forall₂_take_append _ _ _ hitems
  have hrest := List.forall₂_drop_append _ _ _ hitems
  have hle := hitems.length_eq
  rw [hcode] at hpop
  rw [List.length_append] at hle
  have hcount : i.pop.count ctor.parameters.length s.stack.length = receiver.toList.length + 1 := by
    rw [hpop, ← hparameters]
    rfl
  have hpopped : Lower.popMany f i (receiver.toList.length + 1) s = _ :=
    Lower.popMany_run (by rw [hs, List.length_cons]; omega)
  have hloaded : Lower.loadedMethod? (s.stack.take (receiver.toList.length + 1)).reverse =
      some method := by
    rw [hs, List.take_succ_cons, List.reverse_cons]
    refine loadedMethod?_pointer (fun item hitem => ?_) hpointer
    refine forall_isPresent hbelow (fun e he => ?_) item (List.mem_reverse.1 hitem)
    exact hreceiver e (Option.mem_toList.1 he)
  refine ⟨[], { s with stack := .ofVariable (.mk method (Naming.typeName ctor.owner) true
    (some method)) :: s.stack.drop (receiver.toList.length + 1) }, ?_, ?_⟩
  · rw [step_load (by rw [hcode]; rfl), Lower.load, hcode]
    simp only [Lower.newObject, Instr.method?, hoperand]
    rw [bind_run (Lower.need_run rfl), get_bind, hcount, bind_run hpopped]
    simp only [hdelegate, if_true, hloaded]
    rfl
  · refine h.restack (.cons ⟨_, rfl, rfl⟩ ?_)
    rw [hs, List.drop_succ_cons]
    exact hrest

theorem follows_loadLocal (h : Tracks f σ s) {k : UInt16} {l : Local} (hcode : i.code = .ldloc)
    (hoperand : i.operand = .index k) (hlocal : f.method.locals[k.toNat]? = some l)
    (hdelegate : l.type.isDelegate = true) :
    Follows f i s { σ with stack := σ.locals k.toNat :: σ.stack } := by
  obtain ⟨v, hv, hvariable, hremembers⟩ := h.locals k.toNat l hlocal hdelegate
  refine follows_push (.ofVariable v) h (hremembers.standsFor hvariable) ?_
  rw [step_load (by rw [hcode]; rfl), Lower.load, hcode]
  simp only [Instr.index?, hoperand]
  rw [bind_run (Lower.need_run rfl), bind_run (Lower.getLocal_run hv)]
  rfl

def delegateVariable (delegates : Bindings) (field : FieldRef) : Variable :=
  { name := Naming.fieldName field.name
    type := Naming.typeName field.type
    isDelegate := true
    invoke := delegates.lookup field.name }

theorem fieldVariable_delegate {field : FieldRef} (h : field.type.isDelegate = true) :
    Lower.fieldVariable field s = .ok (delegateVariable s.delegates field) s := by
  simp only [Lower.fieldVariable, h, if_true]
  rfl

section

variable {field : FieldRef} (hoperand : i.operand = .field field)
  (hdelegate : field.type.isDelegate = true) (hfield : field ∈ f.method.fieldOperands)

include hoperand hdelegate hfield

theorem follows_loadStatic (h : Tracks f σ s) (hcode : i.code = .ldsfld) :
    Follows f i s { σ with stack := σ.fields (place field) :: σ.stack } := by
  refine follows_push (.ofVariable (delegateVariable s.delegates field)) h
    ((h.fields field hfield).standsFor rfl) ?_
  rw [step_load (by rw [hcode]; rfl), Lower.load, hcode]
  simp only [Instr.field?, hoperand]
  rw [bind_run (Lower.need_run rfl), bind_run (fieldVariable_delegate hdelegate)]
  rfl

theorem follows_loadField (hstruct : Naming.isStruct f.target.name = false) (h : Tracks f σ s)
    (hpop : i.pop = i.code.defaultPop) (hcode : i.code = .ldfld) {rest : List Entity}
    (hstack : σ.stack = .this :: rest) :
    Follows f i s { σ with stack := σ.fields (place field) :: rest } := by
  obtain ⟨holder, items, hs, hholder, hitems⟩ := h.top hstack
  cases hholder
  rw [hcode] at hpop
  refine ⟨[], { s with stack := .ofVariable (delegateVariable s.delegates field) :: items }, ?_,
    h.restack (.cons ((h.fields field hfield).standsFor rfl) hitems)⟩
  rw [step_load (by rw [hcode]; rfl), Lower.load, hcode]
  simp only [Lower.loadField, Instr.field?, hoperand]
  rw [bind_run (Lower.need_run rfl), bind_run (Lower.popOperand_run hpop hs)]
  have hplain : Naming.isStruct (Item.this f.target.name).type = false := hstruct
  simp only [hplain, Bool.false_eq_true, if_false]
  exact bind_run (fieldVariable_delegate hdelegate)

end

theorem Tracks.setLocal (h : Tracks f σ s) {items : Stack} {rest : List Entity}
    (hitems : List.Forall₂ (Item.StandsFor f.target.name) items rest) {k : Nat} {v : Variable}
    {locals : List Variable} (hv : locals[k]? = some v) (hvariable : v.isDelegate = true)
    (hremembers : Remembers v.invoke e) (hothers : ∀ j, j ≠ k → locals[j]? = s.locals[j]?) :
    Tracks f { σ with stack := rest, locals := Function.update σ.locals k e }
      { s with stack := items, locals } where
  stack := hitems
  locals j l hl hdelegate := by
    dsimp only
    by_cases hj : j = k
    · subst hj
      rw [Function.update_self]
      exact ⟨v, hv, hvariable, hremembers⟩
    · rw [Function.update_of_ne hj, hothers j hj]
      exact h.locals j l hl hdelegate
  fields := h.fields
  skipNext := h.skipNext
  skipTo := h.skipTo
  joins := h.joins

theorem follows_storeLocal (h : Tracks f σ s) (hpop : i.pop = i.code.defaultPop) {k : UInt16}
    {l : Local} {rest : List Entity} (hcode : i.code = .stloc) (hoperand : i.operand = .index k)
    (hlocal : f.method.locals[k.toNat]? = some l) (hdelegate : l.type.isDelegate = true)
    (hstack : σ.stack = e :: rest) (hstorable : e.isStorable = true) :
    Follows f i s { σ with stack := rest, locals := Function.update σ.locals k.toNat e } := by
  obtain ⟨item, items, hs, hitem, hitems⟩ := h.top hstack
  obtain ⟨v, hv, hvariable, _⟩ := h.locals k.toNat l hlocal hdelegate
  rw [hcode] at hpop
  have hgot : Lower.getLocal f k { s with stack := items } = .ok v { s with stack := items } :=
    Lower.getLocal_run hv
  rw [Follows, step_store (by rw [hcode]; rfl), Lower.store, hcode]
  simp only [Lower.storeLocal, Instr.index?, hoperand]
  rw [bind_run (Lower.need_run rfl), bind_run (Lower.popOperand_run hpop hs)]
  cases hitem' : item.delegate? with
  | some delegate =>
    have hlt : k.toNat < s.locals.length := (List.getElem?_eq_some_iff.1 hv).1
    have hremembers : Remembers delegate.invoke e := hitem.remembers hstorable hitem'
    have hbound : Lower.bindLocal f k delegate.invoke { s with stack := items } =
        .ok { v with isDelegate := true, invoke := delegate.invoke } { s with
          stack := items
          locals :=
            s.locals.set k.toNat { v with isDelegate := true, invoke := delegate.invoke } } :=
      bind_run hgot
    exact ⟨[], _, bind_run hbound, h.setLocal hitems (List.getElem?_set_self hlt) rfl hremembers
      fun j hj => List.getElem?_set_ne (Ne.symm hj)⟩
  | none =>
    -- the local keeps its old binding, but the machine knows of no method by now
    refine ⟨[], { s with stack := items }, ?_, ?_⟩
    · simp only [hvariable, bind_run hgot, if_true]
      rfl
    · exact h.setLocal hitems hv hvariable (hitem.remembers_of_none hstorable hitem' _)
        fun _ _ => rfl

/-- Distinct fields keep what they are bound to. -/
theorem Tracks.setField (hdistinct : DistinctFields f.method) (h : Tracks f σ s) {items : Stack}
    {rest : List Entity} (hitems : List.Forall₂ (Item.StandsFor f.target.name) items rest)
    {field : FieldRef} (hfield : field ∈ f.method.fieldOperands) {delegates : Bindings}
    (hremembers : Remembers (delegates.lookup field.name) e)
    (hothers : ∀ name, name ≠ field.name → delegates.lookup name = s.delegates.lookup name) :
    Tracks f { σ with stack := rest, fields := Function.update σ.fields (place field) e }
      { s with stack := items, delegates } where
  stack := hitems
  locals := h.locals
  fields other hother := by
    dsimp only
    by_cases hname : other.name = field.name
    · have hplace : place other = place field :=
        Prod.ext (hdistinct other hother field hfield hname) hname
      rw [hplace, Function.update_self, hname]
      exact hremembers
    · have hplace : place other ≠ place field := fun heq => hname (congrArg Prod.snd heq)
      rw [Function.update_of_ne hplace, hothers _ hname]
      exact h.fields other hother
  skipNext := h.skipNext
  skipTo := h.skipTo
  joins := h.joins

theorem stage_present (h : item.isPresent = true) (s : Simulation) :
    ∃ value, Lower.stage item s = .ok { value } s := by
  rw [Lower.stage]
  split
  · exact ⟨_, rfl⟩
  · rw [Item.isPresent] at h
    cases hcontent : item.content with
    | literal value => exact ⟨value, rfl⟩
    | held v => exact ⟨v.value, rfl⟩
    | _ => simp [hcontent] at h

/-- A store into a field binds it, or keeps it unbound in the machine. -/
theorem storeIn_tracks (hdistinct : DistinctFields f.method) (h : Tracks f σ s) {items : Stack}
    {rest : List Entity} (hitems : List.Forall₂ (Item.StandsFor f.target.name) items rest)
    {field : FieldRef} (hfield : field ∈ f.method.fieldOperands)
    (hdelegate : field.type.isDelegate = true) (hitem : item.StandsFor f.target.name e)
    (hstorable : e.isStorable = true) :
    ∃ code t, Lower.storeIn f field item { s with stack := items } = .ok code t ∧
      Tracks f { σ with stack := rest, fields := Function.update σ.fields (place field) e } t := by
  rw [Lower.storeIn]
  cases hitem' : item.delegate? with
  | some delegate =>
    refine ⟨[], { s with
      stack := items
      delegates := Bindings.rebound s.delegates field.name delegate.invoke }, ?_, ?_⟩
    · cases hinvoke : delegate.invoke <;> (simp only [Lower.bindField, hinvoke]; rfl)
    · exact h.setField hdistinct hitems hfield
        (remembers_rebound (hitem.remembers hstorable hitem'))
        fun name hname => lookup_rebound_ne s.delegates hname _
  | none =>
    obtain ⟨value, hstage⟩ := stage_present (hitem.isPresent (isPointer_of_isStorable hstorable))
      { s with stack := items }
    exact ⟨_, _, (bind_run (fieldVariable_delegate hdelegate)).trans (bind_run hstage),
      h.setField hdistinct hitems hfield (hitem.remembers_of_none hstorable hitem' _)
        fun _ _ => rfl⟩

section

variable {field : FieldRef} (hoperand : i.operand = .field field)
  (hdelegate : field.type.isDelegate = true) (hfield : field ∈ f.method.fieldOperands)
  (hdistinct : DistinctFields f.method) (hpop : i.pop = i.code.defaultPop)

include hoperand hdelegate hfield hdistinct hpop

theorem follows_storeStatic (h : Tracks f σ s) {rest : List Entity} (hcode : i.code = .stsfld)
    (hstack : σ.stack = e :: rest) (hstorable : e.isStorable = true) :
    Follows f i s
      { σ with stack := rest, fields := Function.update σ.fields (place field) e } := by
  obtain ⟨item, items, hs, hitem, hitems⟩ := h.top hstack
  rw [hcode] at hpop
  rw [Follows, step_store (by rw [hcode]; rfl), Lower.store, hcode]
  simp only [Instr.field?, hoperand]
  rw [bind_run (Lower.need_run rfl), bind_run (Lower.popOperand_run hpop hs)]
  exact storeIn_tracks hdistinct h hitems hfield hdelegate hitem hstorable

theorem follows_storeField (hstruct : Naming.isStruct f.target.name = false) (h : Tracks f σ s)
    {rest : List Entity} (hcode : i.code = .stfld) (hstack : σ.stack = e :: .this :: rest)
    (hstorable : e.isStorable = true) :
    Follows f i s
      { σ with stack := rest, fields := Function.update σ.fields (place field) e } := by
  obtain ⟨item, items, hs, hitem, hitems⟩ := h.top hstack
  obtain ⟨holder, items', hholder, hitems', rfl⟩ := List.forall₂_cons_right_iff.1 hitems
  cases hholder
  rw [hcode] at hpop
  rw [Follows, step_store (by rw [hcode]; rfl), Lower.store, hcode]
  simp only [Lower.storeField, Instr.field?, hoperand]
  rw [bind_run (Lower.need_run rfl), bind_run (Lower.popPair_run hpop hs)]
  have hplain : Naming.isStruct (Item.this f.target.name).type = false := hstruct
  simp only [hplain, Bool.and_false, Bool.false_eq_true, if_false]
  exact storeIn_tracks hdistinct h hitems' hfield hdelegate hitem hstorable

end

theorem follows_dup (h : Tracks f σ s) {rest : List Entity} (hcode : i.code = .dup)
    (hstack : σ.stack = e :: rest) : Follows f i s { σ with stack := e :: e :: rest } := by
  obtain ⟨item, items, hs, hitem, hitems⟩ := h.top hstack
  refine ⟨[], { s with stack := item :: item :: items }, ?_,
    h.restack (.cons hitem (.cons hitem hitems))⟩
  rw [step_stack (by rw [hcode]; rfl), Lower.shuffle, hcode]
  have hrequire : Lower.require f i 1 s = .ok () s := by
    rw [Lower.require, get_bind, if_neg (by simp [hs])]
    rfl
  refine (bind_run hrequire).trans ?_
  show EStateM.Result.ok [] { s with stack := s.stack.take 1 ++ s.stack } = _
  rw [hs]
  rfl

theorem follows_pop (h : Tracks f σ s) (hpop : i.pop = i.code.defaultPop) {rest : List Entity}
    (hcode : i.code = .pop) (hstack : σ.stack = e :: rest) :
    Follows f i s { σ with stack := rest } := by
  obtain ⟨item, items, hs, _, hitems⟩ := h.top hstack
  rw [hcode] at hpop
  refine ⟨[], { s with stack := items }, ?_, h.restack hitems⟩
  rw [step_stack (by rw [hcode]; rfl), Lower.shuffle, hcode]
  exact bind_run (Lower.popOperand_run hpop hs)

theorem stageAll_present {items : List Item} (h : ∀ item ∈ items, item.isPresent = true)
    (s : Simulation) : ∃ values, Lower.stageAll items s = .ok ([], values) s := by
  induction items with
  | nil => exact ⟨[], rfl⟩
  | cons item items ih =>
    obtain ⟨hitem, hitems⟩ := List.forall_mem_cons.1 h
    obtain ⟨value, hstage⟩ := stage_present hitem s
    obtain ⟨values, hstageAll⟩ := ih hitems
    exact ⟨value :: values, (bind_run hstage).trans (bind_run hstageAll)⟩

theorem typeName_nothing {t : TypeRef} (h : isNothing t = true) : Naming.typeName t = "None" := by
  simp only [isNothing, Bool.and_eq_true, Bool.not_eq_true'] at h
  obtain ⟨harray, hname⟩ := h
  have hprimitive : Naming.primitive? t.scope t.name = some "None" := by
    rw [Naming.primitive?]
    simp only [hname, if_true]
  simp only [Naming.typeName, hprimitive, harray, Bool.false_eq_true, if_false]

theorem declareNone_run (s : Simulation) :
    ∃ declared, Lower.declareNone s =
      .ok Lower.noneVariable { s with «variables» := declared } := by
  by_cases hany : (s.variables.any fun v => v.name == Lower.noneVariable.name) = true
  · refine ⟨s.variables, ?_⟩
    show EStateM.Result.ok _ (if _ then _ else _) = _
    rw [if_pos hany]
  · refine ⟨s.variables ++ [Lower.noneVariable.declaration], ?_⟩
    show EStateM.Result.ok _ (if _ then _ else _) = _
    rw [if_neg hany]

/-- A result that is not wanted goes to the variable for such. -/
theorem produce_nothing (make : Value → Instruction) (s : Simulation) :
    ∃ declared, Lower.produce f "None" [] make s =
      .ok [make (.reference "::nonevar")] { s with «variables» := declared } := by
  have hname : Text.sameName "None" "none" = true := by
    rw [Text.sameName_iff]
    simp
  obtain ⟨declared, hdeclare⟩ := declareNone_run s
  refine ⟨declared, ?_⟩
  have hdestination : Lower.destination f "None" s =
      .ok (.discard Lower.noneVariable) { s with «variables» := declared } := by
    rw [Lower.destination, if_pos hname, bind_run hdeclare]
    rfl
  rw [Lower.produce, bind_run hdestination]
  rfl

theorem callBody_invoke {callee : MethodRef} (hinvokes : Invokes f.program i callee)
    (items : List Item) (receiver : Lower.Receiver) :
    Lower.callBody f callee ((f.program.method? callee).map Prod.snd) items receiver =
      Lower.plainCall f callee items receiver := by
  have hconstructor : Text.contains ".ctor" "Invoke" = false := by decide +kernel
  have hconcat : Text.contains "concat" "Invoke".toLower = false := by decide +kernel
  have haccessor : Naming.accessor? "Invoke" = none := by decide +kernel
  have hordinary : ((f.program.method? callee).map Prod.snd).any MethodDecl.isConstructor =
      false := by
    cases hmethod : f.program.method? callee with
    | none => rfl
    | some declared => exact hinvokes.ordinary declared hmethod
  rw [Lower.callBody, MethodRef.isConstructorName, Lower.isConcatenation, hinvokes.name,
    hconstructor, hconcat, haccessor, hordinary]
  simp

theorem instanceReceiver_run {items : Stack} {n : Nat} (hs : s.stack = item :: items)
    (hitem : item.isPresent = true) :
    ∃ receiver, Lower.instanceReceiver f i n s = .ok receiver { s with stack := items } ∧
      receiver.code = [] ∧ ∀ v, item.delegate? = some v →
        receiver.location = .self ∧ receiver.delegate = some v := by
  have hrun : Lower.instanceReceiver f i n s =
      (if item.delegate?.isSome then
        return { location := .self, delegate := item.delegate? }
      else if item.isThis then return { location := .self }
      else do
        let staged ← Lower.stage item
        return { code := staged.code, location := .object staged.value } : Lower Lower.Receiver)
        { s with stack := items } := by
    rw [Lower.instanceReceiver, get_bind, hs]
    rfl
  rw [hrun]
  cases hdelegate : item.delegate? with
  | some v =>
    refine ⟨{ location := .self, delegate := some v }, rfl, rfl, fun w hw => ?_⟩
    cases hw
    exact ⟨rfl, rfl⟩
  | none =>
    rw [if_neg (by simp)]
    by_cases hthis : item.isThis = true
    · rw [if_pos hthis]
      exact ⟨{ location := .self }, rfl, rfl, fun w hw => by cases hw⟩
    · obtain ⟨value, hstage⟩ := stage_present hitem { s with stack := items }
      rw [if_neg hthis]
      exact ⟨{ location := .object value }, bind_run hstage, rfl, fun w hw => by cases hw⟩

/-- The call of a bound method on the object whose method runs. -/
structure CallsBound (method : String) (j : Instruction) : Prop where
  opcode : j.opcode = .callMethod
  arguments : j.arguments = [.reference method, .reference "self", .reference "::nonevar"]

theorem plainCall_run {callee : MethodRef} (hreturns : isNothing callee.returns = true)
    {items : List Item} (hitems : ∀ item ∈ items, item.isPresent = true)
    (receiver : Lower.Receiver) (s : Simulation) :
    ∃ call declared, Lower.plainCall f callee items receiver s =
        .ok [call] { s with «variables» := declared } ∧
      ∀ v method, receiver.location = .self → receiver.delegate = some v →
        v.invoke = some method → CallsBound method call := by
  obtain ⟨values, hstage⟩ := stageAll_present hitems s
  obtain ⟨declared, hproduce⟩ := produce_nothing (f := f) (Lower.callInstruction receiver.location
    (Lower.calledName f callee receiver.delegate)
    (Lower.coerceArguments f callee.parameters values)) s
  rw [← typeName_nothing hreturns] at hproduce
  refine ⟨_, declared, (bind_run hstage).trans hproduce, ?_⟩
  intro v method hlocation hdelegate hinvoke
  simp only [hlocation, hdelegate, Lower.calledName, hinvoke]
  exact ⟨rfl, rfl⟩

/-- What is passed to a call, and what it is called on. -/
theorem Tracks.passes (h : Tracks f σ s) {callee : MethodRef} {rest : List Entity}
    (hpasses : Passes callee σ.stack e rest) :
    callee.parameters.length ≤ s.stack.length ∧
      (∀ item ∈ (s.stack.take callee.parameters.length).reverse, item.isPresent = true) ∧
      ∃ item items, s.stack.drop callee.parameters.length = item :: items ∧
        item.StandsFor f.target.name e ∧
        List.Forall₂ (Item.StandsFor f.target.name) items rest := by
  have hreceiver := List.forall₂_drop callee.parameters.length h.stack
  rw [hpasses.receiver] at hreceiver
  obtain ⟨item, items, hitem, hrest, hs⟩ := List.forall₂_cons_right_iff.1 hreceiver
  have harguments := List.forall₂_take callee.parameters.length h.stack
  rw [hpasses.literals] at harguments
  refine ⟨?_, fun item hmem => ?_, item, items, hs, hitem, hrest⟩
  · by_contra hlt
    rw [List.drop_of_length_le (by omega)] at hs
    cases hs
  · refine forall_isPresent harguments (fun e he => ?_) item (List.mem_reverse.1 hmem)
    rw [List.eq_of_mem_replicate he]
    rfl

/-- One instruction is emitted for a call of a delegate. If the delegate is known to be bound, the
instruction calls the method it is bound to. -/
theorem call_invoke (h : Tracks f σ s) (hpop : i.pop = i.code.defaultPop) {callee : MethodRef}
    (hinvokes : Invokes f.program i callee) {rest : List Entity}
    (hpasses : Passes callee σ.stack e rest) (he : e.isCallable = true) :
    ∃ call items declared, Lower.step f i s =
        .ok [call] { s with stack := items, «variables» := declared } ∧
      List.Forall₂ (Item.StandsFor f.target.name) items rest ∧
      ∀ method, e = .bound method → CallsBound method call := by
  obtain ⟨hle, hpresent, item, items, hs, hitem, hrest⟩ := h.passes hpasses
  have hcategory : i.code.category = .call := by
    obtain hcode | hcode := hinvokes.code <;> rw [hcode] <;> rfl
  have hcount : i.pop.count callee.parameters.length s.stack.length =
      callee.parameters.length := by
    rw [hpop, Lower.defaultPop_of_call hcategory]
    rfl
  have honObject : (callee.convention = .thisCall || callee.hasThis) = true := by
    obtain hconvention | hthis := hinvokes.onObject
    · simp [hconvention]
    · simp [hthis]
  obtain ⟨receiver, hrun, hcode, hlocation⟩ := instanceReceiver_run (f := f) (i := i)
    (n := callee.parameters.length)
    (s := { s with stack := s.stack.drop callee.parameters.length }) hs
    (hitem.isPresent (isPointer_of_isStorable (isStorable_of_isCallable he)))
  obtain ⟨call, declared, hcall, hbound⟩ := plainCall_run (f := f) hinvokes.returns hpresent
    receiver { s with stack := items }
  refine ⟨call, items, declared, ?_, hrest, ?_⟩
  · simp only [Lower.step, hcategory, Lower.call, Instr.method?, hinvokes.operand]
    rw [bind_run (Lower.need_run rfl), get_bind, hcount, bind_run (Lower.popMany_run hle)]
    simp only [honObject, if_true]
    rw [bind_run hrun, callBody_invoke hinvokes, bind_run hcall, hcode]
    rfl
  · rintro method rfl
    obtain ⟨v, hv, hinvoke⟩ := hitem
    obtain ⟨hself, hdelegate⟩ := hlocation v hv
    exact hbound v method hself hdelegate hinvoke

theorem follows_invoke (h : Tracks f σ s) (hpop : i.pop = i.code.defaultPop) {callee : MethodRef}
    (hinvokes : Invokes f.program i callee) {rest : List Entity}
    (hpasses : Passes callee σ.stack e rest) (he : e.isCallable = true)
    {fields : TypeRef × String → Entity}
    (hfields : ∀ p, fields p = σ.fields p ∨ fields p = .unknown) :
    Follows f i s { σ with stack := rest, fields } := by
  obtain ⟨call, items, declared, hrun, hrest, _⟩ := call_invoke h hpop hinvokes hpasses he
  refine ⟨_, _, hrun, hrest, h.locals, fun field hfield => ?_, h.skipNext, h.skipTo, h.joins⟩
  obtain heq | heq := hfields (place field)
  · dsimp only
    rw [heq]
    exact h.fields field hfield
  · dsimp only
    rw [heq]
    exact remembers_unknown _

/-- An instruction is visited at once: nothing has been taken care of, and nothing flows to it from
elsewhere. -/
theorem Tracks.visit_run (h : Tracks f σ s) {code : List Instruction}
    (hrun : Lower.step f i s = .ok code t) (policy : Policy) (line : UInt16) :
    Lower.visit f policy line i s = .ok (some { offset := i.offset, line, code }) t := by
  have hsame : { s with skipTo := none } = s := by rw [← h.skipTo]
  have henter : Lower.enter f i.offset s = .ok [] s := by
    rw [Lower.enter, get_bind, h.joins]
    rfl
  have htolerate : Lower.tolerate policy i (Lower.step f i) s = .ok code t := by
    rw [Lower.tolerate, hrun]
  rw [Lower.visit, get_bind, if_neg (by simp [h.skipNext]), if_neg (by simp [h.skipTo]), hsame]
  exact (bind_run (show (set s : Lower PUnit) s = .ok () s from rfl)).trans
    ((bind_run henter).trans (bind_run htolerate))

section

variable (hstruct : Naming.isStruct f.target.name = false)
  (hdistinct : DistinctFields f.method)

include hstruct hdistinct

/-- One step of the machine is followed by the simulation. -/
theorem follows_step (h : Tracks f σ s) (hi : i ∈ f.method.body) (hpop : i.pop = i.code.defaultPop)
    (hstep : Delegates.Step f.program f.method i σ σ') : Follows f i s σ' := by
  have hoperands {field : FieldRef} (hoperand : i.operand = .field field) :
      field ∈ f.method.fieldOperands :=
    List.mem_filterMap.2 ⟨i, hi, by simp [Instr.field?, hoperand]⟩
  cases hstep with
  | this hcode hoperand hinstance => exact follows_this h hcode hoperand hinstance
  | argument hcode hoperand hstatic hparameter =>
    exact follows_argument h hcode hoperand hstatic hparameter
  | literal hcode => exact follows_literal h hcode
  | pointer hcode hoperand => exact follows_pointer h hcode hoperand
  | construct receiver hcode hoperand hdelegate hparameters hstack hreceiver =>
    exact follows_construct h hpop hcode hoperand hdelegate hparameters hstack hreceiver
  | loadLocal hcode hoperand hlocal hdelegate =>
    exact follows_loadLocal h hcode hoperand hlocal hdelegate
  | storeLocal hcode hoperand hlocal hdelegate hstack hstorable =>
    exact follows_storeLocal h hpop hcode hoperand hlocal hdelegate hstack hstorable
  | loadStatic hcode hoperand hdelegate =>
    exact follows_loadStatic hoperand hdelegate (hoperands hoperand) h hcode
  | storeStatic hcode hoperand hdelegate hstack hstorable =>
    exact follows_storeStatic hoperand hdelegate (hoperands hoperand) hdistinct hpop h hcode hstack
      hstorable
  | loadField hcode hoperand hdelegate hstack =>
    exact follows_loadField hoperand hdelegate (hoperands hoperand) hstruct h hpop hcode hstack
  | storeField hcode hoperand hdelegate hstack hstorable =>
    exact follows_storeField hoperand hdelegate (hoperands hoperand) hdistinct hpop hstruct h hcode
      hstack hstorable
  | dup hcode hstack => exact follows_dup h hcode hstack
  | pop hcode hstack => exact follows_pop h hpop hcode hstack
  | invoke hinvokes hpasses hreceiver hfields =>
    exact follows_invoke h hpop hinvokes hpasses hreceiver hfields

/-- A run of the machine is followed by the simulation. -/
theorem visitAll_tracks {instrs : List Instr}
    (hruns : Delegates.Runs f.program f.method instrs σ σ')
    (hbody : ∀ i ∈ instrs, i ∈ f.method.body) (h : Tracks f σ s) (policy : Policy)
    (position : Nat) (line : UInt16) :
    ∃ segments t, Lower.visitAll f policy position line instrs s = .ok segments t ∧
      Tracks f σ' t := by
  induction hruns generalizing s position line with
  | nil σ => exact ⟨[], s, rfl, h⟩
  | @cons i rest σ σ₁ σ₂ hpop hstep _ ih =>
    obtain ⟨hi, hrest⟩ := List.forall_mem_cons.1 hbody
    have hhere := h.moveTo position
    obtain ⟨code, s₁, hrun, hfollows⟩ :=
      follows_step (f := { f with position }) hstruct hdistinct hhere hi hpop hstep
    obtain ⟨segments, t, hrun', htracks⟩ :=
      ih hrest (hfollows.moveTo f.position) (position + 1) (i.line.getD line)
    have hvisit := hhere.visit_run hrun policy (i.line.getD line)
    exact ⟨_, t, (bind_run hvisit).trans (bind_run hrun'), htracks⟩

end

theorem isStruct_target {options : Options} {program : Source.Module} {t : TypeDecl}
    (h : '#' ∉ t.name.toList) :
    Naming.isStruct (options.setting program t).target.name = false := by
  have hprimitive : ∀ name, Naming.primitive? t.scope t.name = some name → '#' ∉ name.toList := by
    intro name hname
    simp only [Naming.primitive?] at hname
    split_ifs at hname <;> cases hname <;> simp
  have hplain : '#' ∉ (Naming.typeName t.reference).toList := by
    cases hname : Naming.primitive? t.scope t.name with
    | none => simpa [Naming.typeName, TypeDecl.reference, hname] using h
    | some name => simpa [Naming.typeName, TypeDecl.reference, hname] using hprimitive name hname
  simpa [Naming.isStruct, Options.setting, declareType] using hplain

theorem CallsBound.placed {method : String} {j : Instruction} (h : CallsBound method j)
    (owner : String) (land : UInt32 → Nat) (k : Nat) :
    CallsBound method (Lowering.placed owner land k j) where
  opcode := (placed_opcode owner land k j).trans h.opcode
  arguments := by
    rw [Lowering.placed, Instruction.withDelta_of_distance?_eq_none, ← h.arguments]
    simp only [Instruction.distance?, h.opcode, Opcode.jumpArgument?]
    split <;> rfl

/-- What is lowered for an instruction, once the simulation has followed the machine to it. -/
theorem exists_tracks {setting : Setting} {m : MethodDecl}
    (hstruct : Naming.isStruct setting.target.name = false) (hdistinct : DistinctFields m)
    {segments : List Segment} {t : Simulation}
    (h : Lower.visitAll (setting.frame m) setting.policy 0 0 m.body
      (.start m setting.owner.delegateBindings) = .ok segments t) {q : Nat} {i : Instr}
    (hi : m.body[q]? = some i)
    (hruns : Delegates.Runs setting.program m (m.body.take q) {} σ) :
    ∃ s line segment t', Tracks { setting.frame m with position := q } σ s ∧
      segments[q]? = some segment ∧
      Lower.visit { setting.frame m with position := q } setting.policy line i s =
        .ok (some segment) t' := by
  obtain ⟨s, hfront, hnext⟩ := Lower.visitAll_take (Lower.awaits_start m _) h q
  obtain ⟨line, segment, t', hsegment, hvisit⟩ := hnext i hi
  obtain ⟨_, s', hrun, htracks⟩ := visitAll_tracks (f := setting.frame m) hstruct hdistinct hruns
    (fun _ hmem => List.mem_of_mem_take hmem) (tracks_start _ setting.owner.delegateBindings)
    setting.policy 0 0
  -- both are the run over what comes before the instruction
  cases hfront.symm.trans hrun
  exact ⟨s, line, segment, t', htracks.moveTo q, hsegment, hvisit⟩

/-- A method over which the machine runs up to its last instruction, where it returns, is always
lowered. -/
theorem exists_lowered {setting : Setting} {m : MethodDecl}
    (hstruct : Naming.isStruct setting.target.name = false) (hdistinct : DistinctFields m)
    (hreturns : m.returns.isVoid = true) {front : List Instr} {last : Instr}
    (hbody : m.body = front ++ [last]) (hlast : last.code = .ret)
    (hruns : Delegates.Runs setting.program m front {} σ) :
    ∃ result, lowerMethod setting m = .ok result := by
  obtain ⟨segments, s, hfront, htracks⟩ := visitAll_tracks (f := setting.frame m) hstruct hdistinct
    hruns (fun _ hi => hbody ▸ List.mem_append_left _ hi)
    (tracks_start _ setting.owner.delegateBindings) setting.policy 0 0
  obtain ⟨line, hrun⟩ := Lower.visitAll_append_run hfront [last]
  have hvisit := (htracks.moveTo (0 + front.length)).visit_run (step_ret hlast hreturns)
    setting.policy (last.line.getD line)
  rw [Lower.visitAll, bind_assoc, bind_run hvisit, ← hbody] at hrun
  rw [lowerMethod]
  split
  · exact ⟨_, rfl⟩
  · rw [lowerCode, show Lower.visitAll (setting.frame m) setting.policy 0 0 m.body
      (.start m setting.owner.delegateBindings) = _ from hrun]
    exact ⟨_, rfl⟩

def action : TypeRef := .delegate "System" "Action"

def makeAction (method : String) (offset : UInt32) : List Instr :=
  [{ offset, code := .ldarg, operand := .index 0 },
   { offset := offset + 1, code := .ldftn, operand := .method { name := method } },
   { offset := offset + 2, code := .newobj
     operand := .method { owner := action, name := ".ctor"
                          parameters := [⟨"object", .object⟩, ⟨"method", {}⟩] } }]

def onPress : FieldRef := { owner := { name := "Button" }, name := "OnPress", type := action }

def invoke : MethodRef :=
  { owner := action, name := "Invoke", parameters := [⟨"n", .int32⟩], hasThis := true }

def invokeAction : Instr := { offset := 14, code := .callvirt, operand := .method invoke }

def beforeInvoke : List Instr :=
  makeAction "First" 0 ++ [{ offset := 3, code := .stloc, operand := .index 0 }] ++
    [{ offset := 4, code := .ldarg, operand := .index 0 }] ++ makeAction "Second" 5 ++
    [{ offset := 8, code := .stfld, operand := .field onPress },
     { offset := 9, code := .ldarg, operand := .index 0 },
     { offset := 10, code := .ldfld, operand := .field onPress },
     { offset := 11, code := .stloc, operand := .index 0 },
     { offset := 12, code := .ldloc, operand := .index 0 },
     { offset := 13, code := .ldcI4, operand := .int 5 }]

def press : MethodDecl :=
  { name := "Press"
    locals := [{ name := some "d", type := action }]
    body := beforeInvoke ++ [invokeAction, { offset := 15, code := .ret }] }

def button : TypeDecl := { name := "Button", methods := [press] }

theorem runs_press : ∃ σ, Delegates.Runs {} press beforeInvoke {} σ ∧
    σ.stack = [.literal, .bound "Second"] := by
  refine ⟨_, .cons rfl (.this rfl rfl rfl) <| .cons rfl (.pointer rfl rfl) <|
    .cons rfl (.construct (some .this) rfl rfl rfl rfl rfl (by simp [Entity.isPointer])) <|
    .cons rfl (.storeLocal rfl rfl rfl rfl rfl rfl) <|
    .cons rfl (.this rfl rfl rfl) <| .cons rfl (.this rfl rfl rfl) <|
    .cons rfl (.pointer rfl rfl) <|
    .cons rfl (.construct (some .this) rfl rfl rfl rfl rfl (by simp [Entity.isPointer])) <|
    .cons rfl (.storeField rfl rfl rfl rfl rfl) <|
    .cons rfl (.this rfl rfl rfl) <| .cons rfl (.loadField rfl rfl rfl rfl) <|
    .cons rfl (.storeLocal rfl rfl rfl rfl rfl rfl) <|
    .cons rfl (.loadLocal rfl rfl rfl rfl) <| .cons rfl (.literal (by decide)) <| .nil _, ?_⟩
  rfl

theorem invokes_action : Invokes {} invokeAction invoke where
  code := .inr rfl
  operand := rfl
  name := rfl
  onObject := .inr rfl
  returns := by decide
  ordinary _ h := by cases h

end PapyrusBackend.Lowering
