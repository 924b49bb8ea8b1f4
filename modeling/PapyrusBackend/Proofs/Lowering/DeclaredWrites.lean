import PapyrusBackend.Proofs.Lowering.GeneratedNames
import PapyrusBackend.Proofs.Lowering.SuppliedMethod

namespace PapyrusBackend

namespace Source

def TypeDecl.DeclaresField (t : TypeDecl) (field : FieldRef) : Prop :=
  ∃ d ∈ t.fields, d.name = field.name ∧ d.type = field.type

instance (t : TypeDecl) (field : FieldRef) : Decidable (t.DeclaresField field) :=
  inferInstanceAs (Decidable (∃ d ∈ t.fields, d.name = field.name ∧ d.type = field.type))

def FieldRef.isMember (field : FieldRef) : Bool := Naming.isStruct (Naming.typeName field.owner)

end Source

namespace Lowering

open Source

/-- A variable that code assigns although nothing declares it. -/
inductive Slips (setting : Setting) (m : MethodDecl) : String → Prop
  | this {store : Instr} {stack : Stack} (h : Meets setting m store stack)
      (hcode : store.code = .starg) (hindex : store.index? = some 0)
      (hstatic : m.isStatic = false) : Slips setting m "self"
  | delegate {store : Instr} {stack : Stack} {field : FieldRef} (h : Meets setting m store stack)
      (hwrites : WritesField store field stack) (htype : field.type.isDelegate = true) :
      Slips setting m (Naming.fieldName field.name)
  | member {store : Instr} {stack : Stack} {field : FieldRef} (h : Meets setting m store stack)
      (hwrites : WritesField store field stack) (hmember : field.isMember = true) :
      Slips setting m (Naming.fieldName field.name)

theorem vocabulary_true (f : Frame) : Vocabulary (fun _ => True) f where
  empty := trivial
  this := trivial
  parameters _ _ := trivial
  body _ _ := ⟨fun _ _ => ⟨trivial, trivial⟩, fun _ _ => ⟨trivial, trivial, trivial⟩⟩
  properties _ _ := trivial
  coerce _ _ _ _ := .inr trivial

/-- A field that is no delegate gets a variable of its name. -/
theorem mem_fields_declareType (options : Options) {t : TypeDecl} {d : FieldDecl}
    (hd : d ∈ t.fields) (htype : d.type.isDelegate = false) :
    Naming.fieldName d.name ∈ (declareType options t).fields.map Field.name := by
  refine List.mem_map.2 ⟨declareField options (Naming.fieldName d.name) d, ?_, rfl⟩
  refine List.mem_map.2 ⟨d, List.mem_filter.2 ⟨hd, ?_⟩, rfl⟩
  rw [htype]
  rfl

/-- What a store writes is a parameter or a declared field, or else it slips. -/
theorem WritesAt.declared_or_slips (options : Options) {program : Source.Module} {t : TypeDecl}
    {m : MethodDecl}
    (hfields : ∀ field ∈ m.fieldOperands, t.DeclaresField field ∨ field.isMember = true)
    {name : String} (h : WritesAt (options.setting program t) m name) :
    name ∈ m.parameters.map Parameter.name ∨
      name ∈ (declareType options t).fields.map Field.name ∨
      Slips (options.setting program t) m name := by
  obtain ⟨store, stack, hmeets, hwrites⟩ := h
  cases hwrites with
  | argument hcode hindex hv =>
    obtain hv | ⟨hself, hstatic, rfl⟩ := argumentVariable?_cases hv
    · obtain ⟨p, hp, rfl⟩ := List.mem_map.1 hv
      exact .inl (List.mem_map_of_mem hp)
    · exact .inr (.inr (hself ▸ .this hmeets hcode hindex hstatic))
  | @field field hwrites =>
    cases htype : field.type.isDelegate with
    | true => exact .inr (.inr (.delegate hmeets hwrites htype))
    | false =>
      obtain ⟨d, hd, hname, hsame⟩ | hmember :=
        hfields field (hmeets.fieldOperand hwrites.operand)
      · rw [← hname]
        exact .inr (.inl (mem_fields_declareType options hd (hsame ▸ htype)))
      · exact .inr (.inr (.member hmeets hwrites hmember))

/-- If the fields that a method refers to are those of its type, or members of structs, then its code
assigns nothing that is not declared, unless it slips. -/
theorem assigned_declared_or_slips (options : Options) (program : Source.Module) {t : TypeDecl}
    {m : MethodDecl} {result : LoweredMethod}
    (hfields : ∀ field ∈ m.fieldOperands, t.DeclaresField field ∨ field.isMember = true)
    (h : lowerMethod (options.setting program t) m = .ok result) :
    ∀ i ∈ result.method.body.instructions, ∀ name ∈ i.assigned,
      name ∈ result.method.body.variables.map TypedName.name ∨
        name ∈ m.parameters.map Parameter.name ∨
        name ∈ (declareType options t).fields.map Field.name ∨
        Slips (options.setting program t) m name := by
  intro i hi name hname
  have hsupplied := lowerMethod_suppliedBody h (vocabulary_true _) (fun _ _ => trivial)
    fun _ _ => trivial
  obtain hdeclared | hwritten := hsupplied.assigned i hi name hname
  · exact .inl hdeclared
  · exact .inr (hwritten.declared_or_slips options hfields)

def onDone : FieldRef :=
  { owner := { name := "Worker" }, name := "OnDone", type := .delegate "System" "Action"
    isStatic := true }

def count : FieldRef :=
  { owner := { name := "Worker" }, name := "count", type := .int32, isStatic := true }

def worker : TypeDecl :=
  { name := "Worker"
    fields := [
      { name := "OnDone", type := onDone.type, isStatic := true },
      { name := "count", type := .int32, isStatic := true }] }

def tally : MethodDecl :=
  let pair : TypeRef := .nestedStruct "Worker" "Pair"
  { name := "Tally"
    parameters := [{ name := "pair", type := pair }]
    isStatic := true
    body := [
      { offset := 0, code := .ldsfld, operand := .field count },
      { offset := 1, code := .ldcI4, operand := .int 1 },
      { offset := 2, code := .add },
      { offset := 3, code := .stsfld, operand := .field count },
      { offset := 4, code := .ldarg, operand := .index 0 },
      { offset := 5, code := .ldsfld, operand := .field count },
      { offset := 6, code := .stfld
        operand := .field { owner := pair, name := "x", type := .int32 } },
      { offset := 7, code := .ret }] }

theorem lowered_tally :
    ∃ result, lowerMethod (Options.setting { policy := .strict } {} worker) tally = .ok result ∧
      result.method.body.instructions.map (fun i => (i.opcode, i.arguments)) =
        [(.iadd, [.reference "::count", .reference "::count", .int 1]),
          (.structSet, [.reference "pair", .reference "x", .reference "::count"]),
          (.ret, [.none])] :=
  exists_ok_of_toOption (by decide +kernel)

theorem assigned_declared_or_slips_tally :
    (∀ field ∈ tally.fieldOperands, worker.DeclaresField field ∨ field.isMember = true) ∧
      ∃ result, lowerMethod (Options.setting { policy := .strict } {} worker) tally = .ok result ∧
        ∀ i ∈ result.method.body.instructions, ∀ name ∈ i.assigned,
          name ∈ result.method.body.variables.map TypedName.name ∨
            name ∈ tally.parameters.map Parameter.name ∨
            name ∈ (declareType { policy := .strict } worker).fields.map Field.name ∨
            Slips (Options.setting { policy := .strict } {} worker) tally name := by
  have hfields : ∀ field ∈ tally.fieldOperands,
      worker.DeclaresField field ∨ field.isMember = true := by
    decide
  obtain ⟨result, h, _⟩ := lowered_tally
  exact ⟨hfields, result, h, assigned_declared_or_slips _ _ hfields h⟩

def forget : MethodDecl :=
  { name := "Forget"
    isStatic := true
    body := [
      { offset := 0, code := .ldnull },
      { offset := 1, code := .stsfld, operand := .field onDone },
      { offset := 2, code := .ret }] }

/-- None is no delegate, so that it is written to the field, which neither the body nor the type
declares. -/
theorem assigns_undeclared_field :
    (∀ field ∈ forget.fieldOperands, worker.DeclaresField field) ∧
      ∃ result, lowerMethod (Options.setting { policy := .strict } {} worker) forget = .ok result ∧
        ∃ i ∈ result.method.body.instructions, ∃ name ∈ i.assigned,
          name ∉ result.method.body.variables.map TypedName.name ∧
            name ∉ forget.parameters.map Parameter.name ∧
            name ∉ (declareType { policy := .strict } worker).fields.map Field.name := by
  refine ⟨by decide, ?_⟩
  obtain ⟨result, h, hbody⟩ : ∃ result,
      lowerMethod (Options.setting { policy := .strict } {} worker) forget = .ok result ∧
        (result.method.body.variables, result.method.body.instructions.map Instruction.assigned) =
          ([], [["::OnDone"], []]) :=
    exists_ok_of_toOption (by decide +kernel)
  obtain ⟨hvariables, hcode⟩ := Prod.mk.inj hbody
  have hassigned : ["::OnDone"] ∈ result.method.body.instructions.map Instruction.assigned := by
    rw [hcode]
    exact List.mem_cons_self
  obtain ⟨i, hi, hname⟩ := List.mem_map.1 hassigned
  refine ⟨result, h, i, hi, "::OnDone", hname ▸ List.mem_cons_self, ?_⟩
  rw [hvariables]
  decide

end Lowering

end PapyrusBackend
