import PapyrusBackend.Proofs.Lowering.GeneratedNames
import PapyrusBackend.Proofs.Lowering.SuppliedMethod

namespace PapyrusBackend

open Source

namespace Text

theorem occurs_iff {needle cs : List Char} : occurs needle cs = true ↔ needle <:+: cs := by
  induction cs with
  | nil => rw [occurs, List.isEmpty_iff, List.infix_nil]
  | cons c cs ih => rw [occurs, Bool.or_eq_true, List.isPrefixOf_iff_prefix, ih, List.infix_cons_iff]

theorem charsBefore_prefix (mark cs : List Char) : charsBefore mark cs <+: cs := by
  induction cs with
  | nil => exact List.prefix_rfl
  | cons c cs ih =>
    rw [charsBefore]
    split
    · exact List.nil_prefix
    · exact List.cons_prefix_cons.2 ⟨rfl, ih⟩

theorem afterLast_suffix (p : Char → Bool) (s : String) : (afterLast p s).toList <:+ s.toList := by
  rw [afterLast, String.toList_ofList]
  exact List.reverse_prefix.1 (by rw [List.reverse_reverse]; exact List.takeWhile_prefix _)

end Text

theorem Naming.location_infix (qualified : String) :
    (location qualified).toList <:+: qualified.toList := by
  refine (Text.afterLast_suffix _ _).isInfix.trans ?_
  rw [Text.before, String.toList_ofList]
  exact (Text.charsBefore_prefix _ _).isInfix

theorem Naming.mem_of_primitive? {scope name type : String} (h : primitive? scope name = some type) :
    type ∈ ["None", "Bool", "Int", "Float", "String"] := by
  unfold primitive? at h
  dsimp only at h
  split_ifs at h
  all_goals
    cases h
    simp

/-- Names of types that are neither primitive nor the simple ones show by a mark. -/
theorem Naming.typeName_cases (t : TypeRef) :
    typeName t ∈ ["None", "Bool", "Int", "Float", "String"] ∨ typeName t = t.name ∨
      '#' ∈ (typeName t).toList ∨ '[' ∈ (typeName t).toList := by
  by_cases harray : t.isArray = true
  · refine .inr (.inr (.inr ?_))
    rw [typeName, if_pos harray, String.toList_append]
    exact List.mem_append_right _ (by simp)
  · rw [typeName, if_neg harray]
    cases hprimitive : primitive? t.scope t.name with
    | some base => exact .inl (mem_of_primitive? hprimitive)
    | none =>
      refine .inr ?_
      dsimp only
      split
      · split
        · refine .inr (.inl ?_)
          rw [String.toList_append, String.toList_append]
          exact List.mem_append_left _ (List.mem_append_right _ (by simp))
        · exact .inl rfl
      · exact .inl rfl

namespace Source

def Operand.names : Operand → List String
  | .field f => [f.name]
  | .method m => [m.name, m.owner.name]
  | _ => []

def MethodDecl.names (m : MethodDecl) : List String :=
  m.parameters.map Parameter.name ++ m.locals.filterMap Local.name ++
    m.body.flatMap fun i => i.operand.names

def TypeDecl.names (t : TypeDecl) : List String :=
  t.properties.map PropertyDecl.name ++ t.methods.flatMap MethodDecl.names

def TypeDecl.fieldOperands (t : TypeDecl) : List FieldRef :=
  t.methods.flatMap MethodDecl.fieldOperands

end Source

namespace Lowering

structure AvoidsGenerated (t : TypeDecl) : Prop where
  names : ∀ name ∈ t.names, Text.contains "::temp" name = false ∧ name ≠ Lower.noneVariable.name
  fields : ∀ field ∈ t.fieldOperands, ¬"temp".toList <+: field.name.toList

def NotTemporary (name : String) : Prop := ∀ k, name ≠ Lower.temporaryName k

theorem infix_temporaryName (k : Nat) : "::temp".toList <:+: (Lower.temporaryName k).toList := by
  rw [toList_temporaryName]
  exact (List.prefix_append _ _).isInfix

theorem contains_temporaryName (k : Nat) :
    Text.contains "::temp" (Lower.temporaryName k) = true :=
  Text.occurs_iff.2 (infix_temporaryName k)

/-- No part of a name without the mark of temporaries is one. -/
theorem notTemporary_of_infix {name part : String} (h : Text.contains "::temp" name = false)
    (hpart : part.toList <:+: name.toList) : NotTemporary part := by
  rintro k rfl
  have hcontains : Text.contains "::temp" name = true :=
    Text.occurs_iff.2 ((infix_temporaryName k).trans hpart)
  exact absurd (hcontains.symm.trans h) (by decide)

theorem notTemporary_of_contains {name : String} (h : Text.contains "::temp" name = false) :
    NotTemporary name :=
  notTemporary_of_infix h List.infix_rfl

theorem notTemporary_of_colons {name : String} (h : ¬"::".toList <+: name.toList) :
    NotTemporary name := by
  rintro k rfl
  exact h (Scratch.starts_with_colons (.inl ⟨k, rfl⟩))

theorem notTemporary_self : NotTemporary "self" := notTemporary_of_colons (by simp)

theorem notTemporary_fieldName {name : String} (h : ¬"temp".toList <+: name.toList) :
    NotTemporary (Naming.fieldName name) := by
  intro k hk
  have hspelt : "::" ++ name = Lower.temporaryName k := (fieldName_eq_iff (.inl ⟨k, rfl⟩)).1 hk
  have hchars : "::".toList ++ name.toList = "::".toList ++ ("temp".toList ++ (toString k).toList) := by
    rw [← String.toList_append, hspelt, toList_temporaryName, ← List.append_assoc]
    congr 1
  refine h ?_
  rw [List.append_cancel_left hchars]
  exact List.prefix_append _ _

theorem notTemporary_typeName {type : TypeRef} (h : Text.contains "::temp" type.name = false) :
    NotTemporary (Naming.typeName type) := by
  obtain hbase | hname | hmark := Naming.typeName_cases type
  · refine notTemporary_of_colons ?_
    generalize Naming.typeName type = base at hbase
    revert base
    simp
  · rw [hname]
    exact notTemporary_of_contains h
  · intro k hk
    have hscratch : Scratch (Naming.typeName type) := .inl ⟨k, hk⟩
    obtain hmark | hmark := hmark
    · exact (hscratch.ne_mark hmark).2.2.2.1 rfl
    · exact (hscratch.ne_mark hmark).2.2.2.2 rfl

theorem notTemporary_staticLocation {callee : MethodRef}
    (hname : Text.contains "::temp" callee.name = false)
    (howner : Text.contains "::temp" callee.owner.name = false) :
    NotTemporary (Lower.staticLocation callee) := by
  rw [Lower.staticLocation]
  split
  · next hempty =>
    rw [MethodRef.qualifiedName, if_pos hempty]
    exact notTemporary_of_infix hname (Naming.location_infix _)
  · exact notTemporary_typeName howner

theorem notTemporary_accessed {name : String} (h : Text.contains "::temp" name = false) :
    NotTemporary (Naming.accessed name) := by
  refine notTemporary_of_infix h ?_
  rw [Naming.accessed, String.toList_ofList]
  exact (List.drop_suffix _ _).isInfix

theorem contains_localName {k : Nat} {name : Option String}
    (h : ∀ spelt ∈ name, Text.contains "::temp" spelt = false) :
    Text.contains "::temp" (Naming.localName k name) = false := by
  have hplace : Text.contains "::temp" ("V_" ++ toString k) = false := by
    refine Bool.eq_false_iff.2 fun hcontains => ?_
    have hcolon : ':' ∈ ("V_" ++ toString k).toList :=
      (Text.occurs_iff.1 hcontains).subset (by simp)
    rw [String.toList_append, List.mem_append] at hcolon
    obtain hcolon | hcolon := hcolon
    · simp at hcolon
    · exact absurd (isDigit_of_mem_toString hcolon) (by decide)
  unfold Naming.localName
  split
  · split
    · exact hplace
    · exact h _ rfl
  · exact hplace

theorem operandNames_coerce (type : String) (value : Value) :
    operandNames (value.coerce type) = operandNames value := by
  unfold Value.coerce
  dsimp only
  split_ifs
  · cases value <;> rfl
  · cases value with
    | string s =>
      rw [Coercion.toInt]
      split <;> rfl
    | _ => rfl
  · cases value with
    | string s =>
      rw [Coercion.toFloat]
      split <;> rfl
    | _ => rfl
  · cases value <;> rfl
  · rfl

/-- Bindings lead to methods that code has loaded. -/
theorem forall_bindingsAfter {P : String → Prop} {bound : Bindings} {loaded : Option String}
    {code : List Instr} (hbound : ∀ entry ∈ bound, P entry.2) (hloaded : ∀ name ∈ loaded, P name)
    (hcode : ∀ i ∈ code, ∀ callee, i.method? = some callee → P callee.name) :
    ∀ entry ∈ TypeDecl.bindingsAfter bound loaded code, P entry.2 := by
  have hnone : ∀ name ∈ (none : Option String), P name := fun _ h => (by cases h)
  have hbind {bound : Bindings} {field name : String} (hbound : ∀ entry ∈ bound, P entry.2)
      (hname : P name) : ∀ entry ∈ bound.bind field name, P entry.2 :=
    List.forall_mem_cons.2 ⟨hname, fun entry hentry => hbound entry (List.mem_filter.1 hentry).1⟩
  induction code generalizing bound loaded with
  | nil => exact hbound
  | cons i rest ih =>
    obtain ⟨hi, hrest⟩ := List.forall_mem_cons.1 hcode
    rw [TypeDecl.bindingsAfter]
    split
    · next callee _ hoperand =>
      refine ih hbound ?_ hrest
      rintro _ ⟨⟩
      exact hi callee (by rw [Instr.method?, hoperand])
    all_goals try split
    all_goals try split
    all_goals first
      | exact ih hbound hloaded hrest
      | exact ih hbound hnone hrest
      | exact ih (hbind hbound (hloaded _ rfl)) hnone hrest

theorem forall_delegateBindings {P : String → Prop} {t : TypeDecl}
    (h : ∀ m ∈ t.methods, ∀ i ∈ m.body, ∀ callee, i.method? = some callee → P callee.name) :
    ∀ entry ∈ t.delegateBindings, P entry.2 := by
  refine List.foldlRecOn t.methods _ (motive := fun bound : Bindings => ∀ entry ∈ bound, P entry.2)
    (fun entry hentry => absurd hentry List.not_mem_nil) fun bound hbound m hm => ?_
  exact forall_bindingsAfter hbound (fun _ h => (by cases h)) (h m hm)

section

variable {t : TypeDecl} {m : MethodDecl}

theorem mem_names_of_method (hm : m ∈ t.methods) {name : String} (h : name ∈ m.names) :
    name ∈ t.names :=
  List.mem_append_right _ (List.mem_flatMap.2 ⟨m, hm, h⟩)

theorem mem_names_of_operand (hm : m ∈ t.methods) {i : Instr} (hi : i ∈ m.body) {name : String}
    (h : name ∈ i.operand.names) : name ∈ t.names :=
  mem_names_of_method hm (List.mem_append_right _ (List.mem_flatMap.2 ⟨i, hi, h⟩))

namespace AvoidsGenerated

variable (h : AvoidsGenerated t) (hm : m ∈ t.methods)

include h hm

theorem parameter {p : Parameter} (hp : p ∈ m.parameters) :
    Text.contains "::temp" p.name = false := by
  refine (h.names p.name (mem_names_of_method hm ?_)).1
  exact List.mem_append_left _ (List.mem_append_left _ (List.mem_map_of_mem hp))

theorem «local» {v : Variable} (hv : v ∈ localVariables m) :
    Text.contains "::temp" v.name = false ∧ v.name ≠ Lower.noneVariable.name := by
  obtain ⟨k, hk, rfl⟩ := List.mem_mapIdx.1 hv
  have hspelt : ∀ spelt ∈ m.locals[k].name, spelt ∈ t.names := by
    intro spelt hspelt
    refine mem_names_of_method hm (List.mem_append_left _ (List.mem_append_right _ ?_))
    exact List.mem_filterMap.2 ⟨_, List.getElem_mem hk, hspelt⟩
  constructor
  · exact contains_localName fun spelt hname => (h.names spelt (hspelt spelt hname)).1
  · intro hname
    have hsome := (localName_eq_iff (.inr rfl)).1 hname
    exact (h.names _ (hspelt _ hsome)).2 rfl

theorem callee {i : Instr} (hi : i ∈ m.body) {callee : MethodRef}
    (hcallee : i.method? = some callee) :
    Text.contains "::temp" callee.name = false ∧
      Text.contains "::temp" callee.owner.name = false := by
  have hoperand : i.operand.names = [callee.name, callee.owner.name] := by
    unfold Instr.method? at hcallee
    split at hcallee
    · next hoperand =>
      cases hcallee
      rw [hoperand]
      rfl
    · cases hcallee
  have hmem {name : String} (hname : name ∈ i.operand.names) :=
    (h.names name (mem_names_of_operand hm hi hname)).1
  rw [hoperand] at hmem
  exact ⟨hmem List.mem_cons_self, hmem (List.mem_cons_of_mem _ List.mem_cons_self)⟩

theorem field {i : Instr} (hi : i ∈ m.body) {field : FieldRef} (hfield : i.field? = some field) :
    NotTemporary field.name ∧ NotTemporary (Naming.fieldName field.name) := by
  have hoperand : i.operand.names = [field.name] := by
    unfold Instr.field? at hfield
    split at hfield
    · next hoperand =>
      cases hfield
      rw [hoperand]
      rfl
    · cases hfield
  constructor
  · refine notTemporary_of_contains (h.names field.name (mem_names_of_operand hm hi ?_)).1
    rw [hoperand]
    exact List.mem_cons_self
  · refine notTemporary_fieldName (h.fields field ?_)
    exact List.mem_flatMap.2 ⟨m, hm, List.mem_filterMap.2 ⟨i, hi, hfield⟩⟩

end AvoidsGenerated

end

theorem AvoidsGenerated.vocabulary {t : TypeDecl} (h : AvoidsGenerated t) {m : MethodDecl}
    (hm : m ∈ t.methods) {options : Options} (hcoerce : options.coerce = Value.coerce)
    (program : Source.Module) :
    Vocabulary NotTemporary ((options.setting program t).frame m) where
  empty := notTemporary_of_colons (by simp)
  this := notTemporary_self
  parameters v hv := by
    obtain ⟨p, hp, rfl⟩ := List.mem_map.1 hv
    exact notTemporary_of_contains (h.parameter hm hp)
  body i hi :=
    { field := fun field hfield => h.field hm hi hfield
      method := fun callee hcallee => by
        obtain ⟨hname, howner⟩ := h.callee hm hi hcallee
        exact ⟨notTemporary_of_contains hname, notTemporary_accessed hname,
          notTemporary_staticLocation hname howner⟩ }
  properties p hp := by
    obtain ⟨declared, hdeclared, rfl⟩ := List.mem_map.1 hp
    rw [name_declareProperty]
    refine notTemporary_of_contains (h.names _ ?_).1
    exact List.mem_append_left _ (List.mem_map_of_mem hdeclared)
  coerce type value name hname := by
    have hsame : (options.setting program t).coerce type value = value.coerce type :=
      congrFun (congrFun hcoerce type) value
    rw [← operandNames_coerce type value, ← hsame]
    exact .inl hname

/-- The temporaries of a body are numbered in order, and code reads none that it has not written. -/
structure OrderlyTemporaries (body : Body) : Prop where
  numbered : ∃ count, (body.variables.map TypedName.name).filter (Text.contains "::temp") =
    (List.range count).map Lower.temporaryName
  once : (body.variables.map TypedName.name).count Lower.noneVariable.name ≤ 1
  written : ∀ (k n : Nat) (i : Instruction), body.instructions[k]? = some i →
    Lower.temporaryName n ∈ i.reads →
      Lower.temporaryName n ∈ body.variables.map TypedName.name ∧
      ∃ j < k, ∃ w : Instruction, body.instructions[j]? = some w ∧
        Lower.temporaryName n ∈ w.assigned

section

variable {t : TypeDecl} {m : MethodDecl} {generated : List TypedName} {count : Nat}

theorem AvoidsGenerated.declaredLocals (h : AvoidsGenerated t) (hm : m ∈ t.methods) :
    ∀ name ∈ (declaredLocals m).map TypedName.name,
      Text.contains "::temp" name = false ∧ name ≠ Lower.noneVariable.name := by
  intro name hname
  rw [Lowering.declaredLocals] at hname
  split at hname
  · cases hname
  · rw [List.map_map] at hname
    obtain ⟨v, hv, rfl⟩ := List.mem_map.1 hname
    exact h.local hm (List.mem_filter.1 hv).1

theorem Generated.filter_contains {declared : List TypedName}
    (h : Generated declared count generated) :
    (generated.map TypedName.name).filter (Text.contains "::temp") =
      (List.range count).map Lower.temporaryName := by
  rw [← h.temporaries]
  refine List.filter_congr fun name hname => ?_
  obtain ⟨v, hv, rfl⟩ := List.mem_map.1 hname
  obtain ⟨k, hk⟩ | hnone := h.scratch hv
  · rw [hk, contains_temporaryName, bne_iff_ne.2 (temporaryName_ne_none k)]
  · rw [hnone]
    decide

theorem AvoidsGenerated.written (h : AvoidsGenerated t) (hm : m ∈ t.methods) {setting : Setting}
    {name : String} (hname : WritesAt setting m name) : NotTemporary name := by
  obtain ⟨store, stack, hmeets, hwrites⟩ := hname
  cases hwrites with
  | argument _ _ hv =>
    obtain hv | ⟨hself, _⟩ := argumentVariable?_cases hv
    · obtain ⟨p, hp, rfl⟩ := List.mem_map.1 hv
      exact notTemporary_of_contains (h.parameter hm hp)
    · exact hself ▸ notTemporary_self
  | field hfield => exact (h.field hm hmeets.mem hfield.operand).2

end

/-- Where the source spells no name like a generated one, the temporaries of a method are declared in
order, and they are written before they are read. -/
theorem lowerMethod_orderlyTemporaries (options : Options) (program : Source.Module)
    {t : TypeDecl} {m : MethodDecl} {result : LoweredMethod}
    (hcoerce : options.coerce = Value.coerce) (hnames : AvoidsGenerated t) (hm : m ∈ t.methods)
    (h : lowerMethod (options.setting program t) m = .ok result) :
    OrderlyTemporaries result.method.body := by
  obtain ⟨generated, count, hvariables, hgenerated⟩ := lowerMethod_generated h
  have hlocals := hnames.declaredLocals hm
  have hsupplied : SuppliedBody NotTemporary (WritesAt (options.setting program t) m)
      result.method.body := by
    refine lowerMethod_suppliedBody h (hnames.vocabulary hm hcoerce program) (fun v hv => ?_)
      (forall_delegateBindings ?_)
    · exact notTemporary_of_contains (hnames.local hm hv).1
    · intro m' hm' i hi callee hcallee
      exact notTemporary_of_contains (hnames.callee hm' hi hcallee).1
  refine ⟨⟨count, ?_⟩, ?_, fun k n i hi hread => ?_⟩
  · have hnone : ((declaredLocals m).map TypedName.name).filter (Text.contains "::temp") = [] :=
      List.filter_eq_nil_iff.2 fun name hname => Bool.eq_false_iff.1 (hlocals name hname).1
    rw [hvariables, List.map_append, List.filter_append, hnone, hgenerated.filter_contains]
    rfl
  · have habsent : Lower.noneVariable.name ∉ (declaredLocals m).map TypedName.name :=
      fun hmem => (hlocals _ hmem).2 rfl
    rw [hvariables, List.map_append, List.count_append, List.count_eq_zero_of_not_mem habsent,
      Nat.zero_add]
    exact hgenerated.once
  · obtain hbase | ⟨j, hj, w, hw, hwritten⟩ := hsupplied.reads k i hi _ hread
    · exact absurd rfl (hbase n)
    · refine ⟨?_, j, hj, w, hw, hwritten⟩
      obtain hdeclared | hstray := hsupplied.assigned w (List.mem_of_getElem? hw) _ hwritten
      · exact hdeclared
      · exact absurd rfl (hnames.written hm hstray n)

/-- Multiplies a field by one or two. Both ways to the product write the temporary that it reads. -/
def scaleMethod : MethodDecl :=
  let factor : FieldRef :=
    { owner := { name := "Scaler" }, name := "factor", type := .int32, isStatic := true }
  { name := "Scale"
    parameters := [{ name := "twice", type := .boolean }]
    returns := .int32
    isStatic := true
    body := [
      { offset := 0, code := .ldarg, operand := .index 0 },
      { offset := 1, code := .brtrue, operand := .target 4 },
      { offset := 2, code := .ldcI4, operand := .int 1 },
      { offset := 3, code := .br, operand := .target 5 },
      { offset := 4, code := .ldcI4, operand := .int 2 },
      { offset := 5, code := .ldsfld, operand := .field factor },
      { offset := 6, code := .mul },
      { offset := 7, code := .ret }] }

def scaler : TypeDecl :=
  { name := "Scaler"
    fields := [{ name := "factor", type := .int32, isStatic := true }]
    methods := [scaleMethod] }

theorem lowered_scaleMethod :
    ∃ result, lowerMethod (Options.setting { policy := .strict } {} scaler) scaleMethod = .ok result ∧
      result.method.body.instructions.map (fun i => (i.opcode, i.arguments)) =
        [(.jmpt, [.reference "twice", .int 3]), (.assign, [.reference "::temp0", .int 1]),
          (.jmp, [.int 2]), (.assign, [.reference "::temp0", .int 2]),
          (.imul, [.reference "::temp1", .reference "::temp0", .reference "::factor"]),
          (.ret, [.reference "::temp1"])] :=
  exists_ok_of_toOption (by decide +kernel)

theorem lowerMethod_orderlyTemporaries_scaleMethod :
    ∃ result, lowerMethod (Options.setting { policy := .strict } {} scaler) scaleMethod = .ok result ∧
      AvoidsGenerated scaler ∧ scaleMethod ∈ scaler.methods ∧
      OrderlyTemporaries result.method.body := by
  obtain ⟨result, h, _⟩ := lowered_scaleMethod
  have hnames : AvoidsGenerated scaler := ⟨by decide +kernel, by decide +kernel⟩
  refine ⟨result, h, hnames, List.mem_cons_self, ?_⟩
  exact lowerMethod_orderlyTemporaries _ _ rfl hnames List.mem_cons_self h

end Lowering

end PapyrusBackend
