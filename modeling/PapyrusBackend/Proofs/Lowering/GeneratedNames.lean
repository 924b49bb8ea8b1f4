import Std.Data.String.ToNat
import PapyrusBackend.Proofs.Lowering.Joins
import PapyrusBackend.Proofs.Lowering.Pending

namespace PapyrusBackend.Lowering

open Source

theorem isDigit_of_mem_toString {c : Char} {k : Nat} (h : c ∈ (toString k).toList) :
    c.isDigit = true := by
  rw [Nat.toString_eq_repr, Nat.toList_repr] at h
  exact Nat.isDigit_of_mem_toDigits (by decide) (by decide) h

theorem toList_temporaryName (k : Nat) :
    (Lower.temporaryName k).toList = "::temp".toList ++ (toString k).toList :=
  String.toList_append

theorem temporaryName_ne_none (k : Nat) : Lower.temporaryName k ≠ Lower.noneVariable.name := by
  intro h
  have hprefix : "::temp".toList <+: Lower.noneVariable.name.toList := by
    rw [← h, toList_temporaryName]
    exact List.prefix_append _ _
  simp [Lower.noneVariable] at hprefix

/-- The characters of generated names. -/
theorem Scratch.char {name : String} (h : Scratch name) {c : Char} (hc : c ∈ name.toList) :
    c.isDigit = true ∨ c ∈ "::tempnonevar".toList := by
  obtain ⟨k, rfl⟩ | rfl := h
  · rw [toList_temporaryName, List.mem_append] at hc
    obtain hc | hc := hc
    · right
      revert c
      simp
    · exact .inl (isDigit_of_mem_toString hc)
  · right
    revert c
    simp [Lower.noneVariable]

/-- Generated names have none of the marks that other names are given. -/
theorem Scratch.ne_mark {name : String} (h : Scratch name) {c : Char} (hc : c ∈ name.toList) :
    c ≠ '<' ∧ c ≠ '>' ∧ c ≠ '_' ∧ c ≠ '#' ∧ c ≠ '[' := by
  obtain hdigit | hletter := h.char hc
  · refine ⟨?_, ?_, ?_, ?_, ?_⟩ <;> rintro rfl <;> revert hdigit <;> decide
  · clear hc
    revert c
    simp

theorem fieldName_of_ne_mark {name : String} (h : ∀ c ∈ name.toList, c ≠ '<' ∧ c ≠ '>') :
    Naming.fieldName name = "::" ++ name := by
  have hflat : name.toList.map (fun c => if c = '<' ∨ c = '>' then '_' else c) = name.toList := by
    refine (List.map_congr_left fun c hc => ?_).trans (List.map_id _)
    rw [if_neg (not_or.2 (h c hc))]
    rfl
  rw [Naming.fieldName, hflat, String.ofList_toList]

/-- The variable of a field has a generated name only if the field is called so itself. -/
theorem fieldName_eq_iff {name generated : String} (h : Scratch generated) :
    Naming.fieldName name = generated ↔ "::" ++ name = generated := by
  constructor
  · rintro rfl
    refine (fieldName_of_ne_mark fun c hc => not_or.1 fun hmark => ?_).symm
    refine (h.ne_mark (c := '_') ?_).2.2.1 rfl
    rw [Naming.fieldName, String.toList_append]
    refine List.mem_append_right _ ?_
    rw [String.toList_ofList]
    exact List.mem_map.2 ⟨c, hc, if_pos hmark⟩
  · rintro rfl
    refine fieldName_of_ne_mark fun c hc => ?_
    have hc : c ∈ ("::" ++ name).toList := by
      rw [String.toList_append]
      exact List.mem_append_right _ hc
    exact ⟨(h.ne_mark hc).1, (h.ne_mark hc).2.1⟩

/-- A local has a generated name only if it is called so itself. -/
theorem localName_eq_iff {k : Nat} {name : Option String} {generated : String}
    (h : Scratch generated) : Naming.localName k name = generated ↔ name = some generated := by
  have hplace : "V_" ++ toString k ≠ generated := by
    rintro rfl
    have hcolons := h.starts_with_colons
    rw [String.toList_append] at hcolons
    revert hcolons
    simp
  unfold Naming.localName
  split
  · next name =>
    split
    · next hempty =>
      refine iff_of_false hplace fun hsome => ?_
      cases hsome
      rw [String.isEmpty_iff.1 hempty] at h
      exact absurd h.starts_with_colons (by simp)
    · exact Option.some_inj.symm
  · exact iff_of_false hplace fun hsome => (by cases hsome)

/-- Variables that are added to declared ones: `count` temporaries in order, and in between at most
one for what is not wanted. -/
structure Generated (declared : List TypedName) (count : Nat) (generated : List TypedName) :
    Prop where
  temporaries : (generated.map TypedName.name).filter (· != Lower.noneVariable.name) =
    (List.range count).map Lower.temporaryName
  once : (generated.map TypedName.name).count Lower.noneVariable.name ≤ 1
  absent : Lower.noneVariable.name ∈ generated.map TypedName.name →
    Lower.noneVariable.name ∉ declared.map TypedName.name

variable {declared generated : List TypedName} {count : Nat} {s t : Simulation}

theorem Generated.scratch (h : Generated declared count generated) {v : TypedName}
    (hv : v ∈ generated) : Scratch v.name := by
  by_cases hnone : v.name = Lower.noneVariable.name
  · exact .inr hnone
  · have hmem : v.name ∈ (generated.map TypedName.name).filter (· != Lower.noneVariable.name) :=
      List.mem_filter.2 ⟨List.mem_map_of_mem hv, bne_iff_ne.2 hnone⟩
    rw [h.temporaries] at hmem
    obtain ⟨k, _, hk⟩ := List.mem_map.1 hmem
    exact .inl ⟨k, hk.symm⟩

theorem Generated.nil : Generated declared 0 [] :=
  ⟨rfl, Nat.zero_le _, fun h => absurd h List.not_mem_nil⟩

theorem names_temporariesFrom (k : Nat) (types : List String) :
    ((temporariesFrom k types).map Variable.declaration).map TypedName.name =
      (List.range' k types.length).map Lower.temporaryName := by
  induction types generalizing k with
  | nil => rfl
  | cons type types ih =>
    rw [temporariesFrom, List.map_cons, List.map_cons, ih, List.length_cons, List.range'_succ,
      List.map_cons]
    rfl

/-- Further temporaries with the next numbers. -/
theorem Generated.append_temporaries (h : Generated declared count generated)
    {more : List TypedName} {n : Nat}
    (hmore : more.map TypedName.name = (List.range' count n).map Lower.temporaryName) :
    Generated declared (count + n) (generated ++ more) := by
  have hnone : Lower.noneVariable.name ∉ more.map TypedName.name := by
    rw [hmore]
    intro hmem
    obtain ⟨k, _, hk⟩ := List.mem_map.1 hmem
    exact temporaryName_ne_none k hk
  have hkept : (more.map TypedName.name).filter (· != Lower.noneVariable.name) =
      more.map TypedName.name := by
    refine List.filter_eq_self.2 fun name hname => bne_iff_ne.2 ?_
    rintro rfl
    exact hnone hname
  refine ⟨?_, ?_, ?_⟩
  · rw [List.map_append, List.filter_append, h.temporaries, hkept, hmore, ← List.map_append,
      List.range_eq_range', List.range_eq_range', ← List.range'_append_1, Nat.zero_add]
  · rw [List.map_append, List.count_append, List.count_eq_zero_of_not_mem hnone]
    exact h.once
  · rw [List.map_append, List.mem_append]
    exact fun hmem => h.absent (hmem.resolve_right hnone)

theorem Generated.append_none (h : Generated declared count generated)
    (hnew : ∀ v ∈ declared ++ generated, v.name ≠ Lower.noneVariable.name) :
    Generated declared count (generated ++ [Lower.noneVariable.declaration]) := by
  have habsent {vs : List TypedName} (hvs : ∀ v ∈ vs, v.name ≠ Lower.noneVariable.name) :
      Lower.noneVariable.name ∉ vs.map TypedName.name := by
    intro hmem
    obtain ⟨v, hv, hname⟩ := List.mem_map.1 hmem
    exact hvs v hv hname
  obtain ⟨hdeclared, hgenerated⟩ := List.forall_mem_append.1 hnew
  refine ⟨?_, ?_, fun _ => habsent hdeclared⟩
  · rw [List.map_append, List.filter_append, h.temporaries]
    exact List.append_nil _
  · rw [List.map_append, List.count_append, List.count_eq_zero_of_not_mem (habsent hgenerated)]
    exact Nat.le_refl 1

theorem Change.generates (h : Change s t) (hs : s.variables = declared ++ generated)
    (hgenerated : Generated declared s.temporaries generated) :
    ∃ more, t.variables = declared ++ more ∧ Generated declared t.temporaries more := by
  cases h with
  | temporary type =>
    refine ⟨generated ++ [⟨Lower.temporaryName s.temporaries, type⟩], ?_,
      hgenerated.append_temporaries rfl⟩
    rw [hs, List.append_assoc]
  | noneVariable hnew =>
    refine ⟨generated ++ [Lower.noneVariable.declaration], ?_, hgenerated.append_none (hs ▸ hnew)⟩
    rw [hs, List.append_assoc]
  | join hnew types =>
    refine ⟨generated ++ (temporariesFrom s.temporaries types).map Variable.declaration, ?_,
      hgenerated.append_temporaries (names_temporariesFrom _ _)⟩
    rw [hs, List.append_assoc]
  | _ => exact ⟨generated, hs, hgenerated⟩

/-- A run declares nothing but generated variables. -/
theorem Becomes.generates (h : Becomes s t) (hs : s.temporaries = 0) :
    ∃ more, t.variables = s.variables ++ more ∧ Generated s.variables t.temporaries more := by
  induction h with
  | refl => exact ⟨[], (List.append_nil _).symm, hs ▸ .nil⟩
  | tail _ hchange ih =>
    obtain ⟨generated, hvariables, hgenerated⟩ := ih
    exact hchange.generates hvariables hgenerated

def declaredLocals (m : MethodDecl) : List TypedName :=
  if m.isNative then []
  else ((localVariables m).filter fun v => !v.isDelegate).map Variable.declaration

theorem lowerMethod_generated {setting : Setting} {m : MethodDecl} {result : LoweredMethod}
    (h : lowerMethod setting m = .ok result) :
    ∃ generated count, result.method.body.variables = declaredLocals m ++ generated ∧
      Generated (declaredLocals m) count generated := by
  rw [declaredLocals]
  cases hnative : m.isNative with
  | true =>
    rw [lowerMethod, if_pos hnative] at h
    cases h
    exact ⟨[], 0, rfl, .nil⟩
  | false =>
    obtain ⟨segments, last, hrun, hvariables, _⟩ := lowerMethod_run hnative h
    have hbecomes := runTo_becomes_last (p := 0) (s := .start m setting.owner.delegateBindings)
      rfl hrun
    obtain ⟨generated, hlast, hgenerated⟩ := Becomes.generates hbecomes rfl
    exact ⟨generated, last.temporaries, hvariables.trans hlast, hgenerated⟩

/-- The names by which code means a parameter, a local or a field. -/
def sourceVariables (t : TypeDecl) (m : MethodDecl) : List String :=
  slotNames m ++ t.fields.map fun f => Naming.fieldName f.name

def speltVariables (t : TypeDecl) (m : MethodDecl) : List String :=
  m.parameters.map Parameter.name ++ m.locals.filterMap Local.name ++
    t.fields.map fun f => "::" ++ f.name

theorem mem_sourceVariables_iff {t : TypeDecl} {m : MethodDecl} {name : String}
    (h : Scratch name) : name ∈ sourceVariables t m ↔ name ∈ speltVariables t m := by
  have hparameters : (parameterVariables m).map Variable.name = m.parameters.map Parameter.name := by
    rw [parameterVariables, List.map_map]
    rfl
  have hlocals : name ∈ (localVariables m).map Variable.name ↔
      name ∈ m.locals.filterMap Local.name := by
    simp only [localVariables, List.mem_map, List.mem_mapIdx, List.mem_filterMap]
    constructor
    · rintro ⟨_, ⟨k, hk, rfl⟩, hname⟩
      exact ⟨m.locals[k], List.getElem_mem hk, (localName_eq_iff h).1 hname⟩
    · rintro ⟨l, hl, hname⟩
      obtain ⟨k, hk, rfl⟩ := List.getElem_of_mem hl
      exact ⟨_, ⟨k, hk, rfl⟩, (localName_eq_iff h).2 hname⟩
  have hfields : name ∈ t.fields.map (fun f => Naming.fieldName f.name) ↔
      name ∈ t.fields.map fun f => "::" ++ f.name := by
    simp only [List.mem_map, fieldName_eq_iff h]
  rw [sourceVariables, speltVariables, slotNames, List.map_append, hparameters]
  simp only [List.mem_append, hlocals, hfields]

/-- A generated variable captures a parameter, a local or a field exactly where the source spells
the name of one as lowering spells its own. -/
theorem generated_captures_iff (options : Options) (program : Source.Module) (t : TypeDecl)
    (m : MethodDecl) {result : LoweredMethod}
    (h : lowerMethod (options.setting program t) m = .ok result) :
    ∃ generated count, result.method.body.variables = declaredLocals m ++ generated ∧
      Generated (declaredLocals m) count generated ∧
      ∀ v ∈ generated, v.name ∈ sourceVariables t m ↔ v.name ∈ speltVariables t m := by
  obtain ⟨generated, count, hvariables, hgenerated⟩ := lowerMethod_generated h
  refine ⟨generated, count, hvariables, hgenerated, fun v hv => ?_⟩
  exact mem_sourceVariables_iff (hgenerated.scratch hv)

def stepper : TypeDecl :=
  { name := "Stepper"
    fields := [{ name := "temp0", type := .int32, isStatic := true }] }

def nextStep : MethodDecl :=
  { name := "Next"
    parameters := [{ name := "x", type := .int32 }]
    returns := .int32
    isStatic := true
    body := [
      { offset := 0, code := .ldarg, operand := .index 0 },
      { offset := 1, code := .ldcI4, operand := .int 1 },
      { offset := 2, code := .add },
      { offset := 3, code := .ldsfld
        operand := .field
          { owner := { name := "Stepper" }, name := "temp0", type := .int32, isStatic := true } },
      { offset := 8, code := .add },
      { offset := 9, code := .ret }] }

theorem lowered_nextStep :
    ∃ result, lowerMethod (Options.setting { policy := .strict } {} stepper) nextStep = .ok result ∧
      (result.method.body.variables,
        result.method.body.instructions.map fun i => (i.opcode, i.arguments)) =
        ([⟨"::temp0", "Int"⟩, ⟨"::temp1", "Int"⟩],
          [(.iadd, [.reference "::temp0", .reference "x", .int 1]),
            (.iadd, [.reference "::temp1", .reference "::temp0", .reference "::temp0"]),
            (.ret, [.reference "::temp1"])]) :=
  exists_ok_of_toOption (by decide +kernel)

theorem generated_captures_iff_nextStep :
    ∃ result, lowerMethod (Options.setting { policy := .strict } {} stepper) nextStep = .ok result ∧
      ∃ generated count, result.method.body.variables = declaredLocals nextStep ++ generated ∧
        Generated (declaredLocals nextStep) count generated ∧
        ∀ v ∈ generated, v.name ∈ sourceVariables stepper nextStep ↔
          v.name ∈ speltVariables stepper nextStep := by
  obtain ⟨result, h, _⟩ := lowered_nextStep
  exact ⟨result, h, generated_captures_iff _ _ _ _ h⟩

/-- The sum of a number and one is put in the variable of the field, so that the field is lost: the
script doubles the sum instead of adding the field to it. -/
theorem temporary_captures_field :
    ∃ result, lowerMethod (Options.setting { policy := .strict } {} stepper) nextStep = .ok result ∧
      (∃ v ∈ result.method.body.variables, v ∉ declaredLocals nextStep ∧
        ∃ f ∈ stepper.fields, v.name = Naming.fieldName f.name) ∧
      result.method.body.instructions.map (fun i => (i.opcode, i.arguments)) =
        [(.iadd, [.reference "::temp0", .reference "x", .int 1]),
          (.iadd, [.reference "::temp1", .reference "::temp0", .reference "::temp0"]),
          (.ret, [.reference "::temp1"])] := by
  obtain ⟨result, h, hbody⟩ := lowered_nextStep
  obtain ⟨hvariables, hcode⟩ := Prod.mk.inj hbody
  refine ⟨result, h, ⟨⟨"::temp0", "Int"⟩, ?_, List.not_mem_nil, _, List.mem_cons_self, ?_⟩, hcode⟩
  · rw [hvariables]
    exact List.mem_cons_self
  · decide

end PapyrusBackend.Lowering
