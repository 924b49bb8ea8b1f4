import PapyrusBackend.Proofs.Container.Carrying
import PapyrusBackend.Proofs.Container.Layout
import PapyrusBackend.Proofs.Container.NormalForm

namespace PapyrusBackend.Container

theorem carries_value (v : Value) : Carries (Write.value v) Read.value v := by
  refine Carries.position fun start => (carries_u8 v.kind.toByte).bind ?_
  rw [Kind.ofByte?_toByte]
  cases v with
  | none => exact Carries.pure _
  | reference s => exact (carries_text s).map Value.reference
  | string s => exact (carries_text s).map Value.string
  | int i => exact (carries_i32 i).map Value.int
  | float x => exact (carries_single x).map Value.float
  | bool b =>
    have h := (carries_u8 (if b then 1 else 0)).map fun byte => Value.bool (byte ≠ 0)
    cases b <;> exact h

theorem carries_values (vs : List Value) :
    Carries (Write.each Write.value vs) (Read.times vs.length Read.value) vs := by
  have h := Carries.times (f := id) fun v (_ : v ∈ vs) => carries_value v
  rwa [List.map_id] at h

theorem carries_variadic {vs : List Value} (hlength : vs.length < 2 ^ 31) :
    Carries
      (do
        Write.value (.int (Int32.ofNat vs.length))
        Write.each Write.value vs)
      Read.variadic vs := by
  have hn : (Int32.ofNat vs.length).toInt.toNat = vs.length := by
    rw [Int32.toInt_ofNat_of_lt hlength, Int.toNat_natCast]
  refine Carries.position fun start => (carries_value _).bind ?_
  show Carries _ (Read.times (Int32.ofNat vs.length).toInt.toNat Read.value) vs
  rw [hn]
  exact carries_values vs

def bare (i : Instruction) : Instruction :=
  { opcode := i.opcode, arguments := i.arguments, variadic := i.variadic }

theorem carries_instruction {i : Instruction} (hlength : i.variadic.length < 2 ^ 31) :
    Carries (Write.instruction i) Read.instruction (bare i) := by
  by_cases harity : i.hasValidArity = true
  · rw [Write.instruction_eq i harity]
    simp only [Instruction.hasValidArity, Bool.and_eq_true, Bool.or_eq_true, decide_eq_true_eq,
      List.isEmpty_iff] at harity
    refine Carries.position fun start => (carries_u8 i.opcode.toByte).bind ?_
    rw [Opcode.ofByte?_toByte]
    have harguments := carries_values i.arguments
    rw [harity.1] at harguments
    refine harguments.bind ?_
    cases hv : i.opcode.variadic with
    | true => exact (carries_variadic hlength).map fun vs => (⟨_, _, vs, _, _, _⟩ : Instruction)
    | false =>
      have hnil : i.variadic = [] := by simpa [hv] using harity.2
      rw [bare, hnil]
      exact Carries.pure _
  · apply Carries.of_fails
    intro o o' hrun
    rw [Write.instruction_fails i harity] at hrun
    cases hrun

theorem landing?_eq (length k : Nat) (i : Instruction) :
    Read.landing? length k i = i.landing length k := by
  simp only [Read.landing?, Instruction.delta?, Instruction.landing]
  cases i.opcode.jumpArgument? with
  | none => rfl
  | some argument =>
    simp only [Option.bind_some]
    cases i.arguments[argument]? with
    | none => rfl
    | some v => cases v <;> rfl

theorem place_eq (owner : String) (code : List Instruction) :
    Read.place owner code = code.mapIdx (Instruction.placed owner code.length) := by
  simp only [Read.place, landing?_eq]
  rfl

theorem place_bare (owner : String) (code : List Instruction) :
    Read.place owner (code.map bare) =
      code.mapIdx (Instruction.placed owner code.length) := by
  rw [place_eq, List.length_map]
  apply List.ext_getElem?
  intro k
  simp only [List.getElem?_mapIdx, List.getElem?_map, Option.map_map]
  rfl

theorem carries_typedName (v : TypedName) : Carries (Write.typedName v) Read.typedName v :=
  (carries_text v.name).bind ((carries_text v.type).map (TypedName.mk v.name))

/-- Every call has fewer further arguments than a signed count can tell. -/
def CallsFit (m : Method) : Prop := ∀ i ∈ m.body.instructions, i.variadic.length < 2 ^ 31

theorem carries_method {m : Method} (hcalls : CallsFit m) (name : String) :
    Carries (Write.method m) (Read.method name) (m.normalAs name) := by
  refine (carries_text m.returns).bind ?_
  refine (carries_text m.documentation).bind ?_
  refine (carries_u32 m.userFlags).bind ?_
  refine (carries_u8 m.flags).bind ?_
  refine (Carries.countedSame "parameters" carries_typedName m.parameters).bind ?_
  refine (Carries.countedSame "variables" carries_typedName m.body.variables).bind ?_
  have hcode := Carries.counted "instructions" fun i hi => carries_instruction (hcalls i hi)
  have h := hcode.map fun code => (⟨name, m.returns, m.documentation, m.userFlags, m.flags,
    m.parameters, ⟨name, m.body.variables, Read.place name code⟩⟩ : Method)
  rwa [place_bare] at h

theorem carries_namedMethod {m : Method} (hcalls : CallsFit m) :
    Carries (Write.namedMethod m) Read.namedMethod m.normal :=
  (carries_text m.name).bind (carries_method hcalls m.name)

end PapyrusBackend.Container
