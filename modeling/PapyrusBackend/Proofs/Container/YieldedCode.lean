import PapyrusBackend.Proofs.Container.CarriedCode
import PapyrusBackend.Proofs.Container.Yielding

namespace PapyrusBackend.Container

variable {known : List String}

theorem flatMap_subset {f : α → List String} {xs : List α} (h : ∀ x ∈ xs, f x ⊆ known) :
    xs.flatMap f ⊆ known := by
  intro s hs
  obtain ⟨x, hx, hsx⟩ := List.mem_flatMap.mp hs
  exact h x hx hsx

theorem singleton_subset {s : String} (h : s ∈ known) : [s] ⊆ known :=
  List.cons_subset.mpr ⟨h, List.nil_subset known⟩

theorem yields_value (hknown : Countable known) :
    Yields Read.value known (fun v => v.texts ⊆ known) := by
  refine yields_position.bind fun start _ => yields_u8.bind fun byte _ => ?_
  split
  · exact Yields.throw _ _
  · exact Yields.pure (List.nil_subset _)
  · exact (yields_text hknown).bind fun s hs => Yields.pure (singleton_subset hs)
  · exact (yields_text hknown).bind fun s hs => Yields.pure (singleton_subset hs)
  · exact yields_i32.bind fun i _ => Yields.pure (List.nil_subset _)
  · exact yields_single.bind fun x _ => Yields.pure (List.nil_subset _)
  · exact yields_u8.bind fun b _ => Yields.pure (List.nil_subset _)

theorem toNat_toInt_lt (n : Int32) : n.toInt.toNat < 2 ^ 31 := by
  have h := n.toInt_lt
  omega

/-- What an instruction brings along when it is read. -/
structure Sourced (known : List String) (i : Instruction) : Prop where
  arity : i.Fits
  texts : i.texts ⊆ known
  calls : i.variadic.length < 2 ^ 31

theorem yields_variadic (hknown : Countable known) :
    Yields Read.variadic known
      (fun vs => vs.length < 2 ^ 31 ∧ ∀ v ∈ vs, v.texts ⊆ known) := by
  refine yields_position.bind fun start _ => (yields_value hknown).bind fun count _ => ?_
  cases count with
  | int n =>
    refine ((yields_value hknown).times n.toInt.toNat).mono ?_
    rintro vs ⟨hlength, hvs⟩
    exact ⟨hlength ▸ toNat_toInt_lt n, hvs⟩
  | _ => exact Yields.throw _ _

theorem yields_instruction (hknown : Countable known) :
    Yields Read.instruction known (Sourced known) := by
  refine yields_position.bind fun start _ => yields_u8.bind fun byte _ => ?_
  split
  · exact Yields.throw _ _
  · next opcode hopcode =>
    refine ((yields_value hknown).times opcode.arity).bind fun arguments harguments => ?_
    obtain ⟨hlength, harguments⟩ := harguments
    cases hv : opcode.variadic with
    | true =>
      refine (yields_variadic hknown).bind fun vs hvs => Yields.pure ?_
      refine ⟨?_, ?_, hvs.1⟩
      · simp [Instruction.Fits, Instruction.hasValidArity, hlength, hv]
      · exact List.append_subset.mpr ⟨flatMap_subset harguments, flatMap_subset hvs.2⟩
    | false =>
      refine Yields.pure ⟨?_, ?_, Nat.two_pow_pos 31⟩
      · simp [Instruction.Fits, Instruction.hasValidArity, hlength]
      · exact List.append_subset.mpr ⟨flatMap_subset harguments, List.nil_subset _⟩

theorem yields_typedName (hknown : Countable known) :
    Yields Read.typedName known (fun v => v.texts ⊆ known) := by
  refine (yields_text hknown).bind fun name hname => ?_
  refine (yields_text hknown).bind fun type htype => Yields.pure ?_
  exact List.cons_subset.mpr ⟨hname, singleton_subset htype⟩

structure SourcedMethod (known : List String) (m : Method) : Prop where
  fits : m.Fits
  texts : m.texts ⊆ known
  placed : m.IsPlaced
  calls : CallsFit m

/-- Placing code changes nothing of what its instructions bring along. -/
theorem sourced_place {code : List Instruction} (h : ∀ i ∈ code, Sourced known i) (owner : String) :
    ∀ i ∈ Read.place owner code, Sourced known i := by
  intro i hi
  rw [place_eq] at hi
  obtain ⟨k, hk, rfl⟩ := List.mem_mapIdx.mp hi
  obtain ⟨harity, htexts, hcalls⟩ := h _ (List.getElem_mem hk)
  exact ⟨harity, htexts, hcalls⟩

theorem length_place (owner : String) (code : List Instruction) :
    (Read.place owner code).length = code.length := by
  rw [place_eq, List.length_mapIdx]

theorem isPlaced_place {m : Method} {code : List Instruction}
    (hbody : m.body.instructions = Read.place m.name code) (howner : m.body.owner = m.name) :
    m.IsPlaced := by
  refine ⟨howner, fun k i hi => ?_⟩
  rw [hbody, length_place]
  rw [hbody, place_eq, List.getElem?_mapIdx, Option.map_eq_some_iff] at hi
  obtain ⟨j, _, rfl⟩ := hi
  exact ⟨rfl, rfl, rfl⟩

theorem yields_method (hknown : Countable known) (name : String) :
    Yields (Read.method name) known (fun m => SourcedMethod known m ∧ m.name = name) := by
  refine (yields_text hknown).bind fun returns hreturns => ?_
  refine (yields_text hknown).bind fun documentation hdocumentation => ?_
  refine yields_u32.bind fun userFlags _ => yields_u8.bind fun flags _ => ?_
  refine (yields_typedName hknown).counted.bind fun parameters hparameters => ?_
  refine (yields_typedName hknown).counted.bind fun locals hlocals => ?_
  refine (yields_instruction hknown).counted.bind fun code hcode => Yields.pure ⟨?_, rfl⟩
  have hplaced := sourced_place hcode.2 name
  refine ⟨⟨hparameters.1, hlocals.1, ?_, fun i hi => (hplaced i hi).arity⟩, ?_,
    isPlaced_place rfl rfl, fun i hi => (hplaced i hi).calls⟩
  · rw [Countable, length_place]
    exact hcode.1
  · have hfront : [returns, documentation] ⊆ known :=
      List.cons_subset.mpr ⟨hreturns, singleton_subset hdocumentation⟩
    refine List.append_subset.mpr ⟨hfront, List.append_subset.mpr ⟨flatMap_subset hparameters.2, ?_⟩⟩
    exact List.append_subset.mpr ⟨flatMap_subset hlocals.2,
      flatMap_subset fun i hi => (hplaced i hi).texts⟩

theorem yields_namedMethod (hknown : Countable known) :
    Yields Read.namedMethod known (fun m => SourcedMethod known m ∧ m.name ∈ known) := by
  refine (yields_text hknown).bind fun name hname => (yields_method hknown name).mono ?_
  rintro m ⟨hm, rfl⟩
  exact ⟨hm, hname⟩

theorem yields_optionalMethod (hknown : Countable known) (present : Bool) (name : String) :
    Yields (Read.optionalMethod present name) known
      (fun m => m.isSome = present ∧ ∀ m' ∈ m, SourcedMethod known m' ∧ m'.name = name) := by
  cases present with
  | false => exact Yields.pure ⟨rfl, nofun⟩
  | true =>
    refine (yields_method hknown name).bind fun m hm => Yields.pure ⟨rfl, ?_⟩
    rintro m' ⟨⟩
    exact hm

end PapyrusBackend.Container
