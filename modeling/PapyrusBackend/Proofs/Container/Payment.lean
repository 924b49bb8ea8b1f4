import Mathlib.Algebra.Ring.Nat
import PapyrusBackend.Proofs.Container.Reencoding

namespace PapyrusBackend

def Instruction.records (i : Instruction) : Nat := 1 + i.arguments.length + i.variadic.length

def Method.records (m : Method) : Nat :=
  1 + m.parameters.length + m.body.variables.length +
    (m.body.instructions.map Instruction.records).sum

def Property.records (p : Property) : Nat := 1 + (p.methods.map Method.records).sum

def State.records (s : State) : Nat := 1 + (s.methods.map Method.records).sum

def Struct.records (s : Struct) : Nat := 1 + s.fields.length

def ObjectType.records (t : ObjectType) : Nat :=
  1 + (t.structs.map Struct.records).sum + t.fields.length +
    (t.properties.map Property.records).sum + (t.states.map State.records).sum

def DebugInfo.records (d : DebugInfo) : Nat :=
  (d.methods.map fun m => 1 + m.lines.length).sum +
    (d.groups.map fun g => 1 + g.properties.length).sum +
    (d.structs.map fun s => 1 + s.fields.length).sum

def Assembly.records (a : Assembly) : Nat :=
  a.debug.elim 0 DebugInfo.records + a.userFlags.length + (a.types.map ObjectType.records).sum

namespace Container

/-- Every result takes at least its price in bytes. -/
def Pays (r : Read α) (price : α → Nat) : Prop :=
  ∀ (s s' : Reader) (a : α), r s = .ok a s' → price a + s'.rest.length ≤ s.rest.length

theorem Pays.pure {a : α} {price : α → Nat} (h : price a = 0) : Pays (pure a) price := by
  intro s s' b hrun
  cases hrun
  rw [h, Nat.zero_add]

/-- What the first part has paid is taken off the price of the whole. -/
theorem Pays.bind {r : Read α} {k : α → Read β} {first : α → Nat} {price : β → Nat}
    (hr : Pays r first) (hk : ∀ a, Pays (k a) (fun b => price b - first a)) :
    Pays (r >>= k) price := by
  intro s s' b hrun
  obtain ⟨a, t, hfirst, hsecond⟩ := bind_ok hrun
  have h₁ := hr s t a hfirst
  have h₂ : price b - first a + s'.rest.length ≤ t.rest.length := hk a t s' b hsecond
  omega

theorem Pays.mono {r : Read α} {price less : α → Nat} (h : Pays r price)
    (hle : ∀ a, less a ≤ price a) : Pays r less := by
  intro s s' a hrun
  exact Nat.le_trans (Nat.add_le_add_right (hle a) _) (h s s' a hrun)

theorem Pays.throw (fault : Fault) (price : α → Nat) : Pays (throw fault) price := by
  intro s s' a hrun
  cases hrun

/-- A part that only some containers have. -/
theorem Pays.ite {r : Read α} {b : α} {c : Bool} {price : α → Nat} (h : Pays r price)
    (hb : price b = 0) : Pays (if c then r else Pure.pure b) price := by
  cases c with
  | false => exact Pays.pure hb
  | true => exact h

theorem pays_bytes (n : Nat) : Pays (Read.bytes n) (fun _ => n) := by
  intro s s' taken hrun
  obtain ⟨hlength, -, rfl⟩ := bytes_ok hrun
  simp only [List.length_drop]
  omega

theorem pays_word (width : Nat) : Pays (Read.word width) (fun _ => width) := by
  intro s s' n hrun
  obtain ⟨hlength, -, rfl⟩ := word_ok hrun
  simp only [List.length_drop]
  omega

theorem pays_u8 : Pays Read.u8 (fun _ => 1) :=
  (pays_word 1).bind fun _ => Pays.pure rfl

theorem pays_u16 : Pays Read.u16 (fun _ => 2) :=
  (pays_word 2).bind fun _ => Pays.pure rfl

theorem pays_u32 : Pays Read.u32 (fun _ => 4) :=
  (pays_word 4).bind fun _ => Pays.pure rfl

theorem pays_u64 : Pays Read.u64 (fun _ => 8) :=
  (pays_word 8).bind fun _ => Pays.pure rfl

theorem pays_i32 : Pays Read.i32 (fun _ => 4) := pays_u32.bind fun _ => Pays.pure rfl

theorem pays_single : Pays Read.single (fun _ => 4) := pays_u32.bind fun _ => Pays.pure rfl

theorem pays_position : Pays Read.position (fun _ => 0) := by
  intro s s' n hrun
  cases hrun
  exact Nat.le_of_eq (Nat.zero_add _)

theorem pays_inlineText : Pays Read.inlineText (fun _ => 2) := by
  refine pays_position.bind fun start => pays_u16.bind fun length => ?_
  refine (pays_bytes length.toNat).bind fun taken => ?_
  split
  · exact Pays.pure (by omega)
  · exact Pays.throw _ _

theorem pays_resolve (place : UInt16) : Pays (Read.resolve place) (fun _ => 0) := by
  intro s s' found hrun
  simp only [Read.resolve] at hrun
  split at hrun
  · cases hrun
    exact Nat.le_of_eq (Nat.zero_add _)
  · split at hrun
    · cases hrun
    · cases hrun
      exact Nat.le_of_eq (Nat.zero_add _)

theorem pays_text : Pays Read.indexedText (fun _ => 2) := by
  refine pays_u16.bind fun n => (pays_resolve n).bind fun place => ?_
  intro s s' text hrun
  cases hrun
  exact Nat.le_of_eq (Nat.zero_add _)

theorem Pays.repeatOnto {r : Read α} {price : α → Nat} (h : Pays r price) (n : Nat)
    (done : List α) :
    Pays (Read.repeatOnto r n done) (fun xs => (xs.map price).sum - (done.map price).sum) := by
  induction n generalizing done with
  | zero =>
    apply Pays.pure
    rw [List.map_reverse, List.sum_reverse, Nat.sub_self]
  | succ n ih =>
    refine h.bind fun a => (ih (a :: done)).mono fun xs => ?_
    rw [List.map_cons, List.sum_cons]
    omega

theorem Pays.times {r : Read α} {price : α → Nat} (h : Pays r price) (n : Nat) :
    Pays (Read.times n r) (fun xs => (xs.map price).sum) := h.repeatOnto n []

theorem Pays.counted {r : Read α} {price : α → Nat} (h : Pays r price) :
    Pays (Read.counted r) (fun xs => (xs.map price).sum) :=
  pays_u16.bind fun n => (h.times n.toNat).mono fun _ => Nat.sub_le _ _

theorem sum_map_one (xs : List α) : (xs.map fun _ => 1).sum = xs.length := by
  rw [List.map_const', List.sum_replicate_nat, Nat.mul_one]

theorem Pays.timesEach {r : Read α} (h : Pays r fun _ => 1) (n : Nat) :
    Pays (Read.times n r) List.length :=
  (h.times n).mono fun xs => Nat.le_of_eq (sum_map_one xs).symm

theorem Pays.countedEach {r : Read α} (h : Pays r fun _ => 1) :
    Pays (Read.counted r) List.length :=
  h.counted.mono fun xs => Nat.le_of_eq (sum_map_one xs).symm

theorem pays_value : Pays Read.value (fun _ => 1) := by
  refine pays_position.bind fun start => pays_u8.bind fun byte => ?_
  split
  · exact Pays.throw _ _
  · exact Pays.pure rfl
  · exact pays_text.bind fun _ => Pays.pure rfl
  · exact pays_text.bind fun _ => Pays.pure rfl
  · exact pays_i32.bind fun _ => Pays.pure rfl
  · exact pays_single.bind fun _ => Pays.pure rfl
  · exact pays_u8.bind fun _ => Pays.pure rfl

theorem pays_variadic : Pays Read.variadic List.length := by
  refine pays_position.bind fun start => pays_value.bind fun count => ?_
  cases count with
  | int n => exact (pays_value.timesEach n.toInt.toNat).mono fun _ => by omega
  | _ => exact Pays.throw _ _

theorem pays_instruction : Pays Read.instruction Instruction.records := by
  refine pays_position.bind fun start => pays_u8.bind fun byte => ?_
  split
  · exact Pays.throw _ _
  · next opcode _ =>
    refine (pays_value.timesEach opcode.arity).bind fun arguments => ?_
    cases opcode.variadic with
    | true =>
      refine pays_variadic.bind fun variadic => Pays.pure ?_
      simp only [Instruction.records]
      omega
    | false =>
      apply Pays.pure
      simp only [Instruction.records, List.length_nil]
      omega

theorem pays_typedName : Pays Read.typedName (fun _ => 1) :=
  pays_text.bind fun _ => pays_text.bind fun _ => Pays.pure rfl

theorem records_place (owner : String) (code : List Instruction) :
    ((Read.place owner code).map Instruction.records) = code.map Instruction.records := by
  rw [place_eq]
  apply List.ext_getElem?
  intro k
  simp only [List.getElem?_map, List.getElem?_mapIdx, Option.map_map]
  rfl

theorem pays_method (name : String) : Pays (Read.method name) Method.records := by
  refine pays_text.bind fun returns => pays_text.bind fun documentation => ?_
  refine pays_u32.bind fun userFlags => pays_u8.bind fun flags => ?_
  refine pays_typedName.countedEach.bind fun parameters => ?_
  refine pays_typedName.countedEach.bind fun locals => ?_
  refine pays_instruction.counted.bind fun code => Pays.pure ?_
  simp only [Method.records, records_place]
  omega

theorem pays_namedMethod : Pays Read.namedMethod Method.records :=
  pays_text.bind fun name => (pays_method name).mono fun _ => Nat.sub_le _ _

theorem pays_optionalMethod (present : Bool) (name : String) :
    Pays (Read.optionalMethod present name) (fun m => (m.toList.map Method.records).sum) := by
  cases present with
  | false => exact Pays.pure rfl
  | true =>
    refine (pays_method name).bind fun m => Pays.pure ?_
    simp

theorem pays_field (generation : Generation) : Pays (Read.field generation) (fun _ => 1) := by
  rw [Read.field_eq]
  refine pays_text.bind fun _ => pays_text.bind fun _ => pays_u32.bind fun _ => ?_
  refine pays_value.bind fun _ => ?_
  exact (Pays.ite (pays_u8.mono fun _ => Nat.zero_le 1) rfl).bind fun _ => Pays.pure rfl

theorem pays_structField (generation : Generation) :
    Pays (Read.structField generation) (fun _ => 1) :=
  (pays_field generation).bind fun _ => pays_text.bind fun _ => Pays.pure rfl

theorem pays_struct (generation : Generation) :
    Pays (Read.struct generation) Struct.records := by
  refine pays_text.bind fun name => (pays_structField generation).countedEach.bind fun fields => ?_
  apply Pays.pure
  simp only [Struct.records]
  omega

/-- The accessors of a property pay for their methods, whatever else the property is. -/
theorem pays_accessors (name : String) (flags : UInt8) :
    Pays (Read.accessors name flags) (fun accessors => match accessors with
      | .auto _ => 0
      | .explicit getter setter =>
        (getter.toList.map Method.records).sum + (setter.toList.map Method.records).sum) := by
  by_cases hauto : flags &&& Property.autoFlag = 0
  · rw [Read.accessors_explicit hauto]
    refine (pays_optionalMethod _ _).bind fun getter => ?_
    refine (pays_optionalMethod _ _).bind fun setter => Pays.pure ?_
    simp only
    omega
  · rw [Read.accessors_auto hauto]
    exact pays_text.bind fun _ => Pays.pure rfl

theorem pays_property : Pays Read.property Property.records := by
  refine pays_text.bind fun name => pays_text.bind fun type => ?_
  refine pays_text.bind fun documentation => pays_u32.bind fun userFlags => ?_
  refine pays_u8.bind fun flags => (pays_accessors name flags).bind fun accessors => Pays.pure ?_
  cases accessors with
  | auto backing =>
    simp [Property.records, Property.methods, Property.getter?, Property.setter?]
  | explicit getter setter =>
    simp only [Property.records, Property.methods, Property.getter?, Property.setter?,
      List.map_append, List.sum_append]
    omega

theorem pays_state : Pays Read.state State.records := by
  refine pays_text.bind fun name => pays_namedMethod.counted.bind fun methods => Pays.pure ?_
  simp only [State.records]
  omega

theorem pays_objectType (generation : Generation) :
    Pays (Read.objectType generation) ObjectType.records := by
  rw [Read.objectType_eq]
  refine pays_text.bind fun name => pays_u32.bind fun _ => pays_text.bind fun base => ?_
  refine pays_text.bind fun documentation => ?_
  refine (Pays.ite (pays_u8.mono fun _ => Nat.zero_le 1) rfl).bind fun flags => ?_
  refine pays_u32.bind fun userFlags => pays_text.bind fun autoState => ?_
  refine (Pays.ite (pays_struct generation).counted rfl).bind fun structs => ?_
  refine (pays_field generation).countedEach.bind fun fields => ?_
  refine pays_property.counted.bind fun properties => ?_
  refine pays_state.counted.bind fun states => Pays.pure ?_
  simp only [ObjectType.records]
  omega

theorem pays_methodLines : Pays Read.methodLines (fun m => 1 + m.lines.length) := by
  refine pays_text.bind fun _ => pays_text.bind fun _ => pays_text.bind fun _ => ?_
  have hlines := (pays_u16.mono fun _ => Nat.le_succ 1).countedEach
  refine pays_u8.bind fun _ => hlines.bind fun lines => Pays.pure ?_
  simp only
  omega

theorem pays_names : Pays (Read.counted Read.indexedText) List.length :=
  (pays_text.mono fun _ => Nat.le_succ 1).countedEach

theorem pays_propertyGroup : Pays Read.propertyGroup (fun g => 1 + g.properties.length) := by
  refine pays_text.bind fun _ => pays_text.bind fun _ => pays_text.bind fun _ => ?_
  refine pays_u32.bind fun _ => pays_names.bind fun names => Pays.pure ?_
  simp only
  omega

theorem pays_structOrder : Pays Read.structOrder (fun s => 1 + s.fields.length) := by
  refine pays_text.bind fun _ => pays_text.bind fun _ => pays_names.bind fun names => Pays.pure ?_
  simp only
  omega

theorem pays_debugInfo (generation : Generation) :
    Pays (Read.debugInfo generation) DebugInfo.records := by
  rw [Read.debugInfo_eq]
  refine pays_u64.bind fun time => pays_methodLines.counted.bind fun methods => ?_
  refine (Pays.ite pays_propertyGroup.counted rfl).bind fun groups => ?_
  refine (Pays.ite pays_structOrder.counted rfl).bind fun structs => Pays.pure ?_
  simp only [DebugInfo.records]
  omega

theorem pays_debugSection (generation : Generation) :
    Pays (Read.debugSection generation) (fun d => d.elim 0 DebugInfo.records) := by
  refine pays_u8.bind fun present => ?_
  split
  · rw [map_eq_pure_bind]
    refine (pays_debugInfo generation).bind fun d => Pays.pure ?_
    simp only [Option.elim_some]
    omega
  · exact Pays.pure rfl

theorem pays_userFlag : Pays Read.userFlag (fun _ => 1) :=
  pays_text.bind fun _ => pays_u8.bind fun _ => Pays.pure rfl

theorem pays_content (generation : Generation) :
    Pays (Read.content generation) (fun c => c.1.elim 0 DebugInfo.records + c.2.1.length +
      (c.2.2.map ObjectType.records).sum) := by
  refine (pays_debugSection generation).bind fun debug => ?_
  refine pays_userFlag.countedEach.bind fun userFlags => ?_
  refine (pays_objectType generation).counted.bind fun types => Pays.pure ?_
  simp only
  omega

theorem pays_header : Pays Read.header (fun _ => 0) := by
  refine pays_u32.bind fun _ => pays_u8.bind fun _ => pays_u8.bind fun _ => ?_
  refine pays_u16.bind fun _ => pays_u64.bind fun _ => pays_inlineText.bind fun _ => ?_
  exact pays_inlineText.bind fun _ => pays_inlineText.bind fun _ => Pays.pure rfl

theorem pays_stringTable : Pays Read.stringTable (fun _ => 0) :=
  pays_inlineText.counted.bind fun _ => Pays.pure (Nat.zero_sub _)

theorem pays_assembly (generation : Generation) :
    Pays (Read.assembly generation) Assembly.records := by
  rw [Read.assembly_eq]
  refine pays_header.bind fun header => pays_stringTable.bind fun table => ?_
  intro s s' a hrun
  obtain ⟨_, t, hset, hrun⟩ := bind_ok hrun
  cases hset
  obtain ⟨⟨debug, userFlags, types⟩, u, hcontent, hrun⟩ := bind_ok hrun
  cases hrun
  exact pays_content generation _ _ _ hcontent

theorem decode_pays {options : DecodeOptions} {data : List UInt8} {a : Assembly}
    (h : decode options data = .ok a) : a.records ≤ data.length := by
  obtain ⟨s', -, hrun⟩ := decode_ok h
  have hpaid : a.records + s'.rest.length ≤ data.length := pays_assembly a.generation _ s' a hrun
  omega

/-- On its way from `s`, the reader `x` comes to run `y` from `t`. -/
inductive Reaches {β : Type} (y : Read β) (t : Reader) : {α : Type} → Read α → Reader → Prop
  | here : Reaches y t y t
  | first {α γ : Type} {x : Read α} {k : α → Read γ} {s : Reader} :
    Reaches y t x s → Reaches y t (x >>= k) s
  | second {α γ : Type} {x : Read α} {k : α → Read γ} {s u : Reader} {a : α} :
    x s = .ok a u → Reaches y t (k a) u → Reaches y t (x >>= k) s

/-- A fault on the way is the fault of the whole. -/
theorem Reaches.fails {y : Read β} {t u : Reader} {x : Read α} {s : Reader} {fault : Fault}
    (h : Reaches y t x s) (hy : y t = .error fault u) : x s = .error fault u := by
  induction h with
  | here => exact hy
  | first _ ih => exact bind_fails ih
  | second hx _ ih => rw [bind_run hx, ih]

/-- As many items as are asked for are paid for. -/
theorem Pays.repeatOnto_count {r : Read α} (h : Pays r fun _ => 1) (n : Nat) (done : List α) :
    Pays (Read.repeatOnto r n done) (fun _ => n) := by
  induction n generalizing done with
  | zero => exact Pays.pure rfl
  | succ n ih => exact h.bind fun a => (ih (a :: done)).mono fun _ => Nat.le_refl _

/-- If some items cannot be read, more of them fail at the same item. -/
theorem repeatOnto_fails {r : Read α} {m n : Nat} (hle : m ≤ n) {done : List α} {s u : Reader}
    {fault : Fault} (h : Read.repeatOnto r m done s = .error fault u) :
    Read.repeatOnto r n done s = .error fault u := by
  induction m generalizing n done s with
  | zero => cases h
  | succ m ih =>
    obtain ⟨n, rfl⟩ : ∃ n', n = n' + 1 := ⟨n - 1, by omega⟩
    obtain hitem | ⟨a, t, hitem, hrest⟩ := bind_error h
    · exact bind_fails hitem
    · rw [Read.repeatOnto, bind_run hitem]
      exact ih (by omega) hrest

/-- A list that is longer than the data ends at the first item for which there is none. -/
theorem times_fails {r : Read α} (h : Pays r fun _ => 1) {n : Nat} {s : Reader}
    (hlong : s.rest.length < n) :
    ∃ fault u, Read.times (s.rest.length + 1) r s = .error fault u ∧
      Read.times n r s = .error fault u := by
  cases hrun : Read.times (s.rest.length + 1) r s with
  | ok xs s' =>
    have hpaid : s.rest.length + 1 + s'.rest.length ≤ s.rest.length :=
      h.repeatOnto_count (s.rest.length + 1) [] s s' xs hrun
    omega
  | error fault u => exact ⟨fault, u, rfl, repeatOnto_fails hlong hrun⟩

/-- There is a call at `t` that promises `n` further arguments; `u` stands behind that number. -/
def Promises (t : Reader) (n : Int32) (u : Reader) : Prop :=
  ∃ (byte : UInt8) (opcode : Opcode) (arguments : List Value) (t₁ t₂ : Reader),
    Read.u8 t = .ok byte t₁ ∧ Opcode.ofByte? byte = some opcode ∧ opcode.variadic = true ∧
    Read.times opcode.arity Read.value t₁ = .ok arguments t₂ ∧ Read.value t₂ = .ok (.int n) u

theorem Promises.instruction_fails {t u v : Reader} {n : Int32} {fault : Fault}
    (h : Promises t n u) (hfails : Read.times n.toInt.toNat Read.value u = .error fault v) :
    Read.instruction t = .error fault v := by
  obtain ⟨byte, opcode, arguments, t₁, t₂, hbyte, hopcode, hvariadic, harguments, hcount⟩ := h
  have hposition (s : Reader) : Read.position s = .ok s.position s := rfl
  have hvariadics : Read.variadic t₂ = .error fault v := by
    rw [Read.variadic, bind_run (hposition t₂), bind_run hcount]
    exact hfails
  rw [Read.instruction, bind_run (hposition t), bind_run hbyte]
  simp only [hopcode, hvariadic, if_true]
  rw [bind_run harguments]
  exact bind_fails hvariadics

/-- Nothing is built that the data does not pay for. The records of a decoded assembly are no more
than the bytes of the data; and if the reader comes to a call that promises more further arguments
than there are bytes left, decoding fails with the fault of the first argument that is not there,
which is found after no more arguments than bytes. -/
theorem decode_bounded (options : DecodeOptions) (data : List UInt8) :
    (∀ a, decode options data = .ok a → a.records ≤ data.length) ∧
    ∀ (generation : Generation) (t u : Reader) (n : Int32), detect data = .ok generation →
      checkGeneration options.expected generation = .ok () →
      Reaches Read.instruction t (Read.assembly generation)
        { rest := data, order := generation.order, policy := options.policy } →
      Promises t n u → (u.rest.length : Int) < n.toInt →
      ∃ fault v, Read.times (u.rest.length + 1) Read.value u = .error fault v ∧
        decode options data = .error fault := by
  refine ⟨fun a => decode_pays, fun generation t u n hdetect hcheck hreaches hpromises hlong => ?_⟩
  obtain ⟨fault, v, hfirst, hfails⟩ :=
    times_fails pays_value (s := u) (n := n.toInt.toNat) (by omega)
  refine ⟨fault, v, hfirst, ?_⟩
  rw [decode_eq hdetect hcheck, hreaches.fails (hpromises.instruction_fails hfails)]
  rfl

/-- A container of the earlier generation, ending in a call with `2 ^ 31 - 1` further arguments. -/
def greedyContainer : List UInt8 :=
  -- magic number, version, game, time and three empty texts
  [0xFA, 0x57, 0xC0, 0xDE, 3, 2, 0, 1] ++ List.replicate 8 0 ++ [0, 0, 0, 0, 0, 0] ++
  -- a string table of one empty text, no debug information and no user flags
  [0, 1, 0, 0, 0, 0, 0] ++
  -- one type with neither fields nor properties
  [0, 1, 0, 0, 0, 0, 0, 0, 0, 0, 0, 0, 0, 0, 0, 0, 0, 0, 0, 0, 0, 0] ++
  -- one state with one method of one instruction
  [0, 1, 0, 0, 0, 1, 0, 0, 0, 0, 0, 0, 0, 0, 0, 0, 0, 0, 0, 0, 0, 0, 1] ++
  [0x18, 0, 0, 3, 0x7F, 0xFF, 0xFF, 0xFF]

def greedyReader (n : Nat) : Reader :=
  { rest := greedyContainer.drop n, order := .big, position := n, table := .ofList [""] }

theorem greedy_method :
    Reaches Read.instruction (greedyReader 74) (Read.method "") (greedyReader 59) := by
  refine .second (a := "") (u := greedyReader 61) rfl ?_
  refine .second (a := "") (u := greedyReader 63) rfl ?_
  refine .second (a := 0) (u := greedyReader 67) rfl ?_
  refine .second (a := 0) (u := greedyReader 68) rfl ?_
  refine .second (a := []) (u := greedyReader 70) rfl ?_
  refine .second (a := []) (u := greedyReader 72) rfl ?_
  refine .first (.second (a := 1) (u := greedyReader 74) rfl ?_)
  exact .first .here

theorem greedy_objectType :
    Reaches Read.instruction (greedyReader 74) (Read.objectType .skyrim) (greedyReader 31) := by
  refine .second (a := "") (u := greedyReader 33) rfl ?_
  refine .second (a := 0) (u := greedyReader 37) rfl ?_
  refine .second (a := "") (u := greedyReader 39) rfl ?_
  refine .second (a := "") (u := greedyReader 41) rfl ?_
  refine .second (a := 0) (u := greedyReader 41) rfl ?_
  refine .second (a := 0) (u := greedyReader 45) rfl ?_
  refine .second (a := "") (u := greedyReader 47) rfl ?_
  refine .second (a := []) (u := greedyReader 47) rfl ?_
  refine .second (a := []) (u := greedyReader 49) rfl ?_
  refine .second (a := []) (u := greedyReader 51) rfl ?_
  -- The one state, and in it the one method.
  refine .first (.second (a := 1) (u := greedyReader 53) rfl (.first ?_))
  refine .second (a := "") (u := greedyReader 55) rfl ?_
  refine .first (.second (a := 1) (u := greedyReader 57) rfl (.first ?_))
  exact .second (a := "") (u := greedyReader 59) rfl greedy_method

theorem greedy_reaches :
    Reaches Read.instruction (greedyReader 74) (Read.assembly .skyrim)
      { rest := greedyContainer, order := .big, policy := .lenient } := by
  rw [Read.assembly_eq]
  refine .second (a := ⟨magic, 3, 2, 1, 0, "", "", ""⟩)
    (u := { rest := greedyContainer.drop 22, order := .big, position := 22 }) rfl ?_
  refine .second (a := .ofList [""])
    (u := { rest := greedyContainer.drop 26, order := .big, position := 26 }) rfl ?_
  refine .second (a := ()) (u := greedyReader 26) rfl (.first ?_)
  refine .second (a := none) (u := greedyReader 27) rfl ?_
  refine .second (a := []) (u := greedyReader 29) rfl ?_
  exact .first (.second (a := 1) (u := greedyReader 31) rfl (.first greedy_objectType))

theorem greedy_promises : Promises (greedyReader 74) 0x7FFFFFFF (greedyReader 82) :=
  ⟨0x18, .callParent, [.none, .none], greedyReader 75, greedyReader 77, rfl, rfl, rfl, rfl, rfl⟩

theorem decode_bounded_greedy :
    (∃ bytes a, encode looseAssembly = .ok bytes ∧ decode {} bytes = .ok a ∧ a.records = 14 ∧
      a.records ≤ bytes.length) ∧
    (greedyReader 82).rest = [] ∧
    ∃ fault v, Read.times 1 Read.value (greedyReader 82) = .error fault v ∧
      decode {} greedyContainer = .error fault := by
  refine ⟨?_, rfl, (decode_bounded {} greedyContainer).2 .skyrim _ _ _ (by decide) rfl
    greedy_reaches greedy_promises (by decide)⟩
  obtain ⟨bytes, hencode⟩ := encode_of_encodable looseAssembly_encodable
  have hcalls : ∀ m ∈ looseAssembly.methods, ∀ i ∈ m.body.instructions,
      i.variadic.length < 2 ^ 31 := by decide
  have hdecode : decode {} bytes = .ok looseAssembly.normal :=
    decode_of_encode rfl hcalls (.inl rfl) hencode
  exact ⟨bytes, looseAssembly.normal, hencode, hdecode, by decide,
    (decode_bounded {} bytes).1 _ hdecode⟩

end Container

end PapyrusBackend
