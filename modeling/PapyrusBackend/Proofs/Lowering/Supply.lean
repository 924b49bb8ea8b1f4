import PapyrusBackend.Proofs.Lowering.Confined
import PapyrusBackend.Proofs.Lowering.Fragment
import PapyrusBackend.Proofs.Lowering.Triple

namespace PapyrusBackend

def Instruction.operands (i : Instruction) : List Value :=
  (match i.opcode.resultArgument? with
    | some k => i.arguments.eraseIdx k
    | none => i.arguments) ++ i.variadic

def Instruction.reads (i : Instruction) : List String :=
  i.operands.flatMap Lowering.operandNames

theorem Instruction.reads_of_result {opcode : Opcode} (h : opcode.resultArgument? = some 0)
    (d : Value) (arguments : List Value) :
    Instruction.reads { opcode, arguments := d :: arguments } =
      arguments.flatMap Lowering.operandNames := by
  simp only [reads, operands, h, List.eraseIdx_cons_zero, List.append_nil]

namespace Lowering

open Source

/-- A name of the source, or one that code has written. -/
def Known (base : String → Prop) (code : List Instruction) (name : String) : Prop :=
  base name ∨ name ∈ assignedNames code

def Fed (base : String → Prop) (code : List Instruction) : Prop :=
  ∀ k i, code[k]? = some i → ∀ name ∈ i.reads, Known base (code.take k) name

variable {base stray : String → Prop} {code rest : List Instruction}
  {s t : Simulation}

theorem assignedNames_append (code rest : List Instruction) :
    assignedNames (code ++ rest) = assignedNames code ++ assignedNames rest :=
  List.flatMap_append

theorem assignedNames_singleton (j : Instruction) : assignedNames [j] = j.assigned :=
  List.flatMap_singleton _ _

theorem known_append {name : String} :
    Known base (code ++ rest) name ↔ Known base code name ∨ name ∈ assignedNames rest := by
  rw [Known, assignedNames_append, List.mem_append, ← or_assoc, Known]

theorem Known.append {name : String} (h : Known base code name) (rest : List Instruction) :
    Known base (code ++ rest) name := known_append.2 (.inl h)

theorem Fed.nil : Fed base [] := fun _ _ hi => (by cases hi)

/-- Code behind other code may read what that has written. -/
theorem fed_append :
    Fed base (code ++ rest) ↔ Fed base code ∧ Fed (Known base code) rest := by
  constructor
  · intro h
    refine ⟨fun k j hj name hname => ?_, fun k j hj name hname => ?_⟩
    · have hk := (List.getElem?_eq_some_iff.1 hj).1
      have hread := h k j ((List.getElem?_append_left hk).trans hj) name hname
      rwa [List.take_append_of_le_length (Nat.le_of_lt hk)] at hread
    · have hat : (code ++ rest)[code.length + k]? = some j := by
        rw [List.getElem?_append_right (Nat.le_add_right _ _), Nat.add_sub_cancel_left, hj]
      have hread := h _ j hat name hname
      rwa [List.take_length_add_append, known_append] at hread
  · rintro ⟨hcode, hrest⟩ k j hj name hname
    obtain hk | hk := Nat.lt_or_ge k code.length
    · rw [List.getElem?_append_left hk] at hj
      rw [List.take_append_of_le_length (Nat.le_of_lt hk)]
      exact hcode k j hj name hname
    · obtain ⟨n, rfl⟩ := Nat.exists_eq_add_of_le hk
      rw [List.getElem?_append_right hk, Nat.add_sub_cancel_left] at hj
      rw [List.take_length_add_append, known_append]
      exact hrest n j hj name hname

theorem fed_singleton {j : Instruction} : Fed base [j] ↔ ∀ name ∈ j.reads, base name := by
  constructor
  · intro h name hname
    exact (h 0 j rfl name hname).resolve_right List.not_mem_nil
  · intro h k j' hj name hname
    cases k with
    | zero =>
      cases hj
      exact .inl (h name hname)
    | succ k => cases hj

theorem Fed.mono {base' : String → Prop} (h : Fed base code) (hbase : ∀ name, base name → base' name) :
    Fed base' code :=
  fun k j hj name hname => (h k j hj name hname).imp_left (hbase name)

def Simulation.declares (s : Simulation) (name : String) : Prop :=
  name ∈ s.variables.map TypedName.name

/-- Code may assign what is declared. Names that are `stray` may be assigned all the same. -/
def Assignable (stray : String → Prop) (s : Simulation) (name : String) : Prop :=
  s.declares name ∨ stray name

theorem Assignable.mono {name : String} (h : Assignable stray s name)
    (hdeclares : ∀ name, s.declares name → t.declares name) : Assignable stray t name :=
  h.imp_left (hdeclares name)

def EndsAssigning (code : List Instruction) (name : String) : Prop :=
  ∃ front last, code = front ++ [last] ∧ last.assigned = [name]

theorem endsAssigning_singleton {j : Instruction} {name : String} (h : j.assigned = [name]) :
    EndsAssigning [j] name := ⟨[], j, rfl, h⟩

theorem EndsAssigning.append_left {name : String} (h : EndsAssigning rest name)
    (code : List Instruction) : EndsAssigning (code ++ rest) name := by
  obtain ⟨front, last, rfl, hlast⟩ := h
  exact ⟨code ++ front, last, (List.append_assoc _ _ _).symm, hlast⟩

theorem EndsAssigning.mem {name : String} (h : EndsAssigning code name) :
    name ∈ assignedNames code := by
  obtain ⟨front, last, rfl, hlast⟩ := h
  rw [assignedNames_append, assignedNames_singleton, hlast]
  exact List.mem_append_right _ List.mem_cons_self

/-- The instruction behind emitted code has been taken care of, so that its last variable may be
assigned as well. -/
def Opened (stray : String → Prop) (emitted : List Instruction) (t : Simulation) (name : String) :
    Prop :=
  stray name ∨ t.skipNext = true ∧ EndsAssigning emitted name

theorem Opened.append_left {name : String} (h : Opened stray rest t name)
    (code : List Instruction) : Opened stray (code ++ rest) t name :=
  h.imp_right fun hlast => ⟨hlast.1, hlast.2.append_left code⟩

def Item.mentions (item : Item) : List String :=
  match item.content with
  | .literal value => operandNames value
  | .held v => v.name :: v.invoke.toList
  | .member source field => [source.name, field.name]
  | .method name => [name]
  | .comparison _ lhs rhs => operandNames lhs ++ operandNames rhs

structure Item.Familiar (base : String → Prop) (code : List Instruction) (item : Item) : Prop where
  sound : item.isSound = true
  known : ∀ name ∈ item.mentions, Known base code name

def FamiliarVariable (base : String → Prop) (code : List Instruction) (v : Variable) : Prop :=
  (Item.ofVariable v).Familiar base code

/-- All that a simulation refers to is known, and what it may write is declared. The variables of
joins are only said to be `slots`: new ones are not yet written when they are made. -/
structure Familiar (base : String → Prop) (slots : Variable → Prop) (code : List Instruction)
    (s : Simulation) : Prop where
  items : ∀ item ∈ s.stack, item.Familiar base code
  joins : ∀ join ∈ s.joins, ∀ v ∈ join.2, slots v ∧ s.declares v.name
  locals : ∀ v ∈ s.locals, FamiliarVariable base code v ∧ (v.isDelegate = false → s.declares v.name)
  delegates : ∀ entry ∈ s.delegates, Known base code entry.2

structure Grounded (base stray : String → Prop) (code : List Instruction)
    (s : Simulation) : Prop where
  fed : Fed base code
  assigned : ∀ name ∈ assignedNames code, Assignable stray s name

structure Supplies (base stray : String → Prop) (slots : Variable → Prop)
    (code : List Instruction) (s : Simulation) : Prop extends Grounded base stray code s where
  familiar : Familiar base slots code s

def KnownValue (base : String → Prop) (code : List Instruction) (value : Value) : Prop :=
  ∀ name ∈ operandNames value, Known base code name

variable {slots : Variable → Prop}

theorem KnownValue.append {value : Value} (h : KnownValue base code value)
    (rest : List Instruction) : KnownValue base (code ++ rest) value :=
  fun name hname => (h name hname).append rest

theorem knownValue_reference {name : String} (h : Known base code name) :
    KnownValue base code (.reference name) :=
  fun _ hname => List.mem_singleton.1 hname ▸ h

theorem Item.Familiar.append {item : Item} (h : item.Familiar base code) (rest : List Instruction) :
    item.Familiar base (code ++ rest) :=
  ⟨h.sound, fun name hname => (h.known name hname).append rest⟩

theorem FamiliarVariable.append {v : Variable} (h : FamiliarVariable base code v)
    (rest : List Instruction) : FamiliarVariable base (code ++ rest) v :=
  Item.Familiar.append h rest

theorem FamiliarVariable.of_known {v : Variable} (hname : Known base code v.name)
    (hinvoke : ∀ method ∈ v.invoke, Known base code method) : FamiliarVariable base code v := by
  refine ⟨rfl, fun name hmention => ?_⟩
  obtain rfl | hmethod := List.mem_cons.1 hmention
  · exact hname
  · exact hinvoke name (Option.mem_toList.1 hmethod)

theorem FamiliarVariable.invoke {v : Variable} (h : FamiliarVariable base code v) :
    ∀ method ∈ v.invoke, Known base code method :=
  fun method hmethod => h.known method (List.mem_cons_of_mem _ (Option.mem_toList.2 hmethod))

/-- A familiar item holds a familiar delegate. -/
theorem Item.Familiar.delegate {item : Item} (h : item.Familiar base code) {v : Variable}
    (hv : item.delegate? = some v) : FamiliarVariable base code v := by
  have hknown := h.known
  rw [Item.delegate?] at hv
  split at hv
  · next w hcontent =>
    split at hv
    · cases hv
      rw [Item.mentions, hcontent] at hknown
      exact ⟨rfl, hknown⟩
    · cases hv
  · cases hv

theorem Familiar.append (h : Familiar base slots code s) (rest : List Instruction) :
    Familiar base slots (code ++ rest) s where
  items item hitem := (h.items item hitem).append rest
  joins := h.joins
  locals v hv := ⟨((h.locals v hv).1).append rest, (h.locals v hv).2⟩
  delegates entry hentry := (h.delegates entry hentry).append rest

/-- Another stack of familiar items, with the same variables or more. -/
theorem Familiar.restack (h : Familiar base slots code s)
    (hitems : ∀ item ∈ t.stack, item.Familiar base code) (hjoins : t.joins = s.joins)
    (hlocals : t.locals = s.locals) (hdelegates : t.delegates = s.delegates)
    (hdeclares : ∀ name, s.declares name → t.declares name) : Familiar base slots code t where
  items := hitems
  joins join hjoin v hv :=
    have hslot := h.joins join (hjoins ▸ hjoin) v hv
    ⟨hslot.1, hdeclares _ hslot.2⟩
  locals v hv :=
    have hlocal := h.locals v (hlocals ▸ hv)
    ⟨hlocal.1, fun hdelegate => hdeclares _ (hlocal.2 hdelegate)⟩
  delegates entry hentry := h.delegates entry (hdelegates ▸ hentry)

theorem Grounded.mono (h : Grounded base stray code s)
    (hdeclares : ∀ name, s.declares name → t.declares name) : Grounded base stray code t :=
  ⟨h.fed, fun name hname => (h.assigned name hname).mono hdeclares⟩

theorem Grounded.mono_stray {stray' : String → Prop} (h : Grounded base stray code s)
    (hstray : ∀ name, stray name → Assignable stray' s name) : Grounded base stray' code s :=
  ⟨h.fed, fun name hname => (h.assigned name hname).elim .inl (hstray name)⟩

theorem Grounded.at_once (h : Grounded base stray code s) : Grounded base stray (code ++ []) s :=
  (List.append_nil code).symm ▸ h

theorem Grounded.append (h : Grounded base stray code s) (hfed : Fed (Known base code) rest)
    (hassigned : ∀ name ∈ assignedNames rest, Assignable stray s name) :
    Grounded base stray (code ++ rest) s where
  fed := fed_append.2 ⟨h.fed, hfed⟩
  assigned name hname := by
    rw [assignedNames_append, List.mem_append] at hname
    exact hname.elim (h.assigned name) (hassigned name)

/-- Code may also stand further down. -/
theorem Grounded.behind {middle : List Instruction} (h : Grounded base stray (code ++ rest) s)
    (hmiddle : Grounded base stray (code ++ middle) s) :
    Grounded base stray (code ++ middle ++ rest) s := by
  refine hmiddle.append ((fed_append.1 h.fed).2.mono fun name hname => hname.append middle) ?_
  exact fun name hname => h.assigned name (by
    rw [assignedNames_append]
    exact List.mem_append_right _ hname)

/-- One more instruction. -/
theorem Grounded.emit (h : Grounded base stray code s) {j : Instruction}
    (hreads : ∀ name ∈ j.reads, Known base code name)
    (hassigned : ∀ name ∈ j.assigned, Assignable stray s name) :
    Grounded base stray (code ++ [j]) s :=
  h.append (fed_singleton.2 hreads) fun name hname =>
    hassigned name (assignedNames_singleton j ▸ hname)

/-- An instruction whose first argument takes its result. -/
theorem Grounded.result (h : Grounded base stray code s) {opcode : Opcode}
    (hopcode : opcode.resultArgument? = some 0) {v : Variable} {arguments : List Value}
    (harguments : ∀ value ∈ arguments, KnownValue base code value)
    (hv : Assignable stray s v.name) :
    Grounded base stray (code ++ [{ opcode, arguments := v.value :: arguments }]) s := by
  apply h.emit
  · intro name hname
    rw [Instruction.reads_of_result hopcode, List.mem_flatMap] at hname
    obtain ⟨value, hvalue, hname⟩ := hname
    exact harguments value hvalue name hname
  · intro name hname
    rw [Lower.assigned_result hopcode, List.mem_singleton] at hname
    exact hname ▸ hv

/-- A comparison may be made of known operands, and its result is then written. -/
theorem Grounded.compares (h : Grounded base stray code s) {opcode : Opcode}
    (hopcode : opcode.resultArgument? = some 0) {lhs rhs : Value} (hlhs : KnownValue base code lhs)
    (hrhs : KnownValue base code rhs) {v : Variable} (hv : s.declares v.name) :
    Grounded base stray (code ++ [{ opcode, arguments := [v.value, lhs, rhs] }]) s ∧
      v.name ∈ assignedNames [{ opcode, arguments := [v.value, lhs, rhs] }] := by
  refine ⟨h.result hopcode ?_ (.inl hv), ?_⟩
  · exact List.forall_mem_cons.2 ⟨hlhs, List.forall_mem_singleton.2 hrhs⟩
  · rw [assignedNames_singleton, Lower.assigned_result hopcode]
    exact List.mem_cons_self

theorem Grounded.supplies (h : Grounded base stray (code ++ rest) s)
    (hfamiliar : Familiar base slots code s) : Supplies base stray slots (code ++ rest) s :=
  ⟨h, hfamiliar.append rest⟩

/-- A change that keeps the joins, the locals and the bindings. -/
theorem Supplies.restack (h : Supplies base stray slots code s)
    (hitems : ∀ item ∈ t.stack, item.Familiar base code) (hjoins : t.joins = s.joins)
    (hlocals : t.locals = s.locals) (hdelegates : t.delegates = s.delegates)
    (hdeclares : ∀ name, s.declares name → t.declares name) : Supplies base stray slots code t :=
  ⟨h.toGrounded.mono hdeclares, h.familiar.restack hitems hjoins hlocals hdelegates hdeclares⟩

theorem Supplies.mono_stray {stray' : String → Prop} (h : Supplies base stray slots code s)
    (hstray : ∀ name, stray name → Assignable stray' s name) : Supplies base stray' slots code s :=
  ⟨h.toGrounded.mono_stray hstray, h.familiar⟩

theorem Supplies.mono_slots {slots' : Variable → Prop} (h : Supplies base stray slots code s)
    (hslots : ∀ v, slots v → slots' v) : Supplies base stray slots' code s where
  toGrounded := h.toGrounded
  familiar :=
    { h.familiar with
      joins := fun join hjoin v hv =>
        ⟨hslots v (h.familiar.joins join hjoin v hv).1, (h.familiar.joins join hjoin v hv).2⟩ }

abbrev Supplied (base stray : String → Prop) (slots : Variable → Prop) (code : List Instruction)
    (emitted : List Instruction) (t : Simulation) : Prop :=
  Supplies base (Opened stray emitted t) slots (code ++ emitted) t

theorem Supplies.supplied {emitted : List Instruction}
    (h : Supplies base stray slots (code ++ emitted) s) : Supplied base stray slots code emitted s :=
  h.mono_stray fun _ hname => .inr (.inl hname)

theorem Supplied.append_left {emitted : List Instruction}
    (h : Supplied base stray slots (code ++ rest) emitted s) :
    Supplied base stray slots code (rest ++ emitted) s := by
  have hopened := h.mono_stray fun name hname => .inr (hname.append_left rest)
  rwa [List.append_assoc] at hopened

/-- The variables of joins are known as well. So it is between two instructions. -/
abbrev Served (base stray : String → Prop) (code : List Instruction) :
    Simulation → Prop :=
  Supplies base stray (FamiliarVariable base code) code

structure Extends (s t : Simulation) : Prop where
  stack : t.stack = s.stack
  joins : t.joins = s.joins
  locals : t.locals = s.locals
  delegates : t.delegates = s.delegates
  skipNext : t.skipNext = s.skipNext
  declares : ∀ name, s.declares name → t.declares name

def Stable (J : Simulation → Prop) : Prop := ∀ s t, Extends s t → J s → J t

theorem Stable.and {J K : Simulation → Prop} (hJ : Stable J) (hK : Stable K) :
    Stable fun s => J s ∧ K s :=
  fun s t h hs => ⟨hJ s t h hs.1, hK s t h hs.2⟩

theorem stable_declares (name : String) : Stable fun s => s.declares name :=
  fun _ _ h => h.declares name

theorem stable_grounded : Stable (Grounded base stray code) := fun _ _ h hs => hs.mono h.declares

theorem stable_supplies : Stable (Supplies base stray slots code) := fun _ _ h hs =>
  hs.restack (h.stack ▸ hs.familiar.items) h.joins h.locals h.delegates h.declares

end Lowering

end PapyrusBackend
