import PapyrusBackend.Proofs.Container.Layout
import PapyrusBackend.Proofs.Container.Running

namespace PapyrusBackend.Container

section

variable (alike : Reader → Reader → Prop) (parting : Fault → Prop) (astray : Reader → Prop)

/-- The second result goes with the first, unless the first reader stopped at a parting. -/
inductive Follows : EStateM.Result Fault Reader α → EStateM.Result Fault Reader α → Prop
  | together {s t : Reader} (a : α) (h : alike s t) : Follows (.ok a s) (.ok a t)
  | stopped {s t : Reader} (fault : Fault) : Follows (.error fault s) (.error fault t)
  | parted {s : Reader} {fault : Fault} {result : EStateM.Result Fault Reader α}
      (h : parting fault) (hresult : ∀ a t, result = .ok a t → astray t) :
      Follows (.error fault s) result

end

structure Coupling where
  alike : Reader → Reader → Prop
  parting : Fault → Prop
  astray : Reader → Prop
  differ : ∀ {s t}, alike s t → t = { s with rest := t.rest, policy := t.policy }
  withTable : ∀ {s t}, alike s t → ∀ table, alike { s with table } { t with table }
  bytes : ∀ {s t}, alike s t → ∀ n,
    Follows alike parting astray (Read.bytes n s) (Read.bytes n t)
  resolve : ∀ {s t}, alike s t → ∀ place,
    Follows alike parting astray (Read.resolve place s) (Read.resolve place t)
  astray_withTable : ∀ {t}, astray t → ∀ table, astray { t with table }
  astray_bytes : ∀ {n t a t'}, astray t → Read.bytes n t = .ok a t' → astray t'
  astray_resolve : ∀ {place t a t'}, astray t → Read.resolve place t = .ok a t' → astray t'

/-- Two runs of `r` go together. -/
structure Coupled (c : Coupling) (r : Read α) : Prop where
  follows : ∀ {s t}, c.alike s t → Follows c.alike c.parting c.astray (r s) (r t)
  astray : ∀ {t a t'}, c.astray t → r t = .ok a t' → c.astray t'

variable {c : Coupling}

theorem Coupled.pure (a : α) : Coupled c (pure a) where
  follows h := .together a h
  astray h hrun := by
    cases hrun
    exact h

theorem Coupled.throw (fault : Fault) : Coupled c (throw fault : Read α) where
  follows _ := .stopped fault
  astray _ hrun := by cases hrun

theorem Coupled.bind {r : Read α} {k : α → Read β} (hr : Coupled c r)
    (hk : ∀ a, Coupled c (k a)) : Coupled c (r >>= k) where
  follows {s t} h := by
    have hfirst := hr.follows h
    show Follows _ _ _ (EStateM.bind r k s) (EStateM.bind r k t)
    simp only [EStateM.bind]
    generalize r s = first at hfirst ⊢
    generalize hsecond : r t = second at hfirst ⊢
    cases hfirst with
    | together a h' => exact (hk a).follows h'
    | stopped fault => exact .stopped fault
    | parted hfault hresult =>
      refine .parted hfault fun b t' hrun => ?_
      cases second with
      | error fault u => cases hrun
      | ok a u => exact (hk a).astray (hresult a u rfl) hrun
  astray h hrun := by
    obtain ⟨a, u, hfirst, hsecond⟩ := bind_ok hrun
    exact (hk a).astray (hr.astray h hfirst) hsecond

theorem Coupled.ite {r r' : Read α} {p : Prop} [Decidable p] (h : Coupled c r)
    (h' : Coupled c r') : Coupled c (if p then r else r') := by
  split
  · exact h
  · exact h'

/-- What alike readers have in common may be asked for. -/
theorem Coupled.get {g : Reader → β} {k : β → Read α}
    (hg : ∀ s rest policy, g { s with rest, policy } = g s) (hk : ∀ b, Coupled c (k b)) :
    Coupled c (get >>= fun s => k (g s)) where
  follows {s t} h := by
    have hsame : g t = g s := by rw [c.differ h, hg]
    show Follows _ _ _ (k (g s) s) (k (g t) t)
    rw [hsame]
    exact (hk (g s)).follows h
  astray {t _ _} h hrun := (hk (g t)).astray h hrun

theorem coupled_bytes (n : Nat) : Coupled c (Read.bytes n) :=
  ⟨fun h => c.bytes h n, fun h hrun => c.astray_bytes h hrun⟩

theorem coupled_word (width : Nat) : Coupled c (Read.word width) :=
  Coupled.get (g := Reader.order) (fun _ _ _ => rfl) fun order =>
    (coupled_bytes width).bind fun taken => Coupled.pure (ofBytes order taken)

theorem coupled_u8 : Coupled c Read.u8 := (coupled_word 1).bind fun _ => .pure _

theorem coupled_u16 : Coupled c Read.u16 := (coupled_word 2).bind fun _ => .pure _

theorem coupled_u32 : Coupled c Read.u32 := (coupled_word 4).bind fun _ => .pure _

theorem coupled_u64 : Coupled c Read.u64 := (coupled_word 8).bind fun _ => .pure _

theorem coupled_i32 : Coupled c Read.i32 := coupled_u32.bind fun _ => .pure _

theorem coupled_single : Coupled c Read.single := coupled_u32.bind fun _ => .pure _

theorem coupled_position : Coupled c Read.position :=
  Coupled.get (g := Reader.position) (fun _ _ _ => rfl) Coupled.pure

theorem coupled_inlineText : Coupled c Read.inlineText := by
  refine coupled_position.bind fun start => coupled_u16.bind fun length => ?_
  refine (coupled_bytes length.toNat).bind fun taken => ?_
  split
  · exact .pure _
  · exact .throw _

theorem coupled_resolve (place : UInt16) : Coupled c (Read.resolve place) :=
  ⟨fun h => c.resolve h place, fun h hrun => c.astray_resolve h hrun⟩

theorem coupled_text : Coupled c Read.indexedText := by
  refine coupled_u16.bind fun n => (coupled_resolve n).bind fun place => ?_
  exact Coupled.get (g := Reader.table) (fun _ _ _ => rfl) fun table =>
    Coupled.pure ((table.get? place).getD "")

theorem Coupled.repeatOnto {r : Read α} (h : Coupled c r) (n : Nat) (done : List α) :
    Coupled c (Read.repeatOnto r n done) := by
  induction n generalizing done with
  | zero => exact .pure _
  | succ n ih => exact h.bind fun a => ih (a :: done)

theorem Coupled.times {r : Read α} (h : Coupled c r) (n : Nat) : Coupled c (Read.times n r) :=
  h.repeatOnto n []

theorem Coupled.counted {r : Read α} (h : Coupled c r) : Coupled c (Read.counted r) :=
  coupled_u16.bind fun n => h.times n.toNat

theorem coupled_value : Coupled c Read.value := by
  refine coupled_position.bind fun start => coupled_u8.bind fun byte => ?_
  split
  · exact .throw _
  · exact .pure _
  · exact coupled_text.bind fun _ => .pure _
  · exact coupled_text.bind fun _ => .pure _
  · exact coupled_i32.bind fun _ => .pure _
  · exact coupled_single.bind fun _ => .pure _
  · exact coupled_u8.bind fun _ => .pure _

theorem coupled_variadic : Coupled c Read.variadic := by
  refine coupled_position.bind fun start => coupled_value.bind fun count => ?_
  cases count with
  | int n => exact coupled_value.times n.toInt.toNat
  | _ => exact .throw _

theorem coupled_instruction : Coupled c Read.instruction := by
  refine coupled_position.bind fun start => coupled_u8.bind fun byte => ?_
  split
  · exact .throw _
  · next opcode _ =>
    refine (coupled_value.times opcode.arity).bind fun arguments => ?_
    cases opcode.variadic with
    | true => exact coupled_variadic.bind fun _ => .pure _
    | false => exact .pure _

theorem coupled_typedName : Coupled c Read.typedName :=
  coupled_text.bind fun _ => coupled_text.bind fun _ => .pure _

theorem coupled_method (name : String) : Coupled c (Read.method name) := by
  refine coupled_text.bind fun _ => coupled_text.bind fun _ => ?_
  refine coupled_u32.bind fun _ => coupled_u8.bind fun _ => ?_
  refine coupled_typedName.counted.bind fun _ => coupled_typedName.counted.bind fun _ => ?_
  exact coupled_instruction.counted.bind fun _ => .pure _

theorem coupled_namedMethod : Coupled c Read.namedMethod :=
  coupled_text.bind fun name => coupled_method name

theorem coupled_optionalMethod (present : Bool) (name : String) :
    Coupled c (Read.optionalMethod present name) :=
  .ite ((coupled_method name).bind fun _ => .pure _) (.pure _)

theorem coupled_field (generation : Generation) : Coupled c (Read.field generation) := by
  rw [Read.field_eq]
  refine coupled_text.bind fun _ => coupled_text.bind fun _ => ?_
  refine coupled_u32.bind fun _ => coupled_value.bind fun _ => ?_
  exact (Coupled.ite coupled_u8 (.pure _)).bind fun _ => .pure _

theorem coupled_structField (generation : Generation) : Coupled c (Read.structField generation) :=
  (coupled_field generation).bind fun _ => coupled_text.bind fun _ => .pure _

theorem coupled_struct (generation : Generation) : Coupled c (Read.struct generation) :=
  coupled_text.bind fun _ => (coupled_structField generation).counted.bind fun _ => .pure _

theorem coupled_accessors (name : String) (flags : UInt8) :
    Coupled c (Read.accessors name flags) := by
  by_cases hauto : flags &&& Property.autoFlag = 0
  · rw [Read.accessors_explicit hauto]
    refine (coupled_optionalMethod _ _).bind fun _ => ?_
    exact (coupled_optionalMethod _ _).bind fun _ => .pure _
  · rw [Read.accessors_auto hauto]
    exact coupled_text.bind fun _ => .pure _

theorem coupled_property : Coupled c Read.property := by
  refine coupled_text.bind fun name => coupled_text.bind fun _ => coupled_text.bind fun _ => ?_
  refine coupled_u32.bind fun _ => coupled_u8.bind fun flags => ?_
  exact (coupled_accessors name flags).bind fun _ => .pure _

theorem coupled_state : Coupled c Read.state :=
  coupled_text.bind fun _ => coupled_namedMethod.counted.bind fun _ => .pure _

theorem coupled_objectType (generation : Generation) : Coupled c (Read.objectType generation) := by
  rw [Read.objectType_eq]
  refine coupled_text.bind fun _ => coupled_u32.bind fun _ => ?_
  refine coupled_text.bind fun _ => coupled_text.bind fun _ => ?_
  refine (Coupled.ite coupled_u8 (.pure _)).bind fun _ => coupled_u32.bind fun _ => ?_
  refine coupled_text.bind fun _ => ?_
  refine (Coupled.ite (coupled_struct generation).counted (.pure _)).bind fun _ => ?_
  refine (coupled_field generation).counted.bind fun _ => ?_
  exact coupled_property.counted.bind fun _ => coupled_state.counted.bind fun _ => .pure _

theorem coupled_methodLines : Coupled c Read.methodLines := by
  refine coupled_text.bind fun _ => coupled_text.bind fun _ => coupled_text.bind fun _ => ?_
  exact coupled_u8.bind fun _ => coupled_u16.counted.bind fun _ => .pure _

theorem coupled_propertyGroup : Coupled c Read.propertyGroup := by
  refine coupled_text.bind fun _ => coupled_text.bind fun _ => coupled_text.bind fun _ => ?_
  exact coupled_u32.bind fun _ => coupled_text.counted.bind fun _ => .pure _

theorem coupled_structOrder : Coupled c Read.structOrder :=
  coupled_text.bind fun _ => coupled_text.bind fun _ => coupled_text.counted.bind fun _ => .pure _

theorem coupled_debugInfo (generation : Generation) : Coupled c (Read.debugInfo generation) := by
  rw [Read.debugInfo_eq]
  refine coupled_u64.bind fun _ => coupled_methodLines.counted.bind fun _ => ?_
  refine (Coupled.ite coupled_propertyGroup.counted (.pure _)).bind fun _ => ?_
  exact (Coupled.ite coupled_structOrder.counted (.pure _)).bind fun _ => .pure _

theorem coupled_userFlag : Coupled c Read.userFlag :=
  coupled_text.bind fun _ => coupled_u8.bind fun _ => .pure _

theorem coupled_content (generation : Generation) : Coupled c (Read.content generation) := by
  have hdebug : Coupled c (Read.debugSection generation) :=
    coupled_u8.bind fun _ => .ite ((coupled_debugInfo generation).bind fun d => .pure (some d))
      (.pure _)
  refine hdebug.bind fun _ => coupled_userFlag.counted.bind fun _ => ?_
  exact (coupled_objectType generation).counted.bind fun _ => .pure _

theorem coupled_header : Coupled c Read.header := by
  refine coupled_u32.bind fun _ => coupled_u8.bind fun _ => coupled_u8.bind fun _ => ?_
  refine coupled_u16.bind fun _ => coupled_u64.bind fun _ => coupled_inlineText.bind fun _ => ?_
  exact coupled_inlineText.bind fun _ => coupled_inlineText.bind fun _ => .pure _

theorem coupled_withTable (table : StringTable) :
    Coupled c (modify fun r => { r with table }) where
  follows h := .together () (c.withTable h table)
  astray h hrun := by
    cases hrun
    exact c.astray_withTable h table

theorem coupled_assembly (generation : Generation) : Coupled c (Read.assembly generation) := by
  rw [Read.assembly_eq]
  refine coupled_header.bind fun header => ?_
  refine (coupled_inlineText.counted.bind fun strings => .pure _).bind fun table => ?_
  refine (coupled_withTable table).bind fun _ => (coupled_content generation).bind fun content => ?_
  exact Coupled.get (g := Reader.corrupted) (fun _ _ _ => rfl) fun corrupted => Coupled.pure _

/-- The mark of an assembly is that of the reader which it came from. -/
theorem assembly_corrupted {generation : Generation} {s s' : Reader} {a : Assembly}
    (h : Read.assembly generation s = .ok a s') : a.corrupted = s'.corrupted := by
  rw [Read.assembly_eq] at h
  obtain ⟨_, _, _, h⟩ := bind_ok h
  obtain ⟨_, _, _, h⟩ := bind_ok h
  obtain ⟨_, _, _, h⟩ := bind_ok h
  obtain ⟨_, _, _, h⟩ := bind_ok h
  cases h
  rfl

end PapyrusBackend.Container
