import PapyrusBackend.Proofs.Container.Emission
import PapyrusBackend.Proofs.Container.Layout

namespace PapyrusBackend.Container

theorem emits_value (v : Value) : Emits (Write.value v) True v.texts := by
  have hkind := emits_word 1 v.kind.toByte.toNat
  cases v with
  | none => exact (hkind.bind Emits.pure).congr (and_self_iff) rfl
  | reference s => exact (hkind.bind (emits_text s)).congr (and_self_iff) rfl
  | string s => exact (hkind.bind (emits_text s)).congr (and_self_iff) rfl
  | int i => exact (hkind.bind (emits_word 4 _)).congr (and_self_iff) rfl
  | float x => exact (hkind.bind (emits_word 4 _)).congr (and_self_iff) rfl
  | bool b => exact (hkind.bind (emits_word 1 _)).congr (and_self_iff) rfl

theorem emits_instruction (i : Instruction) : Emits (Write.instruction i) i.Fits i.texts := by
  by_cases harity : i.hasValidArity = true
  · have h := (emits_word 1 i.opcode.toByte.toNat).bind ((Emits.each emits_value i.arguments).bind
      (Emits.ite i.opcode.variadic ((emits_value (.int (Int32.ofNat i.variadic.length))).bind
        (Emits.each emits_value i.variadic))))
    rw [Write.instruction_eq i harity]
    refine h.congr (by simp [Instruction.Fits, harity]) ?_
    cases hv : i.opcode.variadic with
    | true => rfl
    | false =>
      have hnil : i.variadic = [] := by
        simp only [Instruction.hasValidArity, Bool.and_eq_true, hv, Bool.false_or,
          List.isEmpty_iff] at harity
        exact harity.2
      simp [Instruction.texts, hnil]
  · constructor
    · intro o o' hsound hrun
      rw [Write.instruction_fails i harity] at hrun
      cases hrun
    · intro o o' fault hsound hrun
      rw [Write.instruction_fails i harity] at hrun
      cases hrun
      exact ⟨trivial, fun h => harity h.1⟩

theorem emits_typedName (v : TypedName) : Emits (Write.typedName v) True v.texts :=
  ((emits_text v.name).bind (emits_text v.type)).congr and_self_iff rfl

theorem emits_method (m : Method) : Emits (Write.method m) m.Fits m.texts := by
  have h := (emits_text m.returns).bind ((emits_text m.documentation).bind
    ((emits_word 4 m.userFlags.toNat).bind ((emits_word 1 m.flags.toNat).bind
      ((Emits.counted "parameters" emits_typedName m.parameters).bind
        ((Emits.counted "variables" emits_typedName m.body.variables).bind
          (Emits.counted "instructions" emits_instruction m.body.instructions))))))
  refine h.congr ⟨?_, ?_⟩ rfl
  · rintro ⟨-, -, -, -, ⟨hparameters, -⟩, ⟨hlocals, -⟩, hinstructions, harity⟩
    exact ⟨hparameters, hlocals, hinstructions, harity⟩
  · intro h
    exact ⟨trivial, trivial, trivial, trivial, ⟨h.parameters, fun _ _ => trivial⟩,
      ⟨h.locals, fun _ _ => trivial⟩, h.instructions, h.arity⟩

theorem emits_namedMethod (m : Method) :
    Emits (Write.namedMethod m) m.Fits ([m.name] ++ m.texts) :=
  ((emits_text m.name).bind (emits_method m)).congr (and_iff_right trivial) rfl

theorem emits_field (generation : Generation) (f : Field) :
    Emits (Write.field generation f) True f.texts := by
  have h := (emits_text f.name).bind ((emits_text f.type).bind
    ((emits_word 4 f.userFlags.toNat).bind ((emits_value f.value).bind
      (Emits.ite generation.isLater (emits_word 1 f.flags.toNat)))))
  exact h.congr (by simp) (by simp [Field.texts])

theorem emits_structField (generation : Generation) (f : Field) :
    Emits (Write.structField generation f) True f.memberTexts :=
  ((emits_field generation f).bind (emits_text f.documentation)).congr and_self_iff rfl

theorem emits_struct (generation : Generation) (s : Struct) :
    Emits (Write.struct generation s) s.Fits s.texts :=
  ((emits_text s.name).bind
    (Emits.counted "struct members" (emits_structField generation) s.fields)).congr
    (by simp [Struct.Fits]) rfl

theorem emits_optionalMethod (m : Option Method) :
    Emits (Write.optionalMethod m) (∀ m' ∈ m, m'.Fits) (m.toList.flatMap Method.texts) := by
  cases m with
  | none => exact Emits.pure.congr (by simp) rfl
  | some m => exact (emits_method m).congr (by simp) (by simp)

theorem emits_accessors (p : Property) :
    Emits (Write.accessors p.accessors) p.Fits p.accessors.texts := by
  have hfits : p.Fits ↔ (∀ m ∈ p.getter?, m.Fits) ∧ (∀ m ∈ p.setter?, m.Fits) := by
    simp only [Property.Fits, Property.methods, List.mem_append, Option.mem_toList, Option.mem_def,
      or_imp, forall_and]
  cases ha : p.accessors with
  | auto backing =>
    refine (emits_text backing).congr ?_ rfl
    rw [hfits]
    simp [Property.getter?, Property.setter?, ha]
  | explicit getter setter =>
    refine ((emits_optionalMethod getter).bind (emits_optionalMethod setter)).congr ?_ rfl
    rw [hfits]
    simp only [Property.getter?, Property.setter?, ha]

theorem emits_property (p : Property) : Emits (Write.property p) p.Fits p.texts := by
  have h := (emits_text p.name).bind ((emits_text p.type).bind ((emits_text p.documentation).bind
    ((emits_word 4 p.userFlags.toNat).bind ((emits_word 1 p.storedFlags.toNat).bind
      (emits_accessors p)))))
  rw [Write.property_eq]
  exact h.congr (by simp) rfl

theorem emits_state (s : State) : Emits (Write.state s) s.Fits s.texts := by
  have h := (emits_text s.name).bind (Emits.counted "methods" emits_namedMethod s.methods)
  refine h.congr ⟨?_, ?_⟩ rfl
  · rintro ⟨-, hmethods, heach⟩
    exact ⟨hmethods, heach⟩
  · intro h
    exact ⟨trivial, h.methods, h.each⟩

theorem emits_objectType (generation : Generation) (t : ObjectType) :
    Emits (Write.objectType generation t) (t.Fits generation) (t.texts generation) := by
  have h := (emits_text t.base).bind ((emits_text t.documentation).bind
    ((Emits.ite generation.isLater (emits_word 1 t.flags.toNat)).bind
      ((emits_word 4 t.userFlags.toNat).bind ((emits_text t.autoState).bind
        ((Emits.ite generation.isLater
          (Emits.counted "structs" (emits_struct generation) t.structs)).bind
          ((Emits.counted "fields" (emits_field generation) t.fields).bind
            ((Emits.counted "properties" emits_property t.properties).bind
              (Emits.counted "states" emits_state t.states))))))))
  rw [Write.objectType, Write.typeContent_eq]
  refine ((emits_text t.name).bind h.framed).congr ⟨?_, ?_⟩ ?_
  · rintro ⟨-, -, -, -, -, -, hstructs, ⟨hfields, -⟩, hproperties, hstates⟩
    exact ⟨hstructs, hfields, hproperties, hstates⟩
  · intro h
    exact ⟨trivial, trivial, trivial, fun _ => trivial, trivial, trivial, h.structs,
      ⟨h.fields, fun _ _ => trivial⟩, h.properties, h.states⟩
  · simp [ObjectType.texts]

theorem emits_methodLines (m : MethodLines) : Emits (Write.methodLines m) m.Fits m.texts := by
  have h := (emits_text m.type).bind ((emits_text m.state).bind ((emits_text m.name).bind
    ((emits_word 1 m.role.toByte.toNat).bind
      (Emits.counted "line numbers" (fun n : UInt16 => emits_word 2 n.toNat) m.lines))))
  refine h.congr (by simp [MethodLines.Fits]) ?_
  simp [MethodLines.texts]

theorem emits_texts (what : String) (texts : List String) :
    Emits (Write.counted what Write.text texts) (Countable texts) texts :=
  (Emits.counted what emits_text texts).congr (by simp) (by simp)

theorem emits_propertyGroup (g : PropertyGroup) :
    Emits (Write.propertyGroup g) g.Fits g.texts := by
  have h := (emits_text g.object).bind ((emits_text g.name).bind ((emits_text g.documentation).bind
    ((emits_word 4 g.userFlags.toNat).bind (emits_texts "names" g.properties))))
  exact h.congr (by simp [PropertyGroup.Fits]) rfl

theorem emits_structOrder (s : StructOrder) : Emits (Write.structOrder s) s.Fits s.texts := by
  have h := (emits_text s.type).bind ((emits_text s.name).bind (emits_texts "names" s.fields))
  exact h.congr (by simp [StructOrder.Fits]) rfl

theorem emits_debugInfo (generation : Generation) (d : DebugInfo) :
    Emits (Write.debugInfo generation d) (d.Fits generation) (d.texts generation) := by
  have h := (emits_word 8 d.time.toNat).bind
    ((Emits.counted "method descriptions" emits_methodLines d.methods).bind
      ((Emits.ite generation.isLater
        (Emits.counted "property groups" emits_propertyGroup d.groups)).bind
        (Emits.ite generation.isLater
          (Emits.counted "struct descriptions" emits_structOrder d.structs))))
  rw [Write.debugInfo_eq]
  refine h.congr ⟨?_, ?_⟩ ?_
  · rintro ⟨-, hmethods, hgroups, hstructs⟩
    exact ⟨hmethods, hgroups, hstructs⟩
  · intro h
    exact ⟨trivial, h.methods, h.groups, h.structs⟩
  · cases hlater : generation.isLater <;> simp [DebugInfo.texts, hlater]

theorem emits_debugSection (generation : Generation) (debug : Option DebugInfo) :
    Emits (Write.debugSection generation debug) (∀ d ∈ debug, d.Fits generation)
      (debug.toList.flatMap (DebugInfo.texts generation)) := by
  cases debug with
  | none => exact (emits_word 1 0).congr (by simp) rfl
  | some d =>
    exact ((emits_word 1 1).bind (emits_debugInfo generation d)).congr (by simp) (by simp)

theorem emits_userFlag (f : UserFlag) : Emits (Write.userFlag f) True f.texts :=
  ((emits_text f.name).bind (emits_word 1 f.index.toNat)).congr and_self_iff rfl

theorem emits_content (a : Assembly) :
    Emits (Write.content a.generation a) a.Fits a.texts := by
  have h := (emits_debugSection a.generation a.debug).bind
    ((Emits.counted "user flags" emits_userFlag a.userFlags).bind
      (Emits.counted "types" (emits_objectType a.generation) a.types))
  rw [Write.content_eq]
  refine h.congr ⟨?_, ?_⟩ rfl
  · rintro ⟨hdebug, ⟨hflags, -⟩, htypes⟩
    exact ⟨hdebug, hflags, htypes⟩
  · intro h
    exact ⟨h.debug, ⟨h.userFlags, fun _ _ => trivial⟩, h.types⟩

theorem emits_header (h : Header) : Emits (Write.header h) h.Fits [] := by
  have hw := (emits_word 4 h.identifier.toNat).bind ((emits_word 1 h.major.toNat).bind
    ((emits_word 1 h.minor.toNat).bind ((emits_word 2 h.gameId.toNat).bind
      ((emits_word 8 h.compileTime.toNat).bind ((emits_inlineText h.source).bind
        ((emits_inlineText h.user).bind (emits_inlineText h.computer)))))))
  refine hw.congr ⟨?_, ?_⟩ rfl
  · rintro ⟨-, -, -, -, -, hsource, huser, hcomputer⟩
    exact ⟨hsource, huser, hcomputer⟩
  · intro h
    exact ⟨trivial, trivial, trivial, trivial, trivial, h.source, h.user, h.computer⟩

/-- The string table, which itself puts no texts into a table. -/
theorem emits_strings (strings : List String) :
    Emits (Write.counted "strings" Write.inlineText strings)
      (Countable strings ∧ ∀ s ∈ strings, Writable s) [] :=
  (Emits.counted "strings" emits_inlineText strings).congr Iff.rfl (by simp)

/-- An assembly is encoded just when it keeps all limits, and passing one is the only fault. -/
theorem encode_cases (a : Assembly) :
    (a.Encodable ∧ ∃ bytes, encode a = .ok bytes) ∨
      (¬a.Encodable ∧ ∃ fault, encode a = .error fault ∧ IsLimit fault) := by
  have hempty := StringTable.sound_empty
  simp only [encode, encodeFor]
  split
  · next fault o hbody =>
    obtain ⟨hlimit, hnot⟩ := (emits_content a).error _ _ fault hempty hbody
    refine .inr ⟨fun h => hnot ⟨h.fits, ?_⟩, fault, rfl, hlimit⟩
    exact Nat.le_of_lt h.table
  · next body hbody =>
    obtain ⟨hfits, hsound, htable⟩ := (emits_content a).ok _ _ hempty hbody
    have hfront := (emits_header a.header).bind (emits_strings body.table.toList)
    split
    · next fault o hrun =>
      obtain ⟨hlimit, hnot⟩ := hfront.error _ _ fault hempty hrun
      refine .inr ⟨fun h => hnot ⟨⟨h.header, ?_, ?_⟩, Nat.zero_le _⟩, fault, rfl, hlimit⟩
      · rw [htable]
        exact h.table
      · intro s hs
        rw [htable] at hs
        exact h.texts s ((mem_extend.mp hs).resolve_left List.not_mem_nil)
    · next front hrun =>
      obtain ⟨⟨hheader, hcount, hwritable⟩, _, _⟩ := hfront.ok _ _ hempty hrun
      rw [htable] at hcount hwritable
      exact .inl ⟨⟨hfits, hheader, hcount, fun s hs => hwritable s (mem_extend.mpr (.inr hs))⟩,
        _, rfl⟩

theorem encode_of_encodable {a : Assembly} (h : a.Encodable) : ∃ bytes, encode a = .ok bytes := by
  obtain ⟨_, hok⟩ | ⟨hnot, _⟩ := encode_cases a
  · exact hok
  · exact absurd h hnot

end PapyrusBackend.Container
