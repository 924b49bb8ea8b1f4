import PapyrusBackend.Proofs.Container.CarriedType
import PapyrusBackend.Proofs.Container.Running

namespace PapyrusBackend.Container

theorem carries_methodLines (m : MethodLines) :
    Carries (Write.methodLines m) Read.methodLines m := by
  refine (carries_text m.type).bind ?_
  refine (carries_text m.state).bind ?_
  refine (carries_text m.name).bind ?_
  refine (carries_u8 m.role.toByte).bind ?_
  rw [Role.ofByte_toByte]
  exact (Carries.countedSame "line numbers" carries_u16 m.lines).map
    (MethodLines.mk m.type m.state m.name m.role)

theorem carries_propertyGroup (g : PropertyGroup) :
    Carries (Write.propertyGroup g) Read.propertyGroup g := by
  refine (carries_text g.object).bind ?_
  refine (carries_text g.name).bind ?_
  refine (carries_text g.documentation).bind ?_
  refine (carries_u32 g.userFlags).bind ?_
  exact (Carries.countedSame "names" carries_text g.properties).map
    (PropertyGroup.mk g.object g.name g.documentation g.userFlags)

theorem carries_structOrder (s : StructOrder) :
    Carries (Write.structOrder s) Read.structOrder s := by
  refine (carries_text s.type).bind ?_
  refine (carries_text s.name).bind ?_
  exact (Carries.countedSame "names" carries_text s.fields).map (StructOrder.mk s.type s.name)

theorem carries_debugInfo (generation : Generation) (d : DebugInfo) :
    Carries (Write.debugInfo generation d) (Read.debugInfo generation) (d.normal generation) := by
  rw [Write.debugInfo_eq, Read.debugInfo_eq]
  refine (carries_u64 d.time).bind ?_
  refine (Carries.countedSame "method descriptions" carries_methodLines d.methods).bind ?_
  refine (Carries.ite fun _ =>
    Carries.countedSame "property groups" carries_propertyGroup d.groups).bind ?_
  exact (Carries.ite fun _ =>
    Carries.countedSame "struct descriptions" carries_structOrder d.structs).map
      (DebugInfo.mk d.time d.methods _)

theorem carries_userFlag (f : UserFlag) : Carries (Write.userFlag f) Read.userFlag f :=
  (carries_text f.name).bind ((carries_u8 f.index).map (UserFlag.mk f.name))

theorem carries_header (h : Header) : Carries (Write.header h) Read.header h := by
  refine (carries_u32 h.identifier).bind ?_
  refine (carries_u8 h.major).bind ?_
  refine (carries_u8 h.minor).bind ?_
  refine (carries_u16 h.gameId).bind ?_
  refine (carries_u64 h.compileTime).bind ?_
  refine (carries_inlineText h.source).bind ?_
  refine (carries_inlineText h.user).bind ?_
  exact (carries_inlineText h.computer).map
    (Header.mk h.identifier h.major h.minor h.gameId h.compileTime h.source h.user)

theorem carries_debugSection (generation : Generation) (debug : Option DebugInfo) :
    Carries (Write.debugSection generation debug) (Read.debugSection generation)
      (debug.map (DebugInfo.normal generation)) := by
  cases debug with
  | none => exact (carries_u8 0).bind (w := pure ()) (Carries.pure none)
  | some d => exact (carries_u8 1).bind ((carries_debugInfo generation d).map some)

theorem carries_content {generation : Generation} {a : Assembly}
    (hcalls : ∀ m ∈ a.methods, CallsFit m) :
    Carries (Write.content generation a) (Read.content generation)
      (a.debug.map (DebugInfo.normal generation), a.userFlags,
        a.types.map (ObjectType.normal generation)) := by
  have htypes := Carries.counted "types" fun t (ht : t ∈ a.types) =>
    carries_objectType generation fun m hm =>
      hcalls m (List.mem_flatMap.mpr ⟨t, ht, hm⟩)
  rw [Write.content_eq]
  refine (carries_debugSection generation a.debug).bind ?_
  refine (Carries.countedSame "user flags" carries_userFlag a.userFlags).bind ?_
  exact htypes.map fun types => (a.debug.map (DebugInfo.normal generation), a.userFlags, types)

theorem carries_stringTable (strings : List String) :
    Carries (Write.counted "strings" Write.inlineText strings) Read.stringTable
      (StringTable.ofList strings) :=
  (Carries.countedSame "strings" carries_inlineText strings).map StringTable.ofList

def KeepsTable (w : Write Unit) : Prop := ∀ o o' : Output, w o = .ok () o' → o'.table = o.table

theorem KeepsTable.bind {w₁ w₂ : Write Unit} (h₁ : KeepsTable w₁) (h₂ : KeepsTable w₂) :
    KeepsTable (w₁ >>= fun _ => w₂) := by
  intro o o'' hrun
  obtain ⟨_, o', hfirst, hsecond⟩ := bind_ok hrun
  exact (h₂ o' o'' hsecond).trans (h₁ o o' hfirst)

theorem keepsTable_word (width n : Nat) : KeepsTable (Write.word width n) := by
  intro o o' hrun
  cases hrun
  rfl

theorem keepsTable_count (what : String) (n : Nat) : KeepsTable (Write.count what n) := by
  rw [Write.count]
  split
  · exact keepsTable_word 2 n
  · intro o o' hrun
    cases hrun

theorem keepsTable_inlineText (s : String) : KeepsTable (Write.inlineText s) := by
  refine (keepsTable_count "string bytes" _).bind ?_
  intro o o' hrun
  cases hrun
  rfl

theorem keepsTable_header (h : Header) : KeepsTable (Write.header h) := by
  refine (keepsTable_word 4 _).bind ?_
  refine (keepsTable_word 1 _).bind ?_
  refine (keepsTable_word 1 _).bind ?_
  refine (keepsTable_word 2 _).bind ?_
  refine (keepsTable_word 8 _).bind ?_
  refine (keepsTable_inlineText h.source).bind ?_
  exact (keepsTable_inlineText h.user).bind (keepsTable_inlineText h.computer)

theorem keepsTable_texts (strings : List String) :
    KeepsTable (Write.each Write.inlineText strings) := by
  induction strings with
  | nil =>
    intro o o' hrun
    cases hrun
    rfl
  | cons s strings ih => exact (keepsTable_inlineText s).bind ih

/-- The parts of a container: header, string table, and what is written with that table. -/
theorem encode_parts {a : Assembly} {bytes : List UInt8} (h : encode a = .ok bytes) :
    ∃ body header table : Output,
      Write.content a.generation a { order := a.generation.order } = .ok () body ∧
      Write.header a.header { order := a.generation.order } = .ok () header ∧
      Write.counted "strings" Write.inlineText body.table.toList header = .ok () table ∧
      bytes = table.bytes.toList ++ body.bytes.toList := by
  simp only [encode, encodeFor] at h
  split at h
  · cases h
  · next body hbody =>
    split at h
    · cases h
    · next table hfront =>
      obtain ⟨_, header, hheader, htable⟩ := bind_ok hfront
      cases h
      exact ⟨body, header, table, hbody, hheader, htable, Array.toList_append⟩

/-- Header and string table of a container, as a reader finds them in front of the content. -/
theorem encode_front {a : Assembly} {bytes : List UInt8} (h : encode a = .ok bytes) :
    ∃ (body : Output) (front strings : List UInt8),
      Write.content a.generation a { order := a.generation.order } = .ok () body ∧
      bytes = front ++ (strings ++ body.bytes.toList) ∧
      Takes Read.header a.generation.order [] front a.header ∧
      Takes Read.stringTable a.generation.order [] strings
        (StringTable.ofList body.table.toList) := by
  obtain ⟨body, header, table, hbody, hheader, htable, rfl⟩ := encode_parts h
  obtain ⟨horder, hsound, _, front, hfront, hreadHeader⟩ :=
    carries_header a.header _ _ StringTable.sound_empty hheader
  obtain ⟨_, _, _, strings, hstrings, hreadStrings⟩ :=
    carries_stringTable body.table.toList _ _ hsound htable
  have hkept : header.table = {} := keepsTable_header a.header _ _ hheader
  have hkept' : table.table = header.table :=
    (keepsTable_count "strings" _).bind (keepsTable_texts _) _ _ htable
  rw [hkept'] at hreadStrings
  rw [hkept] at hreadHeader hreadStrings
  rw [horder] at hreadStrings
  refine ⟨body, front, strings, hbody, ?_, hreadHeader [] (List.prefix_refl _),
    hreadStrings [] (List.prefix_refl _)⟩
  rw [hstrings, hfront]
  simp only [List.append_assoc]
  rfl

/-- What a container holds, part for part, as a reader finds it. -/
theorem encode_takes {a : Assembly} {bytes : List UInt8} (hcalls : ∀ m ∈ a.methods, CallsFit m)
    (h : encode a = .ok bytes) :
    ∃ (front strings content : List UInt8) (texts : List String),
      bytes = front ++ (strings ++ content) ∧
      Takes Read.header a.generation.order [] front a.header ∧
      Takes Read.stringTable a.generation.order [] strings (StringTable.ofList texts) ∧
      Takes (Read.content a.generation) a.generation.order texts content
        (a.debug.map (DebugInfo.normal a.generation), a.userFlags,
          a.types.map (ObjectType.normal a.generation)) := by
  obtain ⟨body, front, strings, hbody, rfl, hheader, hstrings⟩ := encode_front h
  obtain ⟨_, _, _, content, hcontent, hreadContent⟩ :=
    carries_content hcalls _ _ StringTable.sound_empty hbody
  refine ⟨front, strings, content, body.table.toList, ?_, hheader, hstrings,
    hreadContent _ (List.prefix_refl _)⟩
  rw [hcontent]
  rfl

end PapyrusBackend.Container
