import PapyrusBackend.Proofs.Container.CarriedContent
import PapyrusBackend.Proofs.Container.Encodable
import PapyrusBackend.Proofs.Container.Extent
import PapyrusBackend.Proofs.Container.TableHistory

namespace PapyrusBackend.Container

def Write.patched (content : Write Unit) : Write Unit := do
  let start := (← get).bytes.size
  u32 0
  content
  let stop := (← get).bytes.size
  patch start (UInt32.ofNat (stop - start))

theorem size_appendList (done : Array UInt8) (added : List UInt8) :
    (done.appendList added).size = done.size + added.length := by
  rw [← Array.length_toList, Array.appendList_eq_append, Array.toList_appendList,
    List.length_append, Array.length_toList]

/-- What is written over four bytes leaves all others as they are. -/
theorem patch_appended (order : ByteOrder) (done : Array UInt8) {old : List UInt8}
    (hold : old.length = 4) (added : List UInt8) (table : StringTable) (n : UInt32) :
    Write.patch done.size n ⟨order, done.appendList (old ++ added), table⟩ =
      .ok () ⟨order, done.appendList (toBytes order 4 n.toNat ++ added), table⟩ := by
  have hbytes : (done.appendList (old ++ added)).toList = done.toList ++ (old ++ added) := by
    rw [Array.appendList_eq_append, Array.toList_appendList]
  have hbefore : (done.toList ++ (old ++ added)).take done.size = done.toList := by
    rw [← Array.length_toList, List.take_left]
  have hafter : (done.toList ++ (old ++ added)).drop (done.size + 4) = added := by
    rw [← hold, ← Array.length_toList, ← List.length_append, ← List.append_assoc, List.drop_left]
  simp only [Write.patch, hbytes, hbefore, hafter, EStateM.Result.ok.injEq, Output.mk.injEq,
    true_and, and_true]
  apply Array.toList_inj.mp
  rw [Array.appendList_eq_append, Array.toList_appendList, List.append_assoc]

theorem toBytes_toNat_ofNat (order : ByteOrder) (n : Nat) :
    toBytes order 4 (UInt32.ofNat n).toNat = toBytes order 4 n := by
  have hn : (UInt32.ofNat n).toNat = n % 256 ^ 4 := UInt32.toNat_ofNat'
  rw [hn, ← ofBytes_toBytes order, toBytes_ofBytes order (length_toBytes order 4 n)]

/-- Both ways to write a section with its size come to the same. -/
theorem framed_run {content : Write Unit} {n : Nat} (h : Appends content n) {order : ByteOrder}
    {done : Array UInt8} {table : StringTable} {o : Output}
    (hrun : content ⟨order, done, table⟩ = .ok () o) :
    ∃ (added : List UInt8) (table' : StringTable), added.length = n ∧ ∀ done',
      Write.framed content ⟨order, done', table⟩ =
        .ok () ⟨order, done'.appendList (toBytes order 4 (n + 4) ++ added), table'⟩ ∧
      Write.patched content ⟨order, done', table⟩ =
        .ok () ⟨order, done'.appendList (toBytes order 4 (n + 4) ++ added), table'⟩ := by
  obtain ⟨added, table', hlength, hadds⟩ := h order done table o hrun
  refine ⟨added, table', hlength, fun done' => ⟨?_, ?_⟩⟩
  · have hsize : (Array.empty.appendList added).size = n := by
      rw [size_appendList, hlength]
      exact Nat.zero_add n
    simp only [Write.framed, hadds, hsize, EStateM.Result.ok.injEq, Output.mk.injEq, true_and,
      and_true]
    apply Array.toList_inj.mp
    simp only [Array.toList_append, Array.appendList_eq_append, Array.toList_appendList,
      List.append_assoc]
    rfl
  · -- The place of the size is known before the content is written and used after it.
    have hroom : Write.u32 0 ⟨order, done', table⟩ =
        .ok () ⟨order, done'.appendList (toBytes order 4 0), table⟩ := rfl
    have hcontent := hadds (done'.appendList (toBytes order 4 0))
    have hstop : (done'.appendList (toBytes order 4 0 ++ added)).size - done'.size = n + 4 := by
      rw [size_appendList, List.length_append, length_toBytes, hlength]
      omega
    rw [appendList_append] at hcontent
    rw [Write.patched, get_bind, bind_run hroom, bind_run hcontent, get_bind, hstop,
      patch_appended order done' (length_toBytes order 4 0), toBytes_toNat_ofNat]

/-- Leaving room for the size and filling it in later writes what writing the size first writes. -/
theorem framed_iff_patched {content : Write Unit} {n : Nat} (h : Appends content n)
    (o o' : Output) :
    Write.framed content o = .ok () o' ↔ Write.patched content o = .ok () o' := by
  obtain ⟨order, done, table⟩ := o
  constructor
  · intro hrun
    cases hc : content ⟨order, Array.empty, table⟩ with
    | error fault inner =>
      simp only [Write.framed, hc] at hrun
      cases hrun
    | ok u inner =>
      obtain ⟨added, table', -, hboth⟩ := framed_run h hc
      rw [(hboth done).1] at hrun
      rw [(hboth done).2, hrun]
  · intro hrun
    rw [Write.patched, get_bind] at hrun
    obtain ⟨_, room, hroom, hrest⟩ := bind_ok hrun
    cases hroom
    obtain ⟨_, inner, hcontent, -⟩ := bind_ok hrest
    obtain ⟨added, table', -, hboth⟩ := framed_run h hcontent
    rw [(hboth done).1, ← (hboth done).2, Write.patched, get_bind, hrun]

structure Visit where
  name : UInt16
  size : Nat
  deriving DecidableEq

/-- Goes from type to type: two bytes for the name, then as many as the size says, which stands in
the first four of them. A walk must end where the data ends. -/
def walk (order : ByteOrder) (data : List UInt8) : Option (List Visit) :=
  if data = [] then some []
  else if data.length < 6 then none
  else
    let size := ofBytes order ((data.drop 2).take 4)
    if (data.drop 2).length < size then none
    else (walk order ((data.drop 2).drop size)).map
      (⟨UInt16.ofNat (ofBytes order (data.take 2)), size⟩ :: ·)
termination_by data.length
decreasing_by
  simp only [List.length_drop]
  omega

theorem walk_nil (order : ByteOrder) : walk order [] = some [] := by
  rw [walk, if_pos rfl]

/-- A name and a part that starts with its own size make one visit. -/
theorem walk_append {order : ByteOrder} {name part : List UInt8} (hname : name.length = 2)
    (hpart : 4 ≤ part.length) (hsize : ofBytes order (part.take 4) = part.length)
    (rest : List UInt8) :
    walk order (name ++ (part ++ rest)) =
      (walk order rest).map (⟨UInt16.ofNat (ofBytes order name), part.length⟩ :: ·) := by
  have hlong : ¬(name ++ (part ++ rest)).length < 6 := by
    rw [List.length_append, List.length_append]
    omega
  have hne : name ++ (part ++ rest) ≠ [] := by
    intro h
    rw [h] at hlong
    exact hlong (by decide)
  have hfits : ¬(part ++ rest).length < part.length := by
    rw [List.length_append]
    omega
  have hdrop : (name ++ (part ++ rest)).drop 2 = part ++ rest := List.drop_left' hname
  rw [walk, if_neg hne, if_neg hlong]
  simp only [hdrop, List.take_left' hname, List.take_append_of_le_length hpart, hsize,
    if_neg hfits, List.drop_left]

theorem walk_type (order : ByteOrder) (place : UInt16) {inner : List UInt8}
    (hsize : inner.length + 4 < 2 ^ 32) (rest : List UInt8) :
    walk order (toBytes order 2 place.toNat ++
        ((toBytes order 4 (inner.length + 4) ++ inner) ++ rest)) =
      (walk order rest).map (⟨place, inner.length + 4⟩ :: ·) := by
  have hfour := length_toBytes order 4 (inner.length + 4)
  have hlength : (toBytes order 4 (inner.length + 4) ++ inner).length = inner.length + 4 := by
    rw [List.length_append, hfour, Nat.add_comm]
  have hread : ofBytes order ((toBytes order 4 (inner.length + 4) ++ inner).take 4) =
      inner.length + 4 := by
    rw [List.take_left' hfour, ofBytes_toBytes]
    exact Nat.mod_eq_of_lt hsize
  have hplace : UInt16.ofNat (ofBytes order (toBytes order 2 place.toNat)) = place := by
    rw [ofBytes_toBytes, Nat.mod_eq_of_lt (show place.toNat < 256 ^ 2 from place.toNat_lt),
      UInt16.ofNat_toNat]
  rw [walk_append (length_toBytes order 2 _) (by omega) (hread.trans hlength.symm), hplace, hlength]

/-- Writing only adds texts behind those that are known. -/
theorem Emits.isPrefix {w : Write Unit} {fits : Prop} {texts : List String} (h : Emits w fits texts)
    {o o' : Output} (hsound : o.table.Sound) (hrun : w o = .ok () o') :
    o.table.toList <+: o'.table.toList := by
  rw [(h.ok o o' hsound hrun).2.2]
  exact prefix_extend _ _

theorem text_ok {s : String} {o o' : Output} (hsound : o.table.Sound)
    (h : Write.text s o = .ok () o') :
    ∃ place : UInt16, o'.order = o.order ∧ o'.table.Sound ∧ o'.table.get? place = some s ∧
      o'.table.toList = extend o.table.toList [s] ∧
      o'.bytes = o.bytes.appendList (toBytes o.order 2 place.toNat) := by
  obtain ⟨-, hsound', htable⟩ := (emits_text s).ok o o' hsound h
  cases hintern : o.table.intern s with
  | mk found table =>
    cases found with
    | none =>
      simp only [Write.text, hintern] at h
      cases h
    | some place =>
      have hplace : (o.table.intern s).1 = some place := by rw [hintern]
      have hget := hsound.get?_intern hplace
      rw [hintern] at hget
      simp only [Write.text, hintern] at h
      cases h
      exact ⟨place, rfl, hsound', hget, htable, rfl⟩

/-- A type is written as the place of its name, its size and its content. -/
theorem objectType_ok {generation : Generation} {t : ObjectType} {o o' : Output}
    (hsound : o.table.Sound) (h : Write.objectType generation t o = .ok () o') :
    ∃ (place : UInt16) (inner : List UInt8), o'.order = o.order ∧ o'.table.Sound ∧
      o'.table.get? place = some t.name ∧ inner.length + 4 = t.dataExtent generation ∧
      o'.bytes.toList = o.bytes.toList ++ (toBytes o.order 2 place.toNat ++
        (toBytes o.order 4 (inner.length + 4) ++ inner)) := by
  obtain ⟨-, hsound', htable⟩ := (emits_objectType generation t).ok o o' hsound h
  obtain ⟨_, ⟨order, done, table⟩, hname, hframed⟩ := bind_ok h
  obtain ⟨place, horder, -, hget, hmiddle, hdone⟩ := text_ok hsound hname
  simp only at horder hget hmiddle hdone
  subst horder
  -- What follows the name only adds to the table, so the place still holds the name at the end.
  have hgrows : table.toList <+: o'.table.toList := by
    rw [htable, hmiddle]
    exact prefix_extend _ _
  have hget' : o'.table.get? place = some t.name := StringTable.get?_of_isPrefix hgrows hget
  cases hc : Write.typeContent generation t ⟨o.order, Array.empty, table⟩ with
  | error fault inner =>
    simp only [Write.framed, hc] at hframed
    cases hframed
  | ok u inner =>
    obtain ⟨added, table', hlength, hrun⟩ := framed_run (appends_typeContent generation t) hc
    rw [(hrun done).1] at hframed
    cases hframed
    refine ⟨place, added, rfl, hsound', hget', by rw [hlength, ObjectType.dataExtent, Nat.add_comm],
      ?_⟩
    rw [hdone, hlength]
    simp only [Array.appendList_eq_append, Array.toList_appendList, List.append_assoc]

/-- A visit tells of a type where its name is and how large its data is. -/
def Shows (generation : Generation) (table : StringTable) (t : ObjectType) (v : Visit) : Prop :=
  table.get? v.name = some t.name ∧ v.size = t.dataExtent generation

theorem Shows.of_isPrefix {generation : Generation} {table table' : StringTable} {t : ObjectType}
    {v : Visit} (h : Shows generation table t v) (hgrows : table.toList <+: table'.toList) :
    Shows generation table' t v := ⟨StringTable.get?_of_isPrefix hgrows h.1, h.2⟩

/-- The types of a container, one behind the other, are what a walk goes through. -/
theorem types_walk {generation : Generation} {types : List ObjectType} {o o' : Output}
    (hsound : o.table.Sound) (hdata : ∀ t ∈ types, t.dataExtent generation < 2 ^ 32)
    (h : Write.each (Write.objectType generation) types o = .ok () o') :
    ∃ (bytes : List UInt8) (visits : List Visit), o'.bytes.toList = o.bytes.toList ++ bytes ∧
      walk o.order bytes = some visits ∧ List.Forall₂ (Shows generation o'.table) types visits := by
  induction types generalizing o with
  | nil =>
    cases h
    exact ⟨[], [], (List.append_nil _).symm, walk_nil _, .nil⟩
  | cons t types ih =>
    obtain ⟨_, middle, hfirst, hrest⟩ := bind_ok h
    obtain ⟨place, inner, horder, hsound', hget, hlength, hbytes⟩ := objectType_ok hsound hfirst
    obtain ⟨bytes, visits, hbytes', hwalk, hshows⟩ :=
      ih hsound' (fun u hu => hdata u (List.mem_cons_of_mem t hu)) hrest
    have hgrows : middle.table.toList <+: o'.table.toList :=
      (Emits.each (emits_objectType generation) types).isPrefix hsound' hrest
    have hsize : inner.length + 4 < 2 ^ 32 := by
      rw [hlength]
      exact hdata t List.mem_cons_self
    have hfirstShown : Shows generation middle.table t ⟨place, inner.length + 4⟩ := ⟨hget, hlength⟩
    refine ⟨toBytes o.order 2 place.toNat ++
      ((toBytes o.order 4 (inner.length + 4) ++ inner) ++ bytes),
      ⟨place, inner.length + 4⟩ :: visits, ?_, ?_, .cons (hfirstShown.of_isPrefix hgrows) hshows⟩
    · rw [hbytes', hbytes]
      simp only [List.append_assoc]
    · rw [horder] at hwalk
      rw [walk_type _ _ hsize, hwalk]
      rfl

def Read.contentFront (generation : Generation) :
    Read (Option DebugInfo × List UserFlag × UInt16) := do
  let debug ← debugSection generation
  let userFlags ← counted userFlag
  let count ← u16
  return (debug, userFlags, count)

def Read.upToTypes (generation : Generation) :
    Read (Header × Option DebugInfo × List UserFlag × UInt16) := do
  let header ← header
  let table ← stringTable
  modify fun r => { r with table }
  let front ← contentFront generation
  return (header, front)

/-- Reading goes on with the types from there. -/
theorem Read.assembly_eq_upToTypes (generation : Generation) :
    assembly generation = (do
      let (header, debug, userFlags, count) ← upToTypes generation
      let types ← times count.toNat (objectType generation)
      return { generation, header, debug, userFlags, types, corrupted := (← get).corrupted }) := by
  simp only [assembly_eq, upToTypes, content, contentFront, counted, bind_assoc, pure_bind]

def Write.contentFront (generation : Generation) (a : Assembly) : Write Unit := do
  debugSection generation a.debug
  counted "user flags" userFlag a.userFlags
  count "types" a.types.length

theorem Write.content_eq_contentFront (generation : Generation) (a : Assembly) :
    content generation a = (do
      contentFront generation a
      each (objectType generation) a.types) := by
  simp only [content_eq, contentFront, counted, bind_assoc]

theorem carries_contentFront {generation : Generation} {a : Assembly}
    (hcount : a.types.length < 65536) :
    Carries (Write.contentFront generation a) (Read.contentFront generation)
      (a.debug.map (DebugInfo.normal generation), a.userFlags, UInt16.ofNat a.types.length) := by
  refine (carries_debugSection generation a.debug).bind ?_
  refine (Carries.countedSame "user flags" carries_userFlag a.userFlags).bind ?_
  exact (carries_count hcount "types").map fun count =>
    (a.debug.map (DebugInfo.normal generation), a.userFlags, count)

theorem upToTypes_run {generation : Generation} {order : ByteOrder} {header : Header}
    {front strings content : List UInt8} {texts : List String}
    {parts : Option DebugInfo × List UserFlag × UInt16}
    (hheader : Takes Read.header order [] front header)
    (hstrings : Takes Read.stringTable order [] strings (StringTable.ofList texts))
    (hcontent : Takes (Read.contentFront generation) order texts content parts)
    (policy : Policy) (rest : List UInt8) :
    ∃ s, s.rest = rest ∧ s.table.toList = texts ∧ Read.upToTypes generation
      { rest := front ++ (strings ++ (content ++ rest)), order, policy } =
      .ok (header, parts) s := by
  have h₁ := hheader { rest := front ++ (strings ++ (content ++ rest)), order, policy }
    (strings ++ (content ++ rest)) rfl rfl rfl
  have h₂ := hstrings
    { rest := strings ++ (content ++ rest), order, position := 0 + front.length, policy }
    (content ++ rest) rfl rfl rfl
  have h₃ := hcontent
    { rest := content ++ rest, order, position := 0 + front.length + strings.length, policy
      table := .ofList texts } rest rfl (StringTable.toList_ofList texts) rfl
  refine ⟨{ rest, order, policy, table := .ofList texts
            position := 0 + front.length + strings.length + content.length }, rfl,
    StringTable.toList_ofList texts, ?_⟩
  rw [Read.upToTypes, bind_run h₁, bind_run h₂]
  exact bind_run h₃

/-- A type whose size is filled in when all of it has been written comes out the same. -/
theorem objectType_iff_patched (generation : Generation) (t : ObjectType) (o o' : Output) :
    Write.objectType generation t o = .ok () o' ↔
      (do
        Write.text t.name
        Write.patched (Write.typeContent generation t)) o = .ok () o' := by
  have hsection := framed_iff_patched (appends_typeContent generation t)
  constructor
  · intro h
    obtain ⟨_, middle, hname, hframed⟩ := bind_ok h
    rw [bind_run hname]
    exact (hsection middle o').mp hframed
  · intro h
    obtain ⟨_, middle, hname, hpatched⟩ := bind_ok h
    rw [Write.objectType, bind_run hname]
    exact (hsection middle o').mpr hpatched

/-- Sizes frame types. From the first type on, a walk by names and sizes comes to each type of the
assembly in turn, finds its name in the string table of the container, and ends where the container
ends. It makes no difference if a size is written before its type or filled in afterwards. -/
theorem walk_encode (a : Assembly) (bytes : List UInt8) (policy : Policy)
    (hdata : ∀ t ∈ a.types, t.dataExtent a.generation < 2 ^ 32) (hencode : encode a = .ok bytes) :
    (∃ (count : UInt16) (s : Reader) (visits : List Visit),
      Read.upToTypes a.generation { rest := bytes, order := a.generation.order, policy } =
        .ok (a.header, a.debug.map (DebugInfo.normal a.generation), a.userFlags, count) s ∧
      count.toNat = a.types.length ∧
      walk a.generation.order s.rest = some visits ∧ visits.length = a.types.length ∧
      ∀ (i : Nat) (t : ObjectType), a.types[i]? = some t → ∃ v, visits[i]? = some v ∧
        s.table.get? v.name = some t.name ∧ v.size = t.dataExtent a.generation) ∧
    ∀ (t : ObjectType) (o o' : Output), Write.objectType a.generation t o = .ok () o' ↔
      (do
        Write.text t.name
        Write.patched (Write.typeContent a.generation t)) o = .ok () o' := by
  refine ⟨?_, objectType_iff_patched a.generation⟩
  obtain ⟨body, front, strings, hbody, rfl, hheader, hstrings⟩ := encode_front hencode
  obtain ⟨hfits, -, -⟩ := (emits_content a).ok _ _ StringTable.sound_empty hbody
  have hcount : a.types.length < 65536 := hfits.types.1
  rw [Write.content_eq_contentFront] at hbody
  obtain ⟨_, middle, hfront, htypes⟩ := bind_ok hbody
  obtain ⟨horder, hsound, -, content, hcontent, htakes⟩ :=
    carries_contentFront hcount _ _ StringTable.sound_empty hfront
  obtain ⟨typeBytes, visits, hbytes, hwalk, hshows⟩ := types_walk hsound hdata htypes
  have hknown : middle.table.toList <+: body.table.toList :=
    (Emits.each (emits_objectType a.generation) a.types).isPrefix hsound htypes
  obtain ⟨s, hrest, htexts, hrun⟩ :=
    upToTypes_run hheader hstrings (htakes _ hknown) policy typeBytes
  have hall : body.bytes.toList = content ++ typeBytes := by
    rw [hbytes, hcontent]
    rfl
  rw [← hall] at hrun
  rw [horder] at hwalk
  refine ⟨UInt16.ofNat a.types.length, s, visits, hrun, UInt16.toNat_ofNat_of_lt' hcount,
    hrest ▸ hwalk, hshows.length_eq.symm, fun i t ht => ?_⟩
  obtain ⟨hi, rfl⟩ := List.getElem?_eq_some_iff.mp ht
  have hi' : i < visits.length := hshows.length_eq ▸ hi
  obtain ⟨hget, hsize⟩ := hshows.get hi hi'
  refine ⟨visits[i], List.getElem?_eq_getElem hi', ?_, hsize⟩
  rw [StringTable.get?_eq] at hget ⊢
  rw [htexts]
  exact hget

def pairAssembly : Assembly where
  generation := .fallout4
  header := .make .fallout4 "P.psc" 5
  debug := some { methods := [⟨"B", "", "F", .method, [1, 2]⟩] }
  types :=
    [{ name := "A", base := "B" },
      { name := "B", base := "A", fields := [{ name := "f", type := "Int", value := .int 7 }] }]

theorem walk_encode_pair :
    (∀ t ∈ pairAssembly.types, t.dataExtent .fallout4 < 2 ^ 32) ∧
      ∃ bytes count s v w, encode pairAssembly = .ok bytes ∧
        Read.upToTypes .fallout4 { rest := bytes, order := .little, policy := .strict } =
          .ok (pairAssembly.header, pairAssembly.debug, [], count) s ∧ count.toNat = 2 ∧
        walk .little s.rest = some [v, w] ∧
        s.table.get? v.name = some "A" ∧ v.size = 27 ∧
        s.table.get? w.name = some "B" ∧ w.size = 41 := by
  have hdata : ∀ t ∈ pairAssembly.types, t.dataExtent .fallout4 < 2 ^ 32 := by decide
  obtain ⟨bytes, hencode⟩ := encode_of_encodable (a := pairAssembly) (by decide)
  obtain ⟨⟨count, s, visits, hrun, hcount, hwalk, hlength, hshows⟩, -⟩ :=
    walk_encode pairAssembly bytes .strict hdata hencode
  obtain ⟨v, w, rfl⟩ := List.length_eq_two.mp hlength
  obtain ⟨v', hv, hvname, hvsize⟩ := hshows 0 _ rfl
  obtain ⟨w', hw, hwname, hwsize⟩ := hshows 1 _ rfl
  cases hv
  cases hw
  exact ⟨hdata, bytes, count, s, v, w, hencode, hrun, hcount, hwalk, hvname,
    hvsize.trans (by decide), hwname, hwsize.trans (by decide)⟩

end PapyrusBackend.Container
