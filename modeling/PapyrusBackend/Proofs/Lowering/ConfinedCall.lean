import PapyrusBackend.Lowering.Call
import PapyrusBackend.Proofs.Lowering.ConfinedMemory

namespace PapyrusBackend.Lowering

open Source

variable {f : Frame} {i : Instr} {n : Nat} {s t : Simulation} {code : List Instruction}

namespace Lower

theorem joinTexts_ok {destination first : Value} {values : List Value}
    (h : joinTexts destination first values s = .ok code t) :
    Taken 0 s t ∧ ∀ name ∈ assignedNames code, Scratch name ∨ destination = .reference name := by
  have hlast (a b : Value) :
      ∀ name ∈ assignedNames [{ opcode := .strcat, arguments := [destination, a, b] }],
        Scratch name ∨ destination = .reference name := by
    intro name hname
    cases destination with
    | reference d => exact .inr (congrArg _ (List.mem_singleton.1 hname).symm)
    | _ => exact absurd hname List.not_mem_nil
  induction values generalizing s first code t with
  | nil =>
    cases h
    exact ⟨.refl _, fun _ hname => absurd hname List.not_mem_nil⟩
  | cons second rest ih =>
    cases rest with
    | nil =>
      cases h
      exact ⟨.refl _, hlast first second⟩
    | cons third rest =>
      obtain ⟨v, t', hv, hjoin⟩ := bind_ok h
      obtain ⟨others, t'', hothers, hpure⟩ := bind_ok hjoin
      obtain ⟨htemporary, hname⟩ := temporary_ok hv
      obtain ⟨htaken, hassigned⟩ := ih hothers
      cases hpure
      refine ⟨htemporary.trans htaken, List.forall_mem_append.2 ⟨?_, hassigned⟩⟩
      intro name hmem
      rw [List.mem_singleton.1 hmem, hname]
      exact .inl (scratch_temporary _)

theorem concat_confined (hs : Sound s) {items : List Item}
    (hitems : ∀ item ∈ items, item.isSound = true) (h : concat f items s = .ok code t) :
    Confined (holderCount f) s code t := by
  obtain ⟨d, t₁, hdestination, hconcat⟩ := bind_ok h
  obtain ⟨⟨staging, values⟩, t₂, hstage, hconcat⟩ := bind_ok hconcat
  have hready := stageAll_ok hitems hstage
  obtain ⟨joined, t₃, htexts, hassigned, hfinish⟩ :
      ∃ joined t₃, Taken 0 t₂ t₃ ∧
        (∀ name ∈ assignedNames joined, Scratch name ∨ d.value = .reference name) ∧
        (finish d >>= fun rest => pure (staging ++ joined ++ rest)) t₃ = .ok code t := by
    have hassign (value : Value) :
        ∀ name ∈ assignedNames [.assign d.written.name value],
          Scratch name ∨ d.value = .reference name := fun name hname =>
      .inr (congrArg Value.reference (List.mem_singleton.1 hname).symm)
    dsimp only at hconcat
    cases hvalues : values.map (f.coerce "String") with
    | nil =>
      rw [hvalues] at hconcat
      exact ⟨_, t₂, .refl t₂, hassign _, hconcat⟩
    | cons first others =>
      rw [hvalues] at hconcat
      cases others with
      | nil => exact ⟨_, t₂, .refl t₂, hassign _, hconcat⟩
      | cons second others =>
        obtain ⟨joined, t₃, hjoined, hfinish⟩ := bind_ok hconcat
        obtain ⟨htaken, hassigned⟩ := joinTexts_ok hjoined
        exact ⟨joined, t₃, htaken, hassigned, hfinish⟩
  obtain ⟨rest, t₄, hrest, hpure⟩ := bind_ok hfinish
  obtain ⟨hbehind, hstore⟩ := finish_ok hrest
  cases hpure
  cases destination_settled hs hdestination with
  | scratch hname hbefore =>
    refine .of_scratch ((hready.scratch.append fun name hjoined => ?_).append fun name hmem => ?_)
    · obtain hscratch | hvalue := hassigned name hjoined
      · exact hscratch
      · cases hvalue
        exact hname
    · rw [hbehind] at hmem
      exact hbefore name hmem
  | store v hd htaken =>
    cases hstore v hd
    exact .of_taken ((htaken.trans hready.taken).trans htexts)

theorem equality_confined (hs : Sound s) {items : List Item}
    (hitems : ∀ item ∈ items, item.isSound = true) {inequality : Bool}
    (h : equality f items inequality s = .ok code t) : Confined (holderCount f) s code t := by
  obtain ⟨a, b, rfl⟩ : ∃ a b, items = [a, b] := by
    match items, h with
    | [a, b], _ => exact ⟨a, b, rfl⟩
    | [], h => cases h
    | [_], h => cases h
    | _ :: _ :: _ :: _, h => cases h
  obtain ⟨_, t₁, hmodify, hequality⟩ := bind_ok h
  cases hmodify
  obtain ⟨⟨staging, lhs, rhs⟩, t₂, hstage, hequality⟩ := bind_ok hequality
  have hready := stagePair_ok (hitems a List.mem_cons_self)
    (hitems b (List.mem_cons_of_mem a List.mem_cons_self)) hstage
  have htaken : Taken 0 s t₂ := ⟨hready.taken.stack, hready.taken.joins⟩
  dsimp only at hequality
  cases hnext : f.next? with
  | none =>
    simp only [hnext] at hequality
    cases hequality
    exact .of_scratch hready.scratch
  | some next =>
    simp only [hnext] at hequality
    split at hequality
    · obtain ⟨d, t₃, hdestination, hequality⟩ := bind_ok hequality
      obtain ⟨_, t₄, hmodify, hequality⟩ := bind_ok hequality
      cases hmodify
      obtain ⟨rest, t₅, hfinish, hpure⟩ := bind_ok hequality
      obtain ⟨hrest, hstore⟩ := finish_ok hfinish
      cases hpure
      cases destination_settled (htaken.sound hs) hdestination with
      | scratch hname hbefore =>
        have hwritten {i : Instruction} (hi : i.assigned = [d.written.name]) :
            ∀ name ∈ i.assigned, Scratch name := by
          rw [hi]
          exact fun name hmem => List.mem_singleton.1 hmem ▸ hname
        have hbehind : ScratchCode rest := fun name hmem => hbefore name (hrest ▸ hmem)
        refine .of_scratch (hready.scratch.append (.cons (hwritten rfl) ?_))
        cases inequality with
        | true => exact .cons (hwritten rfl) hbehind
        | false => exact hbehind
      | store v hd hstored =>
        have hsame := hstore v hd
        exact Confined.ready (.inr (by rw [hsame]; exact hstored.stack)) htaken
    · cases hequality
      exact .of_scratch hready.scratch

theorem propertyName_state {callee : MethodRef} {location : Location} {name : String}
    (h : propertyName f callee location s = .ok name t) : t = s := by
  simp only [propertyName] at h
  split at h
  · cases hproperty : (f.target.property? callee.name).or
        (f.target.property? (Naming.accessed callee.name)) with
    | none => simp only [hproperty] at h; cases h
    | some p => simp only [hproperty] at h; cases h; rfl
  · cases h
    rfl

theorem property_confined (hs : Sound s) {callee : MethodRef} {items : List Item}
    (hitems : ∀ item ∈ items, item.isSound = true) {location : Location}
    (h : property f callee items location s = .ok code t) : Confined (holderCount f) s code t := by
  rw [property] at h
  cases haccessor : Naming.accessor? callee.name with
  | none =>
    simp only [haccessor] at h
    cases h
  | some accessor =>
    simp only [haccessor] at h
    obtain ⟨name, t', hname, haccess⟩ := bind_ok h
    cases propertyName_state hname
    cases accessor with
    | get => exact produce_confined hs .nil (fun v => rfl) haccess
    | set =>
      cases items with
      | nil => cases haccess
      | cons item rest =>
        obtain ⟨staged, t'', hstage, hpure⟩ := bind_ok haccess
        have hready := stage_ok (hitems item List.mem_cons_self) hstage
        cases hpure
        exact .of_scratch (hready.scratch.append
          (.cons (fun _ hmem => absurd hmem List.not_mem_nil) .nil))

theorem plainCall_confined (hs : Sound s) {callee : MethodRef} {items : List Item}
    (hitems : ∀ item ∈ items, item.isSound = true) {receiver : Receiver}
    (h : plainCall f callee items receiver s = .ok code t) :
    Confined (holderCount f) s code t := by
  obtain ⟨⟨staging, values⟩, t', hstage, hproduce⟩ := bind_ok h
  have hready := stageAll_ok hitems hstage
  refine (produce_confined (hready.taken.sound hs) hready.scratch (fun v => ?_) hproduce).ready
    hready.taken
  cases receiver.location <;> rfl

theorem callBody_confined (hs : Sound s) {callee : MethodRef} {declaration : Option MethodDecl}
    {items : List Item} (hitems : ∀ item ∈ items, item.isSound = true) {receiver : Receiver}
    (h : callBody f callee declaration items receiver s = .ok code t) :
    Confined (holderCount f) s code t := by
  rw [callBody] at h
  split at h
  · cases h
    exact .of_scratch .nil
  split at h
  · exact concat_confined hs hitems h
  split at h
  · exact equality_confined hs hitems h
  split at h
  · exact equality_confined hs hitems h
  split at h
  · exact property_confined hs hitems h
  · exact plainCall_confined hs hitems h

theorem instanceReceiver_ok (hs : Sound s) {count : Nat} {receiver : Receiver}
    (h : instanceReceiver f i count s = .ok receiver t) :
    Taken 1 s t ∧ ScratchCode receiver.code := by
  obtain ⟨_, _, hget, hreceiver⟩ := bind_ok h
  cases hget
  cases hstack : s.stack with
  | nil =>
    simp only [hstack] at hreceiver
    exact absurd hreceiver underflow_fails
  | cons item rest =>
    have htaken : Taken 1 s { s with stack := rest } := ⟨by rw [hstack]; rfl, rfl⟩
    simp only [hstack] at hreceiver
    obtain ⟨_, t', hset, hreceiver⟩ := bind_ok hreceiver
    cases hset
    split at hreceiver
    · cases hreceiver
      exact ⟨htaken, .nil⟩
    · split at hreceiver
      · cases hreceiver
        exact ⟨htaken, .nil⟩
      · obtain ⟨staged, t', hstage, hpure⟩ := bind_ok hreceiver
        have hready := stage_ok (hs item (hstack ▸ List.mem_cons_self)) hstage
        cases hpure
        exact ⟨htaken.trans hready.taken, hready.scratch⟩

theorem plainReceiver_ok {callee : MethodRef} {declaration : Option MethodDecl}
    {receiver : Receiver} (h : plainReceiver f callee declaration s = .ok receiver t) :
    Taken (thisCount declaration s.stack) s t ∧ receiver.code = [] := by
  have htail {s : Simulation} {this : Bool} {location : Location}
      (h : (if this = true then do
          set { s with stack := s.stack.drop 1 }
          return { location := .self }
        else return { location } : Lower Receiver) s = .ok receiver t) :
      Taken (if this then 1 else 0) s t ∧ receiver.code = [] := by
    cases this <;> cases h <;> exact ⟨⟨rfl, rfl⟩, rfl⟩
  cases declaration with
  | none =>
    simp only [plainReceiver, Option.isNone_none, if_true] at h
    obtain ⟨_, t', hwarn, hreceiver⟩ := bind_ok h
    cases hwarn
    obtain ⟨_, t', hget, hreceiver⟩ := bind_ok hreceiver
    cases hget
    obtain ⟨htaken, hcode⟩ := htail hreceiver
    exact ⟨⟨htaken.stack, htaken.joins⟩, hcode⟩
  | some d =>
    simp only [plainReceiver, Option.isNone_some, Bool.false_eq_true, if_false] at h
    obtain ⟨_, t', hget, hreceiver⟩ := bind_ok h
    cases hget
    exact htail hreceiver

theorem call_confined (hs : Sound s) (hcode : i.code.category = .call)
    (h : call f i s = .ok code t) :
    Confined (operandCount f i s.stack + holderCount f) s code t := by
  obtain ⟨callee, t', hneed, hcall⟩ := bind_ok h
  obtain ⟨hcallee, rfl⟩ := need_ok hneed
  obtain ⟨_, _, hget, hcall⟩ := bind_ok hcall
  cases hget
  obtain ⟨items, t₁, hpop, hcall⟩ := bind_ok hcall
  obtain ⟨htaken, hitems⟩ := popMany_taken hpop
  have hoperands : operandCount f i t'.stack =
      i.pop.count callee.parameters.length t'.stack.length + receiverCount f i t₁.stack := by
    have harguments : argumentCount i t'.stack.length =
        i.pop.count callee.parameters.length t'.stack.length := by
      simp only [argumentCount, hcallee]
    rw [htaken.stack, ← harguments, operandCount]
    revert hcode
    cases i.code <;> intro hcode <;> first | rfl | cases hcode
  obtain ⟨receiver, t₂, hfound, hscratch, hbody⟩ :
      ∃ receiver t₂, Taken (receiverCount f i t₁.stack) t₁ t₂ ∧ ScratchCode receiver.code ∧
        (callBody f callee ((f.program.method? callee).map Prod.snd) items receiver >>=
          fun code => pure (receiver.code ++ code)) t₂ = .ok code t := by
    dsimp only at hcall
    split at hcall
    · rename_i hthis
      obtain ⟨receiver, t₂, hreceiver, hbody⟩ := bind_ok hcall
      obtain ⟨hfound, hscratch⟩ := instanceReceiver_ok (htaken.sound hs) hreceiver
      refine ⟨receiver, t₂, ?_, hscratch, hbody⟩
      simp only [receiverCount, hcallee, hthis, if_true]
      exact hfound
    · rename_i hthis
      obtain ⟨receiver, t₂, hreceiver, hbody⟩ := bind_ok hcall
      obtain ⟨hfound, hnone⟩ := plainReceiver_ok hreceiver
      refine ⟨receiver, t₂, ?_, hnone ▸ .nil, hbody⟩
      simp only [receiverCount, hcallee, hthis]
      exact hfound
  obtain ⟨body, t₃, hbody, hpure⟩ := bind_ok hbody
  cases hpure
  have hboth := htaken.trans hfound
  rw [hoperands]
  exact ((callBody_confined (hboth.sound hs) (fun item hitem => hs item (hitems item hitem))
    hbody).append hscratch).after hboth

end Lower

end PapyrusBackend.Lowering
