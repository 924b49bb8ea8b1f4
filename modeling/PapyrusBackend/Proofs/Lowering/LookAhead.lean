import PapyrusBackend.Proofs.Lowering.Assigned
import PapyrusBackend.Proofs.Lowering.Calls
import PapyrusBackend.Proofs.Lowering.Spared

namespace PapyrusBackend.Lowering

open Source

def Frame.alone (f : Frame) : Frame :=
  { f with method := { f.method with body := f.method.body.take (f.position + 1) } }

theorem Frame.next?_alone (f : Frame) : f.alone.next? = none := by
  apply List.getElem?_eq_none
  exact List.length_take_le _ _

def Performs (code : List Instruction) (opcode : Opcode) (arguments : List Value) : Prop :=
  ∃ j ∈ code, j.opcode = opcode ∧ j.arguments = arguments

/-- The operand that stands for an item once `code` has run. Members are read and comparisons are
made by the code. -/
inductive Readied (code : List Instruction) (item : Item) : Value → Prop
  | this (h : item.isThis = true) : Readied code item (.reference "self")
  | literal {value : Value} (hthis : item.isThis = false) (h : item.content = .literal value) :
      Readied code item value
  | held {v : Variable} (hthis : item.isThis = false) (h : item.content = .held v) :
      Readied code item v.value
  | method {name : String} (hthis : item.isThis = false) (h : item.content = .method name) :
      Readied code item (.reference name)
  | member {source field : Variable} {name : String} (hthis : item.isThis = false)
      (h : item.content = .member source field)
      (hcode : Performs code .structGet
        [.reference name, source.value, .reference field.name]) :
      Readied code item (.reference name)
  | comparison {opcode : Opcode} {lhs rhs : Value} {name : String} (hthis : item.isThis = false)
      (h : item.content = .comparison opcode lhs rhs)
      (hcode : Performs code opcode [.reference name, lhs, rhs]) :
      Readied code item (.reference name)

theorem Performs.append_right {code : List Instruction} {opcode : Opcode} {arguments : List Value}
    (h : Performs code opcode arguments) (first : List Instruction) :
    Performs (first ++ code) opcode arguments := by
  obtain ⟨j, hj, hsame⟩ := h
  exact ⟨j, List.mem_append_right first hj, hsame⟩

theorem Readied.append_right {code : List Instruction} {item : Item} {value : Value}
    (h : Readied code item value) (first : List Instruction) :
    Readied (first ++ code) item value := by
  cases h with
  | this hthis => exact .this hthis
  | literal hthis hcontent => exact .literal hthis hcontent
  | held hthis hcontent => exact .held hthis hcontent
  | method hthis hcontent => exact .method hthis hcontent
  | member hthis hcontent hcode => exact .member hthis hcontent (hcode.append_right first)
  | comparison hthis hcontent hcode => exact .comparison hthis hcontent (hcode.append_right first)

theorem Lower.stage_readied {item : Item} {staged : Lower.Staged} {s t : Simulation}
    (h : Lower.stage item s = .ok staged t) : Readied staged.code item staged.value := by
  cases Lower.stage_stages h with
  | this hthis => exact .this hthis
  | literal hthis hcontent => exact .literal hthis hcontent
  | held hthis hcontent => exact .held hthis hcontent
  | method hthis hcontent => exact .method hthis hcontent
  | member hthis hcontent _ => exact .member hthis hcontent ⟨_, List.mem_singleton.2 rfl, rfl, rfl⟩
  | comparison hthis hcontent _ =>
    exact .comparison hthis hcontent ⟨_, List.mem_cons_self, rfl, rfl⟩

inductive EndsInStore (store : Instr) (v : Variable) : List Item → List Instruction → Prop
  | variable {front : List Instruction} {last : Instruction} (hcode : store.code ≠ .stfld)
      (hlast : last.assigned = [v.name]) : EndsInStore store v [] (front ++ [last])
  | field {holder : Item} {front : List Instruction} {last : Instruction}
      (hcode : store.code = .stfld) (hholder : Naming.isStruct holder.type = false)
      (hlast : last.assigned = [v.name]) : EndsInStore store v [holder] (front ++ [last])
  | member {holder : Item} {field : FieldRef} {front : List Instruction} {value : Value}
      {result : Variable} (hcode : store.code = .stfld)
      (hholder : Naming.isStruct holder.type = true) (hfield : store.field? = some field)
      (hvalue : Readied front holder value) (hresult : ∃ j ∈ front, j.assigned = [result.name]) :
      EndsInStore store v [holder] (front ++ [.structSet value field.name result.value])

/-- The code makes the store as well. What the store would have taken is on the stack of `alone`,
which is left if nothing follows. -/
structure Absorbs (f : Frame) (s : Simulation) (code : List Instruction) (t : Simulation)
    (store : Instr) (v : Variable) (alone : Simulation) : Prop
    extends StoreFollows f s store v where
  locals : alone.locals = s.locals
  stack : ∃ item holders, item.delegate? = none ∧ alone.stack = item :: (holders ++ t.stack) ∧
    EndsInStore store v holders code

/-- How the lowering of an instruction ends, given the same instruction with nothing behind it. -/
def Concludes (f : Frame) (want : Fault → Simulation → Prop) (s : Simulation)
    (slow fast : Lower (List Instruction)) : Prop :=
  Finishes (fun code t => t.joins = s.joins ∧ (t.skipNext = s.skipNext ∨
    ∃ made alone store v, slow s = .ok made alone ∧ Absorbs f s code t store v alone)) want s fast

variable {f : Frame} {i : Instr} {s : Simulation} {want : Fault → Simulation → Prop}

theorem Spared.concludes {slow fast : Lower (List Instruction)} (h : Spared want s fast) :
    Concludes f want s slow fast :=
  h.mono fun _ _ hspares => ⟨hspares.joins, .inl hspares.skipNext⟩

theorem Absorbs.after {t u alone : Simulation} {code : List Instruction} {store : Instr}
    {v : Variable} (h : Absorbs f t code u store v alone) (hlocals : t.locals = s.locals) :
    Absorbs f s code u store v alone where
  next := h.next
  free := h.free
  stored := hlocals ▸ h.stored
  plain := h.plain
  locals := h.locals.trans hlocals
  stack := h.stack

/-- What both runs begin with. -/
theorem Concludes.bind {x : Lower α} {k l : α → Lower (List Instruction)} (hx : Spared want s x)
    (hk : ∀ a t, x s = .ok a t → Concludes f want t (l a) (k a)) :
    Concludes f want s (x >>= l) (x >>= k) := by
  refine Finishes.bind hx fun a t hrun hspares => (hk a t hrun).mono ?_
  rintro code u ⟨hjoins, hends⟩
  refine ⟨hjoins.trans hspares.joins, ?_⟩
  obtain hskip | ⟨made, alone, store, v, hslow, habsorbs⟩ := hends
  · exact .inl (hskip.trans hspares.skipNext)
  · exact .inr ⟨made, alone, store, v, (bind_run hrun).trans hslow,
      habsorbs.after hspares.locals⟩

namespace Lower

/-- With nothing behind it a result is pushed. -/
theorem destination_alone {type : String} (h : Text.sameName type "none" = false) :
    destination f.alone type = pushTemporary type := by
  simp only [destination, h, Bool.false_eq_true, if_false, f.next?_alone]

end Lower

def Delivers (d : Destination) (x : Lower (List Instruction)) : Prop :=
  ∀ s, ∃ front last t rest u, x s = .ok (front ++ last :: rest) u ∧ Lower.finish d t = .ok rest u ∧
    last.assigned = [d.written.name] ∧ t.stack = s.stack ∧ Spares s t

def Pushes (s : Simulation) (x : Lower (List Instruction)) : Prop :=
  ∃ made t item, x s = .ok made t ∧ item.delegate? = none ∧ t.stack = item :: s.stack ∧
    t.locals = s.locals

theorem Calm.delivers {d : Destination} {x : Lower α} {k : α → Lower (List Instruction)}
    (hx : Calm x) (hk : ∀ a, Delivers d (k a)) : Delivers d (x >>= k) := by
  intro s
  obtain ⟨a, s', hrun, hstack, hspares⟩ := hx s
  obtain ⟨front, last, t, rest, u, hrun', hfinish, hlast, hstack', hspares'⟩ := hk a s'
  exact ⟨front, last, t, rest, u, (bind_run hrun).trans hrun', hfinish, hlast,
    hstack'.trans hstack, hspares.trans hspares'⟩

namespace Lower

theorem finish_run (d : Destination) (s : Simulation) :
    ∃ rest t, finish d s = .ok rest t ∧ Spares s t := by
  cases d with
  | push v => exact ⟨_, _, rfl, rfl, rfl, rfl⟩
  | _ => exact ⟨_, _, rfl, rfl, rfl, rfl⟩

end Lower

theorem Delivers.spared {d : Destination} {x : Lower (List Instruction)} (h : Delivers d x) :
    Spared want s x := by
  obtain ⟨front, last, t, rest, u, hrun, hfinish, _, _, hspares⟩ := h s
  obtain ⟨_, _, hfinish', hspares'⟩ := Lower.finish_run d t
  cases hfinish'.symm.trans hfinish
  rw [Spared, Finishes, hrun]
  exact hspares.trans hspares'

namespace Lower

theorem delivers_last {d : Destination} {front : List Instruction} {last : Instruction}
    {code : List Instruction → List Instruction} (h : last.assigned = [d.written.name])
    (hcode : ∀ rest, code rest = front ++ last :: rest) :
    Delivers d (do
      let rest ← finish d
      return code rest) := by
  intro s
  obtain ⟨rest, t, hfinish, _⟩ := finish_run d s
  refine ⟨front, last, s, rest, t, ?_, hfinish, h, rfl, .refl s⟩
  rw [bind_run hfinish, hcode]
  rfl

theorem pushTemporary_run (type : String) (s : Simulation) : ∃ v t,
    pushTemporary type s = .ok (.push v) t ∧ v.isDelegate = false ∧ t.stack = s.stack ∧
      Spares s t :=
  ⟨_, _, rfl, rfl, rfl, rfl, rfl, rfl⟩

theorem pushes_result {type : String} {l : Destination → Lower (List Instruction)}
    (hnone : Text.sameName type "none" = false) (hl : ∀ d, Delivers d (l d)) :
    Pushes s (destination f.alone type >>= l) := by
  obtain ⟨v, s', hpush, hplain, hstack, hspares⟩ := pushTemporary_run type s
  obtain ⟨front, last, t, rest, u, hrun, hfinish, _, hstack', hspares'⟩ := hl (.push v) s'
  cases hfinish
  rw [destination_alone hnone]
  refine ⟨_, _, .result v, (bind_run hpush).trans hrun, ?_,
    congrArg (_ :: ·) (hstack'.trans hstack), (hspares.trans hspares').locals⟩
  simp only [Item.delegate?, Item.result, Item.ofVariable, hplain, Bool.false_eq_true, if_false]

end Lower

/-- Code that writes a result to the chosen destination makes the store, if that was chosen. -/
theorem Lower.Directs.concludes {type : String} {d : Destination} {t : Simulation}
    {slow x : Lower (List Instruction)} (h : Lower.Directs f type s d t) (hx : Delivers d x)
    (hslow : Pushes s slow) {code : List Instruction} {u : Simulation} (hrun : x t = .ok code u) :
    u.joins = s.joins ∧ (u.skipNext = s.skipNext ∨
      ∃ made alone store v, slow s = .ok made alone ∧ Absorbs f s code u store v alone) := by
  have hother (h : Spares s t) : u.joins = s.joins ∧ (u.skipNext = s.skipNext ∨
      ∃ made alone store v, slow s = .ok made alone ∧ Absorbs f s code u store v alone) := by
    have hspared : Spared (fun _ _ => True) t x := hx.spared
    have hkept := h.trans (hspared.ok hrun)
    exact ⟨hkept.joins, .inl hkept.skipNext⟩
  obtain ⟨made, alone, item, hslow, hitem, hpushed, hlocals⟩ := hslow
  obtain ⟨front, last, t', rest, u', hrun', hfinish, hlast, hstack, hspares⟩ := hx t
  cases hrun.symm.trans hrun'
  -- what comes behind the last instruction depends on the destination alone
  cases h with
  | discard _ hv => exact hother (Lower.calm_declareNone.ok hv).2
  | push hv => exact hother ((Lower.calm_temporary type).ok hv).2
  | store hfollows hcode =>
    cases hfinish
    refine ⟨hspares.joins, .inr ⟨made, alone, _, _, hslow, hfollows, hlocals, item, [], hitem, ?_,
      .variable hcode hlast⟩⟩
    rw [hpushed, hstack]
    rfl
  | @field _ _ holder _ hfollows hcode _ hkept hholder =>
    cases hfinish
    refine ⟨hspares.joins, .inr ⟨made, alone, _, _, hslow, hfollows, hlocals, item, [holder], hitem,
      ?_, .field hcode hholder hlast⟩⟩
    rw [hpushed, hstack, hkept]
    rfl
  | @member _ field holder _ staged v _ _ hfollows hcode hfield hkept hholder hstage hv =>
    cases hfinish
    obtain ⟨hstack', hspares'⟩ := (Lower.calm_stage holder).ok hstage
    obtain ⟨hstack'', hspares''⟩ := (Lower.calm_temporary type).ok hv
    refine ⟨((hspares'.trans hspares'').trans hspares).joins, .inr ⟨made, alone, _, _, hslow,
      hfollows, hlocals, item, [holder], hitem, ?_, ?_⟩⟩
    · rw [hpushed, hstack, hstack'', hstack', hkept]
      rfl
    · rw [show front ++ last :: (staged.code ++ [.structSet staged.value field.name v.value]) =
        (front ++ [last] ++ staged.code) ++ [.structSet staged.value field.name v.value] by simp]
      exact .member hcode hholder hfield ((Lower.stage_readied hstage).append_right _)
        ⟨last, by simp, hlast⟩

namespace Lower

/-- A result that goes to its destination, provided that with nothing behind it the result would
have been pushed. -/
theorem concludes_result {type : String} {slow : Lower (List Instruction)}
    {k : Destination → Lower (List Instruction)} (hk : ∀ d, Delivers d (k d))
    (hslow : Text.sameName type "none" = false → Pushes s slow) :
    Concludes f want s slow (destination f type >>= k) := by
  cases hnone : Text.sameName type "none" with
  | true =>
    have hdiscard : Calm (destination f type) := by
      simp only [destination, hnone, if_true]
      exact calm_declareNone.bind fun _ => .pure _
    exact (hdiscard.spared.bind fun d _ _ => (hk d).spared).concludes
  | false =>
    rw [Concludes, Finishes]
    obtain ⟨d, t, hd, hdirects⟩ | ⟨reason, hd⟩ := directed_destination f type s
    · obtain ⟨_, _, _, _, _, hrun, _⟩ := hk d t
      rw [bind_run hd, hrun]
      exact hdirects.concludes (hk d) (hslow hnone) hrun
    · rw [bind_fails hd]
      exact ⟨rfl, fun hlocal => absurd hlocal Bool.false_ne_true⟩

theorem concludes_produce {type : String} {code code' : List Instruction}
    {make make' : Value → Instruction} (h : ∀ v : Variable, (make v.value).assigned = [v.name])
    (h' : ∀ v : Variable, (make' v.value).assigned = [v.name]) :
    Concludes f want s (produce f.alone type code' make') (produce f type code make) :=
  concludes_result (fun d => delivers_last (h d.written) fun _ => rfl) fun hnone =>
    pushes_result hnone fun d => delivers_last (h' d.written) fun _ => rfl

end Lower

end PapyrusBackend.Lowering
