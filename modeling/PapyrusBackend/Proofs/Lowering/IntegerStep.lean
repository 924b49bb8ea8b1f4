import PapyrusBackend.Proofs.Lowering.Destinations
import PapyrusBackend.Proofs.Lowering.Fragment

namespace PapyrusBackend.Lowering

open Source Semantics

def Item.operand (item : Item) : Value :=
  match item.content with
  | .literal v => v
  | .held v => v.value
  | _ => .none

structure IntegerItem (item : Item) : Prop where
  type : item.type = "Int"
  isThis : item.isThis = false
  content : (∃ n, item.content = .literal (.int n)) ∨
    ∃ v, item.content = .held v ∧ v.isDelegate = false

def KnownName (m : MethodDecl) (count : Nat) (name : String) : Prop :=
  name ∈ slotNames m ∨ ∃ k < count, name = Lower.temporaryName k

structure IntegerState (m : MethodDecl) (s : Simulation) : Prop where
  skipTo : s.skipTo = none
  joins : s.joins = []
  locals : s.locals = localVariables m
  items : ∀ item ∈ s.stack, IntegerItem item
  known : ∀ item ∈ s.stack, ∀ name ∈ item.reads, KnownName m s.temporaries name

def Simulation.fresh (s : Simulation) (type : String) : Variable :=
  { name := Lower.temporaryName s.temporaries, type }

def Simulation.withFresh (s : Simulation) (type : String) : Simulation :=
  { s with
    temporaries := s.temporaries + 1
    «variables» := s.variables ++ [(s.fresh type).declaration] }

/-- Where a result goes: to a fresh variable that is pushed, or to the variable of the store that
follows. -/
inductive Placed (f : Frame) (s : Simulation) : Variable → Simulation → Prop
  | pushed : Placed f s (s.fresh "Int")
      { s.withFresh "Int" with stack := .result (s.fresh "Int") :: s.stack }
  | absorbed {next : Instr} {slot : Managed.Slot} {v : Variable} (hnext : f.next? = some next)
      (htarget : f.isBranchTarget next.offset = false) (hslot : storedSlot? next = some slot)
      (hv : slotVariable? f.method slot = some v) : Placed f s v { s with skipNext := true }

def operatorOpcode : Operator → Opcode
  | .add => .iadd | .sub => .isub | .mul => .imul | .div => .idiv | .rem => .imod

def comparisonOpcode : Comparison → Opcode
  | .eq => .cmpEq | .lt => .cmpLt | .le => .cmpLe | .gt => .cmpGt | .ge => .cmpGe

inductive Lowered (f : Frame) (s : Simulation) :
    Code → Operand → List Instruction → Simulation → Prop
  | nop : Lowered f s .nop .none [] s
  | load {code : Code} {k : UInt16} {slot : Managed.Slot} {v : Variable}
      (hslot : code = .ldarg ∧ slot = .argument k.toNat ∨ code = .ldloc ∧ slot = .local k.toNat)
      (hv : slotVariable? f.method slot = some v) :
      Lowered f s code (.index k) [] { s with stack := .ofVariable v :: s.stack }
  | literal (n : Int32) :
      Lowered f s .ldcI4 (.int n) [] { s with stack := .ofValue (.int n) :: s.stack }
  | store {code : Code} {k : UInt16} {slot : Managed.Slot} {v : Variable} {item : Item}
      {rest : Stack} (hstack : s.stack = item :: rest)
      (hslot : code = .starg ∧ slot = .argument k.toNat ∨ code = .stloc ∧ slot = .local k.toNat)
      (hv : slotVariable? f.method slot = some v) :
      Lowered f s code (.index k) [.assign v.name item.operand] { s with stack := rest }
  | operator {code : Code} {op : Operator} {a b : Item} {rest : Stack} {v : Variable}
      {s' : Simulation} (hstack : s.stack = b :: a :: rest) (hop : Operator.ofCode? code = some op)
      (hplaced : Placed f { s with stack := rest } v s') :
      Lowered f s code .none
        [{ opcode := operatorOpcode op, arguments := [v.value, a.operand, b.operand] }] s'
  | neg {a : Item} {rest : Stack} {v : Variable} {s' : Simulation} (hstack : s.stack = a :: rest)
      (hplaced : Placed f { s with stack := rest } v s') :
      Lowered f s .neg .none [{ opcode := .ineg, arguments := [v.value, a.operand] }] s'
  | dup {item : Item} {rest : Stack} (hstack : s.stack = item :: rest) :
      Lowered f s .dup .none [] { s with stack := item :: s.stack }
  | pop {item : Item} {rest : Stack} (hstack : s.stack = item :: rest) :
      Lowered f s .pop .none [] { s with stack := rest }
  | retNone (hvoid : f.method.returns.isVoid = true) :
      Lowered f s .ret .none [{ opcode := .ret, arguments := [.none] }] s
  | ret {item : Item} {rest : Stack} (hvoid : f.method.returns.isVoid = false)
      (hstack : s.stack = item :: rest) :
      Lowered f s .ret .none [{ opcode := .ret, arguments := [item.operand] }]
        { s with stack := rest }
  | br (hstack : s.stack = []) (offset : UInt32) :
      Lowered f s .br (.target offset) [.jump (some (.source offset))] s
  | truth {code : Code} {expected : Bool} {item : Item} (hstack : s.stack = [item])
      (hcode : code = .brtrue ∧ expected = true ∨ code = .brfalse ∧ expected = false)
      (offset : UInt32) :
      Lowered f s code (.target offset)
        [.jumpIf expected item.operand (some (.source offset))] { s with stack := [] }
  | compare {code : Code} {c : Comparison} {expected : Bool} {a b : Item}
      (hstack : s.stack = [b, a]) (hc : Comparison.ofBranch? code = some (c, expected))
      (offset : UInt32) :
      Lowered f s code (.target offset)
        [{ opcode := comparisonOpcode c
           arguments := [(s.fresh "Bool").value, a.operand, b.operand] },
          .jumpIf expected (s.fresh "Bool").value (some (.source offset))]
        { s.withFresh "Bool" with stack := [] }

theorem IntegerItem.isFloat_eq {item : Item} (h : IntegerItem item) : item.isFloat = false := by
  have hname : Text.sameName "Int" "float" = false := by
    simp [← Bool.not_eq_true, Text.sameName_iff]
  obtain ⟨n, hn⟩ | ⟨v, hv, _⟩ := h.content
  · simp only [Item.isFloat, h.type, hname, hn, Bool.false_or]
  · simp only [Item.isFloat, h.type, hname, hv, Bool.false_or]

theorem IntegerItem.delegate?_eq {item : Item} (h : IntegerItem item) : item.delegate? = none := by
  obtain ⟨n, hn⟩ | ⟨v, hv, hdelegate⟩ := h.content
  · simp only [Item.delegate?, hn]
  · simp only [Item.delegate?, hv, hdelegate, Bool.false_eq_true, if_false]

theorem IntegerItem.stage_eq {item : Item} (h : IntegerItem item) (s : Simulation) :
    Lower.stage item s = .ok { value := item.operand } s := by
  obtain ⟨n, hn⟩ | ⟨v, hv, _⟩ := h.content
  · simp only [Lower.stage, h.isThis, Bool.false_eq_true, if_false, hn, Item.operand]
    rfl
  · simp only [Lower.stage, h.isThis, Bool.false_eq_true, if_false, hv, Item.operand]
    rfl

theorem IntegerItem.coerce_eq {item : Item} (h : IntegerItem item) :
    Value.coerce "Int" item.operand = item.operand := by
  have hname : "Int".toLower = "int" := by simp [← String.toList_inj, Text.toList_toLower]
  obtain ⟨n, hn⟩ | ⟨v, hv, _⟩ := h.content
  · simp only [Value.coerce, hname, Item.operand, hn]
    rfl
  · simp only [Value.coerce, hname, Item.operand, hv]
    rfl

theorem stagePair_eq {a b : Item} (ha : IntegerItem a) (hb : IntegerItem b) (s : Simulation) :
    Lower.stagePair a b s = .ok ([], a.operand, b.operand) s := by
  rw [Lower.stagePair, bind_run (ha.stage_eq s), bind_run (hb.stage_eq s)]
  rfl

theorem typeName_int32 : Naming.typeName .int32 = "Int" := by decide

theorem IntegerMethod.slotVariable {m : MethodDecl} (hm : IntegerMethod m) {slot : Managed.Slot}
    {v : Variable} (hv : slotVariable? m slot = some v) :
    v.type = "Int" ∧ v.isDelegate = false := by
  cases slot with
  | argument k =>
    have hv : (m.parameters.map _)[k]? = some v := hv
    rw [List.getElem?_map, Option.map_eq_some_iff] at hv
    obtain ⟨p, hp, rfl⟩ := hv
    rw [hm.parameters p (List.mem_of_getElem? hp), typeName_int32]
    exact ⟨rfl, rfl⟩
  | «local» k =>
    have hv : (m.locals.mapIdx _)[k]? = some v := hv
    rw [List.getElem?_mapIdx, Option.map_eq_some_iff] at hv
    obtain ⟨l, hl, rfl⟩ := hv
    rw [hm.locals l (List.mem_of_getElem? hl), typeName_int32]
    exact ⟨rfl, rfl⟩

theorem integerItem_ofVariable {m : MethodDecl} (hm : IntegerMethod m) {slot : Managed.Slot}
    {v : Variable} (hv : slotVariable? m slot = some v) : IntegerItem (.ofVariable v) := by
  obtain ⟨htype, hdelegate⟩ := hm.slotVariable hv
  exact ⟨htype, rfl, .inr ⟨v, rfl, hdelegate⟩⟩

inductive Chosen (f : Frame) (s : Simulation) : Destination → Simulation → Prop
  | pushed : Chosen f s (.push (s.fresh "Int")) (s.withFresh "Int")
  | absorbed {next : Instr} {slot : Managed.Slot} {v : Variable} (hnext : f.next? = some next)
      (htarget : f.isBranchTarget next.offset = false) (hslot : storedSlot? next = some slot)
      (hv : slotVariable? f.method slot = some v) :
      Chosen f s (.store v) { s with skipNext := true }

variable {f : Frame} {s s' : Simulation}

theorem StoreFollows.slot (hm : IntegerMethod f.method) (hs : IntegerState f.method s)
    {next : Instr} {v : Variable} (h : StoreFollows f s next v) :
    next.code ≠ .stfld ∧ ∃ slot, storedSlot? next = some slot ∧
      slotVariable? f.method slot = some v := by
  obtain ⟨hcode, _⟩ := hm.code next (List.mem_of_getElem? h.next)
  have hstored := h.stored
  obtain ⟨offset, code, operand, pop, line⟩ := next
  cases hcode with
  | stloc k =>
    replace hstored : s.locals[k.toNat]? = some v := hstored
    rw [hs.locals] at hstored
    exact ⟨by simp, .local k.toNat, rfl, hstored⟩
  | starg k =>
    replace hstored : argumentVariable? f k = some v := hstored
    rw [argumentVariable?, if_pos hm.isStatic] at hstored
    exact ⟨by simp, .argument k.toNat, rfl, hstored⟩
  | operator hop => cases code <;> cases hop <;> cases hstored
  | compare hc offset => cases code <;> cases hc <;> cases hstored
  | _ => cases hstored

theorem destination_ok (hm : IntegerMethod f.method) (hs : IntegerState f.method s)
    {d : Destination} (h : Lower.destination f "Int" s = .ok d s') : Chosen f s d s' := by
  cases Lower.destination_directs h with
  | discard htype _ => simp [Text.sameName_iff] at htype
  | push hv =>
    cases hv
    exact .pushed
  | @store next _ hfollows _ =>
    obtain ⟨_, slot, hslot, hv⟩ := hfollows.slot hm hs
    have htarget : f.isBranchTarget next.offset = false := by
      rw [Frame.isBranchTarget, List.any_eq_false]
      exact fun j hj htarget => hfollows.free j hj (beq_iff_eq.1 htarget)
    exact .absorbed hfollows.next htarget hslot hv
  | field hfollows hcode _ _ _ => exact absurd hcode (hfollows.slot hm hs).1
  | member hfollows hcode _ _ _ _ _ => exact absurd hcode (hfollows.slot hm hs).1

theorem produce_ok (hm : IntegerMethod f.method) (hs : IntegerState f.method s)
    {make : Value → Instruction} {code : List Instruction}
    (h : Lower.produce f "Int" [] make s = .ok code s') :
    ∃ v, Placed f s v s' ∧ code = [make v.value] := by
  obtain ⟨d, t, hdestination, h⟩ := bind_ok h
  obtain ⟨rest, t', hfinish, h⟩ := bind_ok h
  cases destination_ok hm hs hdestination with
  | pushed =>
    cases hfinish
    cases h
    exact ⟨_, .pushed, rfl⟩
  | absorbed hnext htarget hslot hv =>
    cases hfinish
    cases h
    exact ⟨_, .absorbed hnext htarget hslot hv, rfl⟩

section Instructions

variable {offset target : UInt32} {pop : Pop} {line : Option UInt16} {k : UInt16}
  {code : List Instruction}

theorem lowered_ldarg (hm : IntegerMethod f.method)
    (h : Lower.load f ⟨offset, .ldarg, .index k, pop, line⟩ s = .ok code s') :
    Lowered f s .ldarg (.index k) code s' := by
  obtain ⟨index, t, hneed, hargument⟩ := bind_ok h
  obtain ⟨hindex, rfl⟩ := Lower.need_ok hneed
  cases hindex
  obtain ⟨item, t', hitem, hpush⟩ := bind_ok hargument
  obtain ⟨v, hv, rfl, rfl⟩ := Lower.argument_ok hm.isStatic hitem
  cases hpush
  exact .load (.inl ⟨rfl, rfl⟩) hv

theorem lowered_ldloc (hs : IntegerState f.method s)
    (h : Lower.load f ⟨offset, .ldloc, .index k, pop, line⟩ s = .ok code s') :
    Lowered f s .ldloc (.index k) code s' := by
  obtain ⟨index, t, hneed, hlocal⟩ := bind_ok h
  obtain ⟨hindex, rfl⟩ := Lower.need_ok hneed
  cases hindex
  obtain ⟨v, t', hv, hpush⟩ := bind_ok hlocal
  obtain ⟨hfound, rfl⟩ := Lower.getLocal_ok hv
  rw [hs.locals] at hfound
  cases hpush
  exact .load (.inr ⟨rfl, rfl⟩) hfound

theorem assign_eq (hcoerce : f.coerce = Value.coerce) {v : Variable} (hv : v.type = "Int")
    {item : Item} (hitem : IntegerItem item) (s : Simulation) :
    Lower.assign f v item s = .ok [.assign v.name item.operand] s := by
  rw [Lower.assign, bind_run (hitem.stage_eq s), hcoerce, hv, hitem.coerce_eq]
  rfl

theorem lowered_stloc (hm : IntegerMethod f.method) (hcoerce : f.coerce = Value.coerce)
    (hs : IntegerState f.method s)
    (h : Lower.store f ⟨offset, .stloc, .index k, pop, line⟩ s = .ok code s') :
    Lowered f s .stloc (.index k) code s' := by
  obtain ⟨index, t, hneed, hstore⟩ := bind_ok h
  obtain ⟨hindex, rfl⟩ := Lower.need_ok hneed
  cases hindex
  obtain ⟨item, t', hpop, hassign⟩ := bind_ok hstore
  obtain ⟨rest, hstack, rfl⟩ := Lower.popOperand_ok hpop
  have hitem : IntegerItem item := hs.items item (hstack ▸ List.mem_cons_self)
  simp only [hitem.delegate?_eq] at hassign
  obtain ⟨v, t'', hlocal, hassigned⟩ := bind_ok hassign
  obtain ⟨hfound, rfl⟩ := Lower.getLocal_ok hlocal
  have hv : slotVariable? f.method (.local k.toNat) = some v := by
    rw [← hfound]
    exact congrArg (·[k.toNat]?) hs.locals.symm
  obtain ⟨htype, hdelegate⟩ := hm.slotVariable hv
  rw [hdelegate, if_neg Bool.false_ne_true, assign_eq hcoerce htype hitem] at hassigned
  cases hassigned
  exact .store hstack (.inr ⟨rfl, rfl⟩) hv

theorem lowered_starg (hm : IntegerMethod f.method) (hcoerce : f.coerce = Value.coerce)
    (hs : IntegerState f.method s)
    (h : Lower.store f ⟨offset, .starg, .index k, pop, line⟩ s = .ok code s') :
    Lowered f s .starg (.index k) code s' := by
  obtain ⟨index, t, hneed, hstore⟩ := bind_ok h
  obtain ⟨hindex, rfl⟩ := Lower.need_ok hneed
  cases hindex
  obtain ⟨item, t', hpop, hassign⟩ := bind_ok hstore
  obtain ⟨rest, hstack, rfl⟩ := Lower.popOperand_ok hpop
  have hitem : IntegerItem item := hs.items item (hstack ▸ List.mem_cons_self)
  obtain ⟨v, t'', hparameter, hassigned⟩ := bind_ok hassign
  obtain ⟨hv, rfl⟩ := Lower.parameter_ok hm.isStatic hparameter
  have hv : slotVariable? f.method (.argument k.toNat) = some v := hv
  rw [assign_eq hcoerce (hm.slotVariable hv).1 hitem] at hassigned
  cases hassigned
  exact .store hstack (.inl ⟨rfl, rfl⟩) hv

/-- The state behind the operands of an instruction. -/
theorem IntegerState.drop (hs : IntegerState f.method s) {rest : Stack}
    (hrest : ∀ item ∈ rest, item ∈ s.stack) : IntegerState f.method { s with stack := rest } :=
  ⟨hs.skipTo, hs.joins, hs.locals, fun item hitem => hs.items item (hrest item hitem),
    fun item hitem => hs.known item (hrest item hitem)⟩

theorem lowered_neg (hm : IntegerMethod f.method) (hs : IntegerState f.method s)
    (h : Lower.arithmetic f ⟨offset, .neg, .none, pop, line⟩ s = .ok code s') :
    Lowered f s .neg .none code s' := by
  obtain ⟨item, t, hpop, hproduce⟩ := bind_ok h
  obtain ⟨rest, hstack, rfl⟩ := Lower.popOperand_ok hpop
  have hitem : IntegerItem item := hs.items item (hstack ▸ List.mem_cons_self)
  have hrest := hs.drop fun a (ha : a ∈ rest) => hstack ▸ List.mem_cons_of_mem item ha
  have hopcode : Lower.unaryOpcode .neg false = (.ineg, "Int") := rfl
  simp only [hitem.isFloat_eq, hopcode, bind_run (hitem.stage_eq _)] at hproduce
  obtain ⟨v, hplaced, rfl⟩ := produce_ok hm hrest hproduce
  exact .neg hstack hplaced

theorem binaryOpcode?_eq {c : Code} {op : Operator} (h : Operator.ofCode? c = some op) :
    Lower.binaryOpcode? c false = some (operatorOpcode op) := by
  cases c <;> cases h <;> rfl

theorem lowered_operator (hm : IntegerMethod f.method) (hs : IntegerState f.method s) {c : Code}
    {op : Operator} (hop : Operator.ofCode? c = some op)
    (h : Lower.binary f ⟨offset, c, .none, pop, line⟩ s = .ok code s') :
    Lowered f s c .none code s' := by
  obtain ⟨⟨a, b⟩, t, hpop, hproduce⟩ := bind_ok h
  obtain ⟨rest, hstack, rfl⟩ := Lower.popPair_ok hpop
  have hb : IntegerItem b := hs.items b (hstack ▸ List.mem_cons_self)
  have ha : IntegerItem a :=
    hs.items a (hstack ▸ List.mem_cons_of_mem b List.mem_cons_self)
  have hrest := hs.drop fun d (hd : d ∈ rest) =>
    hstack ▸ List.mem_cons_of_mem b (List.mem_cons_of_mem a hd)
  simp only [ha.isFloat_eq, hb.isFloat_eq, Bool.or_self, binaryOpcode?_eq hop,
    bind_run (stagePair_eq ha hb _), Bool.false_and, Bool.false_eq_true, if_false] at hproduce
  obtain ⟨v, hplaced, rfl⟩ := produce_ok hm hrest hproduce
  exact .operator hstack hop hplaced

theorem lowered_dup (h : Lower.shuffle f ⟨offset, .dup, .none, pop, line⟩ s = .ok code s') :
    Lowered f s .dup .none code s' := by
  obtain ⟨_, t, hrequire, hpush⟩ := bind_ok h
  obtain ⟨hlength, rfl⟩ := Lower.require_ok hrequire
  cases hstack : t.stack with
  | nil => rw [hstack] at hlength; cases hlength
  | cons item rest =>
    have hcopy : t.stack.take 1 ++ t.stack = item :: t.stack := by rw [hstack]; rfl
    obtain ⟨_, t', hmodify, hpure⟩ := bind_ok hpush
    cases hmodify
    cases hpure
    show Lowered f t .dup .none [] { t with stack := t.stack.take 1 ++ t.stack }
    rw [hcopy]
    exact .dup hstack

theorem lowered_pop (h : Lower.shuffle f ⟨offset, .pop, .none, pop, line⟩ s = .ok code s') :
    Lowered f s .pop .none code s' := by
  obtain ⟨item, t, hpop, hpure⟩ := bind_ok h
  obtain ⟨rest, hstack, rfl⟩ := Lower.popOperand_ok hpop
  cases hpure
  exact .pop hstack

theorem lowered_ret (hm : IntegerMethod f.method) (hcoerce : f.coerce = Value.coerce)
    (hs : IntegerState f.method s)
    (h : Lower.giveBack f ⟨offset, .ret, .none, pop, line⟩ s = .ok code s') :
    Lowered f s .ret .none code s' := by
  rw [Lower.giveBack] at h
  cases hvoid : f.method.returns.isVoid with
  | true =>
    simp only [hvoid, if_true] at h
    cases h
    exact .retNone hvoid
  | false =>
    have hint : f.method.returns = .int32 := by
      obtain hint | hnone := hm.returns
      · exact hint
      · rw [hnone] at hvoid
        exact absurd hvoid (by decide)
    simp only [hvoid, Bool.false_eq_true, if_false] at h
    obtain ⟨item, t, hpop, hstage⟩ := bind_ok h
    obtain ⟨rest, hstack, rfl⟩ := Lower.popOperand_ok hpop
    have hitem : IntegerItem item := hs.items item (hstack ▸ List.mem_cons_self)
    rw [bind_run (hitem.stage_eq _), hcoerce, hint, typeName_int32, hitem.coerce_eq] at hstage
    cases hstage
    exact .ret hvoid hstack

theorem spill_eq (hstack : s.stack = []) (keep : Bool) : Lower.spill f target keep s = .ok [] s := by
  rw [Lower.spill, bind_run (show (get : Lower Simulation) s = .ok s s from rfl), hstack]
  rfl

theorem lowered_br (hstack : s.stack = [])
    (h : Lower.branch f ⟨offset, .br, .target target, pop, line⟩ s = .ok code s') :
    Lowered f s .br (.target target) code s' := by
  obtain ⟨_, t, hneed, hjump⟩ := bind_ok h
  obtain ⟨htarget, rfl⟩ := Lower.need_ok hneed
  cases htarget
  obtain ⟨carried, t', hspill, hpure⟩ := bind_ok hjump
  rw [spill_eq hstack false] at hspill
  cases hspill
  cases hpure
  exact .br hstack target

theorem lowered_truth (hs : IntegerState f.method s) (htidy : s.stack.drop 1 = [])
    {c : Code} {expected : Bool}
    (hc : c = .brtrue ∧ expected = true ∨ c = .brfalse ∧ expected = false)
    (h : Lower.branchOnTruth f ⟨offset, c, .target target, pop, line⟩ target expected s =
      .ok code s') :
    Lowered f s c (.target target) code s' := by
  obtain ⟨item, t, hpop, hcondition⟩ := bind_ok h
  obtain ⟨rest, hstack, rfl⟩ := Lower.popOperand_ok hpop
  have hitem : IntegerItem item := hs.items item (hstack ▸ List.mem_cons_self)
  have hrest : rest = [] := by rwa [hstack] at htidy
  subst hrest
  have hstage : Lower.stageCondition item expected { s with stack := [] } =
      .ok ({ value := item.operand }, expected) { s with stack := [] } := by
    obtain ⟨n, hn⟩ | ⟨v, hv, _⟩ := hitem.content
    · simp only [Lower.stageCondition, hn]
      exact bind_run (hitem.stage_eq _)
    · simp only [Lower.stageCondition, hv]
      exact bind_run (hitem.stage_eq _)
  rw [bind_run hstage] at hcondition
  obtain ⟨carried, t', hspill, hpure⟩ := bind_ok hcondition
  rw [spill_eq rfl true] at hspill
  cases hspill
  cases hpure
  exact .truth hstack hc target

theorem branchOpcode?_eq {c : Code} {comparison : Comparison} {expected : Bool}
    (h : Comparison.ofBranch? c = some (comparison, expected)) :
    Lower.branchOpcode? c = some (comparisonOpcode comparison, expected) := by
  cases c <;> cases h <;> rfl

theorem lowered_compare (hs : IntegerState f.method s) (htidy : s.stack.drop 2 = []) {c : Code}
    {comparison : Comparison} {expected : Bool}
    (hc : Comparison.ofBranch? c = some (comparison, expected))
    (h : Lower.branchOnComparison f ⟨offset, c, .target target, pop, line⟩ target s =
      .ok code s') :
    Lowered f s c (.target target) code s' := by
  simp only [Lower.branchOnComparison, branchOpcode?_eq hc] at h
  obtain ⟨⟨a, b⟩, t, hpop, hcompare⟩ := bind_ok h
  obtain ⟨rest, hstack, rfl⟩ := Lower.popPair_ok hpop
  have hb : IntegerItem b := hs.items b (hstack ▸ List.mem_cons_self)
  have ha : IntegerItem a :=
    hs.items a (hstack ▸ List.mem_cons_of_mem b List.mem_cons_self)
  have hrest : rest = [] := by rwa [hstack] at htidy
  subst hrest
  simp only [bind_run (stagePair_eq ha hb _)] at hcompare
  obtain ⟨condition, t', hmaterialize, hjump⟩ := bind_ok hcompare
  cases hmaterialize
  obtain ⟨carried, t'', hspill, hpure⟩ := bind_ok hjump
  rw [spill_eq rfl true] at hspill
  cases hspill
  cases hpure
  exact .compare hstack hc target

end Instructions

/-- Every successful step of lowering is one of those listed. -/
theorem lowered_of_step {i : Instr} {after : Simulation} {code : List Instruction}
    (hm : IntegerMethod f.method) (hcoerce : f.coerce = Value.coerce) (hi : i ∈ f.method.body)
    (hs : IntegerState f.method s) (htidy : Tidy f i s after)
    (h : Lower.step f i s = .ok code s') : Lowered f s i.code i.operand code s' := by
  obtain ⟨hcode, hpop⟩ := hm.code i hi
  have hbranch := htidy.branch
  rw [hpop] at hbranch
  obtain ⟨offset, c, operand, pop, line⟩ := i
  cases hcode with
  | nop => cases h; exact .nop
  | ldarg k => exact lowered_ldarg hm h
  | ldloc k => exact lowered_ldloc hs h
  | ldcI4 n => cases h; exact .literal n
  | stloc k => exact lowered_stloc hm hcoerce hs h
  | starg k => exact lowered_starg hm hcoerce hs h
  | operator hop => cases c <;> cases hop <;> exact lowered_operator hm hs rfl h
  | neg => exact lowered_neg hm hs h
  | dup => exact lowered_dup h
  | pop => exact lowered_pop h
  | ret => exact lowered_ret hm hcoerce hs h
  | br target => exact lowered_br (hbranch rfl) h
  | brtrue target => exact lowered_truth hs (hbranch rfl) (.inl ⟨rfl, rfl⟩) h
  | brfalse target => exact lowered_truth hs (hbranch rfl) (.inr ⟨rfl, rfl⟩) h
  | compare hc target => cases c <;> cases hc <;> exact lowered_compare hs (hbranch rfl) rfl h

end PapyrusBackend.Lowering
