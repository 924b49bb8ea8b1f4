import PapyrusBackend.Lowering.Staging
import PapyrusBackend.Proofs.Sequence
import Std.Data.String.ToNat

namespace PapyrusBackend.Lowering

theorem temporaryName_inj {j k : Nat} (h : Lower.temporaryName j = Lower.temporaryName k) :
    j = k := by
  have hdigits : (toString j).toList = (toString k).toList := by
    have h := congrArg String.toList h
    simpa only [Lower.temporaryName, String.toList_append, List.append_cancel_left_eq] using h
  exact Nat.repr_inj.1 (String.toList_inj.1 hdigits)

namespace Lower

open Source

variable {f : Frame} {i : Instr} {s s' : Simulation}

theorem need_ok {operand : Option α} {reason : String} {a : α}
    (h : need operand reason s = .ok a s') : operand = some a ∧ s' = s := by
  cases operand with
  | none => cases h
  | some a => cases h; exact ⟨rfl, rfl⟩

theorem underflow_fails {n : Nat} {a : α} : (underflow f i n : Lower α) s ≠ .ok a s' := by
  intro h
  obtain ⟨_, _, hget, hthrow⟩ := bind_ok h
  cases hthrow

theorem require_ok {n : Nat} (h : require f i n s = .ok () s') : n ≤ s.stack.length ∧ s' = s := by
  obtain ⟨_, _, hget, h⟩ := bind_ok h
  cases hget
  by_cases hlt : s.stack.length < n
  · rw [if_pos hlt] at h
    exact absurd h underflow_fails
  · rw [if_neg hlt] at h
    cases h
    exact ⟨Nat.le_of_not_lt hlt, rfl⟩

theorem popMany_ok {n : Nat} {items : List Item} (h : popMany f i n s = .ok items s') :
    n ≤ s.stack.length ∧ items = (s.stack.take n).reverse ∧
      s' = { s with stack := s.stack.drop n } := by
  obtain ⟨_, _, hget, h⟩ := bind_ok h
  cases hget
  by_cases hn : n ≤ s.stack.length
  · simp only [Stack.popMany?, if_pos hn] at h
    obtain ⟨_, _, hset, h⟩ := bind_ok h
    cases hset
    cases h
    exact ⟨hn, rfl, rfl⟩
  · simp only [Stack.popMany?, if_neg hn] at h
    exact absurd h underflow_fails

theorem popOperands_ok {n : Nat} {items : List Item} (h : popOperands f i n s = .ok items s') :
    n ≤ s.stack.length ∧ items = (s.stack.take n).reverse ∧
      s' = { s with stack := s.stack.drop n } := by
  obtain ⟨_, _, hget, h⟩ := bind_ok h
  cases hget
  by_cases hcount : i.pop.count n s.stack.length = n
  · rw [if_pos hcount, hcount] at h
    exact popMany_ok h
  · rw [if_neg hcount] at h
    cases h

theorem popOperand_ok {item : Item} (h : popOperand f i s = .ok item s') :
    ∃ rest, s.stack = item :: rest ∧ s' = { s with stack := rest } := by
  obtain ⟨items, t, hpop, h⟩ := bind_ok h
  obtain ⟨hlength, rfl, rfl⟩ := popOperands_ok hpop
  cases hs : s.stack with
  | nil => simp [hs] at hlength
  | cons top rest =>
    simp only [hs, List.take_succ_cons, List.take_zero, List.reverse_singleton] at h
    cases h
    exact ⟨rest, rfl, rfl⟩

/-- The operand that was pushed last comes second. -/
theorem popPair_ok {a b : Item} (h : popPair f i s = .ok (a, b) s') :
    ∃ rest, s.stack = b :: a :: rest ∧ s' = { s with stack := rest } := by
  obtain ⟨items, t, hpop, h⟩ := bind_ok h
  obtain ⟨hlength, rfl, rfl⟩ := popOperands_ok hpop
  match hs : s.stack with
  | [] => simp [hs] at hlength
  | [_] => simp [hs] at hlength
  | second :: first :: rest =>
    simp only [hs, List.take_succ_cons, List.take_zero, List.reverse_cons, List.reverse_nil,
      List.nil_append, List.singleton_append] at h
    cases h
    exact ⟨rest, rfl, rfl⟩

theorem getLocal_ok {index : UInt16} {v : Variable} (h : getLocal f index s = .ok v s') :
    s.locals[index.toNat]? = some v ∧ s' = s := by
  obtain ⟨_, _, hget, h⟩ := bind_ok h
  cases hget
  cases hv : s.locals[index.toNat]? with
  | none => simp only [hv] at h; cases h
  | some w =>
    simp only [hv] at h
    cases h
    exact ⟨rfl, rfl⟩

theorem argument_ok {index : UInt16} {item : Item} (hstatic : f.method.isStatic = true)
    (h : argument f index s = .ok item s') :
    ∃ v, f.parameters[index.toNat]? = some v ∧ item = .ofVariable v ∧ s' = s := by
  simp only [argument, hstatic, if_true] at h
  cases hv : f.parameters[index.toNat]? with
  | none => simp only [hv] at h; cases h
  | some v =>
    simp only [hv] at h
    cases h
    exact ⟨v, rfl, rfl, rfl⟩

theorem parameter_ok {index : UInt16} {v : Variable} (hstatic : f.method.isStatic = true)
    (h : parameter f index s = .ok v s') : f.parameters[index.toNat]? = some v ∧ s' = s := by
  obtain ⟨item, t, hargument, hcontent⟩ := bind_ok h
  obtain ⟨w, hw, rfl, rfl⟩ := argument_ok hstatic hargument
  cases hcontent
  exact ⟨hw, rfl⟩

/-- What staging an item comes to. Members are read and comparisons are made into a fresh variable;
the flag that turns comparisons round goes to the first one that is made. -/
inductive Stages (s : Simulation) (item : Item) : Staged → Simulation → Prop
  | this (hthis : item.isThis = true) : Stages s item { value := .reference "self" } s
  | literal {value : Value} (hthis : item.isThis = false) (h : item.content = .literal value) :
      Stages s item { value } s
  | held {v : Variable} (hthis : item.isThis = false) (h : item.content = .held v) :
      Stages s item { value := v.value } s
  | method {name : String} (hthis : item.isThis = false) (h : item.content = .method name) :
      Stages s item { value := .reference name } s
  | member {source field v : Variable} {t : Simulation} (hthis : item.isThis = false)
      (h : item.content = .member source field) (hv : temporary field.type s = .ok v t) :
      Stages s item
        { code := [.structGet v.name source.value field.name], value := v.value } t
  | comparison {opcode : Opcode} {lhs rhs : Value} {v : Variable} {t : Simulation}
      (hthis : item.isThis = false) (h : item.content = .comparison opcode lhs rhs)
      (hv : temporary "Bool" s = .ok v t) :
      Stages s item
        { code := { opcode, arguments := [v.value, lhs, rhs] } ::
            if s.inverted then [negation v.value] else []
          value := v.value }
        { t with inverted := false }

theorem stage_run (item : Item) (s : Simulation) :
    ∃ staged t, stage item s = .ok staged t ∧ Stages s item staged t := by
  rw [stage]
  cases hthis : item.isThis with
  | true => exact ⟨_, _, rfl, .this hthis⟩
  | false =>
    cases hcontent : item.content with
    | literal value => exact ⟨_, _, rfl, .literal hthis hcontent⟩
    | held v => exact ⟨_, _, rfl, .held hthis hcontent⟩
    | method name => exact ⟨_, _, rfl, .method hthis hcontent⟩
    | member source field => exact ⟨_, _, rfl, .member hthis hcontent rfl⟩
    | comparison opcode lhs rhs =>
      obtain ⟨v, t, hv⟩ : ∃ v t, temporary "Bool" s = .ok v t := ⟨_, _, rfl⟩
      have hmade : materialize opcode lhs rhs s =
          .ok { code := [{ opcode, arguments := [v.value, lhs, rhs] }], value := v.value } t :=
        bind_run hv
      have hflag : takeInverted t = .ok s.inverted { t with inverted := false } := by
        cases hv
        rfl
      refine ⟨_, _, ?_, .comparison hthis hcontent hv⟩
      dsimp only
      rw [if_neg Bool.false_ne_true, bind_run hmade, bind_run hflag]
      cases s.inverted <;> rfl

theorem stage_stages {item : Item} {staged : Staged} (h : stage item s = .ok staged s') :
    Stages s item staged s' := by
  obtain ⟨_, _, hrun, hstages⟩ := stage_run item s
  cases hrun.symm.trans h
  exact hstages

end Lower

end PapyrusBackend.Lowering
