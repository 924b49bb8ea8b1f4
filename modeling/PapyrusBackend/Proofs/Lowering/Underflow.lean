import PapyrusBackend.Proofs.Lowering.Absorption

namespace PapyrusBackend.Lowering

open Source

variable {f : Frame} {i : Instr} {s t : Simulation} {fault : Fault}

theorem lacksReceiver_eq_true_iff {stack : Stack} :
    lacksReceiver i stack = true ↔ ∃ callee, i.code.category = .call ∧ i.method? = some callee ∧
      (callee.convention = .thisCall || callee.hasThis) = true ∧
      i.pop.count callee.parameters.length stack.length = stack.length := by
  rw [lacksReceiver]
  split
  · next callee hcategory hcallee =>
    rw [Bool.and_eq_true, beq_iff_eq]
    constructor
    · rintro ⟨hobject, hcount⟩
      exact ⟨callee, hcategory, hcallee, hobject, hcount⟩
    · rintro ⟨callee', _, hcallee', hobject, hcount⟩
      cases hcallee.symm.trans hcallee'
      exact ⟨hobject, hcount⟩
  · next hnone =>
    constructor
    · intro h
      cases h
    · rintro ⟨callee, hcategory, hcallee, _⟩
      exact absurd hcallee (hnone callee hcategory)

/-- By the time the object is looked for, nothing is left on the stack. -/
theorem step_lacksReceiver (h : lacksReceiver i s.stack = true) :
    Lower.step f i s = .error
      (.stackUnderflow f.method.name i.offset (s.stack.length + 1) 0) { s with stack := [] } := by
  obtain ⟨callee, hcategory, hcallee, hobject, hcount⟩ := lacksReceiver_eq_true_iff.1 h
  have hpop : Lower.popMany f i s.stack.length s = .ok s.stack.reverse { s with stack := [] } := by
    rw [Lower.popMany_run (Nat.le_refl _), List.take_length, List.drop_length]
  rw [Lower.step, hcategory]
  dsimp only
  rw [Lower.call, bind_run (Lower.need_run hcallee), get_bind]
  dsimp only
  rw [hcount, bind_run hpop, if_pos hobject]
  exact bind_fails rfl

/-- Whatever fails for want of operands changes nothing but the stack, and that only in the one
case. A lenient caller goes on from there. -/
theorem step_underflow (h : Lower.step f i s = .error fault t) (hlocal : fault.isLocal = true) :
    t = { s with stack := if lacksReceiver i s.stack = true then [] else s.stack } ∧
      (∃ needed, fault = .stackUnderflow f.method.name i.offset needed t.stack.length ∧
        s.stack.length < needed ∧
        (lacksReceiver i s.stack = true → needed = s.stack.length + 1)) ∧
      Lower.tolerate .lenient i (Lower.step f i) s = .ok [] { t with
        warnings := t.warnings ++
          ["dropped IL_" ++ Text.hexPadded 4 i.offset.toNat ++ ": " ++ fault.message] } := by
  have htolerate : Lower.tolerate .lenient i (Lower.step f i) s = .ok [] { t with
      warnings := t.warnings ++
        ["dropped IL_" ++ Text.hexPadded 4 i.offset.toNat ++ ": " ++ fault.message] } := by
    rw [Lower.tolerate, h]
    exact if_pos ⟨rfl, hlocal⟩
  by_cases hlacks : lacksReceiver i s.stack = true
  · rw [step_lacksReceiver hlacks] at h
    cases h
    rw [if_pos hlacks]
    exact ⟨rfl, ⟨_, rfl, Nat.lt_succ_self _, fun _ => rfl⟩, htolerate⟩
  · rw [if_neg hlacks]
    cases (Lower.step_error h).2 hlocal with
    | operands hneeded => exact ⟨rfl, ⟨_, rfl, hneeded, fun h => absurd h hlacks⟩, htolerate⟩
    | receiver hreceiver => exact absurd hreceiver hlacks

theorem step_underflow_addition :
    ∃ fault t, Lower.step (lenientSetting.frame default) { offset := 3, code := .add }
        { stack := [.ofValue (.int 7)] } = .error fault t ∧ fault.isLocal = true ∧
      t = { stack := [.ofValue (.int 7)] } := by
  have hfails : Lower.step (lenientSetting.frame default) { offset := 3, code := .add }
      { stack := [.ofValue (.int 7)] } =
        .error (.stackUnderflow "" 3 2 1) { stack := [.ofValue (.int 7)] } := by
    decide +kernel
  exact ⟨_, _, hfails, rfl, (step_underflow hfails rfl).1⟩

/-- Calls a method on an object that is not there, and gives back what the call leaves. -/
def feed : MethodDecl :=
  { name := "Feed"
    returns := .int32
    isStatic := true
    body := [
      { offset := 0, code := .ldcI4, operand := .int 7 },
      { offset := 1, code := .callvirt
        operand := .method
          { owner := { name := "Bag" }
            name := "Add"
            parameters := [{ name := "n", type := .int32 }]
            returns := .int32
            hasThis := true } },
      { offset := 6, code := .ret }] }

/-- The argument of the call is lost when the call is left out, so that the fault tells of an empty
stack and the return is left out as well. -/
theorem dropped_call_loses_argument :
    (∃ f i s needed available t,
      Lower.step f i s = .error (.stackUnderflow f.method.name i.offset needed available) t ∧
        t.stack ≠ s.stack ∧ available ≠ s.stack.length) ∧
    ∃ result, lowerMethod lenientSetting feed = .ok result ∧
      result.method.body.instructions = [] ∧
      result.warnings =
        ["dropped IL_0001: Stack underflow in Feed at IL_0001: needed 2, had 0",
         "dropped IL_0006: Stack underflow in Feed at IL_0006: needed 1, had 0"] := by
  constructor
  · have hlacks : lacksReceiver feed.body[1] [.ofValue (.int 7)] = true := by decide
    exact ⟨lenientSetting.frame feed, feed.body[1], { stack := [.ofValue (.int 7)] }, _, _, _,
      step_lacksReceiver hlacks, (List.cons_ne_nil _ _).symm, by decide⟩
  · have hlower : ((lowerMethod lenientSetting feed).toOption.map fun result =>
        (result.method.body.instructions, result.warnings)) = some ([],
          ["dropped IL_0001: Stack underflow in Feed at IL_0001: needed 2, had 0",
           "dropped IL_0006: Stack underflow in Feed at IL_0006: needed 1, had 0"]) := by
      decide +kernel
    cases h : lowerMethod lenientSetting feed with
    | error fault =>
      rw [h] at hlower
      cases hlower
    | ok result =>
      rw [h] at hlower
      obtain ⟨hcode, hwarnings⟩ := Prod.mk.inj (Option.some.inj hlower)
      exact ⟨result, rfl, hcode, hwarnings⟩

end PapyrusBackend.Lowering
