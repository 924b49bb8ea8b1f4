import PapyrusBackend.Proofs.Lowering.Joins
import PapyrusBackend.Proofs.Lowering.Meaning

namespace PapyrusBackend.Lowering

open Source Semantics

variable {setting : Setting} {m : MethodDecl}

/-- Items flow to the offset from a branch in front of place `q`. -/
def FlowsBefore (setting : Setting) (m : MethodDecl) (q : Nat) (offset : UInt32) : Prop :=
  ∃ p flow, p < q ∧ flowAt? setting m p = some flow ∧ flow.offset = offset ∧ flow.items ≠ []

/-- The instruction at place `q` is not absorbed, and it is lowered with what was on the stack in
front of it. The given variables are temporaries that are made later. -/
def ArrivesWithout (setting : Setting) (m : MethodDecl) (q : Nat) (slots : List Variable) : Prop :=
  ∃ before s s' k types, runTo setting m q = .ok before s ∧ s.skipNext = false ∧
    stateAt? setting m q = some s' ∧ s'.stack = s.stack ∧ slots = temporariesFrom k types ∧
    s'.temporaries ≤ k

/-- Items that flow to a place, from above or from below, are assigned to temporaries in front of
the jump. The place is lowered with these on the stack if items flow to it from above, and otherwise
before they are there. -/
theorem flow_arrives_if_flows_before {result : LoweredMethod}
    (h : lowerMethod setting m = .ok result) {q : Nat} {i : Instr} (hi : m.body[q]? = some i)
    {p : Nat} {flow : Flow} (hflow : flowAt? setting m p = some flow)
    (hoffset : flow.offset = i.offset) (hitems : flow.items ≠ [])
    (hquiet : ∀ count expected, flowWarning i.offset count expected ∉ result.warnings) :
    ∃ slots, AreTemporaries result slots ∧ CarriesAt setting m p flow slots ∧
      (FlowsBefore setting m q i.offset → ArrivesWith setting m q slots) ∧
      (¬FlowsBefore setting m q i.offset → ArrivesWithout setting m q slots) := by
  rw [← hoffset] at hquiet
  obtain ⟨segments, last, slots, hrun, hquiet', hlast, htemporaries, hflows⟩ :=
    exists_slots h hflow hitems hquiet
  rw [hoffset] at hquiet' hlast hflows
  refine ⟨slots, htemporaries, (hflows p flow hflow hoffset hitems).1, ?_, fun hnone => ?_⟩
  · rintro ⟨r, flow', hr, hflow', hoffset', hitems'⟩
    obtain ⟨_, made, t, hnext, hslots⟩ := hflows r flow' hflow' hoffset' hitems'
    exact arrivesWith hrun hi hquiet' hr hflow' hoffset' hnext hslots
  · obtain ⟨before, s, _, _, _, hbefore, _, _, _⟩ := exists_handled hrun hi
    obtain ⟨j, hj, htarget⟩ := flowAt?_target hflow
    rw [hoffset] at htarget
    have hskip := skipNext_of_target hrun hi hj htarget hbefore
    obtain ⟨segment, t, s', hnext, hstate, hbecomes, hentered⟩ :=
      exists_entered hrun hi hbefore hskip
    have hnew : s.joins.lookup i.offset = none := by
      obtain ⟨_, _, _, _, _, _, _, _, _, _, hnative, _⟩ := flowAt?_eq_some hflow
      rw [Option.eq_none_iff_forall_ne_some]
      exact fun slots hslots => hnone (exists_flowAt? hrun hnative hbefore hslots)
    obtain ⟨k, types, hle, hnumbered, _⟩ :=
      Becomes.exists_temporaries (hbecomes.trans (runTo_becomes_last hnext hrun))
        ((hentered.lookup i.offset).trans hnew) hlast
    refine ⟨before, s, s', k, types, hbefore, hskip, hstate, ?_, hnumbered, hle⟩
    rw [hentered.unjoined_eq hnew]

/-- Doubles a number that is on the stack, and goes back to store it while there is something left
to do. -/
def doubling : MethodDecl :=
  { name := "Double"
    returns := .int32
    isStatic := true
    locals := [{ name := some "x", type := .int32 }, { name := some "n", type := .int32 }]
    body := [
      { offset := 0, code := .ldcI4, operand := .int 1 },
      { offset := 1, code := .stloc, operand := .index 0 },
      { offset := 2, code := .ldloc, operand := .index 0 },
      { offset := 3, code := .ldcI4, operand := .int 2 },
      { offset := 4, code := .mul },
      { offset := 5, code := .ldloc, operand := .index 1 },
      { offset := 6, code := .ldcI4, operand := .int 1 },
      { offset := 7, code := .add },
      { offset := 8, code := .stloc, operand := .index 1 },
      { offset := 9, code := .ldloc, operand := .index 1 },
      { offset := 10, code := .ldcI4, operand := .int 3 },
      { offset := 11, code := .blt, operand := .target 1 },
      { offset := 16, code := .ret }] }

theorem flowAt?_doubling : flowAt? strictSetting doubling 11 =
    some ⟨1, [.result { name := Lower.temporaryName 0, type := "Int" }]⟩ := by
  decide +kernel

theorem lowered_doubling :
    ∃ result, lowerMethod strictSetting doubling = .ok result ∧ result.warnings = [] ∧
      Halts (Script.step wordArithmetic result.method.body.instructions) { env := fun _ => 0 }
        (.returned (some 2)) := by
  have hrun : ((lowerMethod strictSetting doubling).toOption.bind fun result =>
      (run (Script.step wordArithmetic result.method.body.instructions) 40
        { env := fun _ => 0 }).map (result.warnings, ·)) = some ([], .returned (some 2)) := by
    decide +kernel
  cases h : lowerMethod strictSetting doubling with
  | error fault =>
    rw [h] at hrun
    cases hrun
  | ok result =>
    rw [h] at hrun
    obtain ⟨outcome, hhalts, hpair⟩ := Option.map_eq_some_iff.1 hrun
    obtain ⟨hwarnings, rfl⟩ := Prod.mk.inj hpair
    exact ⟨result, rfl, hwarnings, halts_of_run 40 hhalts⟩

theorem flow_arrives_if_flows_before_doubling :
    ∃ result, lowerMethod strictSetting doubling = .ok result ∧ ∃ slots,
      AreTemporaries result slots ∧
      CarriesAt strictSetting doubling 11
        ⟨1, [.result { name := Lower.temporaryName 0, type := "Int" }]⟩ slots ∧
      (FlowsBefore strictSetting doubling 1 1 → ArrivesWith strictSetting doubling 1 slots) ∧
      (¬FlowsBefore strictSetting doubling 1 1 →
        ArrivesWithout strictSetting doubling 1 slots) := by
  obtain ⟨result, h, hwarnings, _⟩ := lowered_doubling
  refine ⟨result, h, flow_arrives_if_flows_before h
    (i := { offset := 1, code := .stloc, operand := .index 0 }) rfl flowAt?_doubling rfl
    (List.cons_ne_nil _ _) ?_⟩
  intro count expected
  rw [hwarnings]
  exact List.not_mem_nil

/-- The number that is doubled in the second round is that of the first one again. There is no
warning, and the script gives back 2 instead of 8. -/
theorem backward_flow_is_lost :
    doubling.body.Pairwise (fun a b => a.offset < b.offset) ∧
      (∀ j ∈ doubling.body, ∀ offset ∈ j.target?, ∃ i ∈ doubling.body, i.offset = offset) ∧
      ∃ result, lowerMethod strictSetting doubling = .ok result ∧ result.warnings = [] ∧
        (∃ flow, flowAt? strictSetting doubling 11 = some flow ∧ flow.offset = 1 ∧
          flow.items ≠ []) ∧
        (∀ slots, ¬ArrivesWith strictSetting doubling 1 slots) ∧
        Halts (Managed.step wordArithmetic doubling) { slots := fun _ => 0 }
          (.returned (some 8)) ∧
        Halts (Script.step wordArithmetic result.method.body.instructions) { env := fun _ => 0 }
          (.returned (some 2)) := by
  obtain ⟨result, h, hwarnings, hscript⟩ := lowered_doubling
  have hstack : (stateAt? strictSetting doubling 1).map Simulation.stack =
      some [.ofValue (.int 1)] := by
    decide +kernel
  refine ⟨by decide, by simp [doubling, Instr.target?], result, h, hwarnings,
    ⟨_, flowAt?_doubling, rfl, List.cons_ne_nil _ _⟩, ?_,
    halts_of_run 60 (by decide +kernel), hscript⟩
  rintro slots ⟨_, _, _, _, s', _, _, _, hstate, hjoined, _⟩
  rw [hstate, Option.map_some, hjoined] at hstack
  have hmem : Item.ofValue (.int 1) ∈ Lower.joined slots := by
    rw [Option.some.inj hstack]
    exact List.mem_cons_self
  obtain ⟨v, _, hv⟩ := List.mem_map.1 (List.mem_reverse.1 hmem)
  cases hv

end PapyrusBackend.Lowering
