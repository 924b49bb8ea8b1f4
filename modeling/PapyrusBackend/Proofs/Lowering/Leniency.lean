import PapyrusBackend.Lowering.Program
import PapyrusBackend.Proofs.Lowering.Evolution
import PapyrusBackend.Proofs.Lowering.Placement

namespace PapyrusBackend.Lowering

open Source

theorem Becomes.warnings {s t : Simulation} (h : Becomes s t) : s.warnings <+: t.warnings := by
  induction h with
  | refl => exact List.prefix_refl _
  | tail _ hchange ih =>
    refine ih.trans ?_
    cases hchange with
    | warn message => exact List.prefix_append _ _
    | _ => exact List.prefix_refl _

/-- What a lenient run comes to, against a strict one: to the same if that succeeds, and otherwise
to a warning, if not to a fault of its own. -/
def Softens (strict lenient : EStateM.Result Fault Simulation α) : Prop :=
  match strict with
  | .ok a t => lenient = .ok a t
  | .error .. => ∀ a t, lenient = .ok a t → t.warnings ≠ []

theorem Softens.same {r : EStateM.Result Fault Simulation α} : Softens r r := by
  cases r with
  | ok a t => rfl
  | error fault t => nofun

theorem Softens.get {k l : Simulation → Lower α} {s : Simulation} (h : Softens (k s s) (l s s)) :
    Softens ((get >>= k) s) ((get >>= l) s) := h

/-- A warning that the first part has given is still there after the second. -/
theorem Softens.bind {x y : Lower α} {k l : α → Lower β} {s : Simulation} (hx : Softens (x s) (y s))
    (hk : ∀ a t, Softens (k a t) (l a t)) (hl : ∀ a t, Evolves t (l a)) :
    Softens ((x >>= k) s) ((y >>= l) s) := by
  cases hstrict : x s with
  | ok a t =>
    rw [hstrict] at hx
    rw [bind_run hstrict, bind_run (show y s = .ok a t from hx)]
    exact hk a t
  | error fault t =>
    rw [hstrict] at hx
    have hfails : (x >>= k) s = .error fault t := by
      show EStateM.bind x k s = .error fault t
      rw [EStateM.bind, hstrict]
    rw [hfails]
    intro b u hlenient hnil
    obtain ⟨a, t', hfirst, hsecond⟩ := bind_ok hlenient
    have hbecomes := hl a t'
    rw [Evolves, hsecond] at hbecomes
    exact hx a t' hfirst (List.prefix_nil.1 (hnil ▸ hbecomes.warnings))

namespace Lower

variable {f : Frame}

theorem softens_tolerate (i : Instr) (code : Lower (List Instruction)) (s : Simulation) :
    Softens (tolerate .strict i code s) (tolerate .lenient i code s) := by
  simp only [tolerate]
  cases code s with
  | ok made t => rfl
  | error fault t =>
    rintro made u h
    by_cases hlocal : fault.isLocal = true
    · simp only [hlocal, and_self, if_true] at h
      cases h
      simp
    · simp [hlocal] at h

theorem softens_visit (line : UInt16) (i : Instr) (s : Simulation) :
    Softens (visit f .strict line i s) (visit f .lenient line i s) := by
  apply Softens.get
  by_cases hskip : s.skipNext = true
  · rw [if_pos hskip, if_pos hskip]
    exact .same
  rw [if_neg hskip, if_neg hskip]
  by_cases hwait : (s.skipTo.any fun offset => i.offset < offset) = true
  · rw [if_pos hwait, if_pos hwait]
    exact .same
  rw [if_neg hwait, if_neg hwait]
  have hcode (entry : List Instruction) (t : Simulation) :
      Evolves t (do
        let code ← tolerate .lenient i (step f i)
        return some { offset := i.offset, line, entry, code } : Lower (Option Segment)) :=
    (evolves_tolerate .lenient fun _ => evolves_step).bind fun _ _ => .pure _
  refine Softens.same.bind (fun _ t => ?_) fun _ t => (evolves_enter _).bind hcode
  refine Softens.same.bind (fun entry u => ?_) hcode
  exact (softens_tolerate i _ u).bind (fun _ _ => .same) fun _ _ => .pure _

theorem softens_visitAll (position : Nat) (line : UInt16) (instrs : List Instr) (s : Simulation) :
    Softens (visitAll f .strict position line instrs s)
      (visitAll f .lenient position line instrs s) := by
  induction instrs generalizing position line s with
  | nil => exact .same
  | cons i rest ih =>
    refine (softens_visit _ i s).bind (fun first t => ?_) fun _ _ =>
      (evolves_visitAll _ _ _ rest).bind fun _ _ => .pure _
    exact (ih _ _ t).bind (fun _ _ => .same) fun _ _ => .pure _

end Lower

def MethodSoftens (strict lenient : Except Fault LoweredMethod) : Prop :=
  match strict with
  | .ok lowered => lenient = .ok lowered
  | .error _ => ∀ lowered, lenient = .ok lowered → lowered.warnings ≠ []

theorem Softens.concluded {strict lenient : EStateM.Result Fault Simulation (List Segment)}
    (h : Softens strict lenient) (optimizeLabels : Bool) (m : MethodDecl) :
    MethodSoftens (concluded optimizeLabels m strict) (concluded optimizeLabels m lenient) := by
  cases strict with
  | ok segments t => exact congrArg (Lowering.concluded optimizeLabels m) h
  | error fault t =>
    intro lowered hlenient
    cases lenient with
    | error fault' t' => cases hlenient
    | ok segments t' =>
      cases hlenient
      exact fun hnil => h segments t' rfl (List.append_eq_nil_iff.1 hnil).1

theorem lowerMethod_softens (setting : Setting) (m : MethodDecl) :
    MethodSoftens (lowerMethod { setting with policy := .strict } m)
      (lowerMethod { setting with policy := .lenient } m) := by
  rw [lowerMethod, lowerMethod]
  by_cases hnative : m.isNative = true
  · rw [if_pos hnative, if_pos hnative]
    rfl
  · rw [if_neg hnative, if_neg hnative, lowerCode_eq, lowerCode_eq]
    exact (Lower.softens_visitAll 0 0 m.body _).concluded _ m

/-- A lenient caller always gets something: what a strict one gets, or else something with a
warning. -/
def Amends (warned : α → Prop) (strict lenient : Except Fault α) : Prop :=
  ∃ b, lenient = .ok b ∧
    match strict with
    | .ok a => b = a
    | .error _ => warned b

theorem Amends.pure {warned : α → Prop} (a : α) : Amends warned (pure a) (pure a) := ⟨a, rfl, rfl⟩

theorem Amends.bind {warned : α → Prop} {warned' : β → Prop} {x y : Except Fault α}
    {k l : α → Except Fault β} (hx : Amends warned x y) (hk : ∀ a, Amends warned' (k a) (l a))
    (hl : ∀ a b, warned a → l a = .ok b → warned' b) : Amends warned' (x >>= k) (y >>= l) := by
  obtain ⟨a, rfl, hstrict⟩ := hx
  cases x with
  | ok a' =>
    cases hstrict
    exact hk a
  | error fault =>
    obtain ⟨b, hb, _⟩ := hk a
    exact ⟨b, hb, hl a b hstrict hb⟩

theorem Amends.map {warned : α → Prop} {warned' : β → Prop} {x y : Except Fault α} {g : α → β}
    (hx : Amends warned x y) (hg : ∀ a, warned a → warned' (g a)) :
    Amends warned' (x >>= fun a => Pure.pure (g a)) (y >>= fun a => Pure.pure (g a)) := by
  refine hx.bind (fun a => .pure (g a)) ?_
  rintro a b hwarned ⟨⟩
  exact hg a hwarned

theorem lowerMethods_amends (setting : Setting) (methods : List MethodDecl) :
    Amends (fun result => result.2 ++ result.1.flatMap LoweredMethod.warnings ≠ [])
      (lowerMethods { setting with policy := .strict } methods)
      (lowerMethods { setting with policy := .lenient } methods) := by
  induction methods with
  | nil => exact .pure _
  | cons m rest ih =>
    have hm := lowerMethod_softens setting m
    rw [lowerMethods, lowerMethods]
    cases hstrict : lowerMethod { setting with policy := .strict } m with
    | ok lowered =>
      rw [hstrict] at hm
      rw [show lowerMethod { setting with policy := .lenient } m = .ok lowered from hm]
      refine ih.bind (fun result => .pure _) ?_
      rintro result _ hwarned ⟨⟩
      simp only [List.flatMap_cons, ne_eq, List.append_eq_nil_iff] at hwarned ⊢
      exact fun hnil => hwarned ⟨hnil.1, hnil.2.2⟩
    | error fault =>
      rw [hstrict] at hm
      obtain ⟨others, hothers, _⟩ := ih
      cases hlenient : lowerMethod { setting with policy := .lenient } m with
      | ok lowered =>
        refine ⟨(lowered :: others.1, others.2), by simp only [hothers]; rfl, ?_⟩
        have hwarned : lowered.warnings ≠ [] := hm lowered hlenient
        simp [hwarned]
      | error fault' =>
        refine ⟨_, by simp only [hothers]; rfl, ?_⟩
        simp

/-- The rest of a type does not depend on how faults are handled. -/
theorem lowerType_amends (options : Options) (program : Source.Module) (t : TypeDecl) :
    Amends (fun lowered => lowered.warnings ≠ [])
      (lowerType { options with policy := .strict } program t)
      (lowerType { options with policy := .lenient } program t) := by
  have hmethods := lowerMethods_amends (options.setting program t)
    (t.methods.filter fun m => !m.isConstructor)
  refine hmethods.map fun result hwarned => ?_
  simp only [ne_eq, List.append_eq_nil_iff] at hwarned ⊢
  exact fun hnil => hwarned ⟨hnil.1.2, hnil.2⟩

theorem lowerTypes_amends (options : Options) (program : Source.Module) (types : List TypeDecl) :
    Amends (fun lowered => lowered.flatMap LoweredType.warnings ≠ [])
      (lowerTypes { options with policy := .strict } program types)
      (lowerTypes { options with policy := .lenient } program types) := by
  induction types with
  | nil => exact .pure _
  | cons t rest ih =>
    have hfirst := lowerType_amends options program t
    refine hfirst.bind (fun first => ih.map fun others hwarned => ?_) ?_
    · simp [hwarned]
    · intro first types hwarned hlenient
      obtain ⟨others, hothers, _⟩ := ih
      rw [hothers] at hlenient
      cases hlenient
      simp [hwarned]

/-- A lenient caller gets a program for every module. It has the types, the debug information, the
listings and the warnings of the program that a strict caller gets, and where a strict caller gets a
fault it has a warning. -/
theorem lowerProgram_policies_agree (options : Options) (program : Source.Module)
    (time time' : UInt64) :
    ∃ lenient, lowerProgram { options with policy := .lenient } time program = .ok lenient ∧
      match lowerProgram { options with policy := .strict } time' program with
      | .ok strict =>
        lenient.assembly.types = strict.assembly.types ∧
        lenient.assembly.debug.map DebugInfo.methods =
          strict.assembly.debug.map DebugInfo.methods ∧
        lenient.assembly.debug.map DebugInfo.structs =
          strict.assembly.debug.map DebugInfo.structs ∧
        lenient.listings = strict.listings ∧ lenient.warnings = strict.warnings
      | .error _ => lenient.warnings ≠ [] := by
  obtain ⟨types, hlenient, hstrict⟩ := lowerTypes_amends options program program.types
  simp only [lowerProgram, hlenient]
  refine ⟨_, rfl, ?_⟩
  cases htypes : lowerTypes { options with policy := .strict } program program.types with
  | error fault =>
    rw [htypes] at hstrict
    exact hstrict
  | ok types' =>
    rw [htypes] at hstrict
    cases hstrict
    refine ⟨rfl, ?_, ?_, rfl, rfl⟩
    · cases options.debugInfo <;> rfl
    · cases options.debugInfo <;> rfl

/-- The getter of a property over a field finds no operand. Its code is thrown away, but the warning
is not. -/
example :
    let getter : MethodDecl := { name := "get_Key", returns := .int32, body := [{ code := .pop }] }
    let program : Source.Module :=
      { types := [{ name := "Lock", properties := [.auto "Key" .int32], methods := [getter] }] }
    (lowerProgram { policy := .strict } 0 program).isOk = false ∧
      (lowerProgram { policy := .lenient } 0 program).toOption.map LoweredProgram.warnings =
        some ["dropped IL_0000: Stack underflow in get_Key at IL_0000: needed 1, had 0"] := by
  decide +kernel

end PapyrusBackend.Lowering
