import PapyrusBackend.Proofs.Lowering.Temporaries
import PapyrusBackend.Proofs.Semantics.Straight

namespace PapyrusBackend.Lowering

open Source Semantics

variable {V H : Type} {I : Straight.Operations V H} {σ σ' : Straight.State V H}
  {f : Frame} {s t u : Simulation} {code : List Instruction} {name : String}

def Unmade (s : Simulation) (name : String) : Prop :=
  ∃ k, s.temporaries ≤ k ∧ name = Lower.temporaryName k

def MadeBetween (s t : Simulation) (name : String) : Prop :=
  ∃ k, s.temporaries ≤ k ∧ k < t.temporaries ∧ name = Lower.temporaryName k

theorem MadeBetween.unmade (h : MadeBetween s t name) : Unmade s name := by
  obtain ⟨k, hk, _, hname⟩ := h
  exact ⟨k, hk, hname⟩

theorem Unmade.mono (h : Unmade t name) (hle : s.temporaries ≤ t.temporaries) : Unmade s name := by
  obtain ⟨k, hk, hname⟩ := h
  exact ⟨k, Nat.le_trans hle hk, hname⟩

theorem MadeBetween.mono {s' t' : Simulation} (h : MadeBetween s t name)
    (hs : s'.temporaries ≤ s.temporaries) (ht : t.temporaries ≤ t'.temporaries) :
    MadeBetween s' t' name := by
  obtain ⟨k, hk, hlt, hname⟩ := h
  exact ⟨k, Nat.le_trans hs hk, Nat.lt_of_lt_of_le hlt ht, hname⟩

theorem not_unmade_temporary {k : Nat} (h : k < s.temporaries) :
    ¬Unmade s (Lower.temporaryName k) := by
  rintro ⟨j, hj, hname⟩
  cases temporaryName_inj hname
  exact Nat.not_lt.2 hj h

/-- Operands that a simulation has at hand: they name no temporary yet to be made. -/
def AtHand (s : Simulation) (value : Value) : Prop := ∀ name ∈ operandNames value, ¬Unmade s name

theorem atHand_temporary {k : Nat} (h : k < s.temporaries) :
    AtHand s (.reference (Lower.temporaryName k)) := by
  intro name hname
  cases List.mem_singleton.1 hname
  exact not_unmade_temporary h

theorem AtHand.mono {value : Value} (h : AtHand s value) (hle : s.temporaries ≤ t.temporaries) :
    AtHand t value := fun name hname hunmade => h name hname (hunmade.mono hle)

theorem eval_congr {env env' : String → V} {value : Value}
    (h : ∀ name ∈ operandNames value, env' name = env name) :
    Straight.eval I env' value = Straight.eval I env value := by
  cases value with
  | reference name => exact h name List.mem_cons_self
  | _ => rfl

/-- What is at hand keeps its value while temporaries are made. -/
theorem AtHand.eval_eq {value : Value} (h : AtHand s value)
    (hchanges : Straight.Changes I code (MadeBetween s t) σ σ') :
    Straight.eval I σ'.env value = Straight.eval I σ.env value :=
  eval_congr fun name hname => hchanges.env name fun hmade => h name hname hmade.unmade

inductive Part where
  | literal (value : Value)
  | held (name : String)
  | member (source field : String)
  deriving DecidableEq

def Part.names : Part → List String
  | literal value => operandNames value
  | held name => [name]
  | member source _ => [source]

def Part.value (I : Straight.Operations V H) (coerce : Value → Value) (σ : Straight.State V H) :
    Part → V
  | literal value => Straight.eval I σ.env (coerce value)
  | held name => σ.env name
  | member source field => I.read σ.heap (σ.env source) field

def Item.part? (item : Item) : Option Part :=
  if item.isThis then some (.held "self")
  else
    match item.content with
    | .literal value => some (.literal value)
    | .held v => some (.held v.name)
    | .member source field => some (.member source.name field.name)
    | .method _ | .comparison .. => none

def Part.AtHand (s : Simulation) (part : Part) : Prop := ∀ name ∈ part.names, ¬Unmade s name

theorem Part.AtHand.mono {part : Part} (h : part.AtHand s) (hle : s.temporaries ≤ t.temporaries) :
    part.AtHand t := fun name hname hunmade => h name hname (hunmade.mono hle)

theorem Part.value_eq {part : Part} {coerce : Value → Value}
    (hcoerce : ∀ value, operandNames (coerce value) = operandNames value)
    (henv : ∀ name ∈ part.names, σ'.env name = σ.env name) (hheap : σ'.heap = σ.heap) :
    part.value I coerce σ' = part.value I coerce σ := by
  cases part with
  | literal value =>
    refine eval_congr fun name hname => henv name ?_
    rwa [hcoerce] at hname
  | held name => exact henv name List.mem_cons_self
  | member source field => rw [value, value, hheap, henv source List.mem_cons_self]

theorem isThis_or_isSound {item : Item} {part : Part} (h : item.part? = some part) :
    item.isThis = true ∨ item.isSound = true := by
  rw [Item.part?] at h
  split at h
  · next hthis => exact .inl hthis
  · cases hcontent : item.content with
    | comparison opcode lhs rhs => simp [hcontent] at h
    | _ => simp [Item.isSound, hcontent]

theorem coerce_reference {coerce : Value → Value}
    (hcoerce : ∀ value, operandNames (coerce value) = operandNames value) (name : String) :
    coerce (.reference name) = .reference name := by
  have hnames := hcoerce (.reference name)
  cases hvalue : coerce (.reference name) with
  | reference other =>
    rw [hvalue] at hnames
    rw [List.singleton_inj.1 hnames]
  | _ =>
    rw [hvalue] at hnames
    cases hnames

def joinCount (code : List Instruction) : Nat := code.countP fun i => i.opcode = .strcat

theorem joinCount_append (code rest : List Instruction) :
    joinCount (code ++ rest) = joinCount code + joinCount rest := List.countP_append

theorem Evolves.temporaries_le {x : Lower α} {a : α} (h : Evolves s x) (hrun : x s = .ok a t) :
    s.temporaries ≤ t.temporaries := (h.ok hrun).temporaries

theorem exists_comparison {item : Item} (hitem : item.isSound = true) {opcode : Opcode}
    {lhs rhs : Value} (h : item.content = .comparison opcode lhs rhs) :
    ∃ c, Comparison.ofOpcode? opcode = some c := by
  simp only [Item.isSound, h, decide_eq_true_eq] at hitem
  cases opcode <;> simp at hitem <;> exact ⟨_, rfl⟩

/-- The first temporary that is made on the way. -/
theorem madeBetween_first (h : t.temporaries = s.temporaries + 1) :
    ∀ name, name = Lower.temporaryName s.temporaries → MadeBetween s t name := by
  rintro _ rfl
  exact ⟨_, Nat.le_refl _, h ▸ Nat.lt_succ_self _, rfl⟩

namespace Lower

/-- Staging makes temporaries and changes nothing else. -/
theorem stage_changes {item : Item} (hitem : item.isThis = true ∨ item.isSound = true)
    {staged : Staged} (h : stage item s = .ok staged t) (σ : Straight.State V H) :
    joinCount staged.code = 0 ∧
      ∃ σ', Straight.Changes I staged.code (MadeBetween s t) σ σ' := by
  cases stage_stages h with
  | member _ _ hv =>
    cases hv
    exact ⟨rfl, _, (Straight.changes_structGet _ _ _ σ).mono (madeBetween_first rfl)⟩
  | @comparison opcode lhs rhs _ _ hthis hcontent hv =>
    have hsound := hitem.resolve_left (Bool.eq_false_iff.1 hthis)
    obtain ⟨c, hc⟩ := exists_comparison hsound hcontent
    have hcount : opcode ≠ .strcat := by
      rintro rfl
      cases hc
    cases hv
    have hmade := Straight.changes_comparison (I := I) hc (temporaryName s.temporaries) lhs rhs σ
    cases s.inverted with
    | false => exact ⟨by simp [joinCount, hcount], _, hmade.mono (madeBetween_first rfl)⟩
    | true =>
      have hboth := hmade.append
        (Straight.changes_not _ (.reference (temporaryName s.temporaries)) _)
      exact ⟨by simp [joinCount, hcount, negation], _, hboth.mono (madeBetween_first rfl)⟩
  | _ => exact ⟨rfl, σ, .nil _ σ⟩

inductive StagesAs (s : Simulation) : Part → Staged → Simulation → Prop
  | literal (value : Value) : StagesAs s (.literal value) { value } s
  | held (name : String) : StagesAs s (.held name) { value := .reference name } s
  | member (source field : String) {t : Simulation} (ht : t.temporaries = s.temporaries + 1) :
      StagesAs s (.member source field)
        { code := [.structGet (temporaryName s.temporaries) (.reference source) field]
          value := .reference (temporaryName s.temporaries) } t

theorem stage_part {item : Item} {part : Part} (hpart : item.part? = some part) {staged : Staged}
    (h : stage item s = .ok staged t) : StagesAs s part staged t := by
  rw [Item.part?] at hpart
  cases stage_stages h with
  | this hthis =>
    rw [if_pos hthis] at hpart
    cases hpart
    exact .held "self"
  | literal hthis hcontent =>
    rw [if_neg (Bool.eq_false_iff.1 hthis), hcontent] at hpart
    cases hpart
    exact .literal _
  | held hthis hcontent =>
    rw [if_neg (Bool.eq_false_iff.1 hthis), hcontent] at hpart
    cases hpart
    exact .held _
  | member hthis hcontent hv =>
    rw [if_neg (Bool.eq_false_iff.1 hthis), hcontent] at hpart
    cases hpart
    cases hv
    exact .member _ _ rfl
  | method hthis hcontent =>
    rw [if_neg (Bool.eq_false_iff.1 hthis), hcontent] at hpart
    cases hpart
  | comparison hthis hcontent _ =>
    rw [if_neg (Bool.eq_false_iff.1 hthis), hcontent] at hpart
    cases hpart

section

variable {coerce : Value → Value}
  (hcoerce : ∀ value, operandNames (coerce value) = operandNames value)
include hcoerce

theorem StagesAs.atHand {part : Part} {staged : Staged} (h : StagesAs s part staged t)
    (hnames : part.AtHand s) : AtHand t (coerce staged.value) := by
  rw [AtHand, hcoerce]
  cases h with
  | literal value => exact hnames
  | held name => exact hnames
  | member source field ht => exact atHand_temporary (ht ▸ Nat.lt_succ_self _)

/-- Once a part has been staged its operand has the value of the part. -/
theorem StagesAs.eval_eq {part : Part} {staged : Staged} (h : StagesAs s part staged t)
    (hrun : Straight.run I staged.code σ = some σ') :
    Straight.eval I σ'.env (coerce staged.value) = part.value I coerce σ := by
  cases h with
  | literal value =>
    cases hrun
    rfl
  | held name =>
    cases hrun
    rw [coerce_reference hcoerce]
    rfl
  | member source field ht =>
    cases hrun
    rw [coerce_reference hcoerce]
    exact σ.assign_self _ _

theorem stageAll_changes {items : List Item} {parts : List Part}
    (hparts : items.map Item.part? = parts.map some) (hnames : ∀ part ∈ parts, part.AtHand s)
    {values : List Value} (h : stageAll items s = .ok (code, values) t)
    (σ : Straight.State V H) :
    joinCount code = 0 ∧ values.length = items.length ∧
      (∀ value ∈ values, AtHand t (coerce value)) ∧
      ∃ σ', Straight.Changes I code (MadeBetween s t) σ σ' ∧
        values.map (fun value => Straight.eval I σ'.env (coerce value)) =
          parts.map (Part.value I coerce σ) := by
  induction items generalizing s t code values parts σ with
  | nil =>
    cases List.map_eq_nil_iff.1 hparts.symm
    cases h
    exact ⟨rfl, rfl, fun _ hvalue => absurd hvalue List.not_mem_nil, σ, .nil _ σ, rfl⟩
  | cons item items ih =>
    obtain ⟨part, parts', rfl, hpart, hparts'⟩ := List.map_eq_cons_iff.1 hparts.symm
    obtain ⟨hfirst, hothers⟩ := List.forall_mem_cons.1 hnames
    obtain ⟨first, s', hstage, h⟩ := bind_ok h
    obtain ⟨⟨code', values'⟩, t', hstageAll, h⟩ := bind_ok h
    cases h
    have hle := (evolves_stage item).temporaries_le hstage
    have hle' := (evolves_stageAll items).temporaries_le hstageAll
    obtain ⟨hcount, σ₁, hchanges⟩ := stage_changes (I := I) (isThis_or_isSound hpart.symm) hstage σ
    obtain ⟨hcount', hlength, hvalues, σ₂, hchanges', heval⟩ :=
      ih hparts'.symm (fun part hpart => (hothers part hpart).mono hle) hstageAll σ₁
    have hstages := stage_part hpart.symm hstage
    have hat := hstages.atHand hcoerce hfirst
    refine ⟨by rw [joinCount_append, hcount, hcount'], congrArg _ hlength,
      List.forall_mem_cons.2 ⟨hat.mono hle', hvalues⟩, σ₂, ?_, ?_⟩
    · exact (hchanges.mono fun _ hmade => hmade.mono (Nat.le_refl _) hle').append
        (hchanges'.mono fun _ hmade => hmade.mono hle (Nat.le_refl _))
    · rw [List.map_cons, List.map_cons, heval, hat.eval_eq hchanges',
        hstages.eval_eq hcoerce hchanges.run]
      refine congrArg _ (List.map_congr_left fun part hpart => ?_)
      exact Part.value_eq hcoerce (fun name hname => hchanges.env name fun hmade =>
        hothers part hpart name hname hmade.unmade) hchanges.heap

end

/-- Only the last instruction of a chain writes the destination, so that it may be named by the
values which are joined. -/
theorem joinTexts_changes {d : String} {first : Value} {rest : List Value} (hne : rest ≠ [])
    (hfirst : AtHand s first) (hrest : ∀ value ∈ rest, AtHand s value)
    (h : joinTexts (.reference d) first rest s = .ok code t) (σ : Straight.State V H) :
    joinCount code = rest.length ∧
      ∃ σ', Straight.Changes I code (fun name => name = d ∨ MadeBetween s t name) σ σ' ∧
        σ'.env d = I.joinAll ((first :: rest).map (Straight.eval I σ.env)) := by
  induction rest generalizing s first code σ with
  | nil => exact absurd rfl hne
  | cons second rest ih =>
    cases rest with
    | nil =>
      cases h
      exact ⟨rfl, _, (Straight.Changes.assign rfl).mono fun _ => .inl, σ.assign_self _ _⟩
    | cons third rest =>
      obtain ⟨v, s', hv, hjoin⟩ := bind_ok h
      obtain ⟨others, t', hothers, hpure⟩ := bind_ok hjoin
      have hle := (evolves_joinTexts _ _ _).temporaries_le hothers
      cases hv
      cases hpure
      have hmade := Straight.changes_strcat (I := I) (temporaryName s.temporaries) first second σ
      have hunmade : Unmade s (temporaryName s.temporaries) := ⟨_, Nat.le_refl _, rfl⟩
      -- the first two become one value in a temporary, which is at hand from then on
      obtain ⟨hcount, σ', hchanges, hresult⟩ := ih (List.cons_ne_nil _ _)
        (atHand_temporary (Nat.lt_succ_self _))
        (fun value hvalue => (hrest value (List.mem_cons_of_mem _ hvalue)).mono (Nat.le_succ _))
        hothers (σ.assign (temporaryName s.temporaries) _)
      refine ⟨?_, σ', (hmade.mono ?_).append (hchanges.mono ?_), ?_⟩
      · show joinCount ([_] ++ others) = _
        rw [joinCount_append, hcount]
        exact Nat.add_comm _ _
      · rintro _ rfl
        exact .inr ⟨_, Nat.le_refl _, hle, rfl⟩
      · exact fun name => Or.imp_right fun hbetween => hbetween.mono (Nat.le_succ _) (Nat.le_refl _)
      · have hkept : ∀ value ∈ third :: rest,
            Straight.eval I (σ.assign (temporaryName s.temporaries)
              (I.join (Straight.eval I σ.env first) (Straight.eval I σ.env second))).env value =
              Straight.eval I σ.env value := fun value hvalue =>
          eval_congr fun name hname => hmade.env name fun heq =>
            hrest value (List.mem_cons_of_mem _ hvalue) name hname (heq ▸ hunmade)
        rw [hresult, List.map_cons, List.map_congr_left hkept]
        simp [Straight.Operations.joinAll, Straight.eval]

def chain (v : Variable) : List Value → Lower (List Instruction)
  | [] => return [.assign v.name (.string "")]
  | [only] => return [.assign v.name only]
  | first :: rest => joinTexts v.value first rest

theorem concat_eq (f : Frame) (items : List Item) : concat f items = (do
    let d ← destination f "String"
    let (code, values) ← stageAll items
    let joined ← chain d.written (values.map (f.coerce "String"))
    let rest ← finish d
    return code ++ joined ++ rest) := by
  refine bind_congr fun d => bind_congr fun staged => ?_
  obtain ⟨code, values⟩ := staged
  dsimp only
  rcases values.map (f.coerce "String") with _ | ⟨first, _ | ⟨second, rest⟩⟩ <;> rfl

theorem calm_joinTexts (d first : Value) (rest : List Value) : Calm (joinTexts d first rest) := by
  induction rest generalizing first with
  | nil => exact .pure _
  | cons second rest ih =>
    cases rest with
    | nil => exact .pure _
    | cons third rest => exact (calm_temporary "String").bind fun _ => (ih _).bind fun _ => .pure _

theorem calm_chain (v : Variable) (values : List Value) : Calm (chain v values) := by
  unfold chain
  split
  · exact .pure _
  · exact .pure _
  · exact calm_joinTexts _ _ _

theorem chain_changes {v : Variable} {values : List Value}
    (hvalues : ∀ value ∈ values, AtHand s value) (h : chain v values s = .ok code t)
    (σ : Straight.State V H) :
    s.temporaries ≤ t.temporaries ∧ joinCount code = values.length - 1 ∧
      ∃ σ', Straight.Changes I code (fun name => name = v.name ∨ MadeBetween s t name) σ σ' ∧
        σ'.env v.name = I.joinAll (values.map (Straight.eval I σ.env)) := by
  cases values with
  | nil =>
    cases h
    exact ⟨Nat.le_refl _, rfl, _, (Straight.changes_assign _ _ σ).mono fun _ => .inl,
      σ.assign_self _ _⟩
  | cons first rest =>
    cases rest with
    | nil =>
      cases h
      exact ⟨Nat.le_refl _, rfl, _, (Straight.changes_assign _ _ σ).mono fun _ => .inl,
        σ.assign_self _ _⟩
    | cons second rest =>
      obtain ⟨hfirst, hrest⟩ := List.forall_mem_cons.1 hvalues
      exact ⟨(evolves_joinTexts _ _ _).temporaries_le h,
        joinTexts_changes (List.cons_ne_nil _ _) hfirst hrest h σ⟩

inductive Selected (s : Simulation) : Destination → Simulation → Prop
  | store {v : Variable} {u : Simulation} (hu : u.temporaries = s.temporaries) :
      Selected s (.store v) u
  | push {v : Variable} {u : Simulation} (hname : v.name = temporaryName s.temporaries)
      (hu : u.temporaries = s.temporaries + 1) : Selected s (.push v) u
  | member {holder : Item} {rest : Stack} {staged : Staged} {v : Variable} {field : String}
      {t u : Simulation} (hstack : s.stack = holder :: rest)
      (hstage : stage holder { s with stack := rest, skipNext := true } = .ok staged t)
      (hname : v.name = temporaryName t.temporaries) (hu : u.temporaries = t.temporaries + 1) :
      Selected s (.member v staged.value field staged.code) u

theorem destination_selected {d : Destination} (h : destination f "String" s = .ok d u) :
    Selected s d u := by
  cases destination_directs h with
  | discard htype _ => simp [Text.sameName_iff] at htype
  | push hv =>
    cases hv
    exact .push rfl rfl
  | store _ _ => exact .store rfl
  | field _ _ _ _ _ => exact .store rfl
  | member _ _ _ hstack _ hstage hv =>
    cases hv
    exact .member hstack hstage rfl rfl

end Lower

def Destination.pushed : Destination → Stack
  | .push v => [.result v]
  | _ => []

/-- What a result with the destination `d` leaves behind, when it is computed between the
simulations `s` and `t` by code that takes the machine from `σ` to `σ'`. The object whose member is
written is the one that was on the stack. -/
structure Delivered (I : Straight.Operations V H) (s t : Simulation) (d : Destination) (result : V)
    (σ σ' : Straight.State V H) : Prop where
  written : σ'.env d.written.name = result
  env : ∀ name, name ≠ d.written.name → ¬MadeBetween s t name → σ'.env name = σ.env name
  heap : (∀ v holder field before, d ≠ .member v holder field before) → σ'.heap = σ.heap
  member : ∀ v holder field before, d = .member v holder field before →
    ∃ object, σ'.heap = I.write σ.heap object field result ∧
      ∃ item rest, s.stack = item :: rest ∧
        ∀ part, item.part? = some part → part.AtHand s → object = part.value I id σ

namespace Lower

theorem selected_le {d : Destination} (h : Selected s d u) : s.temporaries ≤ u.temporaries := by
  cases h with
  | store hu => exact Nat.le_of_eq hu.symm
  | push _ hu => exact hu ▸ Nat.le_succ _
  | member _ hstage _ hu =>
    have hle := (evolves_stage _).temporaries_le hstage
    exact hu ▸ Nat.le_succ_of_le hle

/-- A member is written with the object that was on the stack. -/
theorem member_delivers {holder : Item} (hs : Sound s) {stack : Stack}
    (hstack : s.stack = holder :: stack) {staged : Staged} {s' : Simulation}
    (hstage : stage holder { s with stack, skipNext := true } = .ok staged s') {v : Variable}
    (hv : v.name = temporaryName s'.temporaries) (field : String) {s₁ : Simulation}
    (hle : s'.temporaries < s₁.temporaries) {result : V}
    (hchanges : Straight.Changes I code
      (fun name => name = v.name ∨ MadeBetween s s₁ name) σ σ')
    (hresult : σ'.env v.name = result) :
    joinCount (staged.code ++ [.structSet staged.value field v.value]) = 0 ∧
      ∃ σ₁, Straight.run I (code ++ (staged.code ++ [.structSet staged.value field v.value])) σ =
          some σ₁ ∧
        Delivered I s s₁ (.member v staged.value field staged.code) result σ σ₁ := by
  have hle' := (evolves_stage holder).temporaries_le hstage
  obtain ⟨hcount, σ₂, hbefore⟩ :=
    stage_changes (I := I) (.inr (hs holder (hstack ▸ List.mem_cons_self))) hstage σ'
  -- the result was given its temporary behind those that the object needed
  have hkept : σ₂.env v.name = result := by
    rw [hbefore.env v.name, hresult]
    rintro ⟨k, _, hk, hname⟩
    cases temporaryName_inj (hv.symm.trans hname)
    exact Nat.lt_irrefl _ hk
  refine ⟨by rw [joinCount_append, hcount]; rfl,
    { σ₂ with heap := I.write σ₂.heap (Straight.eval I σ₂.env staged.value) field result },
    ?_, ?_⟩
  · rw [Straight.run_append, hchanges.run, Option.bind_some, Straight.run_append, hbefore.run,
      ← hkept]
    rfl
  · constructor
    case written => exact hkept
    case env =>
      intro name hname hmade
      have hmade' : ¬MadeBetween { s with stack, skipNext := true } s' name := fun h =>
        hmade (h.mono (Nat.le_refl _) (Nat.le_of_lt hle))
      exact (hbefore.env name hmade').trans
        (hchanges.env name (not_or.2 ⟨hname, hmade⟩))
    case heap => exact fun h => absurd rfl (h _ _ _ _)
    case member =>
      intro v' holder' field' before' hd
      cases hd
      refine ⟨_, by rw [hbefore.heap, hchanges.heap], holder, stack, hstack, ?_⟩
      intro part hpart hnames
      have hvalue : Straight.eval I σ₂.env (id staged.value) = part.value I id σ' :=
        (stage_part hpart hstage).eval_eq (fun _ => rfl) hbefore.run
      refine hvalue.trans (Part.value_eq (fun _ => rfl) (fun name hname => ?_) hchanges.heap)
      refine hchanges.env name fun hchanged => hnames name hname ?_
      obtain rfl | hmade := hchanged
      · exact ⟨_, hle', hv⟩
      · exact hmade.unmade

/-- Once a result is written, what remains is done. -/
theorem finish_delivers {d : Destination} (hs : Sound s) (hd : Selected s d u)
    {rest : List Instruction} {s₁ : Simulation} (hle : u.temporaries ≤ s₁.temporaries)
    (hfinish : finish d s₁ = .ok rest t) {result : V}
    (hchanges : Straight.Changes I code
      (fun name => name = d.written.name ∨ MadeBetween s s₁ name) σ σ')
    (hresult : σ'.env d.written.name = result) :
    t.stack = d.pushed ++ s₁.stack ∧ joinCount rest = 0 ∧
      ∃ σ₁, Straight.run I (code ++ rest) σ = some σ₁ ∧ Delivered I s t d result σ σ₁ := by
  have henv (name : String) (hname : name ≠ d.written.name) (hmade : ¬MadeBetween s s₁ name) :
      σ'.env name = σ.env name := hchanges.env name (not_or.2 ⟨hname, hmade⟩)
  cases hd with
  | store hu =>
    cases hfinish
    exact ⟨rfl, rfl, σ', by rw [List.append_nil, hchanges.run], hresult, henv,
      fun _ => hchanges.heap, fun _ _ _ _ h => by cases h⟩
  | push hname hu =>
    cases hfinish
    exact ⟨rfl, rfl, σ', by rw [List.append_nil, hchanges.run], hresult, henv,
      fun _ => hchanges.heap, fun _ _ _ _ h => by cases h⟩
  | member hstack hstage hname hu =>
    cases hfinish
    have hlt := Nat.lt_of_succ_le (hu ▸ hle)
    exact ⟨rfl, member_delivers hs hstack hstage hname _ hlt hchanges hresult⟩

end Lower

/-- The parts of a concatenation are joined in the order of the call, whatever they have in common
with the destination. -/
theorem concat_delivers (hcoerce : f.coerce = Value.coerce) (hs : Sound s) {items : List Item}
    {parts : List Part} (hparts : items.map Item.part? = parts.map some)
    (hnames : ∀ part ∈ parts, part.AtHand s) {d : Destination}
    (hd : Lower.destination f "String" s = .ok d u) (I : Straight.Operations V H)
    (σ : Straight.State V H) :
    ∃ code t σ', Lower.concat f items s = .ok code t ∧ t.stack = d.pushed ++ u.stack ∧
      joinCount code = items.length - 1 ∧ Straight.run I code σ = some σ' ∧
      Delivered I s t d (I.joinAll (parts.map (Part.value I (Value.coerce "String") σ))) σ σ' := by
  have hselected := Lower.destination_selected hd
  have hle := Lower.selected_le hselected
  obtain ⟨⟨code, values⟩, t₁, hstage, hstack, _⟩ := Lower.calm_stageAll items u
  obtain ⟨joined, t₂, hchain, hstack', _⟩ :=
    Lower.calm_chain d.written (values.map (Value.coerce "String")) t₁
  obtain ⟨rest, t, hfinish, _⟩ := Lower.finish_run d t₂
  have hrun : Lower.concat f items s = .ok (code ++ joined ++ rest) t := by
    rw [Lower.concat_eq, bind_run hd, bind_run hstage, hcoerce]
    exact (bind_run hchain).trans (bind_run hfinish)
  have hle₁ := (Lower.evolves_stageAll items).temporaries_le hstage
  obtain ⟨hcount, hlength, hvalues, σ₁, hchanges, heval⟩ :=
    Lower.stageAll_changes (I := I) (operandNames_coerce "String") hparts
      (fun part hpart => (hnames part hpart).mono hle) hstage σ
  obtain ⟨hle₂, hcount', σ₂, hchanges', hjoined⟩ :=
    Lower.chain_changes (I := I) (List.forall_mem_map.2 hvalues) hchain σ₁
  rw [List.map_map] at hjoined
  have hresult := hjoined.trans (congrArg I.joinAll heval)
  have hboth : Straight.Changes I (code ++ joined)
      (fun name => name = d.written.name ∨ MadeBetween s t₂ name) σ σ₂ :=
    (hchanges.mono fun _ hmade => .inr (hmade.mono hle hle₂)).append
      (hchanges'.mono fun _ => Or.imp_right fun hmade =>
        hmade.mono (Nat.le_trans hle hle₁) (Nat.le_refl _))
  obtain ⟨hpushed, hcount'', σ₃, hrun', hdelivered⟩ := Lower.finish_delivers hs hselected
    (Nat.le_trans hle₁ hle₂) hfinish hboth hresult
  refine ⟨_, t, σ₃, hrun, ?_, ?_, hrun', hdelivered⟩
  · rw [hpushed, hstack', hstack]
  · rw [joinCount_append, joinCount_append, hcount, hcount', hcount'', List.length_map, hlength,
      Nat.zero_add, Nat.add_zero]

def stringConcat : MethodRef :=
  { owner := { scope := "System", name := "String" }, name := "Concat"
    parameters := [], returns := .string }

def doubled : MethodDecl :=
  { name := "Double"
    isStatic := true
    locals := [{ name := some "x", type := .string }]
    body := [
      { offset := 0, code := .call, operand := .method stringConcat },
      { offset := 1, code := .stloc, operand := .index 0 },
      { offset := 2, code := .ret }] }

def doubledItems : List Item :=
  let x : Item := .ofVariable { name := "x", type := "String" }
  [x, .ofValue (.int 5),
    { content := .member { name := "p", type := "Point" } { name := "Title", type := "String" }
      type := "String" }, x]

def doubledParts : List Part := [.held "x", .literal (.int 5), .member "p" "Title", .held "x"]

def spelling : Straight.Operations String Unit where
  literal value := match value with
    | .string text => text
    | _ => ""
  join := (· ++ ·)
  read _ object field := object ++ "." ++ field
  write store _ _ _ := store
  compare _ a _ := a
  negate a := a

theorem destination_doubled :
    Lower.destination (strictSetting.frame doubled) "String" (Simulation.start doubled []) =
      .ok (.store { name := "x", type := "String" })
        { Simulation.start doubled [] with skipNext := true } := by
  decide +kernel

theorem atHand_doubled : ∀ part ∈ doubledParts, part.AtHand (Simulation.start doubled []) := by
  rintro part hpart name hname ⟨k, _, rfl⟩
  have hcolons := (scratch_temporary k).starts_with_colons
  have hnames : ∀ part ∈ doubledParts, ∀ name ∈ part.names, ¬"::".toList <+: name.toList := by
    simp [doubledParts, Part.names, operandNames]
  exact hnames part hpart _ hname hcolons

theorem concat_delivers_doubled :
    ∃ code t σ',
      Lower.concat (strictSetting.frame doubled) doubledItems (Simulation.start doubled []) =
        .ok code t ∧
      joinCount code = 3 ∧ Straight.run spelling code { env := id, heap := () } = some σ' ∧
      σ'.env "x" = "x5p.Titlex" := by
  have hparts : doubledItems.map Item.part? = doubledParts.map some := rfl
  obtain ⟨code, t, σ', hrun, _, hcount, hexecution, hdelivered⟩ :=
    concat_delivers rfl (by decide) hparts atHand_doubled destination_doubled spelling
      { env := id, heap := () }
  have htext : spelling.joinAll (doubledParts.map
      (Part.value spelling (Value.coerce "String") { env := id, heap := () })) = "x5p.Titlex" := by
    decide +kernel
  exact ⟨code, t, σ', hrun, hcount, hexecution, hdelivered.written.trans htext⟩

end PapyrusBackend.Lowering
