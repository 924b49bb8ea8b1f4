import Mathlib.Data.List.Nodup
import PapyrusBackend.Listing

namespace PapyrusBackend

@[simp] theorem Row.isLabel_relabel (f : String → String) (row : Row) :
    (row.relabel f).isLabel = row.isLabel := by
  cases row with
  | label name => rfl
  | code text jump => cases jump <;> rfl

def Row.label? : Row → Option String
  | label name => some name
  | code .. => none

@[simp] theorem Row.label?_relabel (f : String → String) (row : Row) :
    (row.relabel f).label? = row.label? := by
  cases row with
  | label name => rfl
  | code text jump => cases jump <;> rfl

namespace Listing

def codeRows (rows : List Row) : List Row := rows.filter fun row => !row.isLabel

def labels (rows : List Row) : List String := rows.filterMap Row.label?

variable {rows rest : List Row} {name other text : String} {jump : Option LabelRef} {t : Nat}

@[simp] theorem codeRows_label : codeRows (.label name :: rows) = codeRows rows := rfl

@[simp] theorem codeRows_code :
    codeRows (.code text jump :: rows) = .code text jump :: codeRows rows := rfl

@[simp] theorem codeRows_append : codeRows (rows ++ rest) = codeRows rows ++ codeRows rest :=
  List.filter_append ..

@[simp] theorem labels_label : labels (.label name :: rows) = name :: labels rows := rfl

@[simp] theorem labels_code : labels (.code text jump :: rows) = labels rows := rfl

@[simp] theorem labels_append : labels (rows ++ rest) = labels rows ++ labels rest :=
  List.filterMap_append ..

@[simp] theorem codeRows_map_relabel (f : String → String) :
    codeRows (rows.map (Row.relabel f)) = (codeRows rows).map (Row.relabel f) := by
  simp [codeRows, List.filter_map, Function.comp_def]

@[simp] theorem labels_map_relabel (f : String → String) :
    labels (rows.map (Row.relabel f)) = labels rows := by
  simp [labels, List.filterMap_map]

/-- The label stands once in the rows, behind `t` rows of code. -/
def Marks (rows : List Row) (name : String) (t : Nat) : Prop :=
  ∃ front back, rows = front ++ .label name :: back ∧ (codeRows front).length = t ∧
    name ∉ labels front ∧ name ∉ labels back

theorem Marks.mem_labels (h : Marks rows name t) : name ∈ labels rows := by
  obtain ⟨front, back, rfl, _⟩ := h
  simp

theorem marks_of_nodup {front back : List Row}
    (h : (labels (front ++ .label name :: back)).Nodup) :
    Marks (front ++ .label name :: back) name (codeRows front).length := by
  rw [labels_append, labels_label, List.nodup_middle, List.nodup_cons, List.mem_append,
    not_or] at h
  exact ⟨front, back, rfl, rfl, h.1⟩

theorem marks_label_iff :
    Marks (.label other :: rows) name t ↔
      other = name ∧ t = 0 ∧ name ∉ labels rows ∨ other ≠ name ∧ Marks rows name t := by
  constructor
  · rintro ⟨front, back, hrows, hcount, hfront, hback⟩
    cases front with
    | nil =>
      cases hrows
      exact .inl ⟨rfl, hcount.symm, hback⟩
    | cons row front =>
      cases hrows
      rw [labels_label, List.mem_cons, not_or] at hfront
      exact .inr ⟨Ne.symm hfront.1, front, back, rfl, hcount, hfront.2, hback⟩
  · rintro (⟨rfl, rfl, hrows⟩ | ⟨hne, front, back, rfl, hcount, hfront, hback⟩)
    · exact ⟨[], rows, rfl, rfl, List.not_mem_nil, hrows⟩
    · refine ⟨.label other :: front, back, rfl, hcount, ?_, hback⟩
      simp [Ne.symm hne, hfront]

theorem marks_code_iff :
    Marks (.code text jump :: rows) name t ↔ ∃ t', t = t' + 1 ∧ Marks rows name t' := by
  constructor
  · rintro ⟨front, back, hrows, hcount, hfront, hback⟩
    cases front with
    | nil => cases hrows
    | cons row front =>
      cases hrows
      exact ⟨_, hcount.symm, front, back, rfl, rfl, hfront, hback⟩
  · rintro ⟨t', rfl, front, back, rfl, hcount, hfront, hback⟩
    exact ⟨.code text jump :: front, back, rfl, congrArg (· + 1) hcount, hfront, hback⟩

theorem Marks.map_relabel (h : Marks rows name t) (f : String → String) :
    Marks (rows.map (Row.relabel f)) name t := by
  obtain ⟨front, back, rfl, hcount, hfront, hback⟩ := h
  refine ⟨front.map (Row.relabel f), back.map (Row.relabel f), by simp [Row.relabel], ?_, ?_, ?_⟩
  · simpa using hcount
  · simpa using hfront
  · simpa using hback

section

variable {keep : Row → Bool} (hcode : ∀ text jump, keep (.code text jump) = true)

include hcode

theorem codeRows_filter : codeRows (rows.filter keep) = codeRows rows := by
  simp only [codeRows, List.filter_filter]
  congr 1
  funext row
  cases row <;> simp [Row.isLabel, hcode]

theorem Marks.filter (h : Marks rows name t) (hname : keep (.label name) = true) :
    Marks (rows.filter keep) name t := by
  obtain ⟨front, back, rfl, hcount, hfront, hback⟩ := h
  have hsublist (part : List Row) : (labels (part.filter keep)).Sublist (labels part) :=
    List.filter_sublist.filterMap _
  refine ⟨front.filter keep, back.filter keep, ?_, ?_, ?_, ?_⟩
  · rw [List.filter_append, List.filter_cons_of_pos hname]
  · rw [codeRows_filter hcode, hcount]
  · exact fun hmem => hfront ((hsublist front).subset hmem)
  · exact fun hmem => hback ((hsublist back).subset hmem)

end

theorem codeRows_mergeRuns (first : Option String) (aliases : List (String × String)) :
    codeRows (mergeRuns first aliases rows).1 = codeRows rows := by
  induction rows generalizing first aliases with
  | nil => rfl
  | cons row rest ih =>
    cases row with
    | label name => cases first <;> simp [mergeRuns, ih]
    | code text jump => simp [mergeRuns, ih]

theorem labels_mergeRuns_sublist (first : Option String) (aliases : List (String × String)) :
    (labels (mergeRuns first aliases rows).1).Sublist (labels rows) := by
  induction rows generalizing first aliases with
  | nil => exact List.Sublist.refl _
  | cons row rest ih =>
    cases row with
    | label name =>
      cases first with
      | none => exact (ih _ _).cons_cons name
      | some first => exact (ih _ _).cons name
    | code text jump => exact ih _ _

theorem lookup_mergeRuns (first : Option String) (aliases : List (String × String))
    (h : name ∉ labels rows) :
    (mergeRuns first aliases rows).2.lookup name = aliases.lookup name := by
  induction rows generalizing first aliases with
  | nil => rfl
  | cons row rest ih =>
    cases row with
    | code text jump => exact ih _ _ h
    | label other =>
      rw [labels_label, List.mem_cons, not_or] at h
      cases first with
      | none => exact ih _ _ h.2
      | some first =>
        rw [mergeRuns, ih _ _ h.2, List.lookup_cons, beq_false_of_ne h.1]

/-- A label that has gone has an alias that marks the same place, unless its run began with `first`,
in front of all rows. -/
theorem Marks.mergeRuns (h : Marks rows name t) (hnodup : (labels rows).Nodup)
    (first : Option String) (aliases : List (String × String))
    (hfresh : ∀ name ∈ labels rows, aliases.lookup name = none) :
    (∃ g, first = some g ∧ t = 0 ∧ (mergeRuns first aliases rows).2.lookup name = some g) ∨
      Marks (mergeRuns first aliases rows).1
        (((mergeRuns first aliases rows).2.lookup name).getD name) t := by
  induction rows generalizing first aliases t with
  | nil => exact absurd h.mem_labels List.not_mem_nil
  | cons row rest ih =>
    cases row with
    | code text jump =>
      obtain ⟨t', rfl, hrest⟩ := marks_code_iff.1 h
      obtain ⟨g, hnone, _⟩ | hmarks := ih hrest hnodup none aliases hfresh
      · cases hnone
      · exact .inr (marks_code_iff.2 ⟨t', rfl, hmarks⟩)
    | label other =>
      rw [labels_label, List.nodup_cons] at hnodup
      obtain ⟨hother, hfresh⟩ := List.forall_mem_cons.1 hfresh
      cases first with
      | some g =>
        rw [Listing.mergeRuns]
        have hfresh' : ∀ name ∈ labels rest, ((other, g) :: aliases).lookup name = none := by
          intro name hname
          have hne : name ≠ other := fun heq => hnodup.1 (heq ▸ hname)
          rw [List.lookup_cons, beq_false_of_ne hne]
          exact hfresh name hname
        obtain ⟨rfl, rfl, hname⟩ | ⟨_, hrest⟩ := marks_label_iff.1 h
        · refine .inl ⟨g, rfl, rfl, ?_⟩
          rw [lookup_mergeRuns _ _ hname, List.lookup_cons, beq_self_eq_true]
        · exact ih hrest hnodup.2 _ _ hfresh'
      | none =>
        have hkept : other ∉ labels (Listing.mergeRuns (some other) aliases rest).1 :=
          fun hmem => hnodup.1 ((labels_mergeRuns_sublist _ _).subset hmem)
        have hfirst := marks_label_iff.2 (.inl ⟨rfl, rfl, hkept⟩)
        right
        rw [Listing.mergeRuns]
        dsimp only
        obtain ⟨rfl, rfl, hname⟩ | ⟨_, hrest⟩ := marks_label_iff.1 h
        · rw [lookup_mergeRuns _ _ hname, hother]
          exact hfirst
        · obtain ⟨_, ⟨⟩, rfl, hlookup⟩ | hmarks := ih hrest hnodup.2 (some other) aliases hfresh
          · rw [hlookup]
            exact hfirst
          · refine marks_label_iff.2 (.inr ⟨?_, hmarks⟩)
            exact (ne_of_mem_of_not_mem hmarks.mem_labels hkept).symm

section

variable (l : Listing)

def standIn (name : String) : String :=
  ((mergeRuns none [] l.removeUnused.2.rows).2.lookup name).getD name

theorem optimize_rows :
    l.optimize.2.rows =
      (mergeRuns none [] l.removeUnused.2.rows).1.map (Row.relabel l.standIn) := rfl

theorem codeRows_optimize :
    codeRows l.optimize.2.rows = (codeRows l.rows).map (Row.relabel l.standIn) := by
  rw [optimize_rows, codeRows_map_relabel, codeRows_mergeRuns]
  exact congrArg _ (codeRows_filter fun _ _ => rfl)

variable {l}

theorem Marks.optimize (h : Marks l.rows name t) (hused : name ∈ l.usedLabels)
    (hnodup : (labels l.rows).Nodup) : Marks l.optimize.2.rows (l.standIn name) t := by
  have hremoved : Marks l.removeUnused.2.rows name t :=
    h.filter (fun _ _ => rfl) (List.contains_iff_mem.2 hused)
  have hnodup' : (labels l.removeUnused.2.rows).Nodup :=
    (List.filter_sublist.filterMap _).nodup hnodup
  obtain ⟨g, hnone, _⟩ | hmarks := hremoved.mergeRuns hnodup' none [] fun _ _ => rfl
  · cases hnone
  · rw [optimize_rows]
    exact hmarks.map_relabel _

end

end Listing

end PapyrusBackend
