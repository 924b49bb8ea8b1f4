import Mathlib.Data.List.Chain
import PapyrusBackend.Proofs.Listing.Labels

namespace PapyrusBackend

@[simp] theorem Row.jump?_relabel (f : String → String) (row : Row) :
    (row.relabel f).jump? = row.jump?.map f := by
  cases row with
  | label name => rfl
  | code text jump => cases jump <;> rfl

namespace Listing

variable {rows rest : List Row} {name : String}

def Apart (rows : List Row) : Prop := rows.IsChain fun a b => a.isLabel = true → b.isLabel = false

def StartsWithCode (rows : List Row) : Prop := ∀ row ∈ rows.head?, row.isLabel = false

theorem apart_label :
    Apart (.label name :: rows) ↔ StartsWithCode rows ∧ Apart rows := by
  simp [Apart, StartsWithCode, List.isChain_cons, Row.isLabel]

theorem apart_code {text : String} {jump : Option LabelRef} :
    Apart (.code text jump :: rows) ↔ Apart rows := by
  simp [Apart, List.isChain_cons, Row.isLabel]

theorem Apart.map_relabel (h : Apart rows) (f : String → String) :
    Apart (rows.map (Row.relabel f)) := by
  simpa [Apart, List.isChain_map] using h

theorem length_rows (rows : List Row) :
    rows.length = (codeRows rows).length + (labels rows).length := by
  induction rows with
  | nil => rfl
  | cons row rest ih =>
    cases row with
    | label name => simp only [codeRows_label, labels_label, List.length_cons]; omega
    | code text jump => simp only [codeRows_code, labels_code, List.length_cons]; omega

/-- Every label is kept or has an alias, and none does both. -/
theorem perm_mergeRuns (first : Option String) (aliases : List (String × String)) :
    (labels (mergeRuns first aliases rows).1 ++ (mergeRuns first aliases rows).2.map Prod.fst).Perm
      (labels rows ++ aliases.map Prod.fst) := by
  induction rows generalizing first aliases with
  | nil => exact List.Perm.refl _
  | cons row rest ih =>
    cases row with
    | code text jump => exact ih none aliases
    | label name =>
      cases first with
      | none => exact (ih (some name) aliases).cons name
      | some g => exact (ih (some g) ((name, g) :: aliases)).trans List.perm_middle

theorem apart_mergeRuns (first : Option String) (aliases : List (String × String)) :
    Apart (mergeRuns first aliases rows).1 ∧
      (first.isSome = true → StartsWithCode (mergeRuns first aliases rows).1) := by
  induction rows generalizing first aliases with
  | nil => simp [mergeRuns, Apart, StartsWithCode]
  | cons row rest ih =>
    cases row with
    | code text jump =>
      refine ⟨apart_code.2 (ih none aliases).1, fun _ row hrow => ?_⟩
      cases hrow
      rfl
    | label name =>
      cases first with
      | none =>
        obtain ⟨hapart, hstart⟩ := ih (some name) aliases
        exact ⟨apart_label.2 ⟨hstart rfl, hapart⟩, fun hsome => by cases hsome⟩
      | some g => exact ih (some g) ((name, g) :: aliases)

theorem mergeRuns_of_apart (h : Apart rows) (first : Option String)
    (hfirst : first.isSome = true → StartsWithCode rows) (aliases : List (String × String)) :
    mergeRuns first aliases rows = (rows, aliases) := by
  induction rows generalizing first with
  | nil => rfl
  | cons row rest ih =>
    cases row with
    | code text jump =>
      have hrest := ih (apart_code.1 h) none fun hsome => by cases hsome
      simp [mergeRuns, hrest]
    | label name =>
      obtain ⟨hstart, hapart⟩ := apart_label.1 h
      cases first with
      | none =>
        have hrest := ih hapart (some name) fun _ => hstart
        simp [mergeRuns, hrest]
      | some g =>
        have hlabel := hfirst rfl (.label name) rfl
        cases hlabel

theorem eraseDups_of_nodup {xs : List String} (h : xs.Nodup) : xs.eraseDups = xs := by
  induction xs with
  | nil => rfl
  | cons x xs ih =>
    obtain ⟨hx, hxs⟩ := List.nodup_cons.1 h
    have hkept : xs.filter (fun b => !b == x) = xs := by
      apply List.filter_eq_self.2
      intro y hy
      simpa using ne_of_mem_of_not_mem hy hx
    rw [List.eraseDups_cons, hkept, ih hxs]

theorem usedLabels_eq (l : Listing) : l.usedLabels = (codeRows l.rows).filterMap Row.jump? := by
  rw [usedLabels, codeRows, List.filterMap_filter]
  congr 1
  funext row
  cases row <;> rfl

theorem optimize_eq_self {l : Listing} (hused : ∀ name ∈ labels l.rows, name ∈ l.usedLabels)
    (hapart : Apart l.rows) : l.optimize = (0, l) := by
  have hrows : l.removeUnused.2.rows = l.rows := by
    apply List.filter_eq_self.2
    intro row hrow
    cases row with
    | label name =>
      exact List.contains_iff_mem.2 (hused name (List.mem_filterMap.2 ⟨_, hrow, rfl⟩))
    | code text jump => rfl
  have hkept : l.removeUnused = (0, l) := by
    have hparts : l.removeUnused = (l.rows.length - l.removeUnused.2.rows.length,
        { l with rows := l.removeUnused.2.rows }) := rfl
    rw [hparts, hrows, Nat.sub_self]
  have hid : Row.relabel (fun name => name) = id := by
    funext row
    cases row with
    | label name => rfl
    | code text jump => cases jump <;> rfl
  simp [optimize, hkept, collapse, mergeRuns_of_apart hapart none nofun, hid]

section

variable (l : Listing)

theorem usedLabels_optimize : l.optimize.2.usedLabels = l.usedLabels.map l.standIn := by
  rw [usedLabels_eq, usedLabels_eq, codeRows_optimize, List.filterMap_map, List.map_filterMap]
  simp

theorem labels_optimize :
    labels l.optimize.2.rows = labels (mergeRuns none [] l.removeUnused.2.rows).1 := by
  rw [optimize_rows, labels_map_relabel]

theorem labels_optimize_sublist : (labels l.optimize.2.rows).Sublist (labels l.rows) := by
  rw [labels_optimize]
  exact (labels_mergeRuns_sublist none []).trans (List.filter_sublist.filterMap _)

theorem mem_usedLabels_of_mem_labels (h : name ∈ labels l.removeUnused.2.rows) :
    name ∈ l.usedLabels := by
  obtain ⟨row, hrow, hname⟩ := List.mem_filterMap.1 h
  cases row with
  | label other =>
    cases hname
    exact List.contains_iff_mem.1 (List.mem_filter.1 hrow).2
  | code text jump => cases hname

/-- A jump to a label that is not there stays as it is. -/
theorem standIn_of_not_mem (h : name ∉ labels l.rows) : l.standIn name = name := by
  have hremoved : name ∉ labels l.removeUnused.2.rows := fun hmem =>
    h ((List.filter_sublist.filterMap Row.label?).subset hmem)
  rw [standIn, lookup_mergeRuns none [] hremoved]
  rfl

variable {l}

variable (hnodup : (labels l.rows).Nodup)

include hnodup

theorem nodup_mergeRuns :
    (labels (mergeRuns none [] l.removeUnused.2.rows).1 ++
      (mergeRuns none [] l.removeUnused.2.rows).2.map Prod.fst).Nodup := by
  have hremoved : (labels l.removeUnused.2.rows).Nodup :=
    (List.filter_sublist.filterMap _).nodup hnodup
  apply (perm_mergeRuns none []).nodup_iff.2
  simpa using hremoved

/-- A label that is kept stands for itself. -/
theorem standIn_of_mem_labels (h : name ∈ labels l.optimize.2.rows) : l.standIn name = name := by
  rw [labels_optimize] at h
  have hdisjoint := (List.nodup_append.1 (nodup_mergeRuns hnodup)).2.2
  have hnone : (mergeRuns none [] l.removeUnused.2.rows).2.lookup name = none := by
    apply List.lookup_eq_none_iff.2
    intro pair hpair
    simpa using hdisjoint name h pair.1 (List.mem_map_of_mem hpair)
  rw [standIn, hnone]
  rfl

theorem mem_usedLabels_optimize (h : name ∈ labels l.optimize.2.rows) :
    name ∈ l.optimize.2.usedLabels := by
  rw [usedLabels_optimize, List.mem_map]
  refine ⟨name, ?_, standIn_of_mem_labels hnodup h⟩
  rw [labels_optimize] at h
  exact mem_usedLabels_of_mem_labels l ((labels_mergeRuns_sublist none []).subset h)

theorem length_optimize : l.optimize.1 + l.optimize.2.rows.length = l.rows.length := by
  have hmerged : l.optimize.1 = l.rows.length - l.removeUnused.2.rows.length +
      ((mergeRuns none [] l.removeUnused.2.rows).2.map Prod.fst).length := by
    rw [← eraseDups_of_nodup (List.nodup_append.1 (nodup_mergeRuns hnodup)).2.1]
    rfl
  have hfilter : l.removeUnused.2.rows.length ≤ l.rows.length := List.length_filter_le _ _
  have hlabels := (@perm_mergeRuns l.removeUnused.2.rows none []).length_eq
  have hcode := @codeRows_mergeRuns l.removeUnused.2.rows none []
  have hbefore := length_rows l.removeUnused.2.rows
  have hafter := length_rows (mergeRuns none [] l.removeUnused.2.rows).1
  rw [hcode] at hafter
  simp only [List.length_append, List.length_map, List.length_nil, Nat.add_zero] at hlabels
  simp only [hmerged, optimize_rows, List.length_map]
  omega

end

/-- What is known of a listing `l'` that is made of `l` by dropping and merging labels. -/
structure Cleaned (l : Listing) (removed : Nat) (l' : Listing) : Prop where
  method : l'.method = l.method
  code : (codeRows l'.rows).map (Row.relabel fun _ => "") =
    (codeRows l.rows).map (Row.relabel fun _ => "")
  defined : ∀ (k : Nat) (text : String) (jump : LabelRef),
    (codeRows l.rows)[k]? = some (.code text (some jump)) → jump.label ∈ labels l.rows →
    ∃ label t, (codeRows l'.rows)[k]? = some (.code text (some { jump with label })) ∧
      Marks l.rows jump.label t ∧ Marks l'.rows label t
  undefined : ∀ (k : Nat) (text : String) (jump : LabelRef),
    (codeRows l.rows)[k]? = some (.code text (some jump)) → jump.label ∉ labels l.rows →
    (codeRows l'.rows)[k]? = some (.code text (some jump))
  labels : (labels l'.rows).Sublist (labels l.rows)
  used : ∀ name ∈ Listing.labels l'.rows, name ∈ l'.usedLabels
  apart : Apart l'.rows
  removed : removed + l'.rows.length = l.rows.length
  settled : l'.optimize = (0, l')

/-- Where labels have names of their own, optimizing a listing drops labels only, leads every jump to
where it led before, and comes to an end at once. -/
theorem optimize_cleaned (l : Listing) (hnodup : (labels l.rows).Nodup) :
    Cleaned l l.optimize.1 l.optimize.2 := by
  have hused : ∀ name ∈ labels l.optimize.2.rows, name ∈ l.optimize.2.usedLabels :=
    fun name => mem_usedLabels_optimize hnodup
  have hapart : Apart l.optimize.2.rows := by
    rw [optimize_rows]
    exact (apart_mergeRuns none []).1.map_relabel _
  have hrow {k : Nat} {text : String} {jump : LabelRef}
      (h : (codeRows l.rows)[k]? = some (.code text (some jump))) :
      (codeRows l.optimize.2.rows)[k]? =
        some (.code text (some { jump with label := l.standIn jump.label })) := by
    rw [codeRows_optimize, List.getElem?_map, h]
    rfl
  constructor
  case method => rfl
  case code =>
    rw [codeRows_optimize, List.map_map]
    congr 1
    funext row
    cases row with
    | label name => rfl
    | code text jump => cases jump <;> rfl
  case defined =>
    intro k text jump hjump hlabel
    obtain ⟨row, hmem, hname⟩ := List.mem_filterMap.1 hlabel
    cases row with
    | code text jump => cases hname
    | label name =>
      cases hname
      obtain ⟨front, back, hrows⟩ := List.append_of_mem hmem
      have hmarks : Marks l.rows jump.label (codeRows front).length := by
        rw [hrows] at hnodup ⊢
        exact marks_of_nodup hnodup
      have hjumps : jump.label ∈ l.usedLabels := by
        rw [usedLabels_eq]
        exact List.mem_filterMap.2 ⟨_, List.mem_of_getElem? hjump, rfl⟩
      exact ⟨_, _, hrow hjump, hmarks, hmarks.optimize hjumps hnodup⟩
  case undefined =>
    intro k text jump hjump hlabel
    rw [hrow hjump, standIn_of_not_mem l hlabel]
  case labels => exact labels_optimize_sublist l
  case used => exact hused
  case apart => exact hapart
  case removed => exact length_optimize hnodup
  case settled => exact optimize_eq_self hused hapart

/-- Two labels in a row once the one between them has gone, and a jump to a label that is not there. -/
def crowdedListing : Listing :=
  { method := "Crowded"
    rows := [
      .label "a", .label "between", .label "b",
      .code "jmp" (some ⟨"b", false⟩),
      .label "behind",
      .code "jmpt x" (some ⟨"nowhere", true⟩),
      .code "jmpf x" (some ⟨"a", true⟩),
      .code "return x" none] }

def sparseListing : Listing :=
  { method := "Crowded"
    rows := [
      .label "a",
      .code "jmp" (some ⟨"a", false⟩),
      .code "jmpt x" (some ⟨"nowhere", true⟩),
      .code "jmpf x" (some ⟨"a", true⟩),
      .code "return x" none] }

theorem optimize_cleaned_crowdedListing :
    crowdedListing.optimize = (3, sparseListing) ∧ Cleaned crowdedListing 3 sparseListing := by
  have hoptimize : crowdedListing.optimize = (3, sparseListing) := by decide
  have hcleaned := optimize_cleaned crowdedListing (by decide)
  rw [hoptimize] at hcleaned
  exact ⟨hoptimize, hcleaned⟩

end Listing

end PapyrusBackend
