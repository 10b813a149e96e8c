import Outline.Proofs.Connections

/-!
# Deletions that cascade

Deleting a row deletes the rows that name it as their parent, the rows that name those, and so on.
The rows that go (`Outline.Store.Goes`) are told without levels or any other bound, and they are the
ones that are deleted, whatever the rows refer to, unless a chain of them is too long
(`Outline.Store.Database.perform_deletes_cases`).
-/

namespace Outline.Store

/-- The row goes when the first ones do: it is one of them, or the row that it names as its parent
goes. -/
inductive Goes (rows : List MemberRow) (first : MemberRow → Prop) : MemberRow → Prop where
  | own {row : MemberRow} (listed : row ∈ rows) (opens : first row) : Goes rows first row
  | along {row parent : MemberRow} (listed : row ∈ rows) (named : row.parentId = some parent.id)
      (goes : Goes rows first parent) : Goes rows first row

/-- The row goes when the first ones do, by way of no more than `n` parents. -/
inductive GoesWithin (rows : List MemberRow) (first : MemberRow → Prop) :
    Nat → MemberRow → Prop where
  | own {n : Nat} {row : MemberRow} (listed : row ∈ rows) (opens : first row) :
      GoesWithin rows first n row
  | along {n : Nat} {row parent : MemberRow} (listed : row ∈ rows)
      (named : row.parentId = some parent.id) (goes : GoesWithin rows first n parent) :
      GoesWithin rows first (n + 1) row

/-- Some row goes when the first ones do, but not by way of fewer than `levels` parents. -/
def GoesBeyond (rows : List MemberRow) (first : MemberRow → Prop) (levels : Nat) : Prop :=
  ∃ row, Goes rows first row ∧ ∀ n < levels, ¬ GoesWithin rows first n row

section

variable {rows : List MemberRow} {first second : MemberRow → Prop} {row : MemberRow}

theorem Goes.mono {more : List MemberRow} (goes : Goes rows first row) (subset : rows ⊆ more)
    (weaker : ∀ row ∈ rows, first row → second row) : Goes more second row := by
  induction goes with
  | own listed opens => exact .own (subset listed) (weaker _ listed opens)
  | along listed named _ ih => exact .along (subset listed) named ih

theorem not_goes (none : ∀ row ∈ rows, ¬ first row) : ¬ Goes rows first row := by
  intro goes
  induction goes with
  | own listed opens => exact none _ listed opens
  | along _ _ _ ih => exact ih

theorem not_goesBeyond (none : ∀ row ∈ rows, ¬ first row) {levels : Nat} :
    ¬ GoesBeyond rows first levels := by
  rintro ⟨row, goes, -⟩
  exact not_goes none goes

theorem Goes.listed (goes : Goes rows first row) : row ∈ rows := by
  cases goes with
  | own listed => exact listed
  | along listed => exact listed

theorem GoesWithin.mono {more : List MemberRow} {n m : Nat} (goes : GoesWithin rows first n row)
    (subset : rows ⊆ more) (weaker : ∀ row ∈ rows, first row → second row) (le : n ≤ m) :
    GoesWithin more second m row := by
  induction goes generalizing m with
  | own listed opens => exact .own (subset listed) (weaker _ listed opens)
  | along listed named _ ih =>
      obtain ⟨m, rfl⟩ := Nat.exists_eq_add_of_le' (Nat.le_trans (Nat.le_add_left 1 _) le)
      exact .along (subset listed) named (ih (Nat.le_of_succ_le_succ le))

/-- What goes does so by way of some number of parents. -/
theorem goes_iff_exists_within : Goes rows first row ↔ ∃ n, GoesWithin rows first n row := by
  constructor
  · intro goes
    induction goes with
    | own listed opens => exact ⟨0, .own listed opens⟩
    | along listed named _ ih =>
        obtain ⟨n, goes⟩ := ih
        exact ⟨n + 1, .along listed named goes⟩
  · rintro ⟨n, goes⟩
    induction goes with
    | own listed opens => exact .own listed opens
    | along listed named _ ih => exact .along listed named ih

theorem GoesBeyond.congr {other : List MemberRow} {levels : Nat}
    (beyond : GoesBeyond rows first levels) (same : ∀ row, row ∈ rows ↔ row ∈ other) :
    GoesBeyond other first levels := by
  obtain ⟨row, goes, far⟩ := beyond
  refine ⟨row, goes.mono (fun _ => (same _).1) fun _ _ => id, fun n less within => far n less ?_⟩
  exact within.mono (fun _ => (same _).2) (fun _ _ => id) (Nat.le_refl n)

section

variable {opens : MemberRow → Bool} (names : ∀ row, second row ↔
  ∃ parent ∈ rows, opens parent = true ∧ row.parentId = some parent.id)

include names

/-- Once the first rows are gone, those that name one of them are first among the rest. -/
theorem goesWithin_iff_of_names {n : Nat} : GoesWithin rows (opens · = true) n row ↔
    row ∈ rows ∧ opens row = true ∨ ∃ k < n, GoesWithin (rows.filter (!opens ·)) second k row := by
  constructor
  · intro goes
    induction goes with
    | own listed first => exact .inl ⟨listed, first⟩
    | @along n row parent listed named _ ih =>
        by_cases first : opens row = true
        · exact .inl ⟨listed, first⟩
        have stays : row ∈ rows.filter (!opens ·) :=
          List.mem_filter.2 ⟨listed, Bool.not_eq_true' _ ▸ Bool.eq_false_iff.2 first⟩
        rcases ih with ⟨there, opened⟩ | ⟨k, less, goes⟩
        · exact .inr ⟨0, Nat.succ_pos n, .own stays ((names row).2 ⟨parent, there, opened, named⟩)⟩
        · exact .inr ⟨k + 1, Nat.succ_lt_succ less, .along stays named goes⟩
  · rintro (⟨listed, first⟩ | ⟨k, less, goes⟩)
    · exact .own listed first
    -- A row that is first among the rest goes with the parent that is gone already.
    · induction goes generalizing n with
      | own listed below =>
          obtain ⟨n, rfl⟩ := Nat.exists_eq_add_of_le' (Nat.zero_lt_of_lt less)
          obtain ⟨parent, there, opened, named⟩ := (names _).1 below
          exact .along (List.mem_of_mem_filter listed) named (.own there opened)
      | along listed named _ ih =>
          obtain ⟨n, rfl⟩ := Nat.exists_eq_add_of_le' (Nat.zero_lt_of_lt less)
          exact .along (List.mem_of_mem_filter listed) named (ih (Nat.lt_of_succ_lt_succ less))

theorem goes_iff_of_names : Goes rows (opens · = true) row ↔
    row ∈ rows ∧ opens row = true ∨ Goes (rows.filter (!opens ·)) second row := by
  rw [goes_iff_exists_within, goes_iff_exists_within]
  constructor
  · rintro ⟨n, goes⟩
    refine ((goesWithin_iff_of_names names).1 goes).imp_right ?_
    rintro ⟨k, -, later⟩
    exact ⟨k, later⟩
  · rintro (first | ⟨n, goes⟩)
    · exact ⟨0, (goesWithin_iff_of_names names).2 (.inl first)⟩
    · exact ⟨n + 1, (goesWithin_iff_of_names names).2 (.inr ⟨n, Nat.lt_succ_self n, goes⟩)⟩

theorem goesBeyond_succ_iff_of_names {levels : Nat} :
    GoesBeyond rows (opens · = true) (levels + 1) ↔
      GoesBeyond (rows.filter (!opens ·)) second levels := by
  constructor
  · rintro ⟨row, goes, far⟩
    have other : ¬ (row ∈ rows ∧ opens row = true) := fun first =>
      far 0 (Nat.succ_pos _) (.own first.1 first.2)
    refine ⟨row, ((goes_iff_of_names names).1 goes).resolve_left other, fun n less within => ?_⟩
    exact far (n + 1) (Nat.succ_lt_succ less)
      ((goesWithin_iff_of_names names).2 (.inr ⟨n, Nat.lt_succ_self n, within⟩))
  · rintro ⟨row, goes, far⟩
    have other : opens row = false := by simpa using (List.mem_filter.1 goes.listed).2
    refine ⟨row, (goes_iff_of_names names).2 (.inr goes), fun n less within => ?_⟩
    rcases (goesWithin_iff_of_names names).1 within with ⟨-, first⟩ | ⟨k, fewer, within⟩
    · cases other.symm.trans first
    · exact far k (Nat.lt_of_lt_of_le fewer (Nat.le_of_lt_succ less)) within

end

/-- Rows are deleted one after the other, and one of them takes too long a chain of rows along from
those that the ones before it have left. -/
inductive Sinks (rows : List MemberRow) (deletes : List Id) : Prop where
  | intro {earlier later : List Id} {id : Id} {left : List MemberRow}
      (split : deletes = earlier ++ id :: later)
      (stays : ∀ row, row ∈ left ↔ row ∈ rows ∧ ¬ Goes rows (·.id ∈ earlier.map Id.text) row)
      (deep : GoesBeyond left (·.id = id.text) cascadeDepth) : Sinks rows deletes

theorem not_sinks_nil : ¬ Sinks rows [] := by
  rintro ⟨split, -, -⟩
  exact List.cons_ne_nil _ _ (List.append_eq_nil_iff.1 split.symm).2

/-- What takes too long a chain along is there to be deleted. -/
theorem Sinks.exists_mem {deletes : List Id} (sinks : Sinks rows deletes) :
    ∃ row ∈ rows, row.id ∈ deletes.map Id.text := by
  obtain ⟨rfl, left, row, goes, -⟩ := sinks
  by_contra none
  refine not_goes (fun row listed own => none ⟨row, ((left row).1 listed).1, ?_⟩) goes
  rw [own]
  exact List.mem_map_of_mem (List.mem_append_right _ (.head _))

/-- The first of the rows that are deleted takes too long a chain along. -/
theorem sinks_of_first {id : Id} {ids : List Id}
    (deep : GoesBeyond rows (·.id = id.text) cascadeDepth) : Sinks rows (id :: ids) :=
  @Sinks.intro _ _ [] _ _ rows rfl
    (fun _ => (and_iff_left (not_goes fun _ _ => List.not_mem_nil)).symm) deep

/-- Rows that go together go one after the other. -/
theorem goes_or_iff {stays : MemberRow → Bool}
    (keeps : ∀ row ∈ rows, stays row = true ↔ ¬ Goes rows first row) :
    Goes rows (fun row => first row ∨ second row) row ↔
      Goes rows first row ∨ Goes (rows.filter stays) second row := by
  constructor
  · intro goes
    induction goes with
    | @own row listed opens =>
        by_cases before : Goes rows first row
        · exact .inl before
        have stay := List.mem_filter.2 ⟨listed, (keeps row listed).2 before⟩
        exact .inr (.own stay (opens.resolve_left fun opens => before (.own listed opens)))
    | @along row parent listed named _ ih =>
        by_cases before : Goes rows first row
        · exact .inl before
        have stay := List.mem_filter.2 ⟨listed, (keeps row listed).2 before⟩
        have later := ih.resolve_left fun goes => before (.along listed named goes)
        exact .inr (.along stay named later)
  · rintro (goes | goes)
    · exact goes.mono (List.Subset.refl _) fun _ _ => .inl
    · exact goes.mono (List.filter_subset_self _) fun _ _ => .inr

/-- The first of the rows takes too long a chain along, or one of the others does after it. -/
theorem sinks_cons_iff {stays : MemberRow → Bool} {id : Id} {ids : List Id}
    (keeps : ∀ row ∈ rows, stays row = true ↔ ¬ Goes rows (·.id = id.text) row) :
    Sinks rows (id :: ids) ↔
      GoesBeyond rows (·.id = id.text) cascadeDepth ∨ Sinks (rows.filter stays) ids := by
  have later : ∀ earlier row, row ∈ rows ∧
      ¬ Goes rows (·.id ∈ (id :: earlier).map Id.text) row ↔ row ∈ rows.filter stays ∧
        ¬ Goes (rows.filter stays) (·.id ∈ earlier.map Id.text) row := by
    intro earlier row
    simp only [List.map_cons, List.mem_cons]
    rw [goes_or_iff keeps, List.mem_filter, not_or, and_assoc]
    exact and_congr_right fun listed => and_congr_left' (keeps row listed).symm
  constructor
  · rintro ⟨split, left, deep⟩
    rcases List.cons_eq_append_iff.1 split with ⟨rfl, same⟩ | ⟨earlier, rfl, rest⟩
    · obtain ⟨rfl, -⟩ := List.cons.inj same
      refine .inl (deep.congr fun row => (left row).trans (and_iff_left ?_))
      exact not_goes fun _ _ => List.not_mem_nil
    · exact .inr ⟨rest, fun row => (left row).trans (later earlier row), deep⟩
  · rintro (deep | ⟨rfl, left, deep⟩)
    · exact sinks_of_first deep
    · exact @Sinks.intro _ _ (id :: _) _ _ _ rfl
        (fun row => (left row).trans (later _ row).symm) deep

end

theorem MemberRow.isBelow_iff {gone : List String} {row : MemberRow} :
    row.isBelow gone = true ↔ ∃ parent ∈ gone, row.parentId = some parent := by
  unfold isBelow
  cases row.parentId <;> simp

/-- The rows below some of the rows are those that name one of them. -/
theorem MemberRow.isBelow_map_id_iff {rows : List MemberRow} {opens : MemberRow → Bool}
    (row : MemberRow) : row.isBelow ((rows.filter opens).map MemberRow.id) = true ↔
      ∃ parent ∈ rows, opens parent = true ∧ row.parentId = some parent.id := by
  rw [isBelow_iff]
  constructor
  · rintro ⟨_, listed, named⟩
    obtain ⟨parent, inside, rfl⟩ := List.mem_map.1 listed
    obtain ⟨there, opened⟩ := List.mem_filter.1 inside
    exact ⟨parent, there, opened, named⟩
  · rintro ⟨parent, there, opened, named⟩
    exact ⟨_, List.mem_map_of_mem (List.mem_filter.2 ⟨there, opened⟩), named⟩

/-- The rows below a stored row are those that name it. -/
theorem MemberRow.isBelow_singleton_iff {rows : List MemberRow} {holder : MemberRow}
    (there : holder ∈ rows) (row : MemberRow) : row.isBelow [holder.id] = true ↔
      ∃ parent ∈ rows, decide (parent.id = holder.id) = true ∧ row.parentId = some parent.id := by
  rw [isBelow_iff]
  constructor
  · rintro ⟨parent, listed, below⟩
    rw [List.mem_singleton.1 listed] at below
    exact ⟨holder, there, decide_eq_true rfl, below⟩
  · rintro ⟨parent, -, own, below⟩
    exact ⟨_, List.mem_singleton.2 (of_decide_eq_true own), below⟩

namespace Database

theorem withoutBelow_of_nobody {levels : Nat} {gone : List String} {rows : List MemberRow}
    (nobody : rows.filter (·.isBelow gone) = []) : withoutBelow levels gone rows = .ok rows := by
  rw [withoutBelow.eq_def, nobody]

theorem withoutBelow_zero {gone : List String} {rows : List MemberRow}
    (somebody : rows.filter (·.isBelow gone) ≠ []) :
    withoutBelow 0 gone rows = .error .tooDeep := by
  obtain ⟨row, below, listed⟩ := List.exists_cons_of_ne_nil somebody
  rw [withoutBelow.eq_def, listed]

theorem withoutBelow_succ {levels : Nat} {gone : List String} {rows : List MemberRow}
    (somebody : rows.filter (·.isBelow gone) ≠ []) :
    withoutBelow (levels + 1) gone rows =
      withoutBelow levels ((rows.filter (·.isBelow gone)).map MemberRow.id)
        (rows.filter (!·.isBelow gone)) := by
  obtain ⟨row, below, listed⟩ := List.exists_cons_of_ne_nil somebody
  rw [withoutBelow.eq_def, listed]

theorem withoutBelow_cases_of_nobody {levels : Nat} {gone : List String} {rows : List MemberRow}
    (nobody : rows.filter (·.isBelow gone) = []) :
    ¬ GoesBeyond rows (·.isBelow gone = true) levels ∧
      ∃ stays : MemberRow → Bool, withoutBelow levels gone rows = .ok (rows.filter stays) ∧
        ∀ row ∈ rows, stays row = true ↔ ¬ Goes rows (·.isBelow gone = true) row := by
  have none := List.filter_eq_nil_iff.1 nobody
  refine ⟨not_goesBeyond none, fun _ => true, ?_, fun row _ => iff_of_true rfl (not_goes none)⟩
  rw [List.filter_true, withoutBelow_of_nobody nobody]

/-- The rows below the gone ones are deleted and no others, unless some of them lie too deep. -/
theorem withoutBelow_cases (levels : Nat) (gone : List String) (rows : List MemberRow) :
    GoesBeyond rows (·.isBelow gone = true) levels ∧
        withoutBelow levels gone rows = .error .tooDeep ∨
      ¬ GoesBeyond rows (·.isBelow gone = true) levels ∧
        ∃ stays : MemberRow → Bool, withoutBelow levels gone rows = .ok (rows.filter stays) ∧
          ∀ row ∈ rows, stays row = true ↔ ¬ Goes rows (·.isBelow gone = true) row := by
  induction levels generalizing gone rows with
  | zero =>
      by_cases nobody : rows.filter (·.isBelow gone) = []
      · exact .inr (withoutBelow_cases_of_nobody nobody)
      obtain ⟨row, inside⟩ := List.exists_mem_of_ne_nil _ nobody
      obtain ⟨listed, isBelow⟩ := List.mem_filter.1 inside
      refine .inl ⟨⟨row, .own listed isBelow, fun n less => ?_⟩, withoutBelow_zero nobody⟩
      exact absurd less (Nat.not_lt_zero n)
  | succ levels ih =>
      by_cases nobody : rows.filter (·.isBelow gone) = []
      · exact .inr (withoutBelow_cases_of_nobody nobody)
      have names := @MemberRow.isBelow_map_id_iff rows (·.isBelow gone)
      rw [withoutBelow_succ nobody, goesBeyond_succ_iff_of_names names]
      refine (ih _ (rows.filter (!·.isBelow gone))).imp_right ?_
      rintro ⟨shallow, stays, same, keeps⟩
      refine ⟨shallow, fun row => stays row && !row.isBelow gone, ?_, fun row listed => ?_⟩
      · rw [same, List.filter_filter]
      · rw [goes_iff_of_names names, Bool.and_eq_true, Bool.not_eq_true']
        by_cases below : row.isBelow gone = true
        · simp [below, listed]
        · have rest : row ∈ rows.filter (!·.isBelow gone) :=
            List.mem_filter.2 ⟨listed, by simpa using below⟩
          simp [below, keeps row rest]

variable {db : Database}

/-- Deleting a row deletes all that goes with it, unless some of it lies too deep. -/
theorem deleteMember_cases (id : String) :
    GoesBeyond db.members (·.id = id) cascadeDepth ∧ db.deleteMember id = .error .tooDeep ∨
      ¬ GoesBeyond db.members (·.id = id) cascadeDepth ∧ ∃ stays : MemberRow → Bool,
        db.deleteMember id = .ok { db with members := db.members.filter stays } ∧
        ∀ row ∈ db.members, stays row = true ↔ ¬ Goes db.members (·.id = id) row := by
  unfold deleteMember
  split
  next known =>
    obtain ⟨holder, there, named⟩ := List.any_eq_true.1 known
    have names := MemberRow.isBelow_singleton_iff there
    rw [of_decide_eq_true named] at names
    have beyond : GoesBeyond db.members (·.id = id) cascadeDepth ↔
        GoesBeyond (db.members.filter (·.id ≠ id)) (·.isBelow [id] = true) (cascadeDepth - 1) := by
      have some : 1 ≤ cascadeDepth := by decide
      simpa [Nat.sub_add_cancel some] using @goesBeyond_succ_iff_of_names db.members _
        (fun row => decide (row.id = id)) names (cascadeDepth - 1)
    have goes : ∀ row, Goes db.members (·.id = id) row ↔ row ∈ db.members ∧ row.id = id ∨
        Goes (db.members.filter (·.id ≠ id)) (·.isBelow [id] = true) row := by
      intro row
      simpa using @goes_iff_of_names db.members _ row (fun row => decide (row.id = id)) names
    rw [beyond]
    rcases withoutBelow_cases (cascadeDepth - 1) [id] (db.members.filter (·.id ≠ id)) with
      ⟨deep, failed⟩ | ⟨shallow, stays, same, keeps⟩
    · exact .inl ⟨deep, by rw [failed]; rfl⟩
    · refine .inr ⟨shallow, fun row => stays row && decide (row.id ≠ id), ?_, fun row listed => ?_⟩
      · rw [same, ← List.filter_filter]
        rfl
      · rw [goes row, Bool.and_eq_true, decide_eq_true_eq]
        by_cases own : row.id = id
        · simp [own, listed]
        · have left : row ∈ db.members.filter (·.id ≠ id) :=
            List.mem_filter.2 ⟨listed, decide_eq_true own⟩
          simp [own, keeps row left]
  next unknown =>
    have none : ∀ row ∈ db.members, ¬ row.id = id := fun row listed own =>
      unknown (List.any_eq_true.2 ⟨row, listed, decide_eq_true own⟩)
    refine .inr ⟨not_goesBeyond none, fun _ => true, ?_, fun row _ => iff_of_true rfl ?_⟩
    · rw [List.filter_true]
    · exact not_goes none

/-- Deleting rows one after the other deletes all that goes with any of them, unless a chain of them
is too long. -/
theorem perform_deletes_cases (ids : List Id) :
    Sinks db.members ids ∧
        db.perform (ids.map fun id db => db.deleteMember id.text) = .error .tooDeep ∨
      ¬ Sinks db.members ids ∧ ∃ stays : MemberRow → Bool,
        db.perform (ids.map fun id db => db.deleteMember id.text) =
          .ok { db with members := db.members.filter stays } ∧
        ∀ row ∈ db.members, stays row = true ↔ ¬ Goes db.members (·.id ∈ ids.map Id.text) row := by
  induction ids generalizing db with
  | nil =>
      have none : ∀ row, ¬ Goes db.members (·.id ∈ [].map Id.text) row := fun _ =>
        not_goes fun _ _ => List.not_mem_nil
      refine .inr ⟨not_sinks_nil, fun _ => true, ?_, fun row _ => iff_of_true rfl (none row)⟩
      rw [List.filter_true]
      rfl
  | cons id ids ih =>
      rw [List.map_cons]
      rcases @deleteMember_cases db id.text with ⟨deep, failed⟩ | ⟨shallow, first, same, keeps⟩
      · exact .inl ⟨sinks_of_first deep, perform_cons_error failed⟩
      rw [sinks_cons_iff keeps, or_iff_right shallow, perform_cons_ok same]
      refine (@ih { db with members := db.members.filter first }).imp_right ?_
      rintro ⟨free, later, same', keeps'⟩
      refine ⟨free, fun row => later row && first row, ?_, fun row listed => ?_⟩
      · rw [same', List.filter_filter]
      · simp only [List.map_cons, List.mem_cons]
        rw [goes_or_iff keeps, Bool.and_eq_true, not_or, ← keeps row listed, and_comm]
        exact and_congr_right fun stay => keeps' row (List.mem_filter.2 ⟨listed, stay⟩)

end Database

end Outline.Store
