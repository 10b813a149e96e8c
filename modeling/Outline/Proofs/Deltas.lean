import Outline.Proofs.Renumberings
import Outline.Proofs.Statements

/-!
# What a plan asks for

A plan sets the list that a container is to have against the records known of members from before,
whether or not the two come from one workspace.  A record says which container lists the member, at
any depth (`Outline.Forest.Lists`).  The commands are those, and in that sequence, that make the
known records into the records of the new list (`Outline.Change.Comparable.delta`).
-/

namespace Outline

/-- In the forest that `owner` owns, `parent` lists the member. -/
inductive Forest.Lists (ms : Forest) (owner : Container) :
    (parent : Container) → Member → Prop where
  | top {m : Member} (member : m ∈ ms) : Lists ms owner owner m
  /-- Below the top it is the containers of the same root that list members. -/
  | deeper {parent : Container} {m n : Member} (listed : Lists ms owner parent m)
      (child : n ∈ m.children) : Lists ms owner (.ofNode owner.root m.id) n

instance (old new : Row) : Decidable (old.Differs new) :=
  inferInstanceAs (Decidable (_ ∨ _ ∨ _ ∨ _))

namespace Change

/-- The row tells of a member as it was, in the list or where it arrives from. -/
def Known (change : Change) (row : Row) : Prop :=
  ∃ parent m, row = m.row parent ∧ (Forest.Lists change.before change.container parent m ∨
    ∃ arrival ∈ change.arrivals, Forest.Lists [arrival.member] arrival.source parent m)

/-- The row tells of a member as it is to be. -/
def Shown (change : Change) (row : Row) : Prop :=
  ∃ parent m, row = m.row parent ∧ Forest.Lists change.after change.container parent m

/-- What is known of members can be set against what they are to be. -/
structure Comparable (change : Change) : Prop where
  distinct : (Forest.ids change.after).Nodup
  /-- What is known of one member twice is the same. -/
  alike : ∀ old other, change.Known old → change.Known other → old.id = other.id →
    ¬ old.Differs other
  kinds : ∀ old new, change.Known old → change.Shown new → old.id = new.id → old.kind = new.kind

/-- A batch makes what is known into what is to be. -/
structure Delta (change : Change) (batch : Batch) : Prop where
  container : batch.container = change.container
  /-- Members of which nothing is known are created. -/
  created : ∀ row, row ∈ batch.creates ↔
    change.Shown row ∧ ∀ old, change.Known old → old.id ≠ row.id
  /-- Members of which something else is known are updated where it differs. -/
  updated : ∀ update, update ∈ batch.updates ↔ ∃ old new, change.Known old ∧ change.Shown new ∧
    old.id = new.id ∧ old.Differs new ∧ update.Turns old new
  deletes : batch.deletes = change.deleted
  /-- Each container comes before what it lists, and no member comes twice. -/
  sequence : (batch.creates.map Row.id).Sublist (Forest.ids change.after) ∧
    (batch.updates.map Update.id).Sublist (Forest.ids change.after)
  /-- On any table of what is known, the commands leave exactly what is to be. -/
  reached : ∀ table : List Row, (∀ row, row ∈ table ↔ change.Known row) →
    ∀ row : Row, row.id ∈ Forest.ids change.after →
      (row ∈ Store.Database.accepted table batch.creates batch.updates ↔ change.Shown row)

end Change

namespace Forest

variable {ms : Forest} {owner : Container} {row : Row}

theorem Lists.mono {ns : Forest} {m : Member} {parent : Container} (within : ms ⊆ ns)
    (listed : Lists ms owner parent m) : Lists ns owner parent m := by
  induction listed with
  | top member => exact .top (within member)
  | deeper _ child later => exact .deeper later child

theorem Lists.of_child {m n : Member} {parent : Container} (member : m ∈ ms)
    (listed : Lists m.children (.ofNode owner.root m.id) parent n) : Lists ms owner parent n := by
  induction listed with
  | top child => exact .deeper (.top member) child
  | deeper _ child later => exact .deeper later child

/-- With the row of a listed member, a forest has the rows of all below it. -/
theorem Lists.rows_subset {m : Member} {parent : Container} (listed : Lists ms owner parent m) :
    m.row parent ∈ rows ms owner ∧
      ∀ row ∈ rows m.children (.ofNode owner.root m.id), row ∈ rows ms owner := by
  induction listed with
  | top member => exact ⟨row_mem_rows member owner, fun _ => mem_rows_of_mem_children member⟩
  | @deeper parent m n _ child later =>
      refine ⟨later.2 _ (row_mem_rows child _), fun row inside => later.2 row ?_⟩
      exact @mem_rows_of_mem_children _ _ (.ofNode owner.root m.id) _ child inside

/-- The rows of a forest are those of its listed members. -/
theorem mem_rows_iff : row ∈ rows ms owner ↔ ∃ parent m, row = m.row parent ∧
    Lists ms owner parent m := by
  constructor
  · intro inside
    induction ms using Forest.induct generalizing owner with
    | nil => exact absurd inside List.not_mem_nil
    | cons m ms inner later =>
        rw [rows_cons] at inside
        rcases List.mem_cons.1 inside with rfl | inside
        · exact ⟨owner, m, rfl, .top (.head _)⟩
        rcases List.mem_append.1 inside with below | after
        · obtain ⟨parent, n, same, listed⟩ := inner below
          exact ⟨parent, n, same, listed.of_child (.head _)⟩
        · obtain ⟨parent, n, same, listed⟩ := later after
          exact ⟨parent, n, same, listed.mono (List.subset_cons_self m ms)⟩
  · rintro ⟨parent, m, rfl, listed⟩
    exact listed.rows_subset.1

end Forest

namespace Change

variable {change : Change}

theorem mem_rowsBefore {row : Row} : row ∈ change.rowsBefore ↔ change.Known row := by
  simp only [rowsBefore, List.mem_append, List.mem_flatMap, Known]
  constructor
  · rintro (inside | ⟨arrival, arrives, inside⟩)
    · obtain ⟨parent, m, same, listed⟩ := Forest.mem_rows_iff.1 inside
      exact ⟨parent, m, same, .inl listed⟩
    · have inside : row ∈ Forest.rows [arrival.member] arrival.source := by
        rwa [Forest.rows, Forest.rows, List.append_nil]
      obtain ⟨parent, m, same, listed⟩ := Forest.mem_rows_iff.1 inside
      exact ⟨parent, m, same, .inr ⟨arrival, arrives, listed⟩⟩
  · rintro ⟨parent, m, same, listed | ⟨arrival, arrives, listed⟩⟩
    · exact .inl (Forest.mem_rows_iff.2 ⟨parent, m, same, listed⟩)
    · have inside := Forest.mem_rows_iff.2 ⟨parent, m, same, listed⟩
      rw [Forest.rows, Forest.rows, List.append_nil] at inside
      exact .inr ⟨arrival, arrives, inside⟩

theorem mem_rowsAfter {row : Row} : row ∈ change.rowsAfter ↔ change.Shown row :=
  Forest.mem_rows_iff

theorem comparable_iff : change.Comparable ↔ (Forest.ids change.after).Nodup ∧
    (∀ old ∈ change.rowsBefore, ∀ other ∈ change.rowsBefore, old.id = other.id →
      ¬ old.Differs other) ∧
    ∀ old ∈ change.rowsBefore, ∀ new ∈ change.rowsAfter, old.id = new.id → old.kind = new.kind := by
  simp only [mem_rowsBefore, mem_rowsAfter]
  constructor
  · rintro ⟨distinct, alike, kinds⟩
    exact ⟨distinct, fun old known other again => alike old other known again,
      fun old known new shown => kinds old new known shown⟩
  · rintro ⟨distinct, alike, kinds⟩
    exact ⟨distinct, fun old other known again => alike old known other again,
      fun old new known shown => kinds old known new shown⟩

instance (change : Change) : Decidable change.Comparable :=
  decidable_of_iff' _ comparable_iff

theorem creates_sublist (change : Change) :
    (change.plan.creates.map Row.id).Sublist (Forest.ids change.after) := by
  rw [← Forest.map_id_rows change.after change.container]
  exact List.filter_sublist.map Row.id

theorem updates_sublist (change : Change) :
    (change.plan.updates.map Update.id).Sublist (Forest.ids change.after) := by
  rw [← Forest.map_id_rows change.after change.container]
  exact sublist_map_filterMap (fun _ _ => Row.id_updateFrom?) _

namespace Comparable

variable (comparable : change.Comparable)

include comparable

/-- Of a member that is to be, one record at most is known. -/
theorem known_ext {old other new : Row} (known : change.Known old) (again : change.Known other)
    (shown : change.Shown new) (first : old.id = new.id) (second : other.id = new.id) :
    old = other := by
  have same : old.id = other.id := first.trans second.symm
  refine Row.eq_of_not_differs same ?_ (comparable.alike old other known again same)
  exact (comparable.kinds old new known shown first).trans
    (comparable.kinds other new again shown second).symm

theorem shown_ext {row new : Row} (shown : change.Shown row) (again : change.Shown new)
    (same : row.id = new.id) : row = new :=
  Forest.row_ext comparable.distinct change.container row (mem_rowsAfter.2 shown) new
    (mem_rowsAfter.2 again) same

theorem mem_updates {update : Update} : update ∈ change.plan.updates ↔ ∃ old new,
    change.Known old ∧ change.Shown new ∧ old.id = new.id ∧ old.Differs new ∧
      update.Turns old new := by
  have brings : ∀ {new : Row}, change.Shown new →
      (new.updateFrom? change.rowsBefore = some update ↔ ∃ old ∈ change.rowsBefore,
        old.id = new.id ∧ old.Differs new ∧ update = old.updateTo new) := fun shown =>
    Row.updateFrom?_eq_some_iff fun r inR s inS =>
      comparable.known_ext (mem_rowsBefore.1 inR) (mem_rowsBefore.1 inS) shown
  rw [updates_plan, List.mem_filterMap]
  constructor
  · rintro ⟨new, inside, brought⟩
    have shown := mem_rowsAfter.1 inside
    obtain ⟨old, known, same, differs, rfl⟩ := (brings shown).1 brought
    exact ⟨old, new, mem_rowsBefore.1 known, shown, same, differs, old.updateTo_turns new⟩
  · rintro ⟨old, new, known, shown, same, differs, turns⟩
    exact ⟨new, mem_rowsAfter.2 shown, (brings shown).2
      ⟨old, mem_rowsBefore.2 known, same, differs, turns.eq_updateTo⟩⟩

/-- Updates bring what is known of a member to what is to be. -/
theorem receiveAll_eq {old new : Row} (known : change.Known old) (shown : change.Shown new)
    (same : old.id = new.id) : old.receiveAll change.plan.updates = new := by
  have kind := comparable.kinds old new known shown same
  by_cases differs : old.Differs new
  · have inside : old.updateTo new ∈ change.plan.updates := comparable.mem_updates.2
      ⟨old, new, known, shown, same, differs, old.updateTo_turns new⟩
    have once := change.updates_sublist.nodup comparable.distinct
    rw [Row.receiveAll_eq_updated once inside same.symm, Row.updated_updateTo same kind]
  · have apart : old.id ∉ change.plan.updates.map Update.id := by
      intro listed
      obtain ⟨update, inside, own⟩ := List.mem_map.1 listed
      obtain ⟨old', new', known', shown', same', differs', turns⟩ :=
        comparable.mem_updates.1 inside
      have target : new'.id = new.id := turns.id.symm.trans (own.trans same)
      obtain rfl := comparable.shown_ext shown' shown target
      obtain rfl := comparable.known_ext known' known shown' same' same
      exact differs differs'
    rw [Row.receiveAll_eq_self apart, Row.eq_of_not_differs same kind differs]

end Comparable

theorem mem_creates {row : Row} : row ∈ change.plan.creates ↔
    change.Shown row ∧ ∀ old, change.Known old → old.id ≠ row.id := by
  rw [creates_plan, List.mem_filter, mem_rowsAfter, rowOf?_isNone_iff, List.mem_map]
  simp only [mem_rowsBefore, not_exists, not_and]

/-- The plan of a change makes what is known of members into what they are to be: it creates those
of which nothing is known and updates the others just where they differ. -/
theorem Comparable.delta (comparable : change.Comparable) : change.Delta change.plan where
  container := rfl
  created _ := mem_creates
  updated _ := comparable.mem_updates
  deletes := rfl
  sequence := ⟨change.creates_sublist, change.updates_sublist⟩
  reached table lists row listed := by
    have shown : ∃ new, change.Shown new ∧ new.id = row.id := by
      rw [← Forest.map_id_rows change.after change.container] at listed
      obtain ⟨new, inside, same⟩ := List.mem_map.1 listed
      exact ⟨new, mem_rowsAfter.1 inside, same⟩
    rw [Store.Database.accepted, List.mem_append, List.mem_map]
    constructor
    · rintro (⟨old, inside, rfl⟩ | inside)
      · obtain ⟨new, shown, same⟩ := shown
        rw [Row.id_receiveAll] at same
        rwa [comparable.receiveAll_eq ((lists old).1 inside) shown same.symm]
      · exact (mem_creates.1 inside).1
    · intro shown
      by_cases known : ∃ old, change.Known old ∧ old.id = row.id
      · obtain ⟨old, known, same⟩ := known
        exact .inl ⟨old, (lists old).2 known, comparable.receiveAll_eq known shown same⟩
      · refine .inr (mem_creates.2 ⟨shown, fun old inside same => known ⟨old, inside, same⟩⟩)

/-- A folder with a note in it comes from another root to a shelf, and a new note with it. -/
theorem delta_of_arrival :
    let folder : Member := ⟨.ofRandom 4, "folder", 1, .interior, Path.root.child "folder",
      [.fresh (.ofRandom 5) "note" 1 .leaf (Path.root.child "folder")]⟩
    let shelf := Path.root.child "shelf"
    let change : Change := {
      container := .ofNode (.ofRandom 9) (.ofRandom 7)
      before := [.fresh (.ofRandom 1) "first" 1 .leaf shelf]
      after := [{ folder.rebased shelf with order := 1 },
        .fresh (.ofRandom 1) "first" 2 .leaf shelf, .fresh (.ofRandom 2) "new" 3 .leaf shelf]
      arrivals := [{ source := .ofRoot (.ofRandom 8), member := folder }] }
    change.Comparable ∧ change.Delta change.plan ∧
      change.plan.creates.map Row.name = ["new"] ∧
      change.plan.updates.map Update.parent =
        [some (.ofNode (.ofRandom 9) (.ofRandom 7)), some (.ofNode (.ofRandom 9) (.ofRandom 4)),
          none] := by
  intro folder shelf change
  have comparable : change.Comparable := by decide
  exact ⟨comparable, comparable.delta, by decide, by decide⟩

end Change

end Outline
