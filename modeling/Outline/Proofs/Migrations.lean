import Mathlib.Data.List.Sort
import Outline.Proofs.LoadedRows
import Outline.Proofs.NewRoots
import Outline.Store.Migration

/-!
# Migrations

Tables from before roots had numbers get them by the time of creation, roots of one time by their
place in the table (`Outline.Store.Database.migrate_numbers`).  Nothing is assumed of the times, so
that they may repeat.
-/

namespace Outline.Store

namespace RootRow

/-- The first root, stored at its place in the table, was created before the second: by time, then
by place. -/
def Older (a b : RootRow × Nat) : Prop :=
  a.1.createdAt < b.1.createdAt ∨ a.1.createdAt = b.1.createdAt ∧ a.2 < b.2

instance (a b : RootRow × Nat) : Decidable (Older a b) :=
  inferInstanceAs (Decidable (_ ∨ _))

theorem Older.asymm {a b : RootRow × Nat} (older : Older a b) : ¬ Older b a := by
  rintro (earlier | ⟨same, before⟩) <;> rcases older with earlier' | ⟨same', before'⟩
  · exact lt_asymm earlier earlier'
  · exact earlier.ne same'.symm
  · exact earlier'.ne same.symm
  · omega

/-- The roots of a table in the sequence of their creation. -/
theorem exists_older_sequence (rows : List RootRow) : ∃ sequence : List (RootRow × Nat),
    sequence.Perm rows.zipIdx ∧ sequence.Pairwise Older := by
  obtain ⟨sequence, same, -, sorted⟩ := @exists_sequence RootRow
    (fun a b => decide (a.createdAt ≤ b.createdAt))
    (fun a b c first second => by
      rw [decide_eq_true_eq] at first second ⊢
      exact first.trans second)
    (fun a b not => by
      rw [decide_eq_false_iff_not] at not
      exact decide_eq_true (lt_of_not_ge not).le) rows
  refine ⟨sequence, same, sorted.imp fun {a b} before => ?_⟩
  rw [decide_eq_true_eq, decide_eq_true_eq] at before
  exact before.1.lt_or_eq.imp_right fun tied => ⟨tied, before.2 tied.ge⟩

end RootRow

namespace Migration

open RootRow (Older)

/-- A root counts all that were not created after it, itself included. -/
theorem rank_eq_length_filter (rows : List RootRow) (entry : RootRow × Nat) :
    rank rows entry.2 entry.1 = (rows.zipIdx.filter fun other => ¬ Older entry other).length := by
  refine congrArg List.length (List.filter_congr fun other _ => ?_)
  rw [Bool.eq_iff_iff, decide_eq_true_eq, Older, not_or, not_lt, not_and, not_lt]
  simp only [Bool.or_eq_true, Bool.and_eq_true, decide_eq_true_eq]
  constructor
  · rintro (earlier | ⟨same, before⟩)
    · exact ⟨earlier.le, fun same => absurd same earlier.ne'⟩
    · exact ⟨same.le, fun _ => before⟩
  · rintro ⟨early, before⟩
    exact early.lt_or_eq.imp_right fun same => ⟨same, before same.symm⟩

/-- In the sequence of their creation the roots are counted one by one. -/
theorem rank_eq {rows : List RootRow} {sequence front back : List (RootRow × Nat)}
    {entry : RootRow × Nat} (same : sequence.Perm rows.zipIdx) (sorted : sequence.Pairwise Older)
    (split : sequence = front ++ entry :: back) :
    rank rows entry.2 entry.1 = front.length + 1 := by
  rw [split, List.pairwise_append, List.pairwise_cons] at sorted
  obtain ⟨-, ⟨later, -⟩, earlier⟩ := sorted
  have all : front.filter (fun other => ¬ Older entry other) = front := by
    refine List.filter_eq_self.2 fun other listed => decide_eq_true ?_
    exact (earlier other listed entry (.head _)).asymm
  have own : decide (¬ Older entry entry) = true := decide_eq_true fun older => older.asymm older
  have none : back.filter (fun other => ¬ Older entry other) = [] := by
    refine List.filter_eq_nil_iff.2 fun other listed counted => ?_
    exact of_decide_eq_true counted (later other listed)
  rw [rank_eq_length_filter, ← (same.filter _).length_eq, split, List.filter_append, all,
    List.filter_cons, if_pos own, none, List.length_append, List.length_singleton]

/-- The roots of a table with their numbers. -/
def numbered (rows : List RootRow) : List RootRow :=
  rows.mapIdx fun index row => { row with order := rank rows index row }

/-- Nothing but the number of a root changes. -/
theorem map_numbered {α : Type} {f : RootRow → α}
    (ignores : ∀ row order, f { row with order } = f row) (rows : List RootRow) :
    (numbered rows).map f = rows.map f := by
  refine List.ext_getElem (by simp [numbered]) fun k _ _ => ?_
  simp only [numbered, List.getElem_map, List.getElem_mapIdx, ignores]

/-- A stored root at its place, with its number. -/
def withRank (rows : List RootRow) (entry : RootRow × Nat) : RootRow × Nat :=
  ({ entry.1 with order := rank rows entry.2 entry.1 }, entry.2)

theorem zipIdx_numbered (rows : List RootRow) :
    (numbered rows).zipIdx = rows.zipIdx.map (withRank rows) := by
  refine List.ext_getElem (by simp [numbered]) fun k _ _ => ?_
  simp [numbered, withRank]

/-- Roots get the numbers from one in the sequence of their creation. -/
theorem exists_numbered_sequence (rows : List RootRow) : ∃ sequence : List (RootRow × Nat),
    sequence.Perm (numbered rows).zipIdx ∧ sequence.Pairwise Older ∧
      sequence.map (fun entry => entry.1.order) = (List.range' 1 rows.length).map Int.ofNat := by
  obtain ⟨sequence, same, sorted⟩ := RootRow.exists_older_sequence rows
  refine ⟨sequence.map (withRank rows), zipIdx_numbered rows ▸ same.map _, ?_, ?_⟩
  · exact List.pairwise_map.2 sorted
  · refine List.ext_getElem (by simp [same.length_eq]) fun k inside _ => ?_
    have listed : k < sequence.length := by simpa using inside
    have split : sequence = sequence.take k ++ sequence[k] :: sequence.drop (k + 1) := by
      rw [List.getElem_cons_drop, List.take_append_drop]
    have counted := rank_eq same sorted split
    rw [List.length_take_of_le listed.le] at counted
    simp [withRank, counted, Nat.add_comm]

/-- The numbers of roots are those from one to their count. -/
theorem orders_numbered_perm (rows : List RootRow) :
    ((numbered rows).map RootRow.order).Perm ((List.range' 1 rows.length).map Int.ofNat) := by
  obtain ⟨sequence, same, -, orders⟩ := exists_numbered_sequence rows
  have listed := same.map fun entry => entry.1.order
  rw [orders] at listed
  refine (listed.trans (.of_eq ?_)).symm
  change (numbered rows).zipIdx.map (RootRow.order ∘ Prod.fst) = _
  rw [← List.map_map, List.zipIdx_map_fst]

/-- Of two roots the one that was created first has the lower number. -/
theorem older_numbered_iff {rows : List RootRow} {a b : RootRow × Nat}
    (first : a ∈ (numbered rows).zipIdx) (second : b ∈ (numbered rows).zipIdx) :
    Older a b ↔ a.1.order < b.1.order := by
  obtain ⟨sequence, same, sorted, orders⟩ := exists_numbered_sequence rows
  have increasing : sequence.Pairwise fun x y => x.1.order < y.1.order := by
    refine List.pairwise_map.1 ?_
    rw [orders, List.pairwise_map]
    exact List.Pairwise.imp Int.ofNat_lt.2 List.pairwise_lt_range'
  have both := sorted.and increasing
  refine List.Pairwise.forall_of_forall_of_flip
    (R := fun x y : RootRow × Nat => Older x y ↔ x.1.order < y.1.order)
    (fun x _ => ?_) (both.imp fun known => ?_) (both.imp fun known => ?_)
    (same.mem_iff.2 first) (same.mem_iff.2 second)
  · exact iff_of_false (fun older => older.asymm older) (lt_irrefl _)
  · exact iff_of_true known.1 known.2
  · exact iff_of_false known.1.asymm (lt_asymm known.2)

end Migration

namespace RootRow

/-- The cells of a stored root can be read. -/
def Readable (stored : RootRow) : Prop :=
  (Id.ofText? stored.id).isSome ∧ (Shape.ofText? stored.kind).isSome

/-- The root is what the cells of a stored root are read as, without members. -/
structure ReadAs (stored : RootRow) (root : Root) : Prop where
  id : Id.ofText? stored.id = some root.id
  name : stored.name = root.name
  shape : Shape.ofText? stored.kind = some root.shape
  order : stored.order = root.order
  members : root.members = []

theorem ReadAs.read_eq {stored : RootRow} {root : Root} (reads : stored.ReadAs root) :
    stored.read root.order = .ok root := by
  obtain ⟨id, name, shape, order, members⟩ := root
  obtain ⟨named, rfl, shaped, numbered, rfl⟩ := reads
  simp only [RootRow.read, readId, named, shaped, bind, Except.bind]
  rfl

end RootRow

namespace Database

/-- What becomes of tables from before roots had numbers. -/
structure Backfills (before after : Database) : Prop where
  applied : after.applied = Migration.all
  members : after.members = before.members
  /-- The roots stay as they are and where they are, their numbers apart. -/
  rows : after.roots.map ({ · with order := 0 }) = before.roots.map ({ · with order := 0 })
  orders : (after.roots.map RootRow.order).Perm
    ((List.range' 1 before.roots.length).map Int.ofNat)
  older : ∀ a ∈ after.roots.zipIdx, ∀ b ∈ after.roots.zipIdx,
    RootRow.Older a b ↔ a.1.order < b.1.order
  /-- The roots are loaded in the sequence of their creation, with the numbers from one. -/
  loads : before.roots.length < orderLimit → (∀ stored ∈ before.roots, stored.Readable) →
    ∃ sequence roots, after.loadRoots = .ok roots ∧
      roots.map Root.order = List.range' 1 before.roots.length ∧
      sequence.Perm after.roots.zipIdx ∧ sequence.Pairwise RootRow.Older ∧
      List.Forall₂ (fun entry root => entry.1.ReadAs root) sequence roots
  /-- A root with a new identifier gets the next number. -/
  next : ∀ id name shape time, before.roots.length + 1 < orderLimit →
    id.text ∉ before.roots.map RootRow.id → ∃ root last,
      after.createRoot id name shape time = .ok (root, last) ∧
        root.order = before.roots.length + 1 ∧
        last = { after with roots := after.roots ++ [.ofRoot root (.at time)] }
  again : after.migrate = after

variable {db after : Database}

/-- Tables that have been through all migrations stay as they are. -/
theorem migrate_eq_self (applied : ∀ migration, migration ∈ db.applied) : db.migrate = db := by
  simp only [migrate, Migration.all, List.foldl_cons, List.foldl_nil, advance, if_pos (applied _)]

theorem migrate_eq_numbered (legacy : db.applied = [.initial]) :
    db.migrate = { db with applied := Migration.all, roots := Migration.numbered db.roots } := by
  have first : Migration.initial ∈ db.applied := legacy ▸ .head _
  have second : Migration.rootOrder ∉ db.applied := by
    rw [legacy]
    decide
  have ran : db.advance .rootOrder =
      { db with applied := Migration.all, roots := Migration.numbered db.roots } := by
    rw [advance, if_neg second, legacy]
    rfl
  have skipped : db.advance .initial = db := if_pos first
  change (db.advance .initial).advance .rootOrder = _
  rw [skipped, ran]

/-- Roots with their numbers are loaded in the sequence of their creation. -/
theorem loadRoots_numbered (small : db.roots.length < orderLimit)
    (readable : ∀ stored ∈ db.roots, stored.Readable)
    (roots : after.roots = Migration.numbered db.roots) :
    ∃ sequence roots, after.loadRoots = .ok roots ∧
      roots.map Root.order = List.range' 1 db.roots.length ∧
      sequence.Perm after.roots.zipIdx ∧ sequence.Pairwise RootRow.Older ∧
      List.Forall₂ (fun entry root => entry.1.ReadAs root) sequence roots := by
  obtain ⟨created, all, sorted, orders⟩ := Migration.exists_numbered_sequence db.roots
  have told : ∀ row ∈ after.roots, ∃ root, row.ReadAs root ∧ root.order < orderLimit := by
    intro row inside
    rw [roots] at inside
    obtain ⟨n, counted, number⟩ := List.mem_map.1
      ((Migration.orders_numbered_perm db.roots).mem_iff.1 (List.mem_map_of_mem inside))
    obtain ⟨index, listed, rfl⟩ := List.mem_mapIdx.1 inside
    obtain ⟨named, shaped⟩ := readable _ (List.getElem_mem listed)
    obtain ⟨id, named⟩ := Option.isSome_iff_exists.1 named
    obtain ⟨shape, shaped⟩ := Option.isSome_iff_exists.1 shaped
    rw [List.mem_range'_1] at counted
    exact ⟨⟨id, _, shape, n, []⟩, ⟨named, rfl, shaped, number.symm, rfl⟩, by dsimp only; omega⟩
  obtain ⟨sequence, value, same, listed, reads, loaded⟩ :=
    exists_reading RootRow.precedes_trans RootRow.precedes_total told
      (fun row root told below => told.order ▸ readOrder_eq_ok below 3) fun _ _ told => told.read_eq
  have older : sequence.Pairwise RootRow.Older := by
    refine listed.imp_of_mem fun {a b} first second before => ?_
    rw [same.mem_iff, roots] at first second
    rcases RootRow.before_of_precedes before with less | ⟨-, older⟩
    · exact (Migration.older_numbered_iff first second).2 less
    · exact older
  -- Two rearrangements of the same roots are the same if both are in the order of creation.
  obtain rfl : sequence = created := by
    refine List.Perm.eq_of_pairwise (fun a b _ _ first second => absurd second first.asymm)
      older sorted ?_
    exact same.trans (roots ▸ all.symm)
  refine ⟨sequence, _, loaded, ?_, same, older, ?_⟩
  · refine List.map_injective_iff.2 (fun _ _ => Int.ofNat.inj) ?_
    rw [← orders, List.map_map, List.map_map]
    exact List.map_congr_left fun entry inside => (reads entry inside).order.symm
  · refine List.forall₂_map_right_iff.2 (List.forall₂_same.2 fun entry inside => ?_)
    exact reads entry inside

/-- Tables from before roots had numbers get them by the time of creation, and tables that have been
through all migrations stay as they are. -/
theorem migrate_numbers :
    (∀ db : Database, db.applied = [.initial] → db.Backfills db.migrate) ∧
      ∀ db : Database, (∀ migration, migration ∈ db.applied) → db.migrate = db := by
  refine ⟨fun db legacy => ?_, fun db => migrate_eq_self⟩
  have ids : (Migration.numbered db.roots).map RootRow.id = db.roots.map RootRow.id :=
    Migration.map_numbered (fun _ _ => rfl) db.roots
  have orders := Migration.orders_numbered_perm db.roots
  rw [migrate_eq_numbered legacy]
  constructor
  · rfl
  · rfl
  · exact Migration.map_numbered (fun _ _ => rfl) db.roots
  · exact orders
  · exact fun a first b second => Migration.older_numbered_iff first second
  · exact fun small readable => loadRoots_numbered small readable rfl
  · intro id name shape time small new
    refine ⟨_, _, createRoot_eq_ok (nextRootOrder_eq_of_perm orders) small ?_ name shape time,
      rfl, rfl⟩
    rwa [ids]
  · refine migrate_eq_self fun migration => ?_
    cases migration
    · exact .head _
    · exact .tail _ (.head _)

/-- Two of three roots were created at one time. -/
theorem tied_migrate_numbers :
    let root (id : Nat) (time : String) : RootRow := { Stamps.at time with
      id := (Id.ofRandom id).text, name := "notes", kind := "tree", order := 0 }
    let db : Database :=
      { applied := [.initial], roots := [root 1 "2024-02", root 2 "2024-01", root 3 "2024-02"] }
    db.Backfills db.migrate ∧ db.migrate.roots.map RootRow.order = [2, 1, 3] :=
  ⟨migrate_numbers.1 _ rfl, by decide +kernel⟩

end Database

end Outline.Store
