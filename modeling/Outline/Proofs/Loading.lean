import Outline.Proofs.Pools
import Outline.Proofs.StoredPaths

/-!
# Loading what the tables keep

Tables keep a workspace if they hold a row for each of its roots and one for each member, in
whatever sequence (`Outline.Store.Database.Keeps`).  From such tables the workspace is loaded
again, as long as its numbers are small enough to be stored
(`Outline.Store.Database.Keeps.load_eq`).
-/

namespace Outline

namespace Workspace

/-- All lists, of roots and of siblings, are so short that another item can be numbered. -/
structure Fits (w : Workspace) : Prop where
  roots : w.roots.length < orderLimit - 1
  tops : ∀ root ∈ w.roots, root.members.length < orderLimit - 1
  children : ∀ m ∈ w.members, m.children.length < orderLimit - 1

variable {w : Workspace}

instance (w : Workspace) : Decidable w.Fits :=
  decidable_of_iff (w.roots.length < orderLimit - 1 ∧
      (∀ root ∈ w.roots, root.members.length < orderLimit - 1) ∧
      ∀ m ∈ w.members, m.children.length < orderLimit - 1)
    ⟨fun ⟨roots, tops, children⟩ => ⟨roots, tops, children⟩,
      fun ⟨roots, tops, children⟩ => ⟨roots, tops, children⟩⟩

theorem Fits.level (fits : w.Fits) {level : Level} (inside : level ∈ w.levels) :
    level.members.length < orderLimit - 1 := by
  obtain ⟨root, listed, inside⟩ := List.mem_flatMap.1 inside
  rcases List.mem_cons.1 inside with rfl | below
  · rw [List.length_map]
    exact fits.tops root listed
  · obtain ⟨m, member, -, -, -, -, members⟩ := Forest.exists_mem_subtrees_of_level below
    rw [members, List.length_map]
    exact fits.children m (List.mem_flatMap.2 ⟨root, listed, member⟩)

/-- The numbers of a dense list do not exceed its length. -/
theorem order_le_of_isDense {α : Type} [Ordered α] {items : List α}
    (dense : Ordered.isDense items = true) {x : α} (member : x ∈ items) :
    Ordered.order x ≤ items.length := by
  have listed := (Ordered.isDense_iff_perm.1 dense).mem_iff.1 (List.mem_map_of_mem member)
  rw [List.mem_range'_1] at listed
  omega

/-- All numbers are small enough to be stored. -/
structure Storable (w : Workspace) : Prop where
  roots : ∀ root ∈ w.roots, root.order < orderLimit
  rows : ∀ row ∈ w.rows, row.order < orderLimit

theorem Valid.storable (valid : w.Valid) (fits : w.Fits) : w.Storable := by
  constructor
  · intro root inside
    have bound : root.order ≤ w.roots.length := order_le_of_isDense valid.dense inside
    have short := fits.roots
    omega
  · intro row inside
    obtain ⟨level, here, listed⟩ := List.mem_flatMap.1 (w.rows_perm_levels.mem_iff.1 inside)
    obtain ⟨m, member, rfl⟩ := List.mem_map.1 listed
    have bound : m.order ≤ level.members.length :=
      order_le_of_isDense (valid.sound here).dense member
    have short := fits.level here
    change m.order < orderLimit
    omega

end Workspace

namespace Store

/-- The stored row of a root, stamped somehow. -/
def RootRow.ofRoot (root : Root) (stamps : Stamps) : RootRow where
  toStamps := stamps
  id := root.id.text
  name := root.name
  kind := root.shape.text
  order := root.order

/-- The tables hold a row for each root and each member of a workspace, and no other row.  The rows
may be stamped somehow. -/
structure Database.Keeps (db : Database) (w : Workspace) : Prop where
  roots : ∃ stamped : List (Root × Stamps),
    db.roots = stamped.map (fun (root, stamps) => .ofRoot root stamps) ∧
      (stamped.map Prod.fst).Perm (w.roots.map Root.shallow)
  members : ∃ stamped : List (Row × Stamps),
    db.members = stamped.map (fun (row, stamps) => .ofRow row stamps) ∧
      (stamped.map Prod.fst).Perm w.rows

/-- Tables that are filled at some time, with rows in any sequence. -/
def Database.ofRows (roots : List Root) (table : List Row) (time : String := "2024-05-01") :
    Database where
  roots := roots.map (.ofRoot · (.at time))
  members := table.map (.ofRow · (.at time))

/-- Tables that are filled from a workspace keep it. -/
theorem Database.keeps_ofRows {w : Workspace} {table : List Row} (same : table.Perm w.rows)
    (time : String) : (ofRows w.roots table time).Keeps w where
  roots := by
    refine ⟨w.roots.map fun root => (root.shallow, .at time), ?_, ?_⟩
    · rw [List.map_map]
      rfl
    · rw [List.map_map]
      exact .refl _
  members := by
    refine ⟨table.map fun row => (row, .at time), ?_, ?_⟩
    · rw [List.map_map]
      rfl
    · rw [List.map_map]
      exact (List.map_id table).symm ▸ same

theorem readOrder_eq_ok {n : Nat} (below : n < orderLimit) (column : Nat) :
    readOrder column n = .ok n := by
  have bound : (n : Int) < orderLimit := Int.ofNat_lt.2 below
  rw [readOrder, if_pos ⟨Int.natCast_nonneg n, bound⟩, Int.toNat_natCast]

theorem readId_text (id : Id) : readId id.text = .ok id := by
  rw [readId, Id.ofText?_text]

theorem RootRow.read_ofRoot (root : Root) (stamps : Stamps) :
    (ofRoot root stamps).read root.order = .ok root.shallow := by
  simp only [RootRow.read, ofRoot, readId_text, Shape.ofText?_text, bind, Except.bind]
  rfl

theorem MemberRow.read_ofRow (row : Row) (stamps : Stamps) :
    (ofRow row stamps).read row.order = .ok (row.parent, row.member) := by
  obtain ⟨id, ⟨root, node⟩, name, kind, order, path⟩ := row
  have parent : (node.map Id.text).mapM readId = .ok node := by
    cases node with
    | none => rfl
    | some node =>
        rw [Option.map_some, Option.mapM_some, readId_text]
        rfl
  simp only [MemberRow.read, ofRow, readId_text, parent, Kind.ofText?_text, readPath,
    ofJson?_pathText, bind, Except.bind]
  rfl

/-- Rows that are read one by one are all read. -/
theorem mapM_map_eq_ok {ε α β γ : Type} {read : β → Except ε γ} {row : α → β} {value : α → γ}
    {items : List α} (reads : ∀ x ∈ items, read (row x) = .ok (value x)) :
    (items.map row).mapM read = .ok (items.map value) := by
  induction items with
  | nil => rfl
  | cons x xs ih =>
      rw [List.map_cons, List.mapM_cons, reads x (.head _),
        ih fun y inside => reads y (.tail _ inside)]
      rfl

/-- Rows are read after all of their numbers. -/
theorem readRows_eq_ok {α β γ : Type} {number : β → Except Fault Nat}
    {read : β → Nat → Except Fault γ} {row : α → β} {value : α → γ} {items : List α}
    (order : α → Nat)
    (numbers : ∀ x ∈ items, number (row x) = .ok (order x))
    (reads : ∀ x ∈ items, read (row x) (order x) = .ok (value x)) :
    ((items.map row).mapM number >>= fun orders =>
      ((items.map row).zip orders).mapM fun (row, order) => read row order) =
        .ok (items.map value) := by
  rw [mapM_map_eq_ok numbers]
  change ((items.map row).zip (items.map order)).mapM _ = _
  rw [List.zip_map']
  exact mapM_map_eq_ok reads

namespace Database.Keeps

variable {db : Database} {w : Workspace} (keeps : db.Keeps w) (ascending : w.Ascending)
  (storable : w.Storable)

include keeps ascending storable

theorem loadRoots_eq : db.loadRoots = .ok (w.roots.map Root.shallow) := by
  obtain ⟨stamped, rows, same⟩ := keeps.roots
  have ascends : (w.roots.map Root.shallow).Pairwise (·.order < ·.order) :=
    List.pairwise_map.2 ascending.roots
  have orders : (stamped.map (·.1.order)).Nodup := by
    have apart := List.pairwise_map.2 (ascends.imp Nat.ne_of_lt)
    have distinct := (same.map Root.order).nodup_iff.2 apart
    rwa [List.map_map] at distinct
  -- No two roots have one number, so the time of creation decides nothing.
  have sorted : stableSort RootRow.precedes db.roots =
      (stableSort (fun a b => a.1.order ≤ b.1.order) stamped).map
        fun (root, stamps) => .ofRoot root stamps := by
    rw [rows]
    apply stableSort_map
    intro a inA b inB
    rw [Bool.eq_iff_iff]
    simp only [RootRow.precedes, RootRow.ofRoot, Bool.or_eq_true, Bool.and_eq_true,
      decide_eq_true_eq,
      Int.ofNat_lt, Int.natCast_inj]
    constructor
    · omega
    · intro le
      rcases Nat.lt_or_eq_of_le le with less | equal
      · exact .inl less
      · obtain rfl := List.inj_on_of_nodup_map orders inA inB equal
        exact .inr ⟨rfl, decide_eq_true (String.le_refl _)⟩
  have listed : (stableSort (fun a b => a.1.order ≤ b.1.order) stamped).map Prod.fst =
      w.roots.map Root.shallow :=
    (stableSort_map fun _ _ _ _ => rfl).symm.trans (Ordered.sorted_eq_of_perm same ascends)
  have known : ∀ entry ∈ stableSort (fun a b => a.1.order ≤ b.1.order) stamped,
      ∃ root ∈ w.roots, root.shallow = entry.1 := fun entry inside =>
    List.mem_map.1 (listed ▸ List.mem_map_of_mem inside)
  unfold loadRoots
  dsimp only
  rw [sorted, ← listed]
  refine readRows_eq_ok (fun entry => entry.1.order) ?_ ?_
  · intro entry inside
    obtain ⟨root, here, same⟩ := known entry inside
    have below : root.order < orderLimit := storable.roots root here
    refine readOrder_eq_ok ?_ 3
    rwa [← same]
  · intro entry inside
    obtain ⟨root, -, same⟩ := known entry inside
    rw [RootRow.read_ofRoot, ← same]
    rfl

/-- The pool that is loaded supplies the workspace. -/
theorem loadPool_eq (roots : (w.roots.map Root.id).Nodup) (members : w.ids.Nodup) :
    ∃ pool, db.loadPool = .ok pool ∧ pool.Supplies w.levels := by
  obtain ⟨stamped, rows, same⟩ := keeps.members
  let sequence := stableSort (fun a b : Row × Stamps => a.1.order ≤ b.1.order) stamped
  let told := sequence.map Prod.fst
  have perm : told.Perm w.rows := ((stableSort_perm _ stamped).map Prod.fst).trans same
  have sorted : stableSort (fun a b : MemberRow => a.order ≤ b.order) db.members =
      sequence.map fun (row, stamps) => .ofRow row stamps := by
    rw [rows]
    apply stableSort_map
    intro a _ b _
    exact decide_eq_decide.2 Int.ofNat_le
  have rowsSorted : told.Pairwise fun a b => a.order ≤ b.order := by
    refine List.pairwise_map.2 ((pairwise_stableSort ?_ ?_ stamped).imp of_decide_eq_true)
    · intro a b c below above
      exact decide_eq_true (Nat.le_trans (of_decide_eq_true below) (of_decide_eq_true above))
    · intro a b above
      exact decide_eq_true (Nat.le_of_not_le (of_decide_eq_false above))
  refine ⟨told.map fun row => (row.parent, row.member), ?_, ?_⟩
  · unfold loadPool
    dsimp only
    rw [sorted, List.map_map]
    refine readRows_eq_ok (fun entry => entry.1.order) (fun entry inside => ?_)
      fun entry _ => MemberRow.read_ofRow entry.1 entry.2
    exact readOrder_eq_ok (storable.rows _ (perm.mem_iff.1 (List.mem_map_of_mem inside))) 5
  · refine ⟨w.nodup_map_container roots members, ?_⟩
    intro level inside
    have list : Pool.list (told.map fun row => (row.parent, row.member)) level.container =
        (told.filter (·.parent = level.container)).map Row.member := by
      rw [Pool.list, List.filter_map, List.map_map]
      rfl
    have ascends : ((told.filter (·.parent = level.container)).map Row.member).Pairwise
        (Ordered.order · ≤ Ordered.order ·) :=
      List.pairwise_map.2 (rowsSorted.filter _)
    rw [list, ← Ordered.sorted_eq_self ascends]
    exact Workspace.sorted_filter_parent roots members ascending perm inside

end Database.Keeps

/-- Takes the members of a root out of the pool. -/
def Pool.place (root : Root) (pool : Pool) : Root × Pool :=
  let (members, pool) := Pool.attach (pool.length + 1) root.container pool
  (root.withMembers members, pool)

/-- The roots are put together one after the other. -/
theorem Pool.threadPool_place {rs : List Root} {pool : Pool}
    (supplies : pool.Supplies (Workspace.levels ⟨rs⟩)) :
    (threadPool place (rs.map Root.shallow) pool).1 = rs := by
  induction rs generalizing pool with
  | nil => rfl
  | cons root rs ih =>
      rw [Workspace.levels, List.flatMap_cons] at supplies
      have own := supplies.left
      have later := ih supplies.right
      have enough : (Forest.ids root.members).length < pool.length + 1 := by
        have count := (Forest.ids_perm_levels root.members root.site .interior).length_eq
        have bound := own.length_le
        simp only [List.length_flatMap, Level.ids, List.length_map] at count bound
        omega
      have attached : attach (pool.length + 1) root.shallow.container pool = (root.members, _) :=
        Pool.attach_eq own enough
      rw [List.map_cons, threadPool, place, attached]
      exact congrArg (root :: ·) later

namespace Database.Keeps

variable {db : Database} {w : Workspace} (keeps : db.Keeps w)

include keeps

/-- Whatever its roots accept, a workspace that the tables keep is loaded from them. -/
theorem load_eq_of_distinct (roots : (w.roots.map Root.id).Nodup) (members : w.ids.Nodup)
    (ascending : w.Ascending) (storable : w.Storable) : db.load = .ok w := by
  obtain ⟨pool, loaded, supplies⟩ := keeps.loadPool_eq ascending storable roots members
  have placed := Pool.threadPool_place supplies
  unfold load
  rw [keeps.loadRoots_eq ascending storable, loaded]
  change Except.ok (Workspace.mk (threadPool Pool.place (w.roots.map Root.shallow) pool).1) = _
  rw [placed]

/-- A valid workspace that the tables keep is loaded from them. -/
theorem load_eq (valid : w.Valid) (ascending : w.Ascending) (storable : w.Storable) :
    db.load = .ok w :=
  keeps.load_eq_of_distinct valid.roots_distinct valid.members_distinct ascending storable

end Database.Keeps

end Store

end Outline
