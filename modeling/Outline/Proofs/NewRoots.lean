import Outline.Proofs.Commits

/-!
# New roots

A root that is created comes last, with the next number and without members.  The workspace stays
valid, and the tables keep it with its new root (`Outline.Store.Database.Keeps.createRoot`).
-/

namespace Outline

namespace Workspace

variable {w : Workspace} {root : Root}

/-- The workspace with another root at its end. -/
def withRoot (w : Workspace) (root : Root) : Workspace where
  roots := w.roots ++ [root]

theorem levels_withRoot (empty : root.members = []) :
    (w.withRoot root).levels = w.levels ++ [⟨root.site, .interior, []⟩] := by
  rw [levels, withRoot, List.flatMap_append, List.flatMap_singleton, empty]
  rfl

theorem rows_withRoot (empty : root.members = []) : (w.withRoot root).rows = w.rows := by
  rw [rows, withRoot, List.flatMap_append, List.flatMap_singleton, empty]
  exact List.append_nil _

theorem ids_withRoot (empty : root.members = []) : (w.withRoot root).ids = w.ids := by
  rw [← map_id_rows, rows_withRoot empty, map_id_rows]

/-- A new root that takes the next number leaves the workspace valid. -/
theorem Valid.withRoot (valid : w.Valid) (empty : root.members = [])
    (new : root.id ∉ w.roots.map Root.id) (last : root.order = w.roots.length + 1) :
    (w.withRoot root).Valid := by
  refine ⟨defects_eq_nil_iff.2 ⟨?_, ?_⟩, ?_, ?_⟩
  · have dense := Ordered.isDense_iff_perm.1 valid.dense
    apply Ordered.isDense_iff_perm.2
    rw [Workspace.withRoot, List.map_append, List.length_append, List.length_singleton,
      List.range'_1_concat]
    refine dense.append (.of_eq ?_)
    rw [Nat.add_comm, ← last]
    rfl
  · rw [levels_withRoot empty, List.forall_mem_append]
    refine ⟨fun level inside => valid.sound inside, ?_⟩
    exact List.forall_mem_singleton.2 (Level.sound_of_empty rfl)
  · rw [Workspace.withRoot, List.map_append]
    refine List.nodup_append.2 ⟨valid.roots_distinct, List.nodup_singleton _, ?_⟩
    rintro id known _ own rfl
    exact new (List.mem_singleton.1 own ▸ known)
  · rw [ids_withRoot empty]
    exact valid.members_distinct

theorem Valid.order_le_of_root (valid : w.Valid) {old : Root} (inside : old ∈ w.roots) :
    old.order ≤ w.roots.length :=
  order_le_of_isDense valid.dense inside

theorem Ascending.withRoot (ascending : w.Ascending) (valid : w.Valid) (empty : root.members = [])
    (last : root.order = w.roots.length + 1) : (w.withRoot root).Ascending := by
  refine ascending_iff.2 ⟨?_, ?_⟩
  · refine List.pairwise_append.2 ⟨ascending.roots, List.pairwise_singleton .., ?_⟩
    intro old inside new own
    obtain rfl := List.mem_singleton.1 own
    have bound := valid.order_le_of_root inside
    omega
  · rw [levels_withRoot empty, List.forall_mem_append]
    exact ⟨(ascending_iff.1 ascending).2, List.forall_mem_singleton.2 List.Pairwise.nil⟩

theorem Fits.storable_withRoot (fits : w.Fits) (valid : w.Valid) (empty : root.members = [])
    (last : root.order = w.roots.length + 1) : (w.withRoot root).Storable := by
  have storable := valid.storable fits
  refine ⟨?_, ?_⟩
  · refine List.forall_mem_append.2 ⟨storable.roots, List.forall_mem_singleton.2 ?_⟩
    have short := fits.roots
    omega
  · rw [rows_withRoot empty]
    exact storable.rows

end Workspace

namespace Store.Database

variable {db : Database} {w : Workspace}

/-- The greatest of some numbers is what comparing them in turn leads to. -/
theorem foldl_max_eq {first bound : Int} {rest : List Int}
    (below : ∀ n ∈ first :: rest, n ≤ bound) (reached : bound ∈ first :: rest) :
    rest.foldl max first = bound := by
  induction rest generalizing first with
  | nil => exact (List.mem_singleton.1 reached).symm
  | cons next rest ih =>
      have first_le := below first (.head _)
      have next_le := below next (.tail _ (.head _))
      refine ih (fun n inside => ?_) ?_
      · rcases List.mem_cons.1 inside with rfl | later
        · exact Int.max_le.2 ⟨first_le, next_le⟩
        · exact below n (.tail _ (.tail _ later))
      · rcases List.mem_cons.1 reached with rfl | reached
        · rw [Int.max_eq_left next_le]
          exact .head _
        · rcases List.mem_cons.1 reached with rfl | later
          · rw [Int.max_eq_right first_le]
            exact .head _
          · exact .tail _ later

/-- After roots that are numbered from one, the next number is one more than there are. -/
theorem nextRootOrder_eq_of_perm {n : Nat}
    (orders : (db.roots.map RootRow.order).Perm ((List.range' 1 n).map Int.ofNat)) :
    db.nextRootOrder = ((n + 1 : Nat) : Int) := by
  unfold nextRootOrder
  split
  next none =>
    rw [none] at orders
    have empty := orders.length_eq
    rw [List.length_nil, List.length_map, List.length_range'] at empty
    rw [← empty]
    rfl
  next first rest listed =>
    rw [listed] at orders
    have some := orders.length_eq
    rw [List.length_cons, List.length_map, List.length_range'] at some
    rw [@foldl_max_eq first n rest]
    · rfl
    · intro m inside
      obtain ⟨k, listed, rfl⟩ := List.mem_map.1 (orders.mem_iff.1 inside)
      rw [List.mem_range'_1] at listed
      exact Int.ofNat_le.2 (by omega)
    · refine orders.mem_iff.2 (List.mem_map.2 ⟨n, ?_, rfl⟩)
      rw [List.mem_range'_1]
      omega

/-- A root with a new identifier is created with the next number, and stored last. -/
theorem createRoot_eq_ok {n : Nat} (next : db.nextRootOrder = n) (small : n < orderLimit) {id : Id}
    (new : id.text ∉ db.roots.map RootRow.id) (name : String) (shape : Shape)
    (time : String) :
    db.createRoot id name shape time = .ok ({ Root.fresh id name shape with order := n },
      { db with roots := db.roots ++
          [.ofRoot { Root.fresh id name shape with order := n } (.at time)] }) := by
  unfold createRoot
  rw [next, readOrder_eq_ok small]
  exact if_neg (mt hasRoot_iff.1 new)

/-- The next number of a root is one more than there are roots. -/
theorem Keeps.nextRootOrder_eq (keeps : db.Keeps w) (valid : w.Valid) :
    db.nextRootOrder = ((w.roots.length + 1 : Nat) : Int) := by
  obtain ⟨dated, rows, roots⟩ := keeps.roots
  refine nextRootOrder_eq_of_perm ?_
  have perm := (roots.map Root.order).trans (.of_eq (List.map_map ..))
  have same := (perm.trans (Ordered.isDense_iff_perm.1 valid.dense)).map Int.ofNat
  rw [List.map_map, List.map_map] at same
  rw [rows, List.map_map]
  exact same

/-- The root that is created next to a workspace. -/
def nextRoot (w : Workspace) (id : Id) (name : String) (shape : Shape) : Root :=
  { Root.fresh id name shape with order := w.roots.length + 1 }

/-- Tables that keep a workspace take a new root, and keep it after all others. -/
theorem Keeps.createRoot (keeps : db.Keeps w) (valid : w.Valid) (fits : w.Fits) {id : Id}
    (new : id ∉ w.roots.map Root.id) (name : String) (shape : Shape) (time : String) :
    ∃ after, db.createRoot id name shape time = .ok (nextRoot w id name shape, after) ∧
      after.Keeps (w.withRoot (nextRoot w id name shape)) := by
  have order := keeps.nextRootOrder_eq valid
  obtain ⟨⟨dated, rows, roots⟩, members⟩ := keeps
  have small : w.roots.length + 1 < orderLimit := by
    have short := fits.roots
    omega
  have unique : id.text ∉ db.roots.map RootRow.id := by
    intro stored
    rw [rows, List.map_map] at stored
    obtain ⟨entry, listed, same⟩ := List.mem_map.1 stored
    have known := (roots.map Root.id).mem_iff.1 (List.mem_map_of_mem (List.mem_map_of_mem listed))
    rw [List.map_map] at known
    exact new (Id.text_injective same ▸ known)
  refine ⟨_, createRoot_eq_ok order small unique name shape time, ?_⟩
  refine ⟨⟨dated ++ [(nextRoot w id name shape, .at time)], ?_, ?_⟩, ?_⟩
  · rw [List.map_append, ← rows]
    rfl
  · rw [List.map_append, Workspace.withRoot, List.map_append]
    exact roots.append (.refl _)
  · obtain ⟨table, stored, same⟩ := members
    exact ⟨table, stored, by rwa [Workspace.rows_withRoot rfl]⟩

end Store.Database

end Outline
