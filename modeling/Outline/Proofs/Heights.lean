import Outline.Proofs.Places
import Outline.Proofs.Statements

/-!
# Heights

How many members stand one below the other (`Outline.Member.height`), told by the members that can
be reached by going down so many lists (`Outline.Member.lt_height_iff`).  The rows that go with a
member form chains that are as long as the member is high, and no longer
(`Outline.Store.Database.Shows.goesBeyond_iff`).
-/

namespace Outline

mutual

/-- How many members of a subtree stand one below the other, at most. -/
def Member.height : Member → Nat
  | ⟨_, _, _, _, _, children⟩ => Forest.height children + 1

/-- The height of the highest member, or zero if there is none. -/
def Forest.height : List Member → Nat
  | [] => 0
  | m :: ms => max m.height (Forest.height ms)

end

theorem Member.height_eq (m : Member) : m.height = Forest.height m.children + 1 := by
  cases m
  rfl

theorem Forest.lt_height_iff {ms : Forest} {n : Nat} : n < height ms ↔ ∃ m ∈ ms, n < m.height := by
  induction ms with
  | nil => simp [height]
  | cons m ms ih => simp [height, ih]

theorem Forest.subtrees_singleton (m : Member) : subtrees [m] = m.subtree := by
  rw [subtrees, subtrees, List.append_nil]

namespace Member

/-- The member is reached from another one by going down so many lists. -/
inductive Below (m : Member) : Nat → Member → Prop where
  | own : Below m 0 m
  | child {n : Nat} {parent x : Member} (below : Below m n parent) (listed : x ∈ parent.children) :
      Below m (n + 1) x

variable {m x : Member} {n : Nat}

/-- What is reached lies below one of the children, one list closer. -/
theorem below_succ_iff : m.Below (n + 1) x ↔ ∃ child ∈ m.children, child.Below n x := by
  constructor
  · intro below
    generalize deep : n + 1 = k at below
    induction below generalizing n with
    | own => cases deep
    | @child k parent x below listed ih =>
        obtain rfl := Nat.succ.inj deep
        cases n with
        | zero =>
            cases below
            exact ⟨x, listed, .own⟩
        | succ n =>
            obtain ⟨first, top, below⟩ := ih rfl
            exact ⟨first, top, below.child listed⟩
  · rintro ⟨first, top, below⟩
    induction below with
    | own => exact .child .own top
    | child _ listed ih => exact ih.child listed

/-- There is a member at every distance below the height, and none at any other. -/
theorem lt_height_iff : n < m.height ↔ ∃ x, m.Below n x := by
  induction n generalizing m with
  | zero =>
      rw [height_eq]
      exact iff_of_true (Nat.succ_pos _) ⟨m, .own⟩
  | succ n ih =>
      rw [height_eq, Nat.succ_lt_succ_iff, Forest.lt_height_iff]
      constructor
      · rintro ⟨first, top, deep⟩
        obtain ⟨x, below⟩ := ih.1 deep
        exact ⟨x, below_succ_iff.2 ⟨first, top, below⟩⟩
      · rintro ⟨x, below⟩
        obtain ⟨first, top, below⟩ := below_succ_iff.1 below
        exact ⟨first, top, ih.2 ⟨x, below⟩⟩

theorem Below.mem_subtree (below : m.Below n x) : x ∈ m.subtree := by
  rw [← Forest.subtrees_singleton]
  induction below with
  | own =>
      exact Forest.mem_subtrees_of_mem (.head _)
  | child _ listed ih => exact Forest.mem_subtrees_trans ih (Forest.mem_subtrees_of_mem listed)

theorem Below.id_mem (below : m.Below n x) : x.id ∈ m.ids :=
  List.mem_map_of_mem below.mem_subtree

/-- All of a subtree is reached. -/
theorem exists_below (inside : x ∈ m.subtree) : ∃ n, m.Below n x := by
  have within : ∀ ms : Forest, x ∈ Forest.subtrees ms → ∃ top ∈ ms, ∃ n, top.Below n x := by
    intro ms inside
    induction ms using Forest.induct with
    | nil => exact absurd inside List.not_mem_nil
    | cons top ms inner later =>
        rw [Forest.subtrees_cons] at inside
        rcases List.mem_cons.1 inside with rfl | inside
        · exact ⟨x, .head _, 0, .own⟩
        rcases List.mem_append.1 inside with below | after
        · obtain ⟨child, listed, n, below⟩ := inner below
          exact ⟨top, .head _, n + 1, below_succ_iff.2 ⟨child, listed, below⟩⟩
        · obtain ⟨other, listed, below⟩ := later after
          exact ⟨other, .tail _ listed, below⟩
  obtain ⟨top, listed, below⟩ := within [m] (by rwa [Forest.subtrees_singleton])
  rwa [List.mem_singleton.1 listed] at below

end Member

namespace Workspace

variable {w : Workspace} {m x : Member} {site place : Site} {n : Nat}

/-- Every member stands somewhere. -/
theorem exists_stands_of_mem (member : m ∈ w.members) : ∃ site, w.Stands m site := by
  obtain ⟨root, listed, inside⟩ := List.mem_flatMap.1 member
  obtain ⟨site, stands, -⟩ := (Owns.root listed).exists_stands (fun _ top => top) inside
  exact ⟨site, stands⟩

/-- What is reached stands as much deeper. -/
theorem Stands.below (stands : w.Stands m site) (below : m.Below n x) :
    ∃ place, w.Stands x place ∧ place.depth = site.depth + n := by
  induction below with
  | own => exact ⟨site, stands, rfl⟩
  | @child n parent x _ listed ih =>
      obtain ⟨place, ⟨owner, ms, owns, inside⟩, depth⟩ := ih
      refine ⟨place.below parent.id parent.name, ⟨_, _, owns.member inside, listed⟩, ?_⟩
      rw [Site.below, depth, Nat.add_assoc]

/-- What a list holds is reached from the top, in as many steps as the list is deep. -/
theorem Owns.exists_below {owner : Kind} {ms : Forest} (owns : w.Owns site owner ms)
    (listed : x ∈ ms) : ∃ top ∈ w.members, top.Below site.depth x := by
  induction owns generalizing x with
  | root here => exact ⟨x, (Owns.root here).mem_members listed, .own⟩
  | member _ inside ih =>
      obtain ⟨top, member, below⟩ := ih inside
      exact ⟨top, member, below.child listed⟩

/-- A list that is no root's is below a member that is as high as the list is deep. -/
theorem Owns.exists_high {owner : Kind} {ms : Forest} (owns : w.Owns site owner ms)
    (deep : 0 < site.depth) : ∃ top ∈ w.members, site.depth ≤ top.height := by
  cases owns with
  | root => exact absurd deep (Nat.lt_irrefl 0)
  | member owned listed =>
      obtain ⟨top, member, below⟩ := owned.exists_below listed
      exact ⟨top, member, Member.lt_height_iff.2 ⟨_, below⟩⟩

section

variable (members : w.ids.Nodup)

include members

/-- A member that stands below another one is among its children. -/
theorem Stands.mem_children (stands : w.Stands x place) (parent : m ∈ w.members)
    (below : place.container.node = some m.id) : x ∈ m.children := by
  obtain ⟨owner, ms, owns, listed⟩ := stands
  cases owns with
  | root => cases below
  | member owned inside =>
      have same := Option.some.inj below
      rwa [← eq_of_id_eq members (owned.mem_members inside) parent same]

/-- A member is reached from another one in one way only. -/
theorem Stands.below_ext (stands : w.Stands m site) (roots : (w.roots.map Root.id).Nodup)
    {y : Member} {k : Nat} (first : m.Below n x) (second : m.Below k y) (same : x.id = y.id) :
    n = k := by
  obtain ⟨place, there, depth⟩ := stands.below first
  obtain ⟨place', there', depth'⟩ := stands.below second
  obtain rfl : place = place' :=
    there.site_eq members roots there' (there.container_ext members there' same)
  exact Nat.add_left_cancel (depth.symm.trans depth')

end

end Workspace

namespace Store.Database

/-- Stored rows show what a workspace has below a member: the same rows, and no others below
them. -/
structure Shows (w : Workspace) (m : Member) (table : List Row) : Prop where
  rows : ∀ row ∈ table, row.id ∈ m.ids → row ∈ w.rows
  all : ∀ row ∈ w.rows, row.id ∈ m.ids → row ∈ table
  closed : ∀ row ∈ table, ∀ node, row.parent.node = some node → node ∈ m.ids → row.id ∈ m.ids

variable {db : Database} {w : Workspace} {m : Member} {site : Site}
  {stamped : List (Row × Stamps)} (shows : Shows w m (stamped.map Prod.fst))
  (members : w.ids.Nodup)

include shows

theorem Shows.exists_stored {x : Member} {place : Site} (stands : w.Stands x place)
    (inside : x.id ∈ m.ids) :
    ∃ stored ∈ (db.listing stamped).members, stored.id = x.id.text := by
  obtain ⟨⟨row, stamps⟩, here, rfl⟩ := List.mem_map.1 (shows.all _ stands.row_mem inside)
  exact ⟨_, List.mem_map_of_mem here, rfl⟩

include members

theorem Shows.parentId_eq {x : Member} {place : Site} (stands : w.Stands x place)
    (inside : x.id ∈ m.ids) {stored : MemberRow} (listed : stored ∈ (db.listing stamped).members)
    (same : stored.id = x.id.text) : stored.parentId = place.container.node.map Id.text := by
  obtain ⟨⟨row, stamps⟩, here, rfl⟩ := List.mem_map.1 listed
  have id : row.id = x.id := Id.text_injective same
  have known := shows.rows row (List.mem_map_of_mem here) (id ▸ inside)
  have distinct : (w.rows.map Row.id).Nodup := by rwa [w.map_id_rows]
  rw [List.inj_on_of_nodup_map distinct known stands.row_mem id]
  rfl

variable (stands : w.Stands m site)

include stands

/-- What is reached from a member goes with it. -/
theorem Shows.goes_of_below {x : Member} {n : Nat} (below : m.Below n x) {stored : MemberRow}
    (listed : stored ∈ (db.listing stamped).members) (same : stored.id = x.id.text) :
    GoesWithin (db.listing stamped).members (·.id = m.id.text) n stored := by
  induction below generalizing stored with
  | own => exact .own listed same
  | @child n parent x below child ih =>
      obtain ⟨place, above, -⟩ := stands.below below
      obtain ⟨first, here, named⟩ := @Shows.exists_stored db _ _ _ shows _ _ above below.id_mem
      obtain ⟨owner, ms, owns, inside⟩ := above
      have parent := shows.parentId_eq members ⟨_, _, owns.member inside, child⟩
        (below.child child).id_mem listed same
      exact .along listed (parent.trans (congrArg some named.symm)) (ih here named)

/-- What goes with a member is reached from it, in as many steps as there are parents. -/
theorem Shows.below_of_goes {stored : MemberRow} {n : Nat}
    (goes : GoesWithin (db.listing stamped).members (·.id = m.id.text) n stored) :
    ∃ k ≤ n, ∃ x, m.Below k x ∧ stored.id = x.id.text ∧
      GoesWithin (db.listing stamped).members (·.id = m.id.text) k stored := by
  induction goes with
  | own listed opens => exact ⟨0, Nat.zero_le _, m, .own, opens, .own listed opens⟩
  | along listed named _ ih =>
      obtain ⟨k, less, p, below, same, goes⟩ := ih
      obtain ⟨entry, here, rfl⟩ := List.mem_map.1 listed
      have here : entry.1 ∈ stamped.map Prod.fst := List.mem_map_of_mem here
      obtain ⟨node, parent, text⟩ := Option.map_eq_some_iff.1 named
      obtain rfl := Id.text_injective (text.trans same)
      have inside := shows.rows _ here (shows.closed _ here _ parent below.id_mem)
      obtain ⟨x, place, there, row⟩ := Workspace.exists_stands_of_row inside
      obtain ⟨_, above, -⟩ := stands.below below
      rw [← row] at parent
      have child := below.child (there.mem_children members above.mem_members parent)
      refine ⟨k + 1, Nat.succ_le_succ less, x, child, ?_, .along listed named goes⟩
      exact congrArg (fun row => row.id.text) row.symm

variable (roots : (w.roots.map Root.id).Nodup)

include roots

/-- With a member go rows by way of as many parents as the member is high, and by no more. -/
theorem Shows.goesBeyond_iff {levels : Nat} :
    GoesBeyond (db.listing stamped).members (·.id = m.id.text) levels ↔ levels < m.height := by
  constructor
  · rintro ⟨stored, goes, far⟩
    obtain ⟨n, goes⟩ := goes_iff_exists_within.1 goes
    obtain ⟨k, -, x, below, -, goes⟩ := shows.below_of_goes members stands goes
    have deep := Nat.le_of_not_lt fun less => far k less goes
    exact Nat.lt_of_le_of_lt deep (Member.lt_height_iff.2 ⟨x, below⟩)
  · intro deep
    obtain ⟨x, below⟩ := Member.lt_height_iff.1 deep
    obtain ⟨_, there, -⟩ := stands.below below
    obtain ⟨stored, listed, same⟩ := @Shows.exists_stored db _ _ _ shows _ _ there below.id_mem
    have goes := shows.goes_of_below members stands below listed same
    refine ⟨stored, goes_iff_exists_within.2 ⟨_, goes⟩, fun n less within => ?_⟩
    obtain ⟨k, fewer, y, below', same', -⟩ := shows.below_of_goes members stands within
    have ids := Id.text_injective (same.symm.trans same')
    obtain rfl := stands.below_ext members roots below below' ids
    exact absurd less (Nat.not_lt_of_le fewer)

open Classical in
/-- A member is deleted with all below it, the member first, unless it is too high. -/
theorem Shows.sinks_iff :
    Sinks (db.listing stamped).members m.ids ↔ cascadeDepth < m.height := by
  rw [m.ids_eq, sinks_cons_iff fun row _ => decide_eq_true_iff,
    shows.goesBeyond_iff members stands roots, or_iff_left_iff_imp]
  intro later
  obtain ⟨stored, left, named⟩ := later.exists_mem
  obtain ⟨listed, stays⟩ := List.mem_filter.1 left
  obtain ⟨id, inside, same⟩ := List.mem_map.1 named
  obtain ⟨x, below, rfl⟩ := List.mem_map.1 inside
  obtain ⟨n, below⟩ := Member.exists_below (m := m) (m.subtree_eq ▸ List.mem_cons_of_mem _ below)
  refine absurd (goes_iff_exists_within.2 ⟨n, ?_⟩) (of_decide_eq_true stays)
  exact shows.goes_of_below members stands below listed same.symm

end Store.Database

end Outline
