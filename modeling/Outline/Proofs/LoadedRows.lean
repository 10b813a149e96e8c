import Mathlib.Data.List.Forall2
import Mathlib.Data.String.Basic
import Mathlib.Tactic.Choose
import Outline.Proofs.Placements
import Outline.Proofs.Places
import Outline.Proofs.Reconciliation

/-!
# What tables are loaded as

Tables whose cells can be read are loaded, whatever their rows refer to
(`Outline.Store.Database.load_places`).  A row of a member is placed exactly if it is rooted: some
rows of the same root, each the parent of the next, lead to it from one without a parent.
-/

namespace Outline

section

variable {α : Type} {le : α → α → Bool} {R : α → α → Prop}
  (trans : ∀ x y z, le x y = true → le y z = true → le x z = true)
  (total : ∀ x y, le x y = false → le y x = true)

include trans total

theorem pairwise_insertSorted_of_forall {x : α} {ys : List α} (before : ∀ y ∈ ys, R x y)
    (sorted : ys.Pairwise fun x y => le x y = true ∧ (le y x = true → R x y)) :
    (insertSorted le x ys).Pairwise fun x y => le x y = true ∧ (le y x = true → R x y) := by
  induction ys with
  | nil => exact List.pairwise_singleton ..
  | cons y ys ih =>
      have later := List.pairwise_cons.1 sorted
      rw [List.forall_mem_cons] at before
      rw [insertSorted]
      by_cases first : le x y = true
      · rw [if_pos first]
        refine .cons (List.forall_mem_cons.2 ⟨⟨first, fun _ => before.1⟩, ?_⟩) sorted
        exact fun z inside =>
          ⟨trans _ _ _ first (later.1 z inside).1, fun _ => before.2 z inside⟩
      · rw [if_neg first]
        refine .cons (fun z inside => ?_) (ih before.2 later.2)
        rcases List.mem_cons.1 ((insertSorted_perm le x ys).mem_iff.1 inside) with rfl | inside
        · exact ⟨total _ _ (Bool.eq_false_iff.2 first), fun back => absurd back first⟩
        · exact later.1 z inside

/-- Sorted items that may come in either order are still related as listed. -/
theorem pairwise_stableSort_of_pairwise {items : List α} (listed : items.Pairwise R) :
    (stableSort le items).Pairwise fun x y => le x y = true ∧ (le y x = true → R x y) := by
  induction listed with
  | nil => exact .nil
  | cons before _ ih =>
      exact pairwise_insertSorted_of_forall trans total
        (fun y inside => before y (mem_stableSort.1 inside)) ih

/-- Sorted items with the places at which they were listed: those that may come in either order are
in the order of their places. -/
theorem exists_sequence (items : List α) : ∃ sequence : List (α × Nat),
    sequence.Perm items.zipIdx ∧ sequence.map Prod.fst = stableSort le items ∧
      sequence.Pairwise fun a b => le a.1 b.1 = true ∧ (le b.1 a.1 = true → a.2 < b.2) := by
  have places : items.zipIdx.Pairwise (·.2 < ·.2) := by
    refine List.pairwise_map.1 ?_
    rw [List.zipIdx_map_snd]
    exact List.pairwise_lt_range'
  refine ⟨stableSort (fun a b => le a.1 b.1) items.zipIdx, stableSort_perm _ _, ?_, ?_⟩
  · refine (stableSort_map fun _ _ _ _ => rfl).symm.trans ?_
    rw [List.zipIdx_map_fst]
  · exact pairwise_stableSort_of_pairwise (fun a b c => trans a.1 b.1 c.1)
      (fun a b => total a.1 b.1) places

end

/-- Each item of the second list is related to one of the first. -/
theorem exists_of_forall₂ {α β : Type} {R : α → β → Prop} {xs : List α} {ys : List β}
    (related : List.Forall₂ R xs ys) : ∀ y ∈ ys, ∃ x ∈ xs, R x y := by
  induction related with
  | nil => exact fun y inside => absurd inside List.not_mem_nil
  | cons first _ ih =>
      rw [List.forall_mem_cons]
      refine ⟨⟨_, .head _, first⟩, fun y inside => ?_⟩
      obtain ⟨x, listed, related⟩ := ih y inside
      exact ⟨x, .tail _ listed, related⟩

/-- Lists that show the same are related item by item. -/
theorem forall₂_of_map_eq {α β γ : Type} {shown : α → γ} {shown' : β → γ} {xs : List α}
    {ys : List β} (same : xs.map shown = ys.map shown') :
    List.Forall₂ (fun x y => x ∈ xs ∧ shown x = shown' y) xs ys := by
  refine (List.forall₂_and_left _ _).2 ⟨fun _ inside => inside, ?_⟩
  refine List.forall₂_map_left_iff.1 (List.forall₂_map_right_iff.1 ?_)
  rw [List.forall₂_eq_eq_eq]
  exact same

/-- Items that differ in a key do so in whatever sequence they are listed. -/
theorem nodup_of_perm_zipIdx {α β : Type} {key : α → β} {items : List α} {sequence : List (α × Nat)}
    (same : sequence.Perm items.zipIdx) (distinct : (items.map key).Nodup) :
    (sequence.map fun entry => key entry.1).Nodup := by
  have keys : (items.zipIdx.map fun entry => key entry.1) = items.map key := by
    change items.zipIdx.map (key ∘ Prod.fst) = _
    rw [← List.map_map, List.zipIdx_map_fst]
  exact (same.map _).nodup_iff.2 (keys ▸ distinct)

namespace Store

/-- Rows that each tell of something are read as what they tell of, in their sequence. -/
theorem exists_reading {α β γ : Type} [Inhabited β] {le : α → α → Bool}
    (trans : ∀ x y z, le x y = true → le y z = true → le x z = true)
    (total : ∀ x y, le x y = false → le y x = true) {Tells : α → β → Prop} {order : β → Nat}
    {number : α → Except Fault Nat} {read : α → Nat → Except Fault γ} {shown : β → γ}
    {rows : List α} (told : ∀ row ∈ rows, ∃ x, Tells row x ∧ order x < orderLimit)
    (numbers : ∀ row x, Tells row x → order x < orderLimit → number row = .ok (order x))
    (reads : ∀ row x, Tells row x → read row (order x) = .ok (shown x)) :
    ∃ (sequence : List (α × Nat)) (value : α → β), sequence.Perm rows.zipIdx ∧
      sequence.Pairwise (fun a b => le a.1 b.1 = true ∧ (le b.1 a.1 = true → a.2 < b.2)) ∧
      (∀ entry ∈ sequence, Tells entry.1 (value entry.1)) ∧
      ((stableSort le rows).mapM number >>= fun orders =>
        ((stableSort le rows).zip orders).mapM fun (row, order) => read row order) =
          .ok (sequence.map fun entry => shown (value entry.1)) := by
  choose! value tells using told
  obtain ⟨sequence, same, sorted, before⟩ := exists_sequence trans total rows
  have known : ∀ entry ∈ sequence,
      Tells entry.1 (value entry.1) ∧ order (value entry.1) < orderLimit := fun entry inside =>
    tells entry.1 (List.fst_mem_of_mem_zipIdx (same.mem_iff.1 inside))
  refine ⟨sequence, value, same, before, fun entry inside => (known entry inside).1, ?_⟩
  rw [← sorted]
  refine readRows_eq_ok (fun entry => order (value entry.1)) (fun entry inside => ?_)
    fun entry inside => reads _ _ (known entry inside).1
  exact numbers _ _ (known entry inside).1 (known entry inside).2

namespace RootRow

/-- The cells of a stored root say what the root is; they say nothing of its members. -/
structure Tells (stored : RootRow) (root : Root) : Prop where
  id : stored.id = root.id.text
  name : stored.name = root.name
  kind : stored.kind = root.shape.text
  order : stored.order = root.order

/-- The first root, stored at its place in the table, is displayed before the second: by number,
then by time of creation, then by place. -/
def Before (a b : RootRow × Nat) : Prop :=
  a.1.order < b.1.order ∨ a.1.order = b.1.order ∧
    (a.1.createdAt < b.1.createdAt ∨ a.1.createdAt = b.1.createdAt ∧ a.2 < b.2)

theorem precedes_iff {a b : RootRow} : a.precedes b = true ↔
    a.order < b.order ∨ a.order = b.order ∧ a.createdAt ≤ b.createdAt := by
  simp only [precedes, Bool.or_eq_true, Bool.and_eq_true, decide_eq_true_eq]

theorem precedes_trans (a b c : RootRow) (first : a.precedes b = true)
    (second : b.precedes c = true) : a.precedes c = true := by
  rw [precedes_iff] at first second ⊢
  rcases first with less | ⟨same, early⟩
  · exact .inl (second.elim less.trans fun later => later.1 ▸ less)
  · rw [same]
    exact second.imp_right fun later => ⟨later.1, early.trans later.2⟩

theorem precedes_total (a b : RootRow) (not : a.precedes b = false) : b.precedes a = true := by
  rw [← Bool.not_eq_true, precedes_iff] at not
  rw [precedes_iff]
  have above : b.order ≤ a.order := Int.not_lt.1 fun less => not (.inl less)
  refine above.lt_or_eq.imp_right fun same => ⟨same, ?_⟩
  exact (String.le_total ..).resolve_right fun early => not (.inr ⟨same.symm, early⟩)

/-- Of roots that may be displayed in either order the first in the table is. -/
theorem before_of_precedes {a b : RootRow × Nat}
    (sorted : a.1.precedes b.1 = true ∧ (b.1.precedes a.1 = true → a.2 < b.2)) : Before a b := by
  obtain ⟨forth, back⟩ := sorted
  rw [precedes_iff] at forth back
  refine forth.imp_right fun tied => ⟨tied.1, ?_⟩
  refine tied.2.lt_or_eq.imp_right fun same => ⟨same, ?_⟩
  exact back (.inr ⟨tied.1.symm, same.ge⟩)

theorem Tells.read_eq {stored : RootRow} {root : Root} (tells : stored.Tells root) :
    stored.read root.order = .ok root.shallow := by
  have same : stored = ofRoot root stored.toStamps := by
    rw [ofRoot, ← tells.id, ← tells.name, ← tells.kind, ← tells.order]
  rw [same]
  exact read_ofRoot root stored.toStamps

theorem Tells.of_shallow {stored : RootRow} {root other : Root} (tells : stored.Tells root)
    (same : root.shallow = other.shallow) : stored.Tells other := by
  obtain ⟨id, name, shape, order, -⟩ := Root.mk.inj same
  exact ⟨id ▸ tells.id, name ▸ tells.name, shape ▸ tells.kind, order ▸ tells.order⟩

theorem tells_ofRoot (root : Root) (stamps : Stamps) : (ofRoot root stamps).Tells root :=
  ⟨rfl, rfl, rfl, rfl⟩

end RootRow

namespace MemberRow

/-- The cells of a stored member name the container. -/
def BelongsTo (stored : MemberRow) (container : Container) : Prop :=
  stored.rootId = container.root.text ∧ stored.parentId = container.node.map Id.text

instance (stored : MemberRow) (container : Container) : Decidable (stored.BelongsTo container) :=
  inferInstanceAs (Decidable (_ ∧ _))

/-- The cells of a stored member say what its row is. -/
structure Tells (stored : MemberRow) (row : Row) : Prop where
  id : stored.id = row.id.text
  parent : stored.BelongsTo row.parent
  name : stored.name = row.name
  kind : stored.kind = row.kind.text
  order : stored.order = row.order
  path : stored.readPath = .ok row.path

/-- The first member, stored at its place in the table, stands before the second among siblings: by
number, then by place. -/
def Before (a b : MemberRow × Nat) : Prop :=
  a.1.order < b.1.order ∨ a.1.order = b.1.order ∧ a.2 < b.2

theorem order_trans (a b c : MemberRow) (first : decide (a.order ≤ b.order) = true)
    (second : decide (b.order ≤ c.order) = true) : decide (a.order ≤ c.order) = true :=
  decide_eq_true ((of_decide_eq_true first).trans (of_decide_eq_true second))

theorem order_total (a b : MemberRow) (not : decide (a.order ≤ b.order) = false) :
    decide (b.order ≤ a.order) = true :=
  decide_eq_true (Int.le_of_lt (Int.not_le.1 (of_decide_eq_false not)))

/-- Of siblings with one number the first in the table stands first. -/
theorem before_of_le {a b : MemberRow × Nat}
    (sorted : decide (a.1.order ≤ b.1.order) = true ∧
      (decide (b.1.order ≤ a.1.order) = true → a.2 < b.2)) : Before a b :=
  (of_decide_eq_true sorted.1).lt_or_eq.imp_right fun same =>
    ⟨same, sorted.2 (decide_eq_true same.ge)⟩

theorem Tells.read_eq {stored : MemberRow} {row : Row} (tells : stored.Tells row) :
    stored.read row.order = .ok (row.parent, row.member) := by
  have parent : stored.parentId.mapM readId = .ok row.parent.node := by
    rw [tells.parent.2]
    cases row.parent.node with
    | none => rfl
    | some node =>
        rw [Option.map_some, Option.mapM_some, readId_text]
        rfl
  simp only [MemberRow.read, tells.id, tells.parent.1, tells.name, tells.kind, tells.path, parent,
    readId_text, Kind.ofText?_text, bind, Except.bind]
  rfl

theorem tells_ofRow (row : Row) (stamps : Stamps) : (ofRow row stamps).Tells row := by
  refine ⟨rfl, ⟨rfl, rfl⟩, rfl, rfl, rfl, ?_⟩
  simp only [readPath, ofRow, ofJson?_pathText]

/-- The cells name one container only. -/
theorem BelongsTo.ext {stored : MemberRow} {c d : Container} (first : stored.BelongsTo c)
    (second : stored.BelongsTo d) : c = d := by
  have root : c.root = d.root := Id.text_injective (first.1.symm.trans second.1)
  have node : c.node = d.node :=
    Option.map_injective (fun _ _ => Id.text_injective) (first.2.symm.trans second.2)
  rw [Container.mk.injEq]
  exact ⟨root, node⟩

/-- The cells say what one row is only. -/
theorem Tells.ext {stored : MemberRow} {a b : Row} (first : stored.Tells a)
    (second : stored.Tells b) : a = b := by
  have id : a.id = b.id := Id.text_injective (first.id.symm.trans second.id)
  have kind : a.kind = b.kind := by
    have text : a.kind.text = b.kind.text := first.kind.symm.trans second.kind
    rw [← Option.some_inj, ← Kind.ofText?_text, text, Kind.ofText?_text]
  have order : a.order = b.order := Int.ofNat.inj (first.order.symm.trans second.order)
  have path : a.path = b.path := Except.ok.inj (first.path.symm.trans second.path)
  rw [Row.mk.injEq]
  exact ⟨id, first.parent.ext second.parent, first.name.symm.trans second.name, kind, order, path⟩

end MemberRow

namespace Database

/-- The cells of all rows can be read, no two rows of a table have one identifier, and members
refer to roots that are there.  Nothing is said of what they refer to as their parents. -/
structure Legible (db : Database) : Prop where
  roots : ∀ stored ∈ db.roots, ∃ root, stored.Tells root ∧ root.order < orderLimit
  members : ∀ stored ∈ db.members, ∃ row, stored.Tells row ∧ row.order < orderLimit
  owned : ∀ stored ∈ db.members, ∃ root ∈ db.roots, root.id = stored.rootId
  root_ids : (db.roots.map RootRow.id).Nodup
  member_ids : (db.members.map MemberRow.id).Nodup

/-- Following the parents of a stored member through rows of its root leads to a row without a
parent. -/
inductive Rooted (db : Database) : MemberRow → Prop where
  | top {stored : MemberRow} (listed : stored ∈ db.members) (free : stored.parentId = none) :
      Rooted db stored
  | under {stored parent : MemberRow} (listed : stored ∈ db.members) (rooted : Rooted db parent)
      (root : parent.rootId = stored.rootId) (named : stored.parentId = some parent.id) :
      Rooted db stored

theorem Rooted.listed {db : Database} {stored : MemberRow} (rooted : db.Rooted stored) :
    stored ∈ db.members := by
  cases rooted with
  | top listed => exact listed
  | under listed => exact listed

/-- A row that is its own parent is not rooted. -/
theorem Rooted.parentId_ne {db : Database} {stored : MemberRow} (rooted : db.Rooted stored)
    (distinct : (db.members.map MemberRow.id).Nodup) : stored.parentId ≠ some stored.id := by
  induction rooted with
  | top _ free =>
      rw [free]
      exact (Option.some_ne_none _).symm
  | under listed rooted _ named ih =>
      intro own
      have same := List.inj_on_of_nodup_map distinct rooted.listed listed
        (Option.some.inj (named.symm.trans own))
      exact ih (same ▸ own)

/-- The roots are those of the table, in the order in which they are displayed. -/
def Displays (db : Database) (roots : List Root) : Prop :=
  ∃ sequence, sequence.Perm db.roots.zipIdx ∧ sequence.Pairwise RootRow.Before ∧
    List.Forall₂ (fun entry root => entry.1.Tells root) sequence roots

/-- The members are those whose rows name the container, in the order in which siblings stand. -/
def Arranges (db : Database) (container : Container) (ms : Forest) : Prop :=
  ∃ sequence, sequence.Perm (db.members.zipIdx.filter (·.1.BelongsTo container)) ∧
    sequence.Pairwise MemberRow.Before ∧
    List.Forall₂ (fun entry m => entry.1.Tells (m.row container)) sequence ms

/-- What the workspace has to do with the tables from which it is loaded. -/
structure Loads (db : Database) (w : Workspace) : Prop where
  roots : db.Displays w.roots
  /-- Each root and each member is placed once. -/
  root_once : (w.roots.map Root.id).Nodup
  member_once : w.ids.Nodup
  /-- The members are the rooted rows, in the containers that they name. -/
  placed : ∀ row, row ∈ w.rows ↔ ∃ stored, db.Rooted stored ∧ stored.Tells row
  siblings : ∀ {site owner ms}, w.Owns site owner ms → db.Arranges site.container ms

namespace Displays

variable {db : Database} {roots : List Root} (displays : db.Displays roots)

include displays

theorem exists_root {stored : RootRow} (listed : stored ∈ db.roots) :
    ∃ r ∈ roots, stored.Tells r := by
  obtain ⟨sequence, same, -, told⟩ := displays
  rw [← List.zipIdx_map_fst 0 db.roots, ← (same.map Prod.fst).mem_iff] at listed
  obtain ⟨entry, inside, rfl⟩ := List.mem_map.1 listed
  exact exists_of_forall₂ told.flip entry inside

theorem nodup_map_id (distinct : (db.roots.map RootRow.id).Nodup) : (roots.map Root.id).Nodup := by
  obtain ⟨sequence, same, -, told⟩ := displays
  have texts : sequence.map (fun entry => entry.1.id) = roots.map fun r => r.id.text := by
    rw [← List.forall₂_eq_eq_eq]
    exact List.forall₂_map_left_iff.2 (List.forall₂_map_right_iff.2 (told.imp fun _ _ t => t.id))
  have apart := nodup_of_perm_zipIdx same distinct
  rw [texts] at apart
  exact List.Nodup.of_map Id.text (by rwa [List.map_map])

end Displays

namespace Arranges

variable {db : Database} {container : Container} {ms : Forest} (arranges : db.Arranges container ms)

include arranges

theorem exists_stored : ∀ m ∈ ms, ∃ stored ∈ db.members, stored.Tells (m.row container) := by
  obtain ⟨sequence, same, -, told⟩ := arranges
  intro m listed
  obtain ⟨entry, inside, tells⟩ := exists_of_forall₂ told m listed
  have listed := (List.mem_filter.1 (same.mem_iff.1 inside)).1
  exact ⟨entry.1, List.fst_mem_of_mem_zipIdx listed, tells⟩

theorem exists_member {stored : MemberRow} (listed : stored ∈ db.members)
    (belongs : stored.BelongsTo container) : ∃ m ∈ ms, stored.Tells (m.row container) := by
  obtain ⟨sequence, same, -, told⟩ := arranges
  obtain ⟨i, bound, found⟩ := List.mem_iff_getElem.1 listed
  have inside : (stored, i) ∈ sequence := by
    refine same.mem_iff.2 (List.mem_filter.2 ⟨?_, decide_eq_true belongs⟩)
    exact List.mk_mem_zipIdx_iff_getElem?.2 (List.getElem?_eq_some_iff.2 ⟨bound, found⟩)
  exact exists_of_forall₂ told.flip (stored, i) inside

end Arranges

namespace Legible

variable {db : Database} (legible : db.Legible)

include legible

/-- The roots are read in the order in which they are displayed. -/
theorem loadRoots_eq : ∃ (sequence : List (RootRow × Nat)) (value : RootRow → Root),
    sequence.Perm db.roots.zipIdx ∧ sequence.Pairwise RootRow.Before ∧
      (∀ entry ∈ sequence, entry.1.Tells (value entry.1)) ∧
      db.loadRoots = .ok (sequence.map fun entry => (value entry.1).shallow) := by
  obtain ⟨sequence, value, same, before, tells, read⟩ :=
    exists_reading RootRow.precedes_trans RootRow.precedes_total legible.roots
      (fun stored root told below => told.order ▸ readOrder_eq_ok below 3)
      fun _ _ told => told.read_eq
  exact ⟨sequence, value, same, before.imp RootRow.before_of_precedes, tells, read⟩

/-- The members are read in the order in which they stand among their siblings. -/
theorem loadPool_eq : ∃ (sequence : List (MemberRow × Nat)) (value : MemberRow → Row),
    sequence.Perm db.members.zipIdx ∧ sequence.Pairwise MemberRow.Before ∧
      (∀ entry ∈ sequence, entry.1.Tells (value entry.1)) ∧
      db.loadPool =
        .ok (sequence.map fun entry => ((value entry.1).parent, (value entry.1).member)) := by
  obtain ⟨sequence, value, same, before, tells, read⟩ :=
    exists_reading MemberRow.order_trans MemberRow.order_total legible.members
      (fun stored row told below => told.order ▸ readOrder_eq_ok below 5)
      fun _ _ told => told.read_eq
  exact ⟨sequence, value, same, before.imp MemberRow.before_of_le, tells, read⟩

end Legible

section

variable {db : Database} {w : Workspace}
  (siblings : ∀ {site owner ms}, w.Owns site owner ms → db.Arranges site.container ms)

include siblings

/-- Every member of a list is that of a rooted row. -/
theorem exists_rooted {site : Site} {owner : Kind} {ms : Forest} (owns : w.Owns site owner ms) :
    ∀ m ∈ ms, ∃ stored, db.Rooted stored ∧ stored.Tells (m.row site.container) := by
  induction owns with
  | @root r there =>
      intro m inside
      obtain ⟨stored, listed, tells⟩ := (siblings (.root there)).exists_stored m inside
      exact ⟨stored, .top listed tells.parent.2, tells⟩
  | @member site owner ms parent owned beside ih =>
      intro m inside
      obtain ⟨above, rooted, told⟩ := ih parent beside
      obtain ⟨stored, listed, tells⟩ := (siblings (.member owned beside)).exists_stored m inside
      refine ⟨stored, .under listed rooted ?_ ?_, tells⟩
      · exact told.parent.1.trans tells.parent.1.symm
      · exact tells.parent.2.trans (congrArg some told.id.symm)

/-- Every rooted row is that of a member where it stands. -/
theorem Rooted.exists_stands {stored : MemberRow} (rooted : db.Rooted stored)
    (owned : ∀ stored ∈ db.members, ∃ root ∈ w.roots, root.id.text = stored.rootId) :
    ∃ m site, w.Stands m site ∧ stored.Tells (m.row site.container) := by
  induction rooted with
  | @top stored listed free =>
      obtain ⟨r, there, named⟩ := owned stored listed
      obtain ⟨m, member, tells⟩ :=
        (siblings (.root there)).exists_member listed ⟨named.symm, free⟩
      exact ⟨m, r.site, ⟨_, _, .root there, member⟩, tells⟩
  | @under stored parent listed _ root named ih =>
      obtain ⟨p, site, ⟨owner, ms, owns, beside⟩, told⟩ := ih
      obtain ⟨m, member, tells⟩ := (siblings (.member owns beside)).exists_member listed
        ⟨root.symm.trans told.parent.1, named.trans (congrArg some told.id)⟩
      exact ⟨m, site.below p.id p.name, ⟨_, _, .member owns beside, member⟩, tells⟩

/-- The members are the rooted rows, where they belong. -/
theorem placed_iff (owned : ∀ stored ∈ db.members, ∃ root ∈ w.roots, root.id.text = stored.rootId)
    {row : Row} : row ∈ w.rows ↔ ∃ stored, db.Rooted stored ∧ stored.Tells row := by
  constructor
  · intro inside
    obtain ⟨m, site, ⟨owner, ms, owns, listed⟩, rfl⟩ := Workspace.exists_stands_of_row inside
    exact exists_rooted siblings owns m listed
  · rintro ⟨stored, rooted, tells⟩
    obtain ⟨m, site, stands, told⟩ := rooted.exists_stands siblings owned
    rw [tells.ext told]
    exact stands.row_mem

end

section

variable {db : Database} {sequence : List (MemberRow × Nat)} {value : MemberRow → Row}
  (same : sequence.Perm db.members.zipIdx)
  (tells : ∀ entry ∈ sequence, entry.1.Tells (value entry.1))

include same tells

/-- A list that is supplied by the members of the tables holds the rows that name its container. -/
theorem arranges_of_supplies {w : Workspace} (sorted : sequence.Pairwise MemberRow.Before)
    (supplies : Pool.Supplies
      (sequence.map fun entry => ((value entry.1).parent, (value entry.1).member)) w.levels)
    {site : Site} {owner : Kind} {ms : Forest} (owns : w.Owns site owner ms) :
    db.Arranges site.container ms := by
  have names : ∀ entry ∈ sequence,
      ((value entry.1).parent = site.container ↔ entry.1.BelongsTo site.container) := by
    intro entry inside
    have told := (tells entry inside).parent
    exact ⟨fun parent => parent ▸ told, told.ext⟩
  have listed : (sequence.filter (·.1.BelongsTo site.container)).map
      (fun entry => (value entry.1).member) = ms.map Member.shallow := by
    refine Eq.trans ?_ (supplies.lists _ owns.level_mem)
    rw [Pool.list, List.filter_map, List.map_map]
    refine congrArg (List.map _) (List.filter_congr fun entry inside => ?_)
    exact decide_eq_decide.2 (names entry inside).symm
  refine ⟨_, same.filter _, sorted.filter _, (forall₂_of_map_eq listed).imp fun entry m known => ?_⟩
  obtain ⟨inside, member⟩ := known
  obtain ⟨inside, belongs⟩ := List.mem_filter.1 inside
  have parent := (names entry inside).2 (of_decide_eq_true belongs)
  have row : value entry.1 = m.row site.container := by
    change (value entry.1).member.row (value entry.1).parent = m.shallow.row site.container
    rw [member, parent]
  exact row ▸ tells entry inside

/-- No two members of the pool have one identifier. -/
theorem Legible.nodup_ids_pool (legible : db.Legible) : (Pool.ids
    (sequence.map fun entry => ((value entry.1).parent, (value entry.1).member))).Nodup := by
  have texts : (sequence.map fun entry => entry.1.id) =
      sequence.map fun entry => (value entry.1).id.text :=
    List.map_congr_left fun entry inside => (tells entry inside).id
  have distinct := nodup_of_perm_zipIdx same legible.member_ids
  rw [texts] at distinct
  refine List.Nodup.of_map Id.text ?_
  rwa [Pool.ids, List.map_map, List.map_map]

end

variable {db : Database}

/-- Tables that can be read are loaded, without a bound on the depth of what is loaded. -/
theorem Legible.exists_loads (legible : db.Legible) : ∃ roots pool w rest,
    db.loadRoots = .ok roots ∧ db.loadPool = .ok pool ∧ Pool.Fills roots pool w.roots rest ∧
      db.load = .ok w ∧ db.Loads w := by
  obtain ⟨rows, root, all, displayed, told, rootsRead⟩ := legible.loadRoots_eq
  obtain ⟨sequence, value, same, sorted, tells, poolRead⟩ := legible.loadPool_eq
  obtain ⟨filled, rest, threaded, fills⟩ := Pool.exists_fills
    (rows.map fun entry => (root entry.1).shallow)
    (sequence.map fun entry => ((value entry.1).parent, (value entry.1).member))
  have loaded : db.load = .ok ⟨filled⟩ := by
    unfold load
    rw [rootsRead, poolRead]
    change Except.ok (Workspace.mk (threadPool Pool.place _ _).1) = _
    rw [threaded]
  have displays : db.Displays filled := by
    have shown : rows.map (fun entry => (root entry.1).shallow) = filled.map Root.shallow := by
      rw [fills.map_shallow, List.map_map]
      rfl
    exact ⟨rows, all, displayed, (forall₂_of_map_eq shown).imp fun entry r known =>
      (told entry known.1).of_shallow known.2⟩
  have root_once := displays.nodup_map_id legible.root_ids
  have member_once : (Workspace.ids ⟨filled⟩).Nodup :=
    (fills.ids_perm.nodup_iff.2 (legible.nodup_ids_pool same tells)).of_append_left
  have owned : ∀ stored ∈ db.members, ∃ r ∈ filled, r.id.text = stored.rootId := by
    intro stored listed
    obtain ⟨row, there, named⟩ := legible.owned stored listed
    obtain ⟨r, member, tells⟩ := displays.exists_root there
    exact ⟨r, member, tells.id.symm.trans named⟩
  have supplies := fills.supplies (List.forall_mem_map.2 fun _ _ => rfl)
    (Workspace.nodup_map_container root_once member_once)
  have siblings : ∀ {site owner ms}, Workspace.Owns ⟨filled⟩ site owner ms →
      db.Arranges site.container ms := fun owns =>
    arranges_of_supplies same tells sorted supplies owns
  exact ⟨_, _, ⟨filled⟩, rest, rootsRead, poolRead, fills, loaded,
    { roots := displays
      root_once
      member_once
      placed := fun _ => placed_iff siblings owned
      siblings }⟩

/-- Loading comes to an end, whatever the rows refer to, and places each rooted row once, below its
parent or its root and among its siblings in order; other rows are left out.  Tables that keep a
workspace whose lists ascend, valid or not, are loaded as that workspace. -/
theorem load_places (db : Database) :
    (db.Legible → ∃ roots pool w rest,
      db.loadRoots = .ok roots ∧ db.loadPool = .ok pool ∧ Pool.Fills roots pool w.roots rest ∧
        db.load = .ok w ∧ db.Loads w) ∧
    ∀ w : Workspace, (w.roots.map Root.id).Nodup → w.ids.Nodup → w.Ascending → w.Storable →
      db.Keeps w → db.load = .ok w :=
  ⟨Legible.exists_loads, fun _ roots members ascending storable keeps =>
    keeps.load_eq_of_distinct roots members ascending storable⟩

theorem legible_ofRows {roots : List Root} {table : List Row}
    (roots_below : ∀ r ∈ roots, r.order < orderLimit)
    (below : ∀ row ∈ table, row.order < orderLimit)
    (owned : ∀ row ∈ table, row.parent.root ∈ roots.map Root.id)
    (root_ids : (roots.map Root.id).Nodup) (ids : (table.map Row.id).Nodup) :
    (ofRows roots table).Legible where
  roots := List.forall_mem_map.2 fun r listed =>
    ⟨r, RootRow.tells_ofRoot r _, roots_below r listed⟩
  members := List.forall_mem_map.2 fun row listed =>
    ⟨row, MemberRow.tells_ofRow row _, below row listed⟩
  owned := by
    refine List.forall_mem_map.2 fun row listed => ?_
    obtain ⟨r, there, same⟩ := List.mem_map.1 (owned row listed)
    exact ⟨_, List.mem_map_of_mem there, congrArg Id.text same⟩
  root_ids := by
    have texts := root_ids.map (f := Id.text) fun _ _ => Id.text_injective
    rw [List.map_map] at texts
    rwa [ofRows, List.map_map]
  member_ids := by
    have texts := ids.map (f := Id.text) fun _ _ => Id.text_injective
    rw [List.map_map] at texts
    rwa [ofRows, List.map_map]

end Database

section

open Reconciler

/-- A row that names a leaf of `noteTree` as its parent. -/
def rowUnderNote : Row where
  id := .ofRandom 5
  parent := .ofNode looseNote.container.root looseNote.member
  name := "aside"
  kind := .leaf
  order := 1
  path := ⟨["todo", "aside"]⟩

/-- A row that is its own parent. -/
def circularRow : Row :=
  { rowUnderNote with
    id := .ofRandom 6
    parent := .ofNode looseNote.container.root (.ofRandom 6) }

/-- The rows of `noteTree` and two more that no workspace at rest has. -/
def tangledTables : Database :=
  .ofRows noteTree.roots (circularRow :: rowUnderNote :: noteTree.rows.reverse)

/-- A row is placed even below a leaf, while one that is its own parent is left out; the rows of
`noteTree` alone are loaded as `noteTree`. -/
theorem tangledTables_load_places :
    (∃ w, tangledTables.load = .ok w ∧ rowUnderNote ∈ w.rows ∧ circularRow ∉ w.rows) ∧
      (Database.ofRows noteTree.roots noteTree.rows.reverse).load = .ok noteTree := by
  constructor
  · have legible : tangledTables.Legible :=
      Database.legible_ofRows (by decide) (by decide) (by decide) (by decide) (by decide)
    obtain ⟨roots, pool, w, rest, -, -, -, loaded, loads⟩ :=
      (Database.load_places tangledTables).1 legible
    refine ⟨w, loaded, (loads.placed _).2 ?_, fun inside => ?_⟩
    · obtain ⟨note, listed, id, parent⟩ : ∃ row ∈ noteTree.rows, row.id = looseNote.member ∧
          row.parent = looseNote.container := by decide
      have above : tangledTables.Rooted (.ofRow note (.at "2024-05-01")) := by
        refine .top (List.mem_map_of_mem (.tail _ (.tail _ (List.mem_reverse.2 listed)))) ?_
        exact congrArg (fun container => container.node.map Id.text) parent
      refine ⟨_, .under (.tail _ (.head _)) above ?_ ?_, MemberRow.tells_ofRow rowUnderNote _⟩
      · exact congrArg (fun container => container.root.text) parent
      · exact congrArg (fun id => some id.text) id.symm
    · obtain ⟨stored, rooted, tells⟩ := (loads.placed _).1 inside
      refine rooted.parentId_ne legible.member_ids ?_
      exact tells.parent.2.trans (congrArg some tells.id.symm)
  · have keeps := Database.keeps_ofRows (List.reverse_perm noteTree.rows) "2024-05-01"
    exact (Database.load_places _).2 noteTree noteTree_valid.roots_distinct
      noteTree_valid.members_distinct noteTree_ascending ⟨by decide, by decide⟩ keeps

end

end Store

end Outline
