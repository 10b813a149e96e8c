import Mathlib.Data.List.Nodup
import Outline.Row

/-!
# Forests

Induction over forests, and what a forest's functions do with its first member.  A forest is
*consistent* at a path if every path in it derives from the names above
(`Outline.Forest.Consistent`); deriving its paths anew then changes nothing.  What deriving paths
anew comes to, and what it leaves alone, is told by `Outline.Forest.Repathed`.
-/

namespace Outline

mutual

private theorem Member.inductAux {motive : Forest → Prop} (nil : motive [])
    (cons : ∀ m ms, motive m.children → motive ms → motive (m :: ms)) :
    ∀ m : Member, motive m.children
  | ⟨_, _, _, _, _, children⟩ => Forest.inductAux nil cons children

private theorem Forest.inductAux {motive : Forest → Prop} (nil : motive [])
    (cons : ∀ m ms, motive m.children → motive ms → motive (m :: ms)) :
    ∀ ms : List Member, motive ms
  | [] => nil
  | m :: ms => cons m ms (m.inductAux nil cons) (Forest.inductAux nil cons ms)

end

/-- What holds of the empty forest, and of a forest once it holds of the first member's children
and of the later members, holds of every forest. -/
@[elab_as_elim]
theorem Forest.induct {motive : Forest → Prop} (nil : motive [])
    (cons : ∀ m ms, motive m.children → motive ms → motive (m :: ms)) (ms : Forest) : motive ms :=
  Forest.inductAux nil cons ms

/-- Only one item has the label, if it occurs but once. -/
theorem eq_of_count_map_le_one {α : Type} {label : α → Id} {xs : List α} {x y : α}
    (once : (xs.map label).count (label x) ≤ 1) (inX : x ∈ xs) (inY : y ∈ xs)
    (same : label y = label x) : y = x := by
  obtain ⟨front, back, rfl⟩ := List.append_of_mem inX
  rw [List.map_append, List.map_cons, List.count_append, List.count_cons_self] at once
  have absent : ∀ zs : List α, (zs.map label).count (label x) = 0 → y ∉ zs := fun zs none inside =>
    List.count_eq_zero.1 none (same ▸ List.mem_map_of_mem inside)
  rcases List.mem_append.1 inY with before | after
  · exact absurd before (absent front (by omega))
  · rcases List.mem_cons.1 after with rfl | later
    · rfl
    · exact absurd later (absent back (by omega))

namespace Member

@[simp] theorem ordered_order (m : Member) : Ordered.order m = m.order := rfl

theorem ordered_withOrder (m : Member) (n : Nat) : Ordered.withOrder m n = { m with order := n } :=
  rfl

/-- The row of the member itself in the container that lists it. -/
def row (m : Member) (parent : Container) : Row where
  id := m.id
  parent := parent
  name := m.name
  kind := m.kind
  order := m.order
  path := m.path

theorem rows_eq (m : Member) (parent : Container) :
    m.rows parent = m.row parent :: Forest.rows m.children (.ofNode parent.root m.id) := by
  cases m
  rfl

theorem rebased_eq (m : Member) (parent : Path) : m.rebased parent =
    { m with
      path := parent.child m.name
      children := Forest.rebased m.children (parent.child m.name) } := by
  cases m
  rfl

theorem ids_eq (m : Member) : m.ids = m.id :: Forest.ids m.children := by
  rw [ids, subtree_eq]
  rfl

@[simp] theorem shallow_shallow (m : Member) : m.shallow.shallow = m.shallow := rfl

theorem mk_eta (m : Member) : ⟨m.id, m.name, m.order, m.kind, m.path, m.children⟩ = m := by
  cases m
  rfl

theorem id_eq_of_shallow {a b : Member} (fields : a.shallow = b.shallow) : a.id = b.id := by
  change a.shallow.id = b.shallow.id
  rw [fields]

/-- A member is its own fields with its children. -/
theorem eq_of_shallow {a b : Member} (fields : a.shallow = b.shallow)
    (children : a.children = b.children) : a = b := by
  cases a
  cases b
  simp only [shallow, mk.injEq] at fields children ⊢
  exact ⟨fields.1, fields.2.1, fields.2.2.1, fields.2.2.2.1, fields.2.2.2.2.1, children⟩

end Member

namespace Forest

@[simp] theorem subtrees_nil : subtrees [] = [] := rfl

theorem subtrees_cons (m : Member) (ms : Forest) :
    subtrees (m :: ms) = m :: (subtrees m.children ++ subtrees ms) := by
  rw [subtrees, Member.subtree_eq]
  rfl

@[simp] theorem ids_nil : ids [] = [] := rfl

theorem ids_cons (m : Member) (ms : Forest) :
    ids (m :: ms) = m.id :: (ids m.children ++ ids ms) := by
  simp only [ids, subtrees_cons, List.map_cons, List.map_append]

theorem ids_cons_eq (m : Member) (ms : Forest) : ids (m :: ms) = m.ids ++ ids ms := by
  rw [ids_cons, Member.ids_eq]
  rfl

theorem ids_singleton (m : Member) : ids [m] = m.ids := by
  rw [ids_cons_eq, ids_nil, List.append_nil]

theorem ids_eq_flatMap (ms : Forest) : ids ms = ms.flatMap Member.ids := by
  induction ms with
  | nil => rfl
  | cons m ms ih => rw [ids_cons_eq, ih, List.flatMap_cons]

theorem ids_append (ms ns : Forest) : ids (ms ++ ns) = ids ms ++ ids ns := by
  simp only [ids_eq_flatMap, List.flatMap_append]

theorem ids_perm {ms ns : Forest} (same : ms.Perm ns) : (ids ms).Perm (ids ns) := by
  rw [ids_eq_flatMap, ids_eq_flatMap]
  exact same.flatMap_right _

/-- The listed members come among all members in their own sequence. -/
theorem map_id_sublist (ms : Forest) : (ms.map Member.id).Sublist (ids ms) := by
  induction ms with
  | nil => exact .slnil
  | cons m ms ih =>
      rw [ids_cons, List.map_cons]
      exact (ih.trans (List.sublist_append_right ..)).cons_cons _

theorem nodup_map_id {ms : Forest} (distinct : (ids ms).Nodup) : (ms.map Member.id).Nodup :=
  distinct.sublist (map_id_sublist ms)

theorem nodup_ids_of_mem {ms : Forest} (distinct : (ids ms).Nodup) {m : Member} (member : m ∈ ms) :
    m.ids.Nodup := by
  rw [ids_eq_flatMap] at distinct
  exact (List.nodup_flatMap.1 distinct).1 m member

theorem rows_cons (m : Member) (ms : Forest) (parent : Container) : rows (m :: ms) parent =
    m.row parent :: (rows m.children (.ofNode parent.root m.id) ++ rows ms parent) := by
  rw [rows, Member.rows_eq]
  rfl

theorem rows_append (ms ns : Forest) (parent : Container) :
    rows (ms ++ ns) parent = rows ms parent ++ rows ns parent := by
  induction ms with
  | nil => rfl
  | cons m ms ih => simp only [List.cons_append, rows_cons, ih, List.append_assoc]

theorem mem_subtrees_of_mem {ms : Forest} {m : Member} (member : m ∈ ms) : m ∈ subtrees ms := by
  rw [subtrees_eq_flatMap]
  refine List.mem_flatMap.2 ⟨m, member, ?_⟩
  rw [Member.subtree_eq]
  exact .head _

/-- A child of a member of the forest, at any depth, is one as well. -/
theorem mem_subtrees_trans {ms : Forest} {m x : Member} (member : m ∈ subtrees ms)
    (below : x ∈ subtrees m.children) : x ∈ subtrees ms := by
  induction ms using Forest.induct with
  | nil => exact absurd member List.not_mem_nil
  | cons n ns inner later =>
      rw [subtrees_cons] at member ⊢
      rcases List.mem_cons.1 member with rfl | member
      · exact .tail _ (List.mem_append_left _ below)
      · refine .tail _ (List.mem_append.2 ?_)
        exact (List.mem_append.1 member).imp inner later

/-- With distinct identifiers a member is known by its own. -/
theorem eq_of_id_eq {ms : Forest} (distinct : (ids ms).Nodup) {m n : Member}
    (inM : m ∈ subtrees ms) (inN : n ∈ subtrees ms) (same : m.id = n.id) : m = n :=
  List.inj_on_of_nodup_map distinct inM inN same

theorem ids_subset_of_mem {ms : Forest} {m : Member} (member : m ∈ subtrees ms) {x : Id}
    (below : x ∈ m.ids) : x ∈ ids ms := by
  rw [Member.ids_eq] at below
  rcases List.mem_cons.1 below with rfl | deeper
  · exact List.mem_map_of_mem member
  · obtain ⟨n, inside, rfl⟩ := List.mem_map.1 deeper
    exact List.mem_map_of_mem (mem_subtrees_trans member inside)

@[simp] theorem rebased_nil (parent : Path) : rebased [] parent = [] := rfl

/-- Every path in the forest derives from the names above it. -/
def Consistent (ms : Forest) (parent : Path) : Prop :=
  rebased ms parent = ms

theorem consistent_nil (parent : Path) : Consistent [] parent := rfl

theorem consistent_cons {m : Member} {ms : Forest} {parent : Path} :
    Consistent (m :: ms) parent ↔ m.path = parent.child m.name ∧
      Consistent m.children (parent.child m.name) ∧ Consistent ms parent := by
  unfold Consistent
  rw [rebased, Member.rebased_eq, List.cons.injEq]
  cases m
  simp only [Member.mk.injEq, true_and]
  constructor
  · rintro ⟨⟨path, children⟩, later⟩
    exact ⟨path.symm, children, later⟩
  · rintro ⟨path, children, later⟩
    exact ⟨⟨path.symm, children⟩, later⟩

theorem consistent_iff {ms : Forest} {parent : Path} : Consistent ms parent ↔
    ∀ m ∈ ms, m.path = parent.child m.name ∧ Consistent m.children (parent.child m.name) := by
  induction ms with
  | nil => simp [consistent_nil]
  | cons m ms ih => rw [consistent_cons, ih, List.forall_mem_cons, and_assoc]

/-- Deriving the paths twice is deriving them once. -/
theorem rebased_rebased (ms : Forest) (first second : Path) :
    rebased (rebased ms first) second = rebased ms second := by
  induction ms using Forest.induct generalizing first second with
  | nil => rfl
  | cons m ms inner later =>
      simp only [rebased, later, Member.rebased_eq, inner]

theorem consistent_rebased (ms : Forest) (parent : Path) : Consistent (rebased ms parent) parent :=
  rebased_rebased ms parent parent

/-- The second forest is the first one with other paths, each of which derives from `parent` and the
names above. -/
inductive Repathed : (parent : Path) → (old new : Forest) → Prop where
  | nil (parent : Path) : Repathed parent [] []
  | cons {parent : Path} {m n : Member} {ms ns : Forest}
      (own : n.shallow = { m.shallow with path := parent.child m.name })
      (below : Repathed n.path m.children n.children) (later : Repathed parent ms ns) :
      Repathed parent (m :: ms) (n :: ns)

theorem repathed_rebased (ms : Forest) (parent : Path) :
    Repathed parent ms (rebased ms parent) := by
  induction ms using Forest.induct generalizing parent with
  | nil => exact .nil parent
  | cons m ms inner later =>
      rw [rebased, Member.rebased_eq]
      exact .cons rfl (inner _) (later parent)

/-- Paths can be derived anew in one way only. -/
theorem repathed_iff {parent : Path} {old new : Forest} :
    Repathed parent old new ↔ new = rebased old parent := by
  constructor
  · intro repathed
    induction repathed with
    | nil => rfl
    | @cons parent m n ms ns own below later inner after =>
        have path : n.path = parent.child m.name := congrArg Member.path own
        have head : n = m.rebased parent := by
          refine Member.eq_of_shallow (own.trans (by rw [Member.rebased_eq]; rfl)) ?_
          rw [Member.children_rebased, inner, path]
        rw [rebased, head, after]
  · rintro rfl
    exact repathed_rebased old parent

end Forest

end Outline
