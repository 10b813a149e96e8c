import Outline.Proofs.Differences

/-!
# Plans for renumbered lists

The members of a list, or the roots, come in another sequence and with other numbers, and nothing
else about them changes, but that members may have left.  The plan then gives a new number to each
one that has another number than before, and holds no other update and nothing to create
(`Outline.Change.plan_renumbered`, `Outline.RootChange.renumbers_plan`).
-/

namespace Outline

namespace Forest

variable {ms : Forest} {m : Member} {parent : Container} {row : Row}

/-- The rows below a member of a forest are rows of the forest. -/
theorem mem_rows_of_mem_children (member : m ∈ ms)
    (below : row ∈ rows m.children (.ofNode parent.root m.id)) : row ∈ rows ms parent := by
  obtain ⟨front, back, rfl⟩ := List.append_of_mem member
  rw [rows_append, rows_cons]
  exact List.mem_append_right _ (.tail _ (List.mem_append_left _ below))

/-- A row of a forest is that of a listed member, or of one below it. -/
theorem exists_of_mem_rows (inside : row ∈ rows ms parent) :
    ∃ m ∈ ms, row = m.row parent ∨ row ∈ rows m.children (.ofNode parent.root m.id) := by
  induction ms with
  | nil => exact absurd inside List.not_mem_nil
  | cons n ns ih =>
      rw [rows_cons] at inside
      rcases List.mem_cons.1 inside with own | inside
      · exact ⟨n, .head _, .inl own⟩
      · rcases List.mem_append.1 inside with below | later
        · exact ⟨n, .head _, .inr below⟩
        · obtain ⟨m, member, found⟩ := ih later
          exact ⟨m, .tail _ member, found⟩

/-- If nothing comes of the rows below the members, only their own rows count. -/
theorem filterMap_rows {β : Type} {f : Row → Option β}
    (none : ∀ m ∈ ms, ∀ row ∈ rows m.children (.ofNode parent.root m.id), f row = none) :
    (rows ms parent).filterMap f = (ms.map (·.row parent)).filterMap f := by
  induction ms with
  | nil => rfl
  | cons m ms ih =>
      have below := List.filterMap_eq_nil_iff.2 (none m (.head _))
      have later := ih fun n inside => none n (.tail _ inside)
      rw [rows_cons, List.map_cons]
      simp only [List.filterMap_cons, List.filterMap_append, below, later, List.nil_append]

/-- With distinct identifiers a row is known by its own. -/
theorem row_ext (distinct : (ids ms).Nodup) (parent : Container) (r : Row)
    (inR : r ∈ rows ms parent) (s : Row) (inS : s ∈ rows ms parent) (same : r.id = s.id) :
    r = s := by
  rw [← map_id_rows ms parent] at distinct
  exact List.inj_on_of_nodup_map distinct inR inS same

end Forest

/-- Commands that give the items of a list the numbers they have in another, one for each item whose
number differs.  `command` is the one that gives an item a number. -/
structure Ordered.Renumbers {α γ : Type} [Ordered α] (before after : List α)
    (command : α → Nat → γ) (commands : List γ) : Prop where
  mem_iff : ∀ c, c ∈ commands ↔ ∃ x ∈ before, ∃ n,
    Ordered.withOrder x n ∈ after ∧ Ordered.order x ≠ n ∧ c = command x n
  nodup : commands.Nodup

/-- The update that gives a member a number. -/
def Member.renumbering (m : Member) (n : Nat) : Update where
  id := m.id
  order := some n

/-- The update that gives a root a number. -/
def Root.renumbering (root : Root) (n : Nat) : RootUpdate where
  id := root.id
  order := n

/-- A member whose number alone has changed is brought up to date by a new number. -/
theorem Row.updateFrom?_withOrder {table : List Row} {m : Member} {parent : Container} (n : Nat)
    (found : rowOf? table m.id = some (m.row parent)) :
    ((Ordered.withOrder m n).row parent).updateFrom? table =
      if m.order = n then none else some (m.renumbering n) := by
  have known : rowOf? table (m.row parent).id = some (m.row parent) := found
  rw [Row.updateFrom?_of_rowOf? known (by rfl)]
  by_cases same : m.order = n <;>
    simp [Row.updateTo, Update.isEmpty, Member.row, Member.ordered_withOrder, Member.renumbering,
      same]

namespace Change

variable {before after : Forest} {container : Container}

open Ordered (SameItems Renumbers)

section

variable (container) (deleted : List Id) {kept : Forest} (distinct : (Forest.ids before).Nodup)
  (same : SameItems after kept) (part : kept.Sublist before)

include distinct same part

/-- Where members have left and others have other numbers, those members' own rows are all that
counts. -/
theorem plan_eq_of_sameItems : plan { container, before, after, deleted } = {
    container
    updates := (after.map (·.row container)).filterMap
      (Row.updateFrom? (before.map (·.row container)))
    deletes := deleted } := by
  have known : rowsBefore { container, before, after, deleted } = Forest.rows before container :=
    List.append_nil _
  have alike := Forest.row_ext distinct container
  have own : ∀ m ∈ kept, m.row container ∈ Forest.rows before container := fun m member =>
    Forest.row_mem_rows (part.subset member) container
  have alikeOwn : ∀ r ∈ before.map (·.row container), ∀ s ∈ before.map (·.row container),
      r.id = s.id → r = s := by
    have listed : ∀ row ∈ before.map (·.row container), row ∈ Forest.rows before container :=
      List.forall_mem_map.2 fun m member => Forest.row_mem_rows member container
    exact fun r inR s inS => alike r (listed r inR) s (listed s inS)
  -- The rows below the members are as they were.
  have below : ∀ m ∈ after, ∀ row ∈ Forest.rows m.children (.ofNode container.root m.id),
      row ∈ Forest.rows before container := by
    intro m member row inside
    obtain ⟨old, listed, bare⟩ := same.exists_of_mem member
    rw [bare] at inside
    exact Forest.mem_rows_of_mem_children (part.subset listed) inside
  have creates : (Forest.rows after container).filter
      (fun row => (rowOf? (Forest.rows before container) row.id).isNone) = [] := by
    refine List.filter_eq_nil_iff.2 fun row inside => ?_
    obtain ⟨m, member, rfl | deeper⟩ := Forest.exists_of_mem_rows inside
    · obtain ⟨old, listed, bare⟩ := same.exists_of_mem member
      have named : (m.row container).id = (old.row container).id := by rw [bare]; rfl
      rw [named, rowOf?_eq_some_of_mem alike (own old listed)]
      exact Bool.false_ne_true
    · rw [rowOf?_eq_some_of_mem alike (below m member row deeper)]
      exact Bool.false_ne_true
  have updates : (Forest.rows after container).filterMap
      (Row.updateFrom? (Forest.rows before container)) =
        (after.map (·.row container)).filterMap
          (Row.updateFrom? (before.map (·.row container))) := by
    rw [Forest.filterMap_rows fun m member row inside =>
      Row.updateFrom?_eq_none_of_mem alike (below m member row inside)]
    refine List.filterMap_congr fun row inside => ?_
    obtain ⟨m, member, rfl⟩ := List.mem_map.1 inside
    obtain ⟨old, listed, bare⟩ := same.exists_of_mem member
    rw [bare, Row.updateFrom?_withOrder _ (rowOf?_eq_some_of_mem alike (own old listed)),
      Row.updateFrom?_withOrder _
        (rowOf?_eq_some_of_mem alikeOwn (List.mem_map_of_mem (part.subset listed)))]
  rw [← updates, plan, known]
  simp only [rowsAfter, creates]
  rfl

/-- A list that members have left takes new numbers and nothing else. -/
theorem plan_renumbered_of_sublist : ∃ updates, Renumbers before after Member.renumbering updates ∧
    plan { container, before, after, deleted } = { container, updates, deletes := deleted } := by
  have apart : ((before.map (·.row container)).map Row.id).Nodup := by
    rw [List.map_map]
    exact Forest.nodup_map_id distinct
  have served : ∀ m ∈ before,
      rowOf? (before.map (·.row container)) m.id = some (m.row container) := fun m member =>
    rowOf?_eq_some_of_mem (fun _ inR _ inS => List.inj_on_of_nodup_map apart inR inS)
      (List.mem_map_of_mem member)
  refine ⟨_, ⟨fun update => ?_, ?_⟩, plan_eq_of_sameItems container deleted distinct same part⟩
  · rw [List.mem_filterMap]
    constructor
    · rintro ⟨row, inside, brought⟩
      obtain ⟨m, member, rfl⟩ := List.mem_map.1 inside
      obtain ⟨old, listed, bare⟩ := same.exists_of_mem member
      have present := part.subset listed
      rw [bare, Row.updateFrom?_withOrder _ (served old present)] at brought
      split at brought
      next => cases brought
      next differs =>
        exact ⟨old, present, _, bare ▸ member, differs, (Option.some.inj brought).symm⟩
    · rintro ⟨old, listed, n, member, differs, rfl⟩
      refine ⟨_, List.mem_map_of_mem member, ?_⟩
      rw [Row.updateFrom?_withOrder _ (served old listed)]
      exact if_neg differs
  · have ids : ((after.map (·.row container)).map Row.id).Nodup := by
      rw [List.map_map]
      exact same.map_id.nodup_iff.2 ((Forest.nodup_map_id distinct).sublist (part.map _))
    exact ((sublist_map_filterMap (fun _ _ => Row.id_updateFrom?) _).nodup ids).of_map _

end

/-- A list in which only numbers and sequence have changed takes new numbers and nothing else. -/
theorem plan_renumbered (container : Container) (distinct : (Forest.ids before).Nodup)
    (kept : SameItems after before) :
    ∃ updates, Renumbers before after Member.renumbering updates ∧
      plan { container, before, after } = { container, updates } :=
  plan_renumbered_of_sublist container [] distinct kept (.refl before)

end Change

/-- Roots of which only numbers and sequence have changed take new numbers. -/
theorem RootChange.renumbers_plan {before after : List Root}
    (distinct : (before.map Root.id).Nodup) (kept : Ordered.SameItems after before) :
    Ordered.Renumbers before after Root.renumbering (plan { before, after }).updates := by
  have served : ∀ root ∈ before,
      (before.reverse.find? (·.id = root.id)).map (·.order) = some root.order := by
    intro root member
    have apart : (before.reverse.map Root.id).Nodup := by
      rw [List.map_reverse]
      exact List.nodup_reverse.2 distinct
    have found := Ordered.find?_id_eq_some (α := Root) apart (List.mem_reverse.2 member)
    exact congrArg (Option.map Root.order) found
  refine ⟨fun update => ?_, ?_⟩
  · simp only [plan, List.mem_map, List.mem_filter, decide_eq_true_eq]
    constructor
    · rintro ⟨root, ⟨member, differs⟩, rfl⟩
      obtain ⟨old, listed, same⟩ := kept.exists_of_mem member
      have found := served old listed
      rw [show old.id = root.id from (congrArg Root.id same).symm] at found
      rw [found] at differs
      exact ⟨old, listed, root.order, same ▸ member,
        fun unchanged => differs (congrArg _ unchanged), by rw [same]; rfl⟩
    · rintro ⟨old, listed, n, member, differs, rfl⟩
      refine ⟨_, ⟨member, fun unchanged => differs ?_⟩, rfl⟩
      exact Option.some.inj ((served old listed).symm.trans unchanged)
  · have ids : (after.map Root.id).Nodup := kept.map_id.nodup_iff.2 distinct
    refine List.Nodup.of_map RootUpdate.id ?_
    rw [plan, List.map_map]
    exact ids.sublist (List.filter_sublist.map Root.id)

end Outline
