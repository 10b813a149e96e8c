import Outline.Proofs.Checks
import Outline.Proofs.Crossings
import Outline.Proofs.Dispatches
import Outline.Proofs.Renumberings

/-!
# Nothing to do

That nothing changes is told in two ways: every list stays as it is, or nothing is planned.  For
whatever is computed from a valid workspace in ascending order the two are one, so that nothing is
dispatched exactly if carrying it out would change nothing
(`Outline.Workspace.Valid.noop_iff_idle`).
-/

namespace Outline

namespace Rearrangement

variable {r : Rearrangement}

theorem isNoop_iff : r.isNoop = true ↔
    (∀ change ∈ r.changes, change.before = change.after ∧ change.deleted = []) ∧
      ∀ roots, r.roots = some roots → roots.before = roots.after := by
  simp only [isNoop, Bool.and_eq_true, List.all_eq_true, Option.all_eq_true, decide_eq_true_eq,
    List.isEmpty_iff]

/-- There is nothing to offer just if all that is planned is empty. -/
theorem parcels_eq_nil_iff_plans : r.parcels = [] ↔ (∀ batch ∈ r.plans, batch.isEmpty = true) ∧
    ∀ roots, r.roots = some roots → roots.plan.isEmpty = true := by
  have busy : ¬ r.Busy ↔ r.parcels = [] := by rw [busy_iff, not_not]
  rw [Busy, not_or] at busy
  rw [← busy]
  simp only [not_exists, not_and, Bool.not_eq_false]

end Rearrangement

namespace RootChange

/-- Where the roots stay as they are, none gets another number. -/
theorem isEmpty_plan_self {roots : List Root} (distinct : (roots.map Root.id).Nodup) :
    (plan { before := roots, after := roots }).isEmpty = true := by
  have renumbers := renumbers_plan distinct (.of_perm (.refl roots))
  have none : (plan { before := roots, after := roots }).updates = [] := by
    refine List.eq_nil_iff_forall_not_mem.2 fun update planned => ?_
    obtain ⟨root, listed, n, numbered, differs, -⟩ := (renumbers.mem_iff update).1 planned
    have same : Ordered.withOrder root n = root :=
      List.inj_on_of_nodup_map distinct numbered listed rfl
    exact differs (congrArg Root.order same).symm
  rw [RootBatch.isEmpty, none]
  rfl

end RootChange

namespace Workspace

variable {w w' : Workspace} {r : Rearrangement}

/-- Where every list stays as it is, nothing is planned. -/
theorem Outcome.parcels_of_isNoop (outcome : w.Outcome r w') (valid : w.Valid)
    (noop : r.isNoop = true) : r.parcels = [] := by
  obtain ⟨changes, roots⟩ := Rearrangement.isNoop_iff.1 noop
  obtain ⟨_, _, _, accounts⟩ := outcome.accounts
  refine Rearrangement.parcels_eq_nil_iff_plans.2 ⟨fun batch planned => ?_, fun root same => ?_⟩
  · obtain ⟨change, inside, rfl⟩ := List.mem_map.1 planned
    obtain ⟨same, none⟩ := changes change inside
    have known := accounts.known change inside
    have stays : ∀ row ∈ change.rowsAfter, row ∈ change.rowsBefore := by
      intro row listed
      rw [Change.rowsAfter, ← same] at listed
      exact List.mem_append_left _ listed
    have creates : change.plan.creates = [] := by
      refine List.filter_eq_nil_iff.2 fun row listed => ?_
      rw [valid.rowOf?_eq_some known (stays row listed)]
      exact Bool.false_ne_true
    have updates : change.plan.updates = [] := List.filterMap_eq_nil_iff.2 fun row listed =>
      valid.updateFrom?_eq_none known (stays row listed)
    have deletes : change.plan.deletes = [] := none
    rw [Batch.isEmpty, creates, updates, deletes]
    rfl
  · obtain ⟨before, after⟩ := root
    obtain rfl : before = after := roots _ same
    obtain ⟨listed, -⟩ := outcome.moved_roots _ same
    have distinct : (before.map Root.id).Nodup := by
      rw [show before = _ from listed, List.map_map]
      exact valid.roots_distinct
    exact RootChange.isEmpty_plan_self distinct

section

variable {container : Container} {present : Forest} {site : Site} {frame : List Level}
  {put : Forest → Workspace}

/-- A list that is put in the place of another and leaves the workspace as it is is the same. -/
theorem Window.isNoop_of_put (window : w.Window container present site frame put) {after : Forest}
    (same : put after = w) : Rearrangement.isNoop {
      changes := [{ container, before := present, after }] } = true := by
  have members := window.put_members after
  rw [same, window.members] at members
  obtain rfl := Option.some.inj members
  exact Rearrangement.isNoop_iff.2
    ⟨List.forall_mem_singleton.2 ⟨rfl, rfl⟩, fun _ none => by cases none⟩

end

/-- A member that goes from one container to another leaves neither as it was. -/
theorem Crossing.ne {m : Member} {source destination : Container} {here there : Site}
    {before landing : Forest} {index : Nat}
    (crossing : w.Crossing w' m source destination here there before landing index) : w' ≠ w := by
  rintro rfl
  obtain ⟨_, _, dst⟩ := crossing.dst
  obtain ⟨_, relocated⟩ := crossing.relocated
  obtain ⟨present, fields, members⟩ := relocated.landed
  rw [dst.container_eq, dst.members] at members
  have grown := congrArg List.length (Option.some.inj members)
  have length := congrArg List.length fields
  have entered := (Ordered.perm_insertion present (m.rebased there.path) index).length_eq
  rw [Ordered.insertAt_eq, Ordered.length_renumber, entered, List.length_append] at grown
  rw [List.length_map, List.length_map] at length
  exact Nat.succ_ne_self _ (grown.symm.trans length.symm)

section

variable (valid : w.Valid) (carried : r.carryOut w = .ok w)

include valid carried

/-- A drop that leaves the workspace as it is leaves every list as it is. -/
theorem Valid.isNoop_of_drop {payload : Payload} {location : Location} {move : Move}
    (classified : w.classify payload location = .ok move) (computed : w.rearrange move = .ok r) :
    r.isNoop = true := by
  have crossed : ∀ family origin destination, payload = .member family origin →
      move.destination? = some destination → r.isNoop = true := by
    rintro family origin destination rfl crosses
    obtain ⟨m, w', here, there, before, landing, index, -, crossing, -, same, outcome, -⟩ :=
      valid.exists_transfer classified crosses
    obtain rfl := Except.ok.inj (same.symm.trans computed)
    exact absurd (Except.ok.inj (outcome.carried.symm.trans carried)) crossing.ne
  cases admits_of_classify classified with
  | across => exact crossed _ _ _ rfl rfl
  | intoMember => exact crossed _ _ _ rfl rfl
  | intoRoot => exact crossed _ _ _ rfl rfl
  | @within family origin source found target side located listed other =>
      obtain ⟨container, id⟩ := origin
      obtain ⟨present, site, frame, put, window, member, rfl, beside⟩ :=
        valid.exists_window_of_siblings located listed
      obtain ⟨front, back, split, -, same⟩ := valid.rearrange_within window member beside other side
      obtain rfl := Except.ok.inj (same.symm.trans computed)
      have distinct := Forest.nodup_map_id (valid.nodup_present window)
      have perm : (front ++ source.member :: back).Perm present :=
        Ordered.perm_of_without (α := Member) distinct member split
      have kept : present.Perm (front ++ source.member :: back ++ []) := by
        rw [List.append_nil]
        exact perm.symm
      have outcome := valid.outcome_remaining window kept (.refl (Forest.ids []))
      exact window.isNoop_of_put (Except.ok.inj (outcome.carried.symm.trans carried))
  | @ofRoot root target side present listed other =>
      obtain ⟨r', w', same, outcome, -, -⟩ :=
        valid.exists_outcome_of_reorder side present listed other
      obtain rfl := Except.ok.inj (same.symm.trans computed)
      obtain rfl := Except.ok.inj (outcome.carried.symm.trans carried)
      have untouched := List.map_eq_nil_iff.1 (grounds_of_rearrange computed).changes
      refine Rearrangement.isNoop_iff.2 ⟨?_, fun roots given => ?_⟩
      · rw [untouched]
        exact List.forall_mem_nil _
      · obtain ⟨before, after⟩ := outcome.moved_roots roots given
        rw [before, after]

/-- An edit that leaves the workspace as it is leaves every list as it is. -/
theorem Valid.isNoop_of_edit {edit : Edit} {fresh : Id} (minted : w.Mints edit fresh)
    (computed : edit.compute fresh w = .ok r) (none : ∀ change ∈ r.changes, change.deleted = []) :
    r.isNoop = true := by
  cases edit with
  | add container name kind =>
      have passed : w.checkInsert container name kind = .ok () := allowed_of_compute computed
      rw [Edit.compute, passed] at computed
      obtain ⟨-, -, -, siblings, -, -, -, members, -⟩ := checkInsert_eq_ok_iff.1 passed
      obtain ⟨site, frame, put, window⟩ := exists_window members
      have same := (valid.add_eq_ok window name kind fresh).symm.trans (ok_of_mapError computed)
      obtain rfl := Except.ok.inj same
      have placed := valid.carryOut_add window (m := .fresh fresh name 0 kind site.path)
        (minted fresh rfl) siblings.length
      exact window.isNoop_of_put (Except.ok.inj (placed.symm.trans carried))
  | rename member name =>
      obtain ⟨container, passed⟩ : ∃ container, w.checkRename member name = .ok container :=
        allowed_of_compute computed
      rw [Edit.compute, passed] at computed
      obtain ⟨-, found, -, located, -⟩ := checkRename_eq_ok_iff.1 passed
      obtain ⟨present, site, frame, put, window, -, -⟩ := valid.exists_window_of_locate? located
      have same := (valid.rename_eq_ok window located rfl name).symm.trans (ok_of_mapError computed)
      obtain rfl := Except.ok.inj same
      exact window.isNoop_of_put
        (Except.ok.inj ((valid.carryOut_renamed window).symm.trans carried))
  | delete member =>
      have known : (w.locate? member).isSome := allowed_of_compute computed
      obtain ⟨found, located⟩ := Option.isSome_iff_exists.1 known
      obtain ⟨present, site, frame, put, window, listed, rfl⟩ :=
        valid.exists_window_of_locate? located
      have same := (valid.delete_eq_ok window listed located rfl).symm.trans
        (ok_of_mapError computed)
      obtain rfl := Except.ok.inj same
      have gone : found.member.ids = [] := none _ (.head _)
      rw [Member.ids_eq] at gone
      cases gone

end

/-- Where the workspace stays as it is, nothing is deleted. -/
theorem Outcome.deleted_eq_nil (outcome : w.Outcome r w) :
    ∀ change ∈ r.changes, change.deleted = [] := by
  obtain ⟨_, _, _, accounts⟩ := outcome.accounts
  have none : w.ids.filter (· ∉ w.ids) = [] := List.filter_eq_nil_iff.2 fun id known lost =>
    of_decide_eq_true lost known
  have deleted := accounts.deleted
  rw [none, List.perm_nil] at deleted
  exact List.flatMap_eq_nil_iff.1 deleted

/-- Whatever leaves the workspace as it is leaves every list as it is. -/
theorem Valid.isNoop_of_carryOut (valid : w.Valid) (computes : w.Computes r)
    (carried : r.carryOut w = .ok w) : r.isNoop = true := by
  obtain ⟨w', outcome⟩ := valid.outcome_of_computes computes
  obtain rfl := Except.ok.inj (outcome.carried.symm.trans carried)
  cases computes with
  | drop classified computed => exact valid.isNoop_of_drop carried classified computed
  | edit minted computed =>
      exact valid.isNoop_of_edit carried minted computed outcome.deleted_eq_nil

/-- Of whatever is computed from a valid workspace in ascending order, every list stays as it is
exactly if nothing is planned.  Exactly then a commit offers nothing to the store, and to carry it
out would leave the workspace as it is. -/
theorem Valid.noop_iff_idle (valid : w.Valid) (ascending : w.Ascending) (computes : w.Computes r) :
    (r.isNoop = true ↔ (∀ batch ∈ r.plans, batch.isEmpty = true) ∧
      ∀ roots, r.roots = some roots → roots.plan.isEmpty = true) ∧
    (∀ (σ κ : Type) (reconciler : Reconciler σ κ) (s : Reconciler.State σ κ), r.isNoop = true ↔
      (reconciler.logging.commit r (s.logged [] [])).2.store.log = []) ∧
    (r.isNoop = true ↔ r.carryOut w = .ok w) := by
  obtain ⟨w', outcome⟩ := valid.outcome_of_computes computes
  have stays : r.parcels = [] → r.carryOut w = .ok w := by
    intro nothing
    obtain ⟨batches, roots⟩ := Rearrangement.parcels_eq_nil_iff.1 nothing
    rw [outcome.carried, outcome.eq_of_idle valid ascending batches roots]
  have idle : r.isNoop = true ↔ r.parcels = [] :=
    ⟨outcome.parcels_of_isNoop valid,
      fun nothing => valid.isNoop_of_carryOut computes (stays nothing)⟩
  refine ⟨idle.trans Rearrangement.parcels_eq_nil_iff_plans, fun σ κ reconciler s => ?_,
    fun noop => stays (idle.1 noop), valid.isNoop_of_carryOut computes⟩
  obtain ⟨offers, writes, dispatched, logged⟩ := reconciler.commit_logging r s
  have busy := dispatched.offers_ne_nil_iff.trans Rearrangement.busy_iff
  rw [idle, logged]
  exact not_iff_not.1 busy.symm

open Reconciler in
/-- To give the folder of `noteTree` the name that it has changes nothing, and to give it another
one does. -/
theorem noteTree_noop_iff_idle : ∃ same other,
    noteTree.rename { bits := 2 } "drafts" = .ok same ∧ same.carryOut noteTree = .ok noteTree ∧
      noteTree.rename { bits := 2 } "ideas" = .ok other ∧
        other.carryOut noteTree ≠ .ok noteTree := by
  have exact : ∀ name r, Edit.compute (.rename { bits := 2 } name) .nil noteTree = .ok r →
      (r.isNoop = true ↔ r.carryOut noteTree = .ok noteTree) := fun _ _ computed =>
    (noteTree_valid.noop_iff_idle noteTree_ascending
      (.edit (mints_of_not_mem (by decide)) computed)).2.2
  exact ⟨_, _, rfl, (exact "drafts" _ rfl).1 (by decide), rfl,
    fun carried => absurd ((exact "ideas" _ rfl).2 carried) (by decide)⟩

end Workspace

end Outline
