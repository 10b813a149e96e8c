import Outline.Proofs.Revisions
import Outline.Rearrangement

/-!
# The order of roots

Roots change places without their members.  A list of slots that names every root once puts the
roots into that sequence, and `Outline.Workspace.Valid.exists_reordered` says what becomes of a
root that moves next to another.
-/

namespace Outline

/-- Roots of which no later one repeats an earlier are all last ones. -/
theorem lastRoots_eq_self {roots : List Root} (distinct : (roots.map Root.id).Nodup) :
    lastRoots roots = roots := by
  induction roots with
  | nil => rfl
  | cons r rs ih =>
      rw [List.map_cons, List.nodup_cons] at distinct
      have single : rs.any (·.id = r.id) = false := by
        refine List.any_eq_false.2 fun x inside same => distinct.1 ?_
        exact List.mem_map.2 ⟨x, inside, of_decide_eq_true same⟩
      rw [lastRoots, single, ih distinct.2]
      rfl

/-- Slots for all roots put them into the sequence and under the numbers that they give. -/
theorem patchedRoots_eq {present listing : List Root} (distinct : (present.map Root.id).Nodup)
    (listed : (listing.map Root.id).Nodup)
    (known : ∀ r ∈ listing, ∃ old ∈ present, r = { old with order := r.order })
    (all : ∀ r ∈ present, r.id ∈ listing.map Root.id) :
    patchedRoots present (listing.map Root.shallow) = listing := by
  induction listing generalizing present with
  | nil =>
      obtain rfl : present = [] := List.eq_nil_iff_forall_not_mem.2 fun r inside =>
        absurd (all r inside) List.not_mem_nil
      rfl
  | cons r rs ih =>
      rw [List.map_cons, List.nodup_cons] at listed
      obtain ⟨old, inside, same⟩ := known r (.head _)
      have id : old.id = r.id := (congrArg Root.id same).symm
      have found : present.find? (·.id = r.id) = some old := by
        rw [← id]
        exact Ordered.find?_id_eq_some (α := Root) distinct inside
      have rest := @ih (present.filter (·.id ≠ r.id))
        (distinct.sublist (List.filter_sublist.map _)) listed.2 ?_ ?_
      · rw [List.map_cons, patchedRoots, show present.find? (·.id = r.shallow.id) = _ from found]
        change { old with order := r.order } ::
          patchedRoots (present.filter (·.id ≠ r.id)) (rs.map Root.shallow) = _
        rw [rest, ← same]
      · intro x later
        obtain ⟨old, inside, same⟩ := known x (.tail _ later)
        refine ⟨old, List.mem_filter.2 ⟨inside, decide_eq_true fun clash => listed.1 ?_⟩, same⟩
        rw [← clash, show old.id = x.id from (congrArg Root.id same).symm]
        exact List.mem_map_of_mem later
      · intro x left
        obtain ⟨inside, differs⟩ := List.mem_filter.1 left
        rcases List.mem_cons.1 (all x inside) with clash | later
        · exact absurd clash (of_decide_eq_true differs)
        · exact later

namespace Workspace

variable {w : Workspace} {listing : List Root}

theorem levels_renumber (perm : listing.Perm w.roots) :
    (levels ⟨Ordered.renumber listing⟩).Perm w.levels := by
  have same : levels ⟨Ordered.renumber listing⟩ = levels ⟨listing⟩ := by
    simp only [levels, List.flatMap_def]
    rw [Ordered.map_renumber_eq (f := fun root : Root =>
      Forest.levels root.members root.site .interior) fun _ _ => rfl]
  rw [same]
  exact perm.flatMap_right _

theorem ids_renumber (perm : listing.Perm w.roots) :
    (ids ⟨Ordered.renumber listing⟩).Perm w.ids := by
  refine (ids_perm_levels _).trans (.trans ?_ w.ids_perm_levels.symm)
  exact (levels_renumber perm).flatMap_right _

/-- Roots numbered in another sequence make a valid workspace again. -/
theorem Valid.renumber (valid : w.Valid) (perm : listing.Perm w.roots) :
    Valid ⟨Ordered.renumber listing⟩ where
  flawless := by
    refine defects_eq_nil_iff.2 ⟨Ordered.isDense_renumber listing, fun level inside => ?_⟩
    exact valid.sound ((levels_renumber perm).mem_iff.1 inside)
  roots_distinct := by
    rw [Ordered.map_renumber_eq (f := Root.id) fun _ _ => rfl]
    exact (perm.map _).nodup_iff.2 valid.roots_distinct
  members_distinct := (ids_renumber perm).nodup_iff.2 valid.members_distinct

theorem Ascending.renumber (ascending : w.Ascending) (perm : listing.Perm w.roots) :
    Ascending ⟨Ordered.renumber listing⟩ := by
  refine ascending_iff.2 ⟨Ordered.pairwise_lt_renumber listing, fun level inside => ?_⟩
  exact (ascending_iff.1 ascending).2 level ((levels_renumber perm).mem_iff.1 inside)

/-- Slots that name all roots are taken over as they stand. -/
theorem patchRoots_renumber (distinct : (w.roots.map Root.id).Nodup)
    (perm : listing.Perm w.roots) :
    w.patchRoots ((Ordered.renumber listing).map Root.shallow) =
      .ok ⟨Ordered.renumber listing⟩ := by
  have ids : ((Ordered.renumber listing).map Root.id).Perm (w.roots.map Root.id) := by
    rw [Ordered.map_renumber_eq (f := Root.id) fun _ _ => rfl]
    exact perm.map _
  have known : ((Ordered.renumber listing).map Root.shallow).find?
      (fun slot => (w.root? slot.id).isNone) = none := by
    refine List.find?_eq_none.2 fun slot inside missing => ?_
    obtain ⟨root, listed, rfl⟩ := List.mem_map.1 inside
    obtain ⟨old, present, same⟩ := List.mem_map.1
      (ids.mem_iff.1 (List.mem_map_of_mem listed))
    rw [root?, Option.isNone_iff_eq_none, List.find?_eq_none] at missing
    exact missing old present (decide_eq_true same)
  have puts : patchedRoots (lastRoots w.roots) ((Ordered.renumber listing).map Root.shallow) =
      Ordered.renumber listing := by
    rw [lastRoots_eq_self distinct]
    refine patchedRoots_eq distinct (ids.nodup_iff.2 distinct) (fun r inside => ?_) ?_
    · obtain ⟨old, present, n, rfl⟩ := Ordered.mem_renumber inside
      exact ⟨old, perm.mem_iff.1 present, rfl⟩
    · exact fun r inside => ids.mem_iff.2 (List.mem_map_of_mem inside)
  rw [patchRoots, known, puts]

/-- A root that moves next to another is taken out of the sequence and put back at the other's
side. -/
theorem Valid.exists_reordered (valid : w.Valid) {root : Root} (member : root ∈ w.roots)
    {target : Id} (present : target ∈ w.roots.map Root.id) (other : target ≠ root.id)
    (side : Side) : ∃ front back, (front ++ root :: back).Perm w.roots ∧
      (Ordered.sorted w.roots).filter (·.id ≠ root.id) = front ++ back ∧
      side.Borders target (front.map Root.id) (back.map Root.id) ∧
      reorderRoots (w.roots.map Root.shallow) root.id target side =
        .ok ((Ordered.renumber (front ++ root :: back)).map Root.shallow) := by
  have ids : (w.roots.map Root.shallow).map Ordered.id = w.roots.map Root.id := by
    rw [List.map_map]
    rfl
  obtain ⟨front, back, split, borders, moved⟩ := reorder_eq_ok (α := Root)
    Absence.noRoot (ids ▸ valid.roots_distinct) (List.mem_map_of_mem member)
    (ids ▸ present) other side
  have sorts : (Ordered.sorted (w.roots.map Root.shallow)).filter (·.id ≠ root.id) =
      ((Ordered.sorted w.roots).filter (·.id ≠ root.id)).map Root.shallow := by
    rw [Ordered.sorted_map (f := Root.shallow) fun _ _ _ _ => Iff.rfl, List.filter_map]
    rfl
  obtain ⟨front, back, whole, rfl, rfl⟩ := List.map_eq_append_iff.1 (sorts.symm.trans split)
  refine ⟨front, back, ?_, whole, ?_, ?_⟩
  · exact Ordered.perm_of_without (α := Root) valid.roots_distinct member whole
  · rw [List.map_map, List.map_map] at borders
    exact borders
  · refine moved.trans (congrArg _ ?_)
    rw [Ordered.map_renumber fun _ _ _ => rfl, List.map_append, List.map_cons]

end Workspace

end Outline
