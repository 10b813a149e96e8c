import Mathlib.Data.List.Basic
import Outline.Proofs.Reconciliation
import Outline.Proofs.RootOrder

/-!
# Roots put into slots

A patch of the list of roots is given slots, each of which names a root and has a number for it.
The slots may leave out roots and may name a root more than once.  The roots that they name come
first, each in its first slot, and the others after them (`Outline.Seats`).  If a slot names no root
of the workspace, nothing is put anywhere (`Outline.Workspace.patchRoots_seats`).
-/

namespace Outline

/-- The roots of `present` once the ones called `listed` have been put into the slots that name them
and the ones called `left` after them. -/
structure Seats (present slots listed left : List Root) : Prop where
  /-- Every root is there once, and nothing about it has changed but its number. -/
  same : Ordered.SameItems (listed ++ left) present
  listed_iff : ∀ id, id ∈ listed.map Root.id ↔ id ∈ slots.map Root.id ∧ id ∈ present.map Root.id
  /-- The listed roots come in the sequence in which the slots first name them. -/
  sequence : listed.Pairwise fun a b =>
    (slots.map Root.id).idxOf a.id < (slots.map Root.id).idxOf b.id
  /-- A listed root has the number of the first slot that names it. -/
  numbers : ∀ r ∈ listed, (slots.find? (·.id = r.id)).map Root.order = some r.order
  /-- The other roots keep their numbers. -/
  others : left.Perm (present.filter (·.id ∉ slots.map Root.id))
  ascending : left.Pairwise (·.order ≤ ·.order)

namespace Seats

variable {present slots listed left : List Root} {slot : Root}

/-- Without slots the roots are sorted. -/
theorem nil (present : List Root) : Seats present [] [] (Ordered.sorted present) where
  same := .of_perm (Ordered.sorted_perm present)
  listed_iff id := by simp
  sequence := .nil
  numbers r inside := absurd inside List.not_mem_nil
  others := by
    rw [List.filter_eq_self.2 fun r _ => by simp]
    exact Ordered.sorted_perm present
  ascending := Ordered.pairwise_sorted present

/-- Roots that are not those of the first slot are in the same sequence and have the same numbers
with the first slot and without it. -/
theorem skip (seats : Seats present slots listed left) (others : ∀ r ∈ listed, r.id ≠ slot.id) :
    (listed.Pairwise fun a b => ((slot :: slots).map Root.id).idxOf a.id <
        ((slot :: slots).map Root.id).idxOf b.id) ∧
      ∀ r ∈ listed, ((slot :: slots).find? (·.id = r.id)).map Root.order = some r.order := by
  have later : ∀ r ∈ listed, ((slot :: slots).map Root.id).idxOf r.id =
      (slots.map Root.id).idxOf r.id + 1 := fun r inside =>
    List.idxOf_cons_ne _ (others r inside).symm
  refine ⟨seats.sequence.imp_of_mem fun {a b} inA inB before => ?_, fun r inside => ?_⟩
  · rw [later a inA, later b inB]
    exact Nat.succ_lt_succ before
  · rw [List.find?_cons_of_neg (by simpa using (others r inside).symm)]
    exact seats.numbers r inside

/-- A slot that names a root takes it, and no later slot finds it. -/
theorem cons_of_mem {root : Root} (distinct : (present.map Root.id).Nodup) (member : root ∈ present)
    (named : root.id = slot.id)
    (rest : Seats (present.filter (·.id ≠ slot.id)) slots listed left) :
    Seats present (slot :: slots) ({ root with order := slot.order } :: listed) left := by
  have among : ∀ id, id ∈ (present.filter (·.id ≠ slot.id)).map Root.id ↔
      id ∈ present.map Root.id ∧ id ≠ slot.id := by
    intro id
    simp only [List.mem_map, List.mem_filter, decide_eq_true_eq]
    grind
  have others : ∀ r ∈ listed, r.id ≠ slot.id := fun r inside =>
    ((among r.id).1 ((rest.listed_iff r.id).1 (List.mem_map_of_mem inside)).2).2
  obtain ⟨sequence, numbers⟩ := rest.skip others
  exact {
    same := by
      have whole : present.Perm (root :: present.filter (·.id ≠ slot.id)) := by
        have split := Ordered.perm_without (α := Root) distinct member
        refine (split.trans (List.perm_append_singleton ..)).trans (.cons _ ?_)
        rw [← named]
        exact (Ordered.sorted_perm present).filter _
      have bare := (whole.map (Ordered.withOrder · 0)).symm
      exact (List.Perm.cons _ rest.same).trans bare
    listed_iff := by
      intro id
      have known : slot.id ∈ present.map Root.id := named ▸ List.mem_map_of_mem member
      rw [List.map_cons, List.map_cons, List.mem_cons, List.mem_cons, rest.listed_iff, among]
      grind
    sequence := by
      refine List.pairwise_cons.2 ⟨fun r inside => ?_, sequence⟩
      rw [List.map_cons, named, List.idxOf_cons_self, List.idxOf_cons_ne _ (others r inside).symm]
      exact Nat.succ_pos _
    numbers := by
      refine List.forall_mem_cons.2 ⟨?_, numbers⟩
      rw [List.find?_cons_of_pos (by simp [named])]
      rfl
    others := by
      refine rest.others.trans (.of_eq ?_)
      rw [List.filter_filter]
      refine List.filter_congr fun r _ => ?_
      simp [Bool.and_comm]
    ascending := rest.ascending }

/-- A slot that names no root left is passed over. -/
theorem cons_of_not_mem (absent : slot.id ∉ present.map Root.id)
    (rest : Seats present slots listed left) : Seats present (slot :: slots) listed left := by
  have others : ∀ r ∈ listed, r.id ≠ slot.id := fun r inside same =>
    absent (same ▸ ((rest.listed_iff r.id).1 (List.mem_map_of_mem inside)).2)
  obtain ⟨sequence, numbers⟩ := rest.skip others
  exact {
    same := rest.same
    listed_iff := by
      intro id
      rw [rest.listed_iff, List.map_cons, List.mem_cons]
      grind
    sequence := sequence
    numbers := numbers
    others := by
      refine rest.others.trans (.of_eq (List.filter_congr fun r inside => ?_))
      have differs : r.id ≠ slot.id := fun same => absent (same ▸ List.mem_map_of_mem inside)
      simp [differs]
    ascending := rest.ascending }

end Seats

/-- The present roots are put into the slots that name them, if no two are called the same. -/
theorem exists_seats {present : List Root} (distinct : (present.map Root.id).Nodup)
    (slots : List Root) : ∃ listed left,
      patchedRoots present slots = listed ++ left ∧ Seats present slots listed left := by
  induction slots generalizing present with
  | nil => exact ⟨[], _, rfl, .nil present⟩
  | cons slot slots ih =>
      rw [patchedRoots]
      cases found : present.find? (·.id = slot.id) with
      | some root =>
          have named : root.id = slot.id := by simpa using List.find?_some found
          have remaining : ((present.filter (·.id ≠ slot.id)).map Root.id).Nodup :=
            distinct.sublist (List.filter_sublist.map _)
          obtain ⟨listed, left, patched, seats⟩ := ih remaining
          refine ⟨{ root with order := slot.order } :: listed, left, ?_, ?_⟩
          · rw [List.cons_append, ← patched]
          · exact seats.cons_of_mem distinct (List.mem_of_find?_eq_some found) named
      | none =>
          have absent : slot.id ∉ present.map Root.id := by simpa using found
          obtain ⟨listed, left, patched, seats⟩ := ih distinct
          exact ⟨listed, left, patched, seats.cons_of_not_mem absent⟩

namespace Workspace

variable {w : Workspace}

theorem root?_isNone_iff {id : Id} : (w.root? id).isNone ↔ id ∉ w.roots.map Root.id := by
  simp [root?]

/-- Slots are refused for the first one that names no root, and all roots stay as they are.
Otherwise the roots that the slots name come first, each in its first slot, and the others are
sorted after them: strictly, if they have different numbers. -/
theorem patchRoots_seats (distinct : (w.roots.map Root.id).Nodup) (slots : List Root) :
    (∀ front slot back, slots = front ++ slot :: back →
      front.map Root.id ⊆ w.roots.map Root.id → slot.id ∉ w.roots.map Root.id →
        Cache.ofWorkspace.patchRoots slots w = (.error (.noRoot slot.id), w)) ∧
    (slots.map Root.id ⊆ w.roots.map Root.id → ∃ listed left,
      Cache.ofWorkspace.patchRoots slots w = (.ok (), ⟨listed ++ left⟩) ∧
        Seats w.roots slots listed left ∧
        (((w.roots.filter (·.id ∉ slots.map Root.id)).map Root.order).Nodup →
          left.Pairwise (·.order < ·.order))) := by
  constructor
  · rintro front slot back rfl known unknown
    have first : (front ++ slot :: back).find? (fun s => (w.root? s.id).isNone) = some slot := by
      rw [List.find?_append, List.find?_eq_none.2, Option.none_or, List.find?_cons_of_pos]
      · exact root?_isNone_iff.2 unknown
      · exact fun s inside missing =>
          root?_isNone_iff.1 missing (known (List.mem_map_of_mem inside))
    simp only [Cache.ofWorkspace, patchRoots, first]
  · intro known
    obtain ⟨listed, left, patched, seats⟩ := exists_seats distinct slots
    refine ⟨listed, left, ?_, seats, fun differ => ?_⟩
    · have none : slots.find? (fun s => (w.root? s.id).isNone) = none :=
        List.find?_eq_none.2 fun s inside missing =>
          root?_isNone_iff.1 missing (known (List.mem_map_of_mem inside))
      simp only [Cache.ofWorkspace, patchRoots, none, lastRoots_eq_self distinct, patched]
    · have apart := (seats.others.map Root.order).nodup_iff.2 differ
      exact seats.ascending.imp₂ (fun _ _ => Nat.lt_of_le_of_ne) (List.pairwise_map.1 apart)

/-- The slots name the last root twice and the first one, but not the one between them.  Slots with
a strange identifier in their midst are refused. -/
theorem bookcase_seats :
    let notes : Root := { Root.fresh (.ofRandom 1) "notes" .tree with
      order := 1, members := Reconciler.noteTree.roots.flatMap Root.members }
    let links : Root := { Root.fresh (.ofRandom 2) "links" .flatList with order := 2 }
    let plans : Root := { Root.fresh (.ofRandom 3) "plans" .groupedList with order := 3 }
    let slots := [{ plans with order := 7 }, notes.shallow, { plans with order := 2 }]
    let stranger := Root.fresh (.ofRandom 4) "stranger" .tree
    (∃ listed left, Cache.ofWorkspace.patchRoots slots ⟨[notes, links, plans]⟩ =
        (.ok (), ⟨listed ++ left⟩) ∧ Seats [notes, links, plans] slots listed left ∧
      listed = [{ plans with order := 7 }, notes] ∧ left = [links]) ∧
    Cache.ofWorkspace.patchRoots [plans, stranger, notes] ⟨[notes, links, plans]⟩ =
      (.error (.noRoot stranger.id), ⟨[notes, links, plans]⟩) := by
  intro notes links plans slots stranger
  have distinct : ((⟨[notes, links, plans]⟩ : Workspace).roots.map Root.id).Nodup := by decide
  constructor
  · obtain ⟨listed, left, patched, seats, -⟩ :=
      (patchRoots_seats distinct slots).2 (by decide)
    have whole : [{ plans with order := 7 }, notes] ++ [links] = listed ++ left :=
      congrArg Workspace.roots (congrArg Prod.snd patched)
    have split := List.append_inj' whole seats.others.length_eq.symm
    exact ⟨listed, left, patched, seats, split.1.symm, split.2.symm⟩
  · exact (patchRoots_seats distinct _).1 [plans] stranger [notes] rfl (by decide) (by decide)

end Workspace

end Outline
