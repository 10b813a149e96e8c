import Outline.Proofs.Numbering
import Outline.Workspace

/-!
# Items taken out of any list

What is left when an item is taken out of a list whose numbers may have gaps and repeats.  The gap
is closed before the rest is sorted, so that an item numbered one above the one taken out comes to
the same number as another that had its number (`Outline.Ordered.withdraw?_eq_densify`).  Unless the
former is listed before the latter, the sequence is the one that the numbers gave at first
(`Outline.Ordered.withdraw?_eq_densify_iff`).
-/

namespace Outline.Ordered

variable {α : Type} [Ordered α] {items : List α}

/-- The item one place further up if it comes after the number `gap`, and as it is otherwise. -/
def closeGap (gap : Nat) (x : α) : α :=
  if gap < order x then withOrder x (order x - 1) else x

theorem order_closeGap (gap : Nat) (x : α) :
    order (closeGap gap x) = if gap < order x then order x - 1 else order x := by
  unfold closeGap
  split <;> simp

@[simp] theorem id_closeGap (gap : Nat) (x : α) : id (closeGap gap x) = id x := by
  unfold closeGap
  split <;> simp

@[simp] theorem withOrder_closeGap (gap : Nat) (x : α) (n : Nat) :
    withOrder (closeGap gap x) n = withOrder x n := by
  unfold closeGap
  split <;> simp

theorem map_id_densify (items : List α) : (densify items).map id = (sorted items).map id :=
  map_id_renumber _

theorem perm_densify (items : List α) :
    ((densify items).map (withOrder · 0)).Perm (items.map (withOrder · 0)) := by
  rw [densify, map_renumber_eq fun x n => withOrder_withOrder x n 0]
  exact (sorted_perm items).map _

/-- Closing a gap changes nothing but numbers. -/
theorem sameItems_closeGap (gap : Nat) (items : List α) :
    SameItems (items.map (closeGap gap)) items := by
  refine .of_eq ?_
  rw [List.map_map]
  exact List.map_congr_left fun y _ => withOrder_closeGap gap y 0

theorem filter_sorted (keep : α → Bool) (items : List α) :
    (sorted items).filter keep = sorted (items.filter keep) :=
  filter_stableSort (by simp; omega) (by simp; omega) keep items

/-- Items that are listed by number keep their sequence when all are sorted. -/
theorem sublist_sorted {part : List α} (ascending : part.Pairwise (order · ≤ order ·))
    (inside : part.Sublist items) : part.Sublist (sorted items) :=
  sublist_stableSort (ascending.imp decide_eq_true) inside

/-- Whether the list is dense or not, the rest is sorted once its gap is closed, and numbered from
one. -/
theorem withdraw?_eq_densify (distinct : (items.map id).Nodup) {x : α} (member : x ∈ items) :
    withdraw? items (id x) =
      some (densify ((items.filter (id · ≠ id x)).map (closeGap (order x)))) := by
  rw [withdraw?, find?_id_eq_some distinct member, Option.map_some]
  change some (if isDense (sorted ((items.filter (id · ≠ id x)).map (closeGap (order x))))
    then _ else _) = _
  split
  next dense =>
    have numbered := renumber_sorted dense
    rw [sorted_eq_self (pairwise_sorted _)] at numbered
    rw [densify, numbered]
    rfl
  next => rfl

/-- No item that closing the gap brings down to the number `gap` is listed before one that has that
number. -/
def KeepsTies (gap : Nat) (items : List α) : Prop :=
  items.Pairwise fun x y => ¬(order x = gap + 1 ∧ order y = gap)

instance (gap : Nat) (items : List α) : Decidable (KeepsTies gap items) :=
  inferInstanceAs (Decidable (items.Pairwise _))

/-- Closing a gap changes the sequence of a list only where it makes for a new tie. -/
theorem sorted_closeGap {gap : Nat} (keeps : KeepsTies gap items) :
    sorted (items.map (closeGap gap)) = (sorted items).map (closeGap gap) := by
  refine stableSort_map_of_pairwise (List.Pairwise.imp (fun {x y} apart => ?_) keeps)
  refine decide_eq_decide.2 ?_
  rw [order_closeGap, order_closeGap]
  split <;> split <;> omega

theorem densify_closeGap {gap : Nat} (keeps : KeepsTies gap items) :
    densify (items.map (closeGap gap)) = densify items := by
  rw [densify, sorted_closeGap keeps, renumber,
    numberFrom_map fun x _ n => withOrder_closeGap gap x n]
  rfl

/-- What is left after an item is taken out of items with different numbers, in sequence and
numbered anew. -/
theorem withdraw?_eq (distinct : (items.map id).Nodup) (apart : (items.map order).Nodup) {x : α}
    (member : x ∈ items) :
    withdraw? items (id x) = some (renumber ((sorted items).filter (id · ≠ id x))) := by
  -- No other item has the number of the one taken out.
  have keeps : KeepsTies (order x) (items.filter (id · ≠ id x)) := by
    refine List.pairwise_of_forall_mem_list fun y _ z inside tied => ?_
    obtain ⟨listed, other⟩ := List.mem_filter.1 inside
    refine of_decide_eq_true other (congrArg id ?_)
    exact List.inj_on_of_nodup_map apart listed member tied.2
  rw [withdraw?_eq_densify distinct member, densify_closeGap keeps, densify, filter_sorted]

/-- In a dense list, numbering the others anew closes the gap that an item leaves and changes no
other number. -/
theorem renumber_eq_closeGap (distinct : (items.map id).Nodup) (dense : isDense items = true)
    {x : α} (member : x ∈ items) : renumber ((sorted items).filter (id · ≠ id x)) =
      ((sorted items).filter (id · ≠ id x)).map (closeGap (order x)) := by
  obtain ⟨front, back, split⟩ := List.append_of_mem (mem_sorted.2 member)
  have apart := nodup_map_id_sorted distinct
  have numbers := isDense_iff.1 dense
  have length : items.length = front.length + (back.length + 1) := by
    rw [← length_sorted items, split, List.length_append, List.length_cons]
  rw [split, List.map_append, List.map_cons, length, ← List.range'_append_1, List.range'_succ]
    at numbers
  obtain ⟨before, rest⟩ := List.append_inj numbers (by rw [List.length_map, List.length_range'])
  obtain ⟨own, after⟩ := List.cons.inj rest
  rw [split] at apart ⊢
  rw [filter_id_middle apart]
  have stay : front.map (order ∘ closeGap (order x)) = List.range' 1 front.length := by
    refine (List.map_congr_left fun y inside => ?_).trans before
    have listed : order y ∈ List.range' 1 front.length := before ▸ List.mem_map_of_mem inside
    have := List.mem_range'_1.1 listed
    rw [Function.comp_apply, order_closeGap, if_neg (by omega)]
  have shift : back.map (order ∘ closeGap (order x)) =
      List.range' (1 + front.length) back.length := by
    have down : back.map (order ∘ closeGap (order x)) = (back.map order).map (· - 1) := by
      refine (List.map_congr_left fun y inside => ?_).trans (List.map_map ..).symm
      have listed : order y ∈ List.range' (1 + front.length + 1) back.length :=
        after ▸ List.mem_map_of_mem inside
      have := List.mem_range'_1.1 listed
      rw [Function.comp_apply, order_closeGap, if_pos (by omega)]
      rfl
    rw [down, after, List.map_sub_range' (by omega), Nat.add_sub_cancel]
  have closed : ((front ++ back).map (closeGap (order x))).map order =
      List.range' 1 ((front ++ back).map (closeGap (order x))).length := by
    rw [List.map_map, List.map_append, List.length_map, List.length_append,
      ← List.range'_append_1, stay, shift]
  calc renumber (front ++ back)
      = renumber ((front ++ back).map (closeGap (order x))) :=
        (numberFrom_map (fun y _ n => withOrder_closeGap (order x) y n) 1).symm
    _ = (front ++ back).map (closeGap (order x)) := numberFrom_eq_self closed

/-- An item brought down to the number of one listed after it stays before that one. -/
theorem keepsTies_of_densify {gap : Nat} (distinct : (items.map id).Nodup)
    (same : densify (items.map (closeGap gap)) = densify items) : KeepsTies gap items := by
  refine List.pairwise_iff_forall_sublist.2 fun {x y} listed both => ?_
  have tie : [closeGap gap x, closeGap gap y].Pairwise (order · ≤ order ·) := by
    refine List.pairwise_pair.2 ?_
    rw [order_closeGap, order_closeGap]
    split <;> split <;> omega
  have stays : [id x, id y].Sublist ((sorted items).map id) := by
    rw [← map_id_densify, ← same, map_id_densify]
    have := (sublist_sorted tie (listed.map (closeGap gap))).map id
    simpa using this
  -- Sorted by its own numbers, the list has them the other way round.
  obtain ⟨pair, inside, named⟩ := List.sublist_map_iff.1 stays
  obtain ⟨x', _, rfl, sameX, rest⟩ := List.map_eq_cons_iff.1 named.symm
  obtain ⟨y', _, rfl, sameY, rest⟩ := List.map_eq_cons_iff.1 rest
  obtain rfl := List.map_eq_nil_iff.1 rest
  have found : ∀ {z z' : α}, z' ∈ [x', y'] → z ∈ [x, y] → id z' = id z → z' = z :=
    fun inPair inList => List.inj_on_of_nodup_map distinct (mem_sorted.1 (inside.subset inPair))
      (listed.subset inList)
  obtain rfl := found (.head _) (.head _) sameX
  obtain rfl := found (.tail _ (.head _)) (.tail _ (.head _)) sameY
  have ascending := List.pairwise_pair.1 ((pairwise_sorted items).sublist inside)
  omega

/-- Taking an item out numbers the others from one and changes nothing else about them.  They come
in the sequence that their numbers give, as they also do for `takeOut?`, unless one that is numbered
one above the item taken out is listed before another with its number. -/
theorem withdraw?_eq_densify_iff (distinct : (items.map id).Nodup) {x : α} (member : x ∈ items) :
    let others := items.filter (id · ≠ id x)
    ∃ rest left, withdraw? items (id x) = some rest ∧ takeOut? items (id x) = some (x, left) ∧
      rest = densify (others.map (closeGap (order x))) ∧
      rest.map order = List.range' 1 others.length ∧
      (rest.map (withOrder · 0)).Perm (others.map (withOrder · 0)) ∧
      renumber left = densify others ∧
      (rest = densify others ↔ KeepsTies (order x) others) := by
  intro others
  have apart : (others.map id).Nodup := distinct.sublist (List.filter_sublist.map id)
  refine ⟨_, _, withdraw?_eq_densify distinct member, takeOut?_eq_some distinct member, rfl, ?_, ?_,
    ?_, keepsTies_of_densify apart, densify_closeGap⟩
  · rw [densify, map_order_renumber, length_sorted, List.length_map]
  · refine (perm_densify _).trans (.of_eq ?_)
    rw [List.map_map]
    exact List.map_congr_left fun y _ => withOrder_closeGap _ y 0
  · rw [filter_sorted, densify]

/-- Three notes, of which the one listed first comes after two that share a number. -/
def tiedNotes : List Member :=
  [.fresh (.ofRandom 3) "later" 2 .leaf .root, .fresh (.ofRandom 2) "earlier" 1 .leaf .root,
    .fresh (.ofRandom 1) "gone" 1 .leaf .root]

/-- Without the last note, the two that shared a number keep their sequence. -/
theorem tiedNotes_withdraw?_eq : ∃ rest left,
    withdraw? tiedNotes (.ofRandom 3) = some rest ∧
      takeOut? tiedNotes (.ofRandom 3) = some (.fresh (.ofRandom 3) "later" 2 .leaf .root, left) ∧
      rest = densify (tiedNotes.filter (id · ≠ .ofRandom 3)) ∧ renumber left = rest := by
  have distinct : (tiedNotes.map id).Nodup := by decide
  obtain ⟨rest, left, withdrawn, taken, -, -, -, same, agrees⟩ :=
    withdraw?_eq_densify_iff distinct (.head _)
  have sequence := agrees.2 (by decide)
  exact ⟨rest, left, withdrawn, taken, sequence, same.trans sequence.symm⟩

/-- Without one of the two that shared a number, the last note overtakes the other. -/
theorem tiedNotes_overtaken : (tiedNotes.map id).Nodup ∧ .ofRandom 1 ∈ tiedNotes.map id ∧
    (withdraw? tiedNotes (.ofRandom 1)).map (·.map Member.name) = some ["later", "earlier"] ∧
    (densify (tiedNotes.filter (id · ≠ .ofRandom 1))).map Member.name = ["earlier", "later"] ∧
    withdraw? tiedNotes (.ofRandom 1) ≠
      some (densify (tiedNotes.filter (id · ≠ .ofRandom 1))) := by
  decide

end Outline.Ordered
