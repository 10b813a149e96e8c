import Mathlib.Algebra.Order.Field.Rat
import Mathlib.Tactic.Linarith
import Outline.Proofs.Landings

/-!
# Landing places as numbers

Moving an item next to a target comes to the same as giving it a number half a place below or above
the target's, and taking all items by their numbers (`Outline.reorder_eq_arrange`,
`Outline.Listing.exists_moveBeside_eq_arrange`).  The numbers at first have to be different from one
another, but may have gaps.  The first and the last item are targets like any other.
-/

namespace Outline

/-- How far from a target its side lies. -/
def Side.offset : Side → ℚ
  | .before => -1 / 2
  | .after => 1 / 2

namespace Ordered

variable {α : Type} [Ordered α]

/-- The items, each of which comes with a rational number, by these numbers and numbered from
one. -/
def arrange (placed : List (ℚ × α)) : List α :=
  renumber ((stableSort (fun x y => x.1 ≤ y.1) placed).map Prod.snd)

/-- An item with its own number. -/
def placed (x : α) : ℚ × α :=
  (order x, x)

/-- The items, the one called `moved` with the number `place` and the others with their own. -/
def placedWith (items : List α) (moved : Id) (place : ℚ) : List (ℚ × α) :=
  items.map fun x => if id x = moved then (place, x) else placed x

variable {items front back : List α} {x target : α} {side : Side} {place : ℚ}

theorem pairwise_lt_sorted (apart : (items.map order).Nodup) :
    (sorted items).Pairwise (order · < order ·) := by
  have differ : ((sorted items).map order).Nodup :=
    ((sorted_perm items).map order).nodup_iff.2 apart
  exact (pairwise_sorted items).imp₂ (fun _ _ => Nat.lt_of_le_of_ne) (List.pairwise_map.1 differ)

/-- An item whose number lies between those of the items in front of it and behind it is arranged
there. -/
theorem arrange_eq (below : ∀ y ∈ front, (order y : ℚ) < place)
    (above : ∀ y ∈ back, place < (order y : ℚ))
    (ascending : (front ++ back).Pairwise (order · < order ·)) {items : List (ℚ × α)}
    (perm : items.Perm (front.map placed ++ (place, x) :: back.map placed)) :
    arrange items = renumber (front ++ x :: back) := by
  obtain ⟨inFront, inBack, across⟩ := List.pairwise_append.1 ascending
  have own : ∀ {list : List α}, list.Pairwise (order · < order ·) →
      (list.map placed).Pairwise (·.1 < ·.1) := fun pairwise =>
    List.pairwise_map.2 (pairwise.imp fun lower => Nat.cast_lt.2 lower)
  have strict : (front.map placed ++ (place, x) :: back.map placed).Pairwise (·.1 < ·.1) := by
    refine List.pairwise_append.2 ⟨own inFront, List.pairwise_cons.2 ⟨?_, own inBack⟩, ?_⟩
    · exact List.forall_mem_map.2 above
    · refine List.forall_mem_map.2 fun y inside => List.forall_mem_cons.2 ⟨below y inside, ?_⟩
      exact List.forall_mem_map.2 fun z behind => Nat.cast_lt.2 (across y inside z behind)
  rw [arrange, stableSort_eq_of_perm perm strict, List.map_append, List.map_cons, List.map_map,
    List.map_map]
  exact congrArg renumber (congrArg₂ _ (List.map_id _) (congrArg _ (List.map_id _)))

/-- Half a place from the target lies between what is in front of that place and what is behind. -/
theorem offset_between (borders : side.Borders (id target) (front.map id) (back.map id))
    (distinct : ((front ++ back).map id).Nodup) (member : target ∈ front ++ back)
    (ascending : (front ++ back).Pairwise (order · < order ·)) :
    (∀ y ∈ front, (order y : ℚ) < order target + side.offset) ∧
      ∀ y ∈ back, (order target + side.offset : ℚ) < order y := by
  obtain ⟨inFront, inBack, across⟩ := List.pairwise_append.1 ascending
  have half : ∀ {y z : α}, order y < order z → (order y : ℚ) + 1 ≤ order z := fun lower => by
    exact_mod_cast lower
  cases side with
  | before =>
      obtain ⟨ids, named⟩ := List.head?_eq_some_iff.1 borders
      obtain ⟨found, rest, rfl, same, -⟩ := List.map_eq_cons_iff.1 named
      obtain rfl : found = target := List.inj_on_of_nodup_map distinct
        (List.mem_append_right _ (.head _)) member same
      constructor
      · intro y inside
        have lower := half (across y inside found (.head _))
        rw [Side.offset]
        linarith
      · intro y inside
        rw [Side.offset]
        rcases List.mem_cons.1 inside with rfl | later
        · linarith
        · have lower := half ((List.pairwise_cons.1 inBack).1 y later)
          linarith
  | after =>
      obtain ⟨ids, named⟩ := List.getLast?_eq_some_iff.1 borders
      obtain ⟨rest, last, rfl, -, single⟩ := List.map_eq_append_iff.1 named
      obtain ⟨found, nothing, rfl, same, none⟩ := List.map_eq_cons_iff.1 single
      obtain rfl := List.map_eq_nil_iff.1 none
      have listed : found ∈ rest ++ [found] := List.mem_append_right _ (.head _)
      obtain rfl : found = target :=
        List.inj_on_of_nodup_map distinct (List.mem_append_left _ listed) member same
      constructor
      · intro y inside
        rw [Side.offset]
        rcases List.mem_append.1 inside with earlier | last
        · have lower := half ((List.pairwise_append.1 inFront).2.2 y earlier found (.head _))
          linarith
        · obtain rfl := List.mem_singleton.1 last
          linarith
      · intro y inside
        have lower := half (across found listed y inside)
        rw [Side.offset]
        linarith

end Ordered

section

open Ordered hiding id

variable {α ε : Type} [Ordered α] {items : List α} {x target : α}

/-- Moving an item of a list next to another gives it the number half a place off the other's. -/
theorem reorder_eq_arrange (missing : Id → ε) (distinct : (items.map Ordered.id).Nodup)
    (apart : (items.map order).Nodup) (member : x ∈ items) (present : target ∈ items)
    (other : x ≠ target) (side : Side) :
    reorder missing items (Ordered.id x) (Ordered.id target) side =
      .ok (arrange (placedWith items (Ordered.id x) (order target + side.offset))) := by
  have differs : Ordered.id target ≠ Ordered.id x := fun same =>
    other (List.inj_on_of_nodup_map distinct member present same.symm)
  obtain ⟨front, back, split, borders, reordered⟩ := reorder_eq_ok missing distinct member
    (List.mem_map_of_mem present) differs side
  have inside : (front ++ back).Sublist (sorted items) := split ▸ List.filter_sublist
  have remains : target ∈ front ++ back := by
    rw [← split]
    exact List.mem_filter.2 ⟨mem_sorted.2 present, decide_eq_true differs⟩
  have ascending := (pairwise_lt_sorted apart).sublist inside
  obtain ⟨below, above⟩ := offset_between borders
    ((nodup_map_id_sorted distinct).sublist (inside.map _)) remains ascending
  -- Only the moved item gets another number.
  have own : ∀ y ∈ front ++ back, (if Ordered.id y = Ordered.id x then
      ((order target + side.offset : ℚ), y) else placed y) = placed y := by
    intro y listed
    rw [← split] at listed
    exact if_neg (of_decide_eq_true (List.mem_filter.1 listed).2)
  have perm : (placedWith items (Ordered.id x) (order target + side.offset)).Perm
      (front.map placed ++ (order target + side.offset, x) :: back.map placed) := by
    refine ((perm_of_without distinct member split).symm.map _).trans (.of_eq ?_)
    rw [List.map_append, List.map_cons, if_pos rfl,
      List.map_congr_left fun y listed => own y (List.mem_append_left _ listed),
      List.map_congr_left fun y listed => own y (List.mem_append_right _ listed)]
  rw [reordered, arrange_eq below above ascending perm]

end

/-- Moving a member next to a member of another listing gives it the number half a place off that
one's. -/
theorem Listing.exists_moveBeside_eq_arrange {source destination : Listing}
    (unique : (source.members.map Member.id).Nodup)
    (distinct : (destination.members.map Member.id).Nodup)
    (apart : (destination.members.map Member.order).Nodup) {m target : Member}
    (member : m ∈ source.members) (present : target ∈ destination.members) (side : Side)
    (path : Path) : ∃ transfer,
      source.moveBeside destination m.id target.id side path = .ok transfer ∧
      transfer.destination = Ordered.arrange (destination.members.map Ordered.placed ++
        [((target.order : ℚ) + side.offset, m.rebased path)]) := by
  obtain ⟨rest, removed, -⟩ := exists_remove_eq_ok unique member
  obtain ⟨front, back, split, borders, moved⟩ :=
    exists_moveBeside_eq_ok removed (List.mem_map_of_mem present) side path
  have ascending := Ordered.pairwise_lt_sorted (α := Member) apart
  rw [split] at ascending
  obtain ⟨below, above⟩ := Ordered.offset_between borders
    (split ▸ Ordered.nodup_map_id_sorted (α := Member) distinct)
    (split ▸ Ordered.mem_sorted.2 present) ascending
  refine ⟨_, moved, (Ordered.arrange_eq below above ascending ?_).symm⟩
  refine (List.perm_append_singleton ..).trans (.trans (.cons _ ?_) List.perm_middle.symm)
  rw [← List.map_append, ← split]
  exact (Ordered.sorted_perm destination.members).symm.map _

/-- Moving a member or a root next to another gives it the number half a place before or after the
target's, arranges all by their numbers and numbers them from one, whether the member comes from
another place of the list or from another listing. -/
theorem landings_between :
    (∀ siblings : Listing, (siblings.members.map Member.id).Nodup →
      (siblings.members.map Member.order).Nodup →
      ∀ moved ∈ siblings.members, ∀ target ∈ siblings.members, moved ≠ target → ∀ side : Side,
        siblings.reorder moved.id target.id side = .ok (Ordered.arrange
          (Ordered.placedWith siblings.members moved.id (target.order + side.offset)))) ∧
    (∀ roots : List Root, (roots.map Root.id).Nodup → (roots.map Root.order).Nodup →
      ∀ moved ∈ roots, ∀ target ∈ roots, moved ≠ target → ∀ side : Side,
        reorderRoots roots moved.id target.id side = .ok (Ordered.arrange
          (Ordered.placedWith roots moved.id (target.order + side.offset)))) ∧
    ∀ source destination : Listing, (source.members.map Member.id).Nodup →
      (destination.members.map Member.id).Nodup → (destination.members.map Member.order).Nodup →
      ∀ moved ∈ source.members, ∀ target ∈ destination.members, ∀ (side : Side) (path : Path),
        ∃ transfer, source.moveBeside destination moved.id target.id side path = .ok transfer ∧
          transfer.destination = Ordered.arrange (destination.members.map Ordered.placed ++
            [((target.order : ℚ) + side.offset, moved.rebased path)]) := by
  refine ⟨?_, ?_, ?_⟩
  · intro siblings distinct apart moved member target present other side
    exact reorder_eq_arrange (α := Member) _ distinct apart member present other side
  · intro roots distinct apart moved member target present other side
    exact reorder_eq_arrange (α := Root) _ distinct apart member present other side
  · intro source destination unique distinct apart moved member target present side path
    exact Listing.exists_moveBeside_eq_arrange unique distinct apart member present side path

/-- Three notes with gaps between their numbers, the last of which is listed first. -/
def sparseNotes : Listing where
  container := .ofRoot (.ofRandom 9)
  members := [.fresh (.ofRandom 13) "last" 40 .leaf .root,
    .fresh (.ofRandom 11) "first" 2 .leaf .root, .fresh (.ofRandom 12) "middle" 7 .leaf .root]

/-- The last note comes before the first, the second of two roots before the other, and a note from
another listing after the last. -/
theorem sparseNotes_landings_between :
    let shelf : Root := { Root.fresh (.ofRandom 6) "shelf" .tree with order := 3 }
    let desk : Root := { Root.fresh (.ofRandom 7) "desk" .tree with order := 9 }
    let gone : Member := .fresh (.ofRandom 1) "gone" 1 .leaf .root
    sparseNotes.reorder (.ofRandom 13) (.ofRandom 11) .before = .ok (Ordered.arrange
        (Ordered.placedWith sparseNotes.members (.ofRandom 13)
          ((2 : Nat) + Side.before.offset))) ∧
      reorderRoots [shelf, desk] desk.id shelf.id .before = .ok (Ordered.arrange
        (Ordered.placedWith [shelf, desk] desk.id ((3 : Nat) + Side.before.offset))) ∧
      ∃ transfer, Listing.moveBeside ⟨.ofRoot (.ofRandom 8), Ordered.tiedNotes⟩ sparseNotes gone.id
          (.ofRandom 13) .after .root = .ok transfer ∧
        transfer.destination = Ordered.arrange (sparseNotes.members.map Ordered.placed ++
          [(((40 : Nat) : ℚ) + Side.after.offset, gone.rebased .root)]) := by
  intro shelf desk gone
  obtain ⟨among, roots, across⟩ := landings_between
  refine ⟨?_, ?_, ?_⟩
  · exact among sparseNotes (by decide) (by decide) _ (.head _) _ (.tail _ (.head _)) (by decide) _
  · exact roots [shelf, desk] (by decide) (by decide) desk (.tail _ (.head _)) shelf (.head _)
      (by decide) _
  · exact across _ sparseNotes (by decide) (by decide) (by decide) gone
      (.tail _ (.tail _ (.head _))) _ (.head _) _ _

end Outline
