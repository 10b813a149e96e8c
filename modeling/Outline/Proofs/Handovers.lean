import Outline.Proofs.Landings

/-!
# Members that change hands

A member goes from one list to another, next to a member there or to the end.  The lists may be in
any sequence, with gaps and repeats in their numbers.  Nothing gets lost and nothing else changes:
both lists hold what they held but for the one member, are numbered from one, and the one it comes
to keeps its sequence around it (`Outline.Transfer.Conserves`).  A member can go as soon as it is
listed, and so is what it goes next to (`Outline.handovers_conserve`).
-/

namespace Outline

/-- Two lists of members once the one called `moved` has gone from the one to the other, which is
listed at `path`. -/
structure Transfer.Conserves (transfer : Transfer) (source destination : Forest) (moved : Id)
    (path : Path) : Prop where
  /-- The member is given as it was. -/
  original : transfer.moved ∈ source ∧ transfer.moved.id = moved
  /-- The others stay, with other numbers at most. -/
  remaining : Ordered.SameItems transfer.source (source.filter (·.id ≠ moved))
  /-- There the member comes with what is below it, all paths derived anew. -/
  arrived : ∃ landed, Forest.Repathed path [transfer.moved] [landed] ∧
    Ordered.SameItems transfer.destination (landed :: destination)
  numbered : transfer.source.map Member.order = List.range' 1 transfer.source.length
  numbered_there :
    transfer.destination.map Member.order = List.range' 1 transfer.destination.length
  /-- The members that were there keep the sequence that their numbers gave. -/
  sequence : (transfer.destination.map Member.id).filter (· ≠ moved) =
    (Ordered.sorted destination).map Member.id

/-- What answers a request to take a member from one list to another.  It succeeds just if it is
`possible`, and then the member stands where `placed` says that it should. -/
structure Handover (source destination : Forest) (moved : Id) (path : Path) (possible : Prop)
    (placed : List Id → Prop) (answer : Except Absence Transfer) : Prop where
  succeeds : (∃ transfer, answer = .ok transfer) ↔ possible
  conserves : ∀ transfer, answer = .ok transfer →
    transfer.Conserves source destination moved path ∧
      placed (transfer.destination.map Member.id)

/-- A request that succeeds only if it is possible, and then does as it should. -/
theorem Handover.of_carriedOut {source destination : Forest} {moved : Id} {path : Path}
    {possible : Prop} {placed : List Id → Prop} {answer : Except Absence Transfer}
    (necessary : ∀ transfer, answer = .ok transfer → possible)
    (carriedOut : possible → ∃ transfer, answer = .ok transfer ∧
      transfer.Conserves source destination moved path ∧
      placed (transfer.destination.map Member.id)) :
    Handover source destination moved path possible placed answer where
  succeeds := by
    constructor
    · rintro ⟨transfer, done⟩
      exact necessary transfer done
    · intro holds
      obtain ⟨transfer, done, -⟩ := carriedOut holds
      exact ⟨transfer, done⟩
  conserves transfer done := by
    obtain ⟨again, done', conserved⟩ := carriedOut (necessary transfer done)
    rw [Except.ok.inj (done.symm.trans done')]
    exact conserved

theorem Forest.map_id_renumber_rebased (front back : Forest) (m : Member) (path : Path) :
    (Ordered.renumber (front ++ m.rebased path :: back)).map Member.id =
      front.map Member.id ++ m.id :: back.map Member.id := by
  refine (Ordered.map_id_renumber _).trans ?_
  rw [List.map_append, List.map_cons]
  exact congrArg (_ ++ · :: _) (m.id_rebased path)

/-- Wherever a member is put in among the members of another list, all is conserved. -/
theorem Transfer.conserves_of_split {source destination : Forest} {m : Member}
    (distinct : (source.map Member.id ++ destination.map Member.id).Nodup) (member : m ∈ source)
    {rest : Forest} (numbered : rest.map Member.order = List.range' 1 rest.length)
    (remaining : Ordered.SameItems rest (source.filter (·.id ≠ m.id))) {front back : Forest}
    (split : Ordered.sorted destination = front ++ back) (path : Path) :
    Conserves ⟨rest, Ordered.renumber (front ++ m.rebased path :: back), m⟩ source destination m.id
      path where
  original := ⟨member, rfl⟩
  remaining := remaining
  arrived := by
    refine ⟨m.rebased path, Forest.repathed_rebased [m] path, ?_⟩
    refine (Ordered.SameItems.renumber _).trans (.of_perm (List.perm_middle.trans (.cons _ ?_)))
    rw [← split]
    exact Ordered.sorted_perm destination
  numbered := numbered
  numbered_there := (Ordered.map_order_renumber _).trans
    (congrArg (List.range' 1) (Ordered.length_renumber _).symm)
  sequence := by
    have elsewhere : ∀ x ∈ (Ordered.sorted destination).map Member.id, x ≠ m.id := by
      rintro x inside rfl
      exact List.disjoint_of_nodup_append distinct (List.mem_map_of_mem member)
        (Ordered.mem_map_id_sorted.1 inside)
    rw [Forest.map_id_renumber_rebased, filter_middle, ← List.map_append, ← split]
    exact List.filter_eq_self.2 fun x inside => decide_eq_true (elsewhere x inside)

section

variable {source destination : Listing}
  (distinct : (source.members.map Member.id ++ destination.members.map Member.id).Nodup)

include distinct

theorem handover_moveBeside (moved target : Id) (side : Side) (path : Path) :
    Handover source.members destination.members moved path
      (moved ∈ source.members.map Member.id ∧ target ∈ destination.members.map Member.id)
      (side.Adjoins moved target) (source.moveBeside destination moved target side path) := by
  refine .of_carriedOut (fun _ done => Listing.listed_of_moveBeside done) ?_
  rintro ⟨listed, present⟩
  obtain ⟨m, member, rfl⟩ := List.mem_map.1 listed
  obtain ⟨rest, removed, numbered, remaining⟩ :=
    Listing.exists_remove_eq_ok distinct.of_append_left member
  obtain ⟨front, back, split, borders, done⟩ :=
    Listing.exists_moveBeside_eq_ok removed present side path
  refine ⟨_, done, Transfer.conserves_of_split distinct member numbered remaining split path, ?_⟩
  rw [Forest.map_id_renumber_rebased]
  exact borders.adjoins _

theorem handover_moveLast (moved : Id) (path : Path) :
    Handover source.members destination.members moved path (moved ∈ source.members.map Member.id)
      (·.getLast? = some moved) (source.moveLast destination.members moved path) := by
  refine .of_carriedOut (fun _ done => Listing.listed_of_moveLast done) ?_
  intro listed
  obtain ⟨m, member, rfl⟩ := List.mem_map.1 listed
  obtain ⟨rest, removed, numbered, remaining⟩ :=
    Listing.exists_remove_eq_ok distinct.of_append_left member
  have done : source.moveLast destination.members m.id path = .ok {
      source := rest
      destination :=
        Ordered.renumber (Ordered.sorted destination.members ++ m.rebased path :: [])
      moved := m } := by
    simp only [Listing.moveLast, removed, Ordered.append_eq]
  refine ⟨_, done, Transfer.conserves_of_split distinct member numbered remaining
    (List.append_nil _).symm path, ?_⟩
  rw [Forest.map_id_renumber_rebased, List.map_nil, List.getLast?_concat]

end

/-- Between two lists whose members all differ, a member can go next to any member of the other list
and to its end, and nothing else can be asked for.  Either way nothing is lost or changed but for
numbers, the place and, below the new place, the paths. -/
theorem handovers_conserve (source destination : Listing)
    (distinct : (source.members.map Member.id ++ destination.members.map Member.id).Nodup)
    (moved : Id) (path : Path) :
    (∀ target side, Handover source.members destination.members moved path
      (moved ∈ source.members.map Member.id ∧ target ∈ destination.members.map Member.id)
      (side.Adjoins moved target) (source.moveBeside destination moved target side path)) ∧
    Handover source.members destination.members moved path (moved ∈ source.members.map Member.id)
      (·.getLast? = some moved) (source.moveLast destination.members moved path) :=
  ⟨fun target side => handover_moveBeside distinct moved target side path,
    handover_moveLast distinct moved path⟩

/-- A folder with a note in it goes between two notes that share a number, and behind them all. -/
theorem tiedNotes_handovers_conserve :
    let folder : Member := ⟨.ofRandom 4, "folder", 7, .interior, Path.root.child "folder",
      [.fresh (.ofRandom 5) "note" 1 .leaf (Path.root.child "folder")]⟩
    let source : Listing := ⟨.ofRoot (.ofRandom 8), [folder]⟩
    let destination : Listing := ⟨.ofRoot (.ofRandom 9), Ordered.tiedNotes⟩
    let path := Path.root.child "shelf"
    (∃ transfer,
      source.moveBeside destination (.ofRandom 4) (.ofRandom 1) .before path = .ok transfer ∧
      transfer.Conserves source.members destination.members (.ofRandom 4) path ∧
      transfer.destination.map Member.id =
        [.ofRandom 2, .ofRandom 4, .ofRandom 1, .ofRandom 3]) ∧
    ∃ transfer, source.moveLast destination.members (.ofRandom 4) path = .ok transfer ∧
      transfer.Conserves source.members destination.members (.ofRandom 4) path ∧
      (transfer.destination.map Member.id).getLast? = some (.ofRandom 4) := by
  intro folder source destination path
  obtain ⟨beside, last⟩ := handovers_conserve source destination (by decide) (.ofRandom 4) path
  have between := beside (.ofRandom 1) .before
  obtain ⟨transfer, done⟩ := between.succeeds.2 (by decide)
  obtain ⟨transfer', done'⟩ := last.succeeds.2 (by decide)
  refine ⟨⟨transfer, done, (between.conserves transfer done).1, ?_⟩, transfer', done',
    last.conserves transfer' done'⟩
  obtain rfl := Except.ok.inj done
  decide

end Outline
