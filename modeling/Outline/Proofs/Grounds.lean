import Outline.Proofs.Rearrangements

/-!
# What moves presuppose

A move is computed only from a workspace that has all the move names, whatever else is wrong with it
(`Outline.Workspace.grounds_of_rearrange`).
-/

namespace Outline

section

variable {α : Type} [Ordered α] {items : List α}

/-- Nothing gets lost when an item is taken out. -/
theorem perm_of_takeFirst? {id : Id} {x : α} {rest : List α}
    (taken : takeFirst? id items = some (x, rest)) :
    Ordered.id x = id ∧ items.Perm (x :: rest) := by
  induction items generalizing rest with
  | nil => cases taken
  | cons y ys ih =>
      rw [takeFirst?] at taken
      by_cases named : Ordered.id y = id
      · rw [if_pos named] at taken
        cases taken
        exact ⟨named, .refl _⟩
      · rw [if_neg named] at taken
        obtain ⟨⟨z, zs⟩, later, same⟩ := Option.map_eq_some_iff.1 taken
        cases same
        obtain ⟨named, perm⟩ := ih later
        exact ⟨named, (perm.cons y).trans (.swap ..)⟩

theorem perm_of_takeOut? {id : Id} {x : α} {rest : List α}
    (taken : takeOut? items id = some (x, rest)) :
    Ordered.id x = id ∧ items.Perm (x :: rest) := by
  obtain ⟨named, perm⟩ := perm_of_takeFirst? taken
  exact ⟨named, (Ordered.sorted_perm items).symm.trans perm⟩

theorem mem_of_landingIndex? {target : Id} {side : Side} {index : Nat}
    (found : landingIndex? items target side = some index) : target ∈ items.map Ordered.id := by
  by_contra absent
  rw [landingIndex?_eq_none absent] at found
  cases found

/-- An item is put next to another only if both are listed, and only the sequence changes. -/
theorem listed_of_reorder {ε : Type} {missing : Id → ε} {moved target : Id} {side : Side}
    {after : List α} (reordered : reorder missing items moved target side = .ok after) :
    moved ∈ items.map Ordered.id ∧ target ∈ items.map Ordered.id ∧
      (after.map Ordered.id).Perm (items.map Ordered.id) := by
  rw [reorder] at reordered
  split at reordered
  next => cases reordered
  next item rest taken =>
    split at reordered
    next => cases reordered
    next index found =>
      obtain ⟨rfl, perm⟩ := perm_of_takeOut? taken
      have ids := perm.map Ordered.id
      refine ⟨ids.mem_iff.2 (.head _), ids.mem_iff.2 (.tail _ (mem_of_landingIndex? found)), ?_⟩
      obtain rfl := Except.ok.inj reordered
      rw [Ordered.insertAt_eq, Ordered.map_id_renumber]
      refine ((Ordered.perm_insertion rest item index).map Ordered.id).trans (.trans ?_ ids.symm)
      exact (List.perm_append_singleton item rest).map Ordered.id

end

namespace Listing

variable {source destination : Listing} {ms : Forest} {moved target : Id} {path : Path}

theorem listed_of_remove {removed : Forest × Member} (ok : source.remove moved = .ok removed) :
    moved ∈ source.members.map Member.id := by
  by_contra absent
  rw [remove, takeOut?_eq_none (α := Member) absent] at ok
  cases ok

theorem listed_of_moveBeside {side : Side} {transfer : Transfer}
    (ok : source.moveBeside destination moved target side path = .ok transfer) :
    moved ∈ source.members.map Member.id ∧ target ∈ destination.members.map Member.id := by
  rw [moveBeside] at ok
  split at ok
  next => cases ok
  next removed =>
    dsimp only at ok
    split at ok
    next => cases ok
    next found =>
      exact ⟨listed_of_remove removed, Ordered.mem_map_id_sorted.1 (mem_of_landingIndex? found)⟩

theorem listed_of_moveLast {transfer : Transfer}
    (ok : source.moveLast ms moved path = .ok transfer) :
    moved ∈ source.members.map Member.id := by
  rw [moveLast] at ok
  split at ok
  next => cases ok
  next removed => exact listed_of_remove removed

end Listing

namespace Move

/-- The members that a move names, each with the container that has to list it. -/
def places : Move → List (Container × Id)
  | .within origin target _ =>
    [(origin.container, origin.member), (origin.container, target)]
  | .across origin destination target _ =>
    [(origin.container, origin.member), (destination, target)]
  | .intoMember origin _ | .intoRoot origin _ => [(origin.container, origin.member)]
  | .ofRoot .. => []

/-- The containers whose lists a move changes. -/
def containers : Move → List Container
  | .within origin _ _ => [origin.container]
  | .across origin destination _ _ | .intoMember origin destination =>
    [origin.container, destination]
  | .intoRoot origin root => [origin.container, .ofRoot root]
  | .ofRoot .. => []

/-- The container to which a move takes a member from another one. -/
def destination? : Move → Option Container
  | .across _ destination _ _ | .intoMember _ destination => some destination
  | .intoRoot _ root => some (.ofRoot root)
  | .within .. | .ofRoot .. => none

/-- The roots that a move names as items of the list of roots. -/
def roots : Move → List Id
  | .ofRoot root target _ => [root, target]
  | _ => []

end Move

namespace Workspace

/-- The container is there and lists a member with the identifier. -/
def Lists (w : Workspace) (container : Container) (id : Id) : Prop :=
  ∃ ms, w.members? container = some ms ∧ id ∈ ms.map Member.id

/-- What holds of a workspace from which a move has been computed. -/
structure Grounds (w : Workspace) (move : Move) (planned : Rearrangement) : Prop where
  places : ∀ place ∈ move.places, w.Lists place.1 place.2
  roots : ∀ id ∈ move.roots, id ∈ w.roots.map Root.id
  containers : ∀ container ∈ move.containers, (w.members? container).isSome
  /-- The lists of these containers change. -/
  changes : planned.changes.map Change.container = move.containers
  /-- A move of roots changes the list of all of them. -/
  slots : move.roots ≠ [] → ∃ change, planned.roots = some change ∧
    (change.after.map Root.id).Perm (w.roots.map Root.id)

variable {w : Workspace} {planned : Rearrangement}

theorem members?_of_listing {container : Container} {listing : Listing}
    (ok : w.listing container = .ok listing) :
    w.members? container = some listing.members ∧ listing.container = container := by
  rw [Workspace.listing] at ok
  split at ok
  next members => cases ok; exact ⟨members, rfl⟩
  next => cases ok

theorem grounds_of_within {origin : Origin} {target : Id} {side : Side}
    (computed : w.rearrange (.within origin target side) = .ok planned) :
    w.Grounds (.within origin target side) planned := by
  obtain ⟨siblings, listing, computed⟩ := exists_of_bind_eq_ok computed
  obtain ⟨after, reordered, done⟩ := exists_of_bind_eq_ok computed
  obtain ⟨members, -⟩ := members?_of_listing listing
  obtain ⟨moved, beside, -⟩ := listed_of_reorder (α := Member) reordered
  obtain rfl := Except.ok.inj done
  exact {
    places := by
      refine List.forall_mem_cons.2 ⟨⟨_, members, moved⟩, List.forall_mem_singleton.2 ?_⟩
      exact ⟨_, members, beside⟩
    roots := List.forall_mem_nil _
    containers := List.forall_mem_singleton.2 (Option.isSome_of_eq_some members)
    changes := rfl
    slots := fun some => absurd rfl some }

theorem grounds_of_across {origin : Origin} {destination : Container} {target : Id} {side : Side}
    (computed : w.rearrange (.across origin destination target side) = .ok planned) :
    w.Grounds (.across origin destination target side) planned := by
  obtain ⟨source, listing, computed⟩ := exists_of_bind_eq_ok computed
  obtain ⟨landing, listing', computed⟩ := exists_of_bind_eq_ok computed
  obtain ⟨path, -, computed⟩ := exists_of_bind_eq_ok computed
  obtain ⟨transfer, moves, done⟩ := exists_of_bind_eq_ok computed
  obtain ⟨members, here⟩ := members?_of_listing listing
  obtain ⟨members', there⟩ := members?_of_listing listing'
  obtain ⟨moved, beside⟩ := Listing.listed_of_moveBeside moves
  obtain rfl := Except.ok.inj done
  exact {
    places := by
      refine List.forall_mem_cons.2 ⟨⟨_, members, moved⟩, List.forall_mem_singleton.2 ?_⟩
      exact ⟨_, members', beside⟩
    roots := List.forall_mem_nil _
    containers := by
      refine List.forall_mem_cons.2 ⟨Option.isSome_of_eq_some members, ?_⟩
      exact List.forall_mem_singleton.2 (Option.isSome_of_eq_some members')
    changes := congrArg₂ (fun source landing => [source, landing]) here there
    slots := fun some => absurd rfl some }

/-- What holds if a member can be moved to the end of a container. -/
theorem listed_of_combine {origin : Origin} {destination : Container}
    (computed : w.combine origin destination = .ok planned) :
    w.Lists origin.container origin.member ∧ (w.members? destination).isSome ∧
      planned.changes.map Change.container = [origin.container, destination] := by
  obtain ⟨source, listing, computed⟩ := exists_of_bind_eq_ok computed
  obtain ⟨landing, listing', computed⟩ := exists_of_bind_eq_ok computed
  obtain ⟨path, -, computed⟩ := exists_of_bind_eq_ok computed
  obtain ⟨transfer, moves, done⟩ := exists_of_bind_eq_ok computed
  obtain ⟨members, here⟩ := members?_of_listing listing
  obtain ⟨members', there⟩ := members?_of_listing listing'
  obtain rfl := Except.ok.inj done
  refine ⟨⟨_, members, Listing.listed_of_moveLast moves⟩, Option.isSome_of_eq_some members', ?_⟩
  rw [← here, ← there]
  rfl

theorem grounds_of_ofRoot {root target : Id} {side : Side}
    (computed : w.rearrange (.ofRoot root target side) = .ok planned) :
    w.Grounds (.ofRoot root target side) planned := by
  obtain ⟨after, reordered, done⟩ := exists_of_bind_eq_ok computed
  obtain ⟨moved, beside, ids⟩ := listed_of_reorder (α := Root) reordered
  obtain rfl := Except.ok.inj done
  have shallow : (w.roots.map Root.shallow).map Ordered.id = w.roots.map Root.id := List.map_map
  rw [shallow] at moved beside ids
  exact {
    places := List.forall_mem_nil _
    roots := List.forall_mem_cons.2 ⟨moved, List.forall_mem_singleton.2 beside⟩
    containers := List.forall_mem_nil _
    changes := rfl
    slots := fun _ => ⟨_, rfl, ids⟩ }

/-- A move that can be computed names nothing that is not there. -/
theorem grounds_of_rearrange {move : Move} (computed : w.rearrange move = .ok planned) :
    w.Grounds move planned := by
  have combined : ∀ {origin : Origin} {destination : Container},
      w.combine origin destination = .ok planned →
      move.places = [(origin.container, origin.member)] → move.roots = [] →
      move.containers = [origin.container, destination] → w.Grounds move planned := by
    intro origin destination computed places roots containers
    obtain ⟨⟨ms, here, listed⟩, there, changes⟩ := listed_of_combine computed
    exact {
      places := by rw [places]; exact List.forall_mem_singleton.2 ⟨ms, here, listed⟩
      roots := by rw [roots]; exact List.forall_mem_nil _
      containers := by
        rw [containers]
        refine List.forall_mem_cons.2 ⟨Option.isSome_of_eq_some here, ?_⟩
        exact List.forall_mem_singleton.2 there
      changes := by rw [containers, changes]
      slots := fun some => absurd roots some }
  cases move with
  | within origin target side => exact grounds_of_within computed
  | across origin destination target side => exact grounds_of_across computed
  | intoMember origin destination => exact combined computed rfl rfl rfl
  | intoRoot origin root => exact combined computed rfl rfl rfl
  | ofRoot root target side => exact grounds_of_ofRoot computed

/-- A move of a member leaves the list of roots as it is. -/
theorem roots_of_rearrange {move : Move} (computed : w.rearrange move = .ok planned)
    (ofMember : move.roots = []) : planned.roots = none := by
  have combined : ∀ {origin : Origin} {container : Container},
      w.combine origin container = .ok planned → planned.roots = none := by
    intro origin container computed
    obtain ⟨_, -, computed⟩ := exists_of_bind_eq_ok computed
    obtain ⟨_, -, computed⟩ := exists_of_bind_eq_ok computed
    obtain ⟨_, -, computed⟩ := exists_of_bind_eq_ok computed
    obtain ⟨_, -, done⟩ := exists_of_bind_eq_ok computed
    exact (Except.ok.inj done) ▸ rfl
  cases move with
  | ofRoot => cases ofMember
  | within =>
      obtain ⟨_, -, computed⟩ := exists_of_bind_eq_ok computed
      obtain ⟨_, -, done⟩ := exists_of_bind_eq_ok computed
      exact (Except.ok.inj done) ▸ rfl
  | intoMember | intoRoot => exact combined computed
  | across =>
      obtain ⟨_, -, computed⟩ := exists_of_bind_eq_ok computed
      obtain ⟨_, -, computed⟩ := exists_of_bind_eq_ok computed
      obtain ⟨_, -, computed⟩ := exists_of_bind_eq_ok computed
      obtain ⟨_, -, done⟩ := exists_of_bind_eq_ok computed
      exact (Except.ok.inj done) ▸ rfl

end Workspace

end Outline
