import Outline.Proofs.Relocations
import Outline.Proofs.RootOrder
import Outline.Proofs.Withdrawals

/-!
# What rearrangements compute

The lists that each move and each edit computes from a valid workspace.  Where the containers are
there and list what the operation names, the computation succeeds
(`Outline.Workspace.Valid.rearrange_within` and its companions).
-/

namespace Outline

/-- A computation that succeeds does so step by step. -/
theorem exists_of_bind_eq_ok {ε α β : Type} {x : Except ε α} {f : α → Except ε β} {y : β}
    (ok : (x >>= f) = .ok y) : ∃ a, x = .ok a ∧ f a = .ok y := by
  cases x with
  | error e => cases ok
  | ok a => exact ⟨a, rfl, ok⟩

/-- What a computation gives does not depend on how its errors are reported. -/
theorem ok_of_mapError {ε ε' α : Type} {x : Except ε α} {f : ε → ε'} {y : α}
    (ok : x.mapError f = .ok y) : x = .ok y := by
  cases x with
  | error e => cases ok
  | ok a => rw [Except.ok.inj ok]

variable {w : Workspace}

/-- Taking a listed member out gives it as it is and numbers the others anew. -/
theorem Listing.remove_eq_ok (container : Container) {ms : Forest}
    (distinct : (ms.map Member.id).Nodup) (dense : Ordered.isDense ms = true) {m : Member}
    (member : m ∈ ms) : Listing.remove ⟨container, ms⟩ m.id =
      .ok (Ordered.renumber (ms.without m), m) := by
  have taken : takeOut? ms m.id = some (m, ms.without m) :=
    takeOut?_eq_some (α := Member) distinct member
  have rest : Ordered.withdraw? ms m.id = some (Ordered.renumber (ms.without m)) :=
    Ordered.withdraw?_eq (α := Member) distinct (Ordered.nodup_order_of_isDense dense) member
  simp only [remove, taken, rest]

/-- A listed member can be taken out whatever the numbers, and the others are numbered anew. -/
theorem Listing.exists_remove_eq_ok {source : Listing}
    (distinct : (source.members.map Member.id).Nodup) {m : Member} (member : m ∈ source.members) :
    ∃ rest, source.remove m.id = .ok (rest, m) ∧
      rest.map Member.order = List.range' 1 rest.length ∧
      Ordered.SameItems rest (source.members.filter (·.id ≠ m.id)) := by
  have taken : takeOut? source.members m.id = _ := takeOut?_eq_some (α := Member) distinct member
  have rest : Ordered.withdraw? source.members m.id = _ :=
    Ordered.withdraw?_eq_densify (α := Member) distinct member
  refine ⟨_, by simp only [remove, taken, rest]; rfl, ?_, ?_⟩
  · exact (Ordered.map_order_renumber _).trans
      (congrArg (List.range' 1) (Ordered.length_renumber _).symm)
  · exact (Ordered.perm_densify _).trans (Ordered.sameItems_closeGap _ _)

/-- The members of a list once the one called `id` has another name. -/
def Forest.renamed (ms : Forest) (id : Id) (name : String) (parent : Path) : Forest :=
  ms.map fun m => if m.id = id then { m with name := name }.rebased parent else m

namespace Workspace

theorem listing_eq_ok {container : Container} {ms : Forest}
    (members : w.members? container = some ms) :
    w.listing container = .ok ⟨container, ms⟩ := by
  rw [listing, members]

theorem path_eq_ok {container : Container} {path : Path} (found : w.path? container = some path) :
    w.path container = .ok path := by
  rw [Workspace.path, found]

section

variable {container : Container} {present : Forest} {site : Site} {frame : List Level}
  {put : Forest → Workspace} {m : Member}

theorem Valid.dense_present (valid : w.Valid)
    (window : w.Window container present site frame put) : Ordered.isDense present = true :=
  (Forest.sound_iff.1 (valid.sound window.level_mem)).1

/-- A member that moves next to a sibling is put back at the sibling's side. -/
theorem Valid.rearrange_within (valid : w.Valid)
    (window : w.Window container present site frame put) (member : m ∈ present) {target : Id}
    (listed : target ∈ present.map Member.id) (other : target ≠ m.id) (side : Side) :
    ∃ front back, present.without m = front ++ back ∧
      side.Borders target (front.map Member.id) (back.map Member.id) ∧
      w.rearrange (.within ⟨container, m.id⟩ target side) = .ok { changes := [{
        container := container, before := present,
        after := Ordered.renumber (front ++ m :: back) }] } := by
  obtain ⟨front, back, split, borders, moved⟩ := reorder_eq_ok (α := Member)
    (Absence.notAmong · container) (Forest.nodup_map_id (valid.nodup_present window)) member listed
    other side
  refine ⟨front, back, split, borders, ?_⟩
  have reordered : Listing.reorder ⟨container, present⟩ m.id target side =
    .ok (Ordered.renumber (front ++ m :: back)) := moved
  simp only [rearrange, listing_eq_ok window.members, bind, Except.bind, reordered]
  rfl

/-- A deleted member leaves its list, which is numbered anew. -/
theorem Valid.delete_eq_ok (valid : w.Valid)
    (window : w.Window container present site frame put) (member : m ∈ present) {found : Located}
    (located : w.locate? m.id = some found) (place : found.container = container) :
    w.delete m.id = .ok { changes := [{
      container := container, before := present, after := Ordered.renumber (present.without m),
      deleted := m.ids }] } := by
  have removed := Listing.remove_eq_ok container
    (Forest.nodup_map_id (valid.nodup_present window)) (valid.dense_present window) member
  subst place
  simp only [delete, located, listing_eq_ok window.members, bind, Except.bind, removed]
  rfl

/-- A new member comes last. -/
theorem Valid.add_eq_ok (valid : w.Valid)
    (window : w.Window container present site frame put) (name : String) (kind : Kind) (id : Id) :
    w.add container name kind id = .ok { changes := [{
      container := container, before := present,
      after := Ordered.insertAt present (.fresh id name 0 kind site.path) present.length }] } := by
  simp only [add, listing_eq_ok window.members, path_eq_ok (window.path valid.paths), bind,
    Except.bind]
  rfl

theorem Valid.rename_eq_ok (valid : w.Valid)
    (window : w.Window container present site frame put) {id : Id} {found : Located}
    (located : w.locate? id = some found) (place : found.container = container) (name : String) :
    w.rename id name = .ok { changes := [{
      container := container, before := present,
      after := present.renamed id name site.path }] } := by
  subst place
  simp only [rename, located, listing_eq_ok window.members, path_eq_ok (window.path valid.paths),
    bind, Except.bind]
  rfl

end

section

variable {source destination : Container} {before landing : Forest} {here there : Site}
  {frameHere frameThere : List Level} {putHere putThere : Forest → Workspace} {m : Member}

/-- What is computed for a member that goes from one list to another. -/
abbrev transfer (source destination : Container) (before landing : Forest) (m : Member)
    (path : Path) (index : Nat) : Rearrangement :=
  .ofTransfer ⟨source, before⟩ ⟨destination, landing⟩ {
    source := Ordered.renumber (before.without m)
    destination := Ordered.insertAt landing (m.rebased path) index
    moved := m }

/-- A member that moves next to a member of another list is put at that member's side. -/
theorem Valid.rearrange_across (valid : w.Valid)
    (src : w.Window source before here frameHere putHere)
    (dst : w.Window destination landing there frameThere putThere) (member : m ∈ before)
    {target : Id} (listed : target ∈ landing.map Member.id) (side : Side) :
    ∃ index, side.Borders target (((Ordered.sorted landing).take index).map Member.id)
        (((Ordered.sorted landing).drop index).map Member.id) ∧
      w.rearrange (.across ⟨source, m.id⟩ destination target side) =
        .ok (transfer source destination before landing m there.path index) := by
  have sorted : target ∈ (Ordered.sorted landing).map Ordered.id :=
    Ordered.mem_map_id_sorted.2 listed
  obtain ⟨index, found⟩ := landingIndex?_isSome sorted side
  have removed := Listing.remove_eq_ok source
    (Forest.nodup_map_id (valid.nodup_present src)) (valid.dense_present src) member
  have again : Ordered.insertAt (Ordered.sorted landing) (m.rebased there.path) index =
      Ordered.insertAt landing (m.rebased there.path) index := by
    rw [Ordered.insertAt_eq, Ordered.insertAt_eq,
      Ordered.sorted_eq_self (Ordered.pairwise_sorted landing)]
  refine ⟨index, borders_of_landingIndex? found, ?_⟩
  simp only [rearrange, listing_eq_ok src.members, listing_eq_ok dst.members,
    path_eq_ok (dst.path valid.paths), bind, Except.bind, Listing.moveBeside, removed, found, again]
  rfl

/-- A member that moves into a container comes last there. -/
theorem Valid.combine_eq_ok (valid : w.Valid)
    (src : w.Window source before here frameHere putHere)
    (dst : w.Window destination landing there frameThere putThere) (member : m ∈ before) :
    w.combine ⟨source, m.id⟩ destination =
      .ok (transfer source destination before landing m there.path landing.length) := by
  have removed := Listing.remove_eq_ok source
    (Forest.nodup_map_id (valid.nodup_present src)) (valid.dense_present src) member
  simp only [combine, listing_eq_ok src.members, listing_eq_ok dst.members,
    path_eq_ok (dst.path valid.paths), bind, Except.bind, Listing.moveLast, removed]
  rfl

end

end Workspace

end Outline
