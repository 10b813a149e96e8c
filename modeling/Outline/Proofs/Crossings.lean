import Outline.Proofs.Acceptance
import Outline.Proofs.Grounds
import Outline.Proofs.RoundTrips

/-!
# Crossings

What a drop comes to that takes a member from one container to another: the member is welcome there,
one list loses it and the other takes it in (`Outline.Workspace.Valid.exists_transfer`).
-/

namespace Outline

/-- The index at which a move between containers puts the member among those of its destination, in
the sequence that their numbers give. -/
def Move.Enters (landing : Forest) (index : Nat) : Move → Prop
  | .across _ _ target side => side.Borders target
      (((Ordered.sorted landing).take index).map Member.id)
      (((Ordered.sorted landing).drop index).map Member.id)
  | .intoMember .. | .intoRoot .. => index = landing.length
  | .within .. | .ofRoot .. => False

namespace Workspace

variable {w : Workspace} {m : Member}

section

variable {container : Container} {present : Forest} {site : Site} {frame : List Level}
  {put : Forest → Workspace}

namespace Valid

variable (valid : w.Valid)

include valid

theorem stands_of_window (window : w.Window container present site frame put)
    (member : m ∈ present) : w.Stands m site :=
  ⟨_, present, window.owns valid.members_distinct, member⟩

theorem exists_window_of_stands (stands : w.Stands m site) : ∃ present frame put,
    w.Window site.container present site frame put ∧ m ∈ present := by
  obtain ⟨owner, present, owns, member⟩ := stands
  obtain rfl : owner = .interior := valid.owner_eq owns.level_mem (List.mem_map_of_mem member)
  obtain ⟨frame, put, window⟩ := owns.exists_window valid.roots_distinct valid.members_distinct
  exact ⟨present, frame, put, window, member⟩

/-- A container is not below the members that it lists. -/
theorem not_mem_ids_of_window (window : w.Window container present site frame put)
    (member : m ∈ present) {node : Id} (below : container.node = some node) : node ∉ m.ids := by
  intro inside
  obtain ⟨level, deeper, same⟩ := List.mem_map.1
    ((m.map_container_levels_perm site).mem_iff.2 (List.mem_map_of_mem inside))
  have own : level.container = (site.level present).container := by
    have whole : site.container = .ofNode site.container.root node := by
      rw [window.container_eq]
      obtain ⟨root, _⟩ := container
      exact congrArg (Container.mk root) below
    exact same.trans whole.symm
  have containers := (window.levels.map Level.container).nodup_iff.1
    (nodup_map_container valid.roots_distinct valid.members_distinct)
  rw [Forest.levels, List.cons_append, List.map_cons, List.nodup_cons] at containers
  refine containers.1 (List.mem_map.2 ⟨level, List.mem_append_left _ ?_, own⟩)
  rw [Forest.innerLevels_eq_flatMap]
  exact List.mem_flatMap.2 ⟨m, member, deeper⟩

end Valid

end

section

variable {destination : Container} {landing : Forest} {here : Site} {move : Move} {origin : Origin}
  {location : Location} {family : Family}

namespace Valid

variable (valid : w.Valid)

include valid

/-- A member that is welcome in another container goes there, wherever it is put. -/
theorem exists_crossings (stands : w.Stands m here) (suits : family.Suits m here)
    (other : destination ≠ here.container) (welcome : w.Welcomes family m destination landing) :
    ∃ before there frameHere putHere frameThere putThere,
      w.Window here.container before here frameHere putHere ∧ m ∈ before ∧
      w.Window destination landing there frameThere putThere ∧ family.Inhabits there.shape ∧
      ∀ index, ∃ w', w.Outcome (transfer here.container destination before landing m there.path
          index) w' ∧
        w.Crossing w' m here.container destination here there before landing index := by
  obtain ⟨before, frameHere, putHere, src, member⟩ := valid.exists_window_of_stands stands
  obtain ⟨there, frameThere, putThere, dst⟩ := exists_window welcome.members
  obtain ⟨shape, depth, shaped, -, lands, -⟩ := welcome.fits
  obtain rfl : there.shape = shape := Option.some.inj (dst.shape.symm.trans shaped)
  refine ⟨before, there, frameHere, putHere, frameThere, putThere, src, member, dst,
    Family.landsIn_iff.1 lands, fun index => ?_⟩
  have found : (Located.mk m here.container here.depth).member = m := rfl
  obtain ⟨w', frame, outcome, relocated⟩ := valid.outcome_of_welcomes src member dst found other
    ⟨here.shape, src.shape, Family.describes_iff.2 suits⟩ welcome index
  exact ⟨w', outcome, ⟨_, _, src⟩, ⟨_, _, dst⟩, member, other, frame, relocated⟩

/-- What a classified move from one container to another comes to: the member is taken out here and
put in there. -/
theorem exists_transfer (classified : w.classify (.member family origin) location = .ok move)
    (crosses : move.destination? = some destination) :
    ∃ m w' here there before landing index, m.id = origin.member ∧
      w.Crossing w' m origin.container destination here there before landing index ∧
      move.Enters landing index ∧
      w.rearrange move =
        .ok (transfer origin.container destination before landing m there.path index) ∧
      w.Outcome (transfer origin.container destination before landing m there.path index) w' ∧
      family.Suits m here ∧ family.Inhabits there.shape := by
  obtain ⟨_, _, -, -, -, ⟨_, none, -⟩ | ⟨_, _, same, accepted⟩⟩ := classify_eq_ok_iff.1 classified
  · cases none
  cases same
  obtain ⟨m, here, stands, suits, rfl⟩ := valid.exists_stands_of_classifyMember accepted
  have found := valid.locateAt?_iff_stands.2 ⟨m, here, stands, rfl, rfl, rfl⟩
  cases admits_of_classifyMember accepted with
  | within => cases crosses
  | across side located _ listed other welcome =>
      cases crosses
      cases located.symm.trans found
      obtain ⟨before, there, _, _, _, _, src, member, dst, inhabits, carries⟩ :=
        valid.exists_crossings stands suits other welcome
      obtain ⟨present, _, _, _, window, inside, rfl⟩ := valid.exists_window_of_locateAt? listed
      obtain ⟨rfl, -⟩ := valid.window_ext window dst
      obtain ⟨index, borders, computed⟩ :=
        valid.rearrange_across src dst member (List.mem_map_of_mem inside) side
      obtain ⟨w', outcome, crossing⟩ := carries index
      exact ⟨m, w', here, there, before, _, index, rfl, crossing, borders, computed, outcome, suits,
        inhabits⟩
  | intoMember located _ other welcome | intoRoot located _ other welcome =>
      cases crosses
      cases located.symm.trans found
      obtain ⟨before, there, _, _, _, _, src, member, dst, inhabits, carries⟩ :=
        valid.exists_crossings stands suits other welcome
      obtain ⟨w', outcome, crossing⟩ := carries _
      exact ⟨m, w', here, there, before, _, _, rfl, crossing, rfl,
        valid.combine_eq_ok src dst member, outcome, suits, inhabits⟩

end Valid

end

end Workspace

end Outline
