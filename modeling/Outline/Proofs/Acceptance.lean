import Outline.Proofs.Places
import Outline.Proofs.Reconciliation

/-!
# Which drops are accepted

When a drop is admissible, said by where members stand and without any search or check
(`Outline.Workspace.Admissible`).  In a valid workspace these are the drops that are classified, no
others and none less (`Outline.Workspace.Valid.classify_accepts_iff`).
-/

namespace Outline

/-- The shapes of the roots in which members of a family may land. -/
inductive Family.Inhabits : Family → Shape → Prop where
  | tree : Inhabits .treeNode .tree
  | flatList : Inhabits .listItem .flatList
  | groupedList : Inhabits .listItem .groupedList

/-- What a family says of a member and of the place where it stands. -/
inductive Family.Suits : Family → Member → Site → Prop where
  | treeNode {m : Member} {site : Site} (tree : site.shape = .tree) : Suits .treeNode m site
  | listItem {m : Member} {site : Site} (leaf : m.kind = .leaf)
      (list : site.shape = .flatList ∨ site.shape = .groupedList) : Suits .listItem m site
  | group {m : Member} {site : Site} (grouped : site.shape = .groupedList) (top : site.depth = 0) :
      Suits .group m site

theorem Family.landsIn_iff {family : Family} {shape : Shape} :
    family.landsIn shape = true ↔ family.Inhabits shape := by
  constructor
  · intro lands
    cases family <;> cases shape <;> first | constructor | cases lands
  · rintro (_ | _ | _) <;> rfl

theorem Family.describes_iff {family : Family} {m : Member} {container : Container} {site : Site} :
    family.describes site.shape ⟨m, container, site.depth⟩ = true ↔ family.Suits m site := by
  constructor
  · intro describes
    cases family with
    | treeNode => exact .treeNode (of_decide_eq_true describes)
    | listItem =>
        have both : m.kind = .leaf ∧ (site.shape = .flatList ∨ site.shape = .groupedList) := by
          simpa [Family.describes] using describes
        exact .listItem both.1 both.2
    | group =>
        have both : site.shape = .groupedList ∧ site.depth = 0 := by
          simpa [Family.describes] using describes
        exact .group both.1 both.2
  · rintro (tree | ⟨leaf, list⟩ | ⟨grouped, top⟩)
    · simp [describes, tree]
    · simp [describes, leaf, list]
    · simp [describes, grouped, top]

namespace Workspace

/-- The container that a drop names as the destination of the member called `moved`. -/
inductive Names (w : Workspace) (moved : Id) : Action → Target → Container → Prop where
  /-- Beside another member, the container that lists it. -/
  | beside {m : Member} {site : Site} (side : Side) (stands : w.Stands m site)
      (other : m.id ≠ moved) :
      Names w moved (.beside side) (.member site.container m.id) site.container
  /-- Onto another member that may own children, that member. -/
  | ontoMember {m : Member} {site : Site} (stands : w.Stands m site) (other : m.id ≠ moved)
      (interior : m.kind = .interior) : Names w moved .combine (.member site.container m.id)
        (.ofNode site.container.root m.id)
  /-- Onto the header of a root, the root. -/
  | ontoRoot {r : Root} (listed : r ∈ w.roots) : Names w moved .combine (.root r.id) (.ofRoot r.id)

/-- The destination is neither the member itself nor below it, it is in a root of the family, which
lets members of the kind stand there, and lists no member with the same name in lower case. -/
def Receives (w : Workspace) (family : Family) (m : Member) (destination : Container) : Prop :=
  ∃ site ms, w.Owns site .interior ms ∧ site.container = destination ∧
    (∀ node, destination.node = some node → node ∉ m.ids) ∧ family.Inhabits site.shape ∧
    site.shape.accepts site.depth m.kind = true ∧
    ∀ s ∈ ms, Text.lower s.name ≠ Text.lower m.name

/-- The drops that make sense in a workspace. -/
inductive Admissible (w : Workspace) : Payload → Action → Target → Prop where
  /-- A root next to another. -/
  | root {r other : Root} (side : Side) (listed : r ∈ w.roots) (there : other ∈ w.roots)
      (differs : other.id ≠ r.id) : Admissible w (.root r.id) (.beside side) (.root other.id)
  /-- A member next to a sibling. -/
  | sibling {family : Family} {m other : Member} {site : Site} (side : Side)
      (stands : w.Stands m site) (suits : family.Suits m site) (there : w.Stands other site)
      (differs : other.id ≠ m.id) : Admissible w (.member family ⟨site.container, m.id⟩)
        (.beside side) (.member site.container other.id)
  /-- A member into another container. -/
  | elsewhere {family : Family} {m : Member} {site : Site} {action : Action} {target : Target}
      {destination : Container} (stands : w.Stands m site) (suits : family.Suits m site)
      (single : family ≠ .group) (names : w.Names m.id action target destination)
      (differs : destination ≠ site.container) (receives : w.Receives family m destination) :
      Admissible w (.member family ⟨site.container, m.id⟩) action target

variable {w : Workspace}

theorem root?_isSome_iff {id : Id} : (w.root? id).isSome ↔ ∃ r ∈ w.roots, r.id = id := by
  rw [root?, List.find?_isSome]
  simp

namespace Valid

variable (valid : w.Valid)

include valid

theorem locateAt?_iff_stands {container : Container} {id : Id} {found : Located} :
    w.locateAt? container id = some found ↔ ∃ m site, w.Stands m site ∧ m.id = id ∧
      site.container = container ∧ found = ⟨m, site.container, site.depth⟩ := by
  rw [locateAt?_eq_some_iff]
  constructor
  · rintro ⟨search, rfl⟩
    obtain ⟨named, site, stands, -, container, depth, -⟩ :=
      stands_of_locateIn? valid.members_distinct search
    refine ⟨found.member, site, stands, named, container, ?_⟩
    rw [container, depth]
  · rintro ⟨m, site, stands, rfl, rfl, rfl⟩
    exact ⟨stands.locateIn?_eq valid.members_distinct valid.roots_distinct, rfl⟩

/-- A member that stands elsewhere is welcome exactly where it is received. -/
theorem welcomes_iff {family : Family} {m : Member} {site : Site} {destination : Container}
    (stands : w.Stands m site) (differs : destination ≠ site.container) :
    (∃ siblings, w.Welcomes family m destination siblings) ↔ w.Receives family m destination := by
  constructor
  · rintro ⟨siblings, welcome⟩
    obtain ⟨place, rfl, owns⟩ := (members?_eq_some_iff valid.roots_distinct
      valid.members_distinct).1 welcome.members
    obtain ⟨frame, put, window⟩ := owns.exists_window valid.roots_distinct valid.members_distinct
    obtain ⟨shape, depth, shaped, deep, lands, accepted⟩ := welcome.fits
    obtain rfl : place.shape = shape := Option.some.inj (window.shape.symm.trans shaped)
    obtain rfl : place.depth = depth := Option.some.inj (window.depth.symm.trans deep)
    refine ⟨place, siblings, owns, rfl, welcome.acyclic, Family.landsIn_iff.1 lands, accepted,
      fun s listed => welcome.apart s listed fun same => differs ?_⟩
    have there : w.Stands s place := ⟨_, siblings, owns, listed⟩
    exact there.container_ext valid.members_distinct stands same
  · rintro ⟨place, siblings, owns, rfl, acyclic, inhabits, accepted, apart⟩
    obtain ⟨frame, put, window⟩ := owns.exists_window valid.roots_distinct valid.members_distinct
    exact ⟨siblings, acyclic, ⟨place.shape, place.depth, window.shape, window.depth,
      Family.landsIn_iff.2 inhabits, accepted⟩, window.members, fun s listed _ => apart s listed⟩

/-- Where a member stands, a drop of it is classified by what the target is. -/
theorem classifyMember_iff_of_stands {family : Family} {m : Member} {site : Site}
    {action : Action} {target : Target} {move : Move} (stands : w.Stands m site)
    (suits : family.Suits m site) :
    w.classifyMember family ⟨site.container, m.id⟩ action target = .ok move ↔
      (∃ root, action = .combine ∧ target = .root root ∧
        w.classifyOntoRoot family ⟨site.container, m.id⟩ ⟨m, site.container, site.depth⟩ root =
          .ok move) ∨
      (∃ container id, action = .combine ∧ target = .member container id ∧
        w.classifyOntoMember family ⟨site.container, m.id⟩ ⟨m, site.container, site.depth⟩
          container id = .ok move) ∨
      ∃ side container id, action = .beside side ∧ target = .member container id ∧
        w.classifyBeside family ⟨site.container, m.id⟩ ⟨m, site.container, site.depth⟩
          container id side = .ok move := by
  have located := valid.locateAt?_iff_stands.2 ⟨m, site, stands, rfl, rfl, rfl⟩
  have shaped := stands.shape?_eq valid.roots_distinct
  rw [classifyMember_eq_ok_iff]
  constructor
  · rintro ⟨source, shape, search, -, -, accepted⟩
    obtain rfl := Option.some.inj (located.symm.trans search)
    exact accepted
  · exact fun accepted => ⟨_, _, located, shaped, Family.describes_iff.2 suits, accepted⟩

/-- What is classified is a member that suits its family, where it is said to be. -/
theorem exists_stands_of_classifyMember {family : Family} {origin : Origin} {action : Action}
    {target : Target} {move : Move}
    (classified : w.classifyMember family origin action target = .ok move) :
    ∃ m site, w.Stands m site ∧ family.Suits m site ∧ origin = ⟨site.container, m.id⟩ := by
  obtain ⟨source, shape, located, shaped, describes, -⟩ := classifyMember_eq_ok_iff.1 classified
  obtain ⟨container, id⟩ := origin
  obtain ⟨m, site, stands, rfl, rfl, rfl⟩ := valid.locateAt?_iff_stands.1 located
  obtain rfl : site.shape = shape :=
    Option.some.inj ((stands.shape?_eq valid.roots_distinct).symm.trans shaped)
  exact ⟨m, site, stands, Family.describes_iff.1 describes, rfl⟩

/-- A drop of a member that is accepted is admissible. -/
theorem admissible_of_classifyMember {family : Family} {origin : Origin} {action : Action}
    {target : Target} {move : Move}
    (classified : w.classifyMember family origin action target = .ok move) :
    w.Admissible (.member family origin) action target := by
  obtain ⟨m, site, stands, suits, rfl⟩ := valid.exists_stands_of_classifyMember classified
  rcases (valid.classifyMember_iff_of_stands stands suits).1 classified with
    ⟨root, rfl, rfl, onto⟩ | ⟨container, target, rfl, rfl, onto⟩ |
    ⟨side, container, target, rfl, rfl, beside⟩
  · obtain ⟨single, present, differs, welcome, -⟩ := classifyOntoRoot_eq_ok_iff.1 onto
    obtain ⟨r, listed, rfl⟩ := root?_isSome_iff.1 present
    exact .elsewhere stands suits single (.ontoRoot listed) differs
      ((valid.welcomes_iff stands differs).1 welcome)
  · obtain ⟨single, other, found, there, interior, differs, welcome, -⟩ :=
      classifyOntoMember_eq_ok_iff.1 onto
    obtain ⟨n, place, stands', rfl, rfl, rfl⟩ := valid.locateAt?_iff_stands.1 there
    exact .elsewhere stands suits single (.ontoMember stands' other interior) differs
      ((valid.welcomes_iff stands differs).1 welcome)
  · obtain ⟨other, ⟨found, there⟩, split⟩ := classifyBeside_eq_ok_iff.1 beside
    obtain ⟨n, place, stands', rfl, rfl, rfl⟩ := valid.locateAt?_iff_stands.1 there
    rcases split with ⟨same, -⟩ | ⟨differs, single, welcome, -⟩
    · obtain rfl : place = site :=
        stands'.site_eq valid.members_distinct valid.roots_distinct stands same
      exact .sibling side stands suits stands' other
    · exact .elsewhere stands suits single (.beside side stands' other) differs
        ((valid.welcomes_iff stands differs).1 welcome)

/-- A drop of a member that is admissible is accepted. -/
theorem exists_move_of_admissible {family : Family} {origin : Origin} {action : Action}
    {target : Target} (admissible : w.Admissible (.member family origin) action target) :
    ∃ move, w.classifyMember family origin action target = .ok move := by
  cases admissible with
  | @sibling _ m other site side stands suits there differs =>
      have listed := valid.locateAt?_iff_stands.2 ⟨other, site, there, rfl, rfl, rfl⟩
      refine ⟨.within ⟨site.container, m.id⟩ other.id side,
        (valid.classifyMember_iff_of_stands stands suits).2 (.inr (.inr ⟨_, _, _, rfl, rfl, ?_⟩))⟩
      exact classifyBeside_eq_ok_iff.2 ⟨differs, ⟨_, listed⟩, .inl ⟨rfl, rfl⟩⟩
  | @elsewhere _ m site _ _ destination stands suits single names differs receives =>
      have welcome := (valid.welcomes_iff stands differs).2 receives
      cases names with
      | @beside n place side stands' other =>
          have listed := valid.locateAt?_iff_stands.2 ⟨n, place, stands', rfl, rfl, rfl⟩
          refine ⟨.across ⟨site.container, m.id⟩ place.container n.id side,
            (valid.classifyMember_iff_of_stands stands suits).2
              (.inr (.inr ⟨_, _, _, rfl, rfl, ?_⟩))⟩
          exact classifyBeside_eq_ok_iff.2
            ⟨other, ⟨_, listed⟩, .inr ⟨differs, single, welcome, rfl⟩⟩
      | @ontoMember n place stands' other interior =>
          have listed := valid.locateAt?_iff_stands.2 ⟨n, place, stands', rfl, rfl, rfl⟩
          refine ⟨.intoMember ⟨site.container, m.id⟩ (.ofNode place.container.root n.id),
            (valid.classifyMember_iff_of_stands stands suits).2
              (.inr (.inl ⟨_, _, rfl, rfl, ?_⟩))⟩
          exact classifyOntoMember_eq_ok_iff.2
            ⟨single, other, _, listed, interior, differs, welcome, rfl⟩
      | @ontoRoot r listed =>
          refine ⟨.intoRoot ⟨site.container, m.id⟩ r.id,
            (valid.classifyMember_iff_of_stands stands suits).2 (.inl ⟨_, rfl, rfl, ?_⟩)⟩
          exact classifyOntoRoot_eq_ok_iff.2
            ⟨single, root?_isSome_iff.2 ⟨r, listed, rfl⟩, differs, welcome, rfl⟩

end Valid

theorem classifyRoot_accepts_iff {root : Id} {action : Action} {target : Target} :
    (∃ move, w.classifyRoot root action target = .ok move) ↔
      w.Admissible (.root root) action target := by
  simp only [classifyRoot_eq_ok_iff, root?_isSome_iff]
  constructor
  · rintro ⟨move, ⟨r, listed, rfl⟩, side, -, rfl, rfl, differs, ⟨other, there, rfl⟩, -⟩
    exact .root side listed there differs
  · rintro (@⟨r, other, side, listed, there, differs⟩)
    exact ⟨_, ⟨r, listed, rfl⟩, side, _, rfl, rfl, differs, ⟨other, there, rfl⟩, rfl⟩

/-- A drop is accepted exactly if the innermost target carries an instruction that is not blocked
and the drop there is admissible. -/
theorem Valid.classify_accepts_iff (valid : w.Valid) {payload : Payload} {location : Location} :
    (∃ move, w.classify payload location = .ok move) ↔
      ∃ candidate instruction, location.candidates.head? = some candidate ∧
        candidate.instruction = some instruction ∧ instruction.blocked = false ∧
        w.Admissible payload instruction.action candidate.target := by
  have dragged : ∀ action target, (∃ move, (∃ root, payload = .root root ∧
      w.classifyRoot root action target = .ok move) ∨ ∃ family origin,
        payload = .member family origin ∧
          w.classifyMember family origin action target = .ok move) ↔
      w.Admissible payload action target := by
    intro action target
    cases payload with
    | root root => simpa using classifyRoot_accepts_iff
    | member family origin =>
        have accepts : (∃ move, w.classifyMember family origin action target = .ok move) ↔
            w.Admissible (.member family origin) action target := by
          refine ⟨?_, valid.exists_move_of_admissible⟩
          rintro ⟨move, classified⟩
          exact valid.admissible_of_classifyMember classified
        simpa using accepts
  simp only [classify_eq_ok_iff, Location.innermost?]
  constructor
  · rintro ⟨move, candidate, instruction, first, carried, free, accepted⟩
    exact ⟨candidate, instruction, first, carried, free, (dragged _ _).1 ⟨move, accepted⟩⟩
  · rintro ⟨candidate, instruction, first, carried, free, admissible⟩
    obtain ⟨move, accepted⟩ := (dragged _ _).2 admissible
    exact ⟨move, candidate, instruction, first, carried, free, accepted⟩

open Reconciler in
/-- The note is dropped onto the folder next to it. -/
theorem noteTree_classify_accepts :
    ∃ move, noteTree.classify (.member .treeNode looseNote) ontoFolder = .ok move := by
  have top : noteTree.Owns _ _ _ := .root (.head _)
  have folder : noteTree.Stands _ _ := ⟨_, _, top, .head _⟩
  have note : noteTree.Stands _ _ := ⟨_, _, top, .tail _ (.head _)⟩
  refine noteTree_valid.classify_accepts_iff.2 ⟨_, _, rfl, rfl, rfl, ?_⟩
  refine .elsewhere note (.treeNode rfl) (by decide) (.ontoMember folder (by decide) rfl)
    (by decide) ?_
  exact ⟨_, _, top.member (.head _), rfl, by decide, .tree, rfl, by decide⟩

end Workspace

end Outline
