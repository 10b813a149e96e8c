import Mathlib.Data.List.Forall2
import Outline.Proofs.Forest

/-!
# The way down

A member of a tree is told by its address, which says at each step which of the children to go down
to.  Two trees with the same fields at every address are one tree
(`Outline.Member.ext_of_descend?`).  Deriving the paths anew below a parent changes no field but the
paths, and the path at an address becomes that of the parent with the names on the way down
(`Outline.Member.rederived_rebased`).  No other tree is like that (`Outline.Member.rederived_iff`).
So deriving the paths anew changes nothing just if all of them derive from the parent already
(`Outline.Member.rebased_eq_self_iff`), which is what it means for a forest to be consistent
(`Outline.Forest.consistent_iff_derives`).
-/

namespace Outline

namespace Path

/-- The path that leads down through further names. -/
def extend (path : Path) (names : List String) : Path where
  segments := path.segments ++ names

theorem extend_cons (path : Path) (name : String) (names : List String) :
    path.extend (name :: names) = (path.child name).extend names :=
  congrArg Path.mk (List.append_cons path.segments name names)

end Path

namespace Member

/-- The member at an address below this one; `none` if the address leads out of the tree. -/
def descend? (m : Member) : (address : List Nat) → Option Member
  | [] => some m
  | index :: address => m.children[index]?.bind (·.descend? address)

/-- The names on the way down to an address, from the member's own on. -/
def namesTo (m : Member) : (address : List Nat) → List String
  | [] => [m.name]
  | index :: address => m.name :: m.children[index]?.elim [] (·.namesTo address)

/-- The second member has, at every address, what the first has there, but its path is that of the
parent with the names on the way down. -/
def Rederived (parent : Path) (old new : Member) : Prop :=
  ∀ address, (new.descend? address).map shallow = (old.descend? address).map fun n =>
    { n.shallow with path := parent.extend (old.namesTo address) }

/-- Every path in the tree is that of the parent with the names on the way down. -/
def Derives (parent : Path) (m : Member) : Prop :=
  ∀ address n, m.descend? address = some n → n.path = parent.extend (m.namesTo address)

end Member

/-- Forests with the same fields at every address are one forest. -/
theorem Forest.ext_of_descend? {ms ns : Forest}
    (alike : ∀ (index : Nat) (address : List Nat),
      (ms[index]?.bind (Member.descend? · address)).map Member.shallow =
        (ns[index]?.bind (Member.descend? · address)).map Member.shallow) : ms = ns := by
  induction ms using Forest.induct generalizing ns with
  | nil =>
      cases ns with
      | nil => rfl
      | cons n ns => cases alike 0 []
  | cons m ms inner later =>
      cases ns with
      | nil => cases alike 0 []
      | cons n ns =>
          have own : m.shallow = n.shallow := Option.some.inj (alike 0 [])
          have below := inner fun index address => alike 0 (index :: address)
          rw [Member.eq_of_shallow own below, later fun index => alike (index + 1)]

namespace Member

/-- Members with the same fields at every address are one member. -/
theorem ext_of_descend? {m n : Member}
    (alike : ∀ address, (m.descend? address).map shallow = (n.descend? address).map shallow) :
    m = n :=
  eq_of_shallow (Option.some.inj (alike [])) (Forest.ext_of_descend? fun index address =>
    alike (index :: address))

/-- Deriving the paths anew gives the member at each address the path of the parent with the names
on the way, and changes nothing else about it. -/
theorem rederived_rebased (m : Member) (parent : Path) : m.Rederived parent (m.rebased parent) := by
  intro address
  -- One step down, the parent's path is longer by a name and the names on the way are fewer by it.
  induction address generalizing m parent with
  | nil =>
      rw [rebased_eq]
      rfl
  | cons index address ih =>
      rw [descend?, descend?, children_rebased, Forest.rebased_eq_map, List.getElem?_map]
      cases step : m.children[index]? with
      | none => rfl
      | some child =>
          rw [Option.map_some, Option.bind_some, Option.bind_some, ih, namesTo, step,
            Path.extend_cons]
          rfl

/-- The paths of a tree can be derived anew in one way only. -/
theorem rederived_iff {m n : Member} {parent : Path} :
    m.Rederived parent n ↔ n = m.rebased parent := by
  constructor
  · intro rederived
    exact ext_of_descend? fun address =>
      (rederived address).trans (m.rederived_rebased parent address).symm
  · rintro rfl
    exact m.rederived_rebased parent

/-- Deriving the paths anew changes nothing just if every path derives from the parent already. -/
theorem rebased_eq_self_iff {m : Member} {parent : Path} :
    m.rebased parent = m ↔ m.Derives parent := by
  rw [eq_comm, ← rederived_iff]
  constructor
  · intro same address n there
    have own := same address
    rw [there] at own
    exact congrArg Member.path (Option.some.inj own)
  · intro derives address
    refine Option.map_congr fun n there => ?_
    rw [← derives address n there]
    rfl

end Member

/-- A forest is consistent just if all paths in it derive from that of the parent. -/
theorem Forest.consistent_iff_derives {ms : Forest} {parent : Path} :
    Consistent ms parent ↔ ∀ m ∈ ms, m.Derives parent := by
  simp only [← Member.rebased_eq_self_iff]
  calc Consistent ms parent
    _ ↔ ms.map (·.rebased parent) = ms.map id := by rw [Consistent, rebased_eq_map, List.map_id]
    _ ↔ ∀ m ∈ ms, m.rebased parent = m := List.map_inj_left

namespace Member

theorem rebased_rebased (m : Member) (first second : Path) :
    (m.rebased first).rebased second = m.rebased second :=
  List.head_eq_of_cons_eq (Forest.rebased_rebased [m] first second)

/-- A tree whose paths are derived anew has at every address the path of the parent with the names
on the way down, and all other fields as they were.  It does not matter below which parent the tree
was before, and nothing changes just if every path derives from the parent already.  Children that
are given to a member likewise have paths that derive from its own, and all other fields as they
come. -/
theorem rebased_derives (m : Member) (p q : Path) (children : Forest) :
    (m.rebased p).Derives p ∧ m.Rederived p (m.rebased p) ∧
      (m.rebased p).rebased q = m.rebased q ∧ (m.rebased p = m ↔ m.Derives p) ∧
      (∀ child ∈ (m.withChildren children).children, child.Derives m.path) ∧
      List.Forall₂ (Rederived m.path) children (m.withChildren children).children ∧
      (m.withChildren children).shallow = m.shallow := by
  refine ⟨rebased_eq_self_iff.1 (m.rebased_rebased p p), m.rederived_rebased p,
    m.rebased_rebased p q, rebased_eq_self_iff, ?_, ?_, rfl⟩
  · exact Forest.consistent_iff_derives.1 (Forest.consistent_rebased children m.path)
  · change List.Forall₂ _ _ (Forest.rebased children m.path)
    rw [Forest.rebased_eq_map, List.forall₂_map_right_iff, List.forall₂_same]
    exact fun child _ => child.rederived_rebased m.path

/-- A folder whose leaf has a path of its own does not derive from the root's.  It derives from any
parent once its paths are derived anew there, and from its owner once it is given to one. -/
theorem looseFolder_rebased_derives :
    let leaf : Member := .fresh (.ofRandom 3) "leaf" 1 .leaf .root
    let folder : Member :=
      { Member.fresh (.ofRandom 2) "folder" 1 .interior .root with children := [leaf] }
    let owner : Member := .fresh (.ofRandom 1) "owner" 1 .interior .root
    ¬folder.Derives .root ∧ (folder.rebased ⟨["away"]⟩).Derives ⟨["away"]⟩ ∧
      ∃ child ∈ (owner.withChildren [folder]).children,
        child.id = folder.id ∧ child.Derives owner.path := by
  intro leaf folder owner
  obtain ⟨derives, -⟩ := folder.rebased_derives ⟨["away"]⟩ .root []
  obtain ⟨-, -, -, loose, -⟩ := folder.rebased_derives .root .root []
  obtain ⟨-, -, -, -, given, -⟩ := owner.rebased_derives .root .root [folder]
  refine ⟨mt loose.2 (by decide), derives, folder.rebased owner.path, .head _, rfl, ?_⟩
  exact given _ (.head _)

/-- A leaf follows the folder two levels above it to another parent. -/
example :
    let leaf : Member := .fresh (.ofRandom 3) "leaf" 1 .leaf .root
    let inner := (Member.fresh (.ofRandom 2) "inner" 1 .interior .root).withChildren [leaf]
    let outer := (Member.fresh (.ofRandom 1) "outer" 1 .interior .root).withChildren [inner]
    ((outer.rebased ⟨["away"]⟩).descend? [0, 0]).map Member.path =
      some ⟨["away", "outer", "inner", "leaf"]⟩ := by
  decide

end Member

end Outline
