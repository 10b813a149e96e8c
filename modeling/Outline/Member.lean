import Outline.Id
import Outline.Path
import Outline.Text.Lower

/-!
# Members

A member is an entry with a place among its siblings and, if it is interior, children of its own.  A
forest is the ordered list of members that a container owns.
-/

namespace Outline

/-- Whether a member may own children. -/
inductive Kind where
  | leaf
  | interior
  deriving DecidableEq, Inhabited

/-- The name of a kind in messages and stored rows. -/
def Kind.text : Kind → String
  | .leaf => "leaf"
  | .interior => "interior"

/-- The kind that a text names. -/
def Kind.ofText? : String → Option Kind
  | "leaf" => some .leaf
  | "interior" => some .interior
  | _ => none

@[simp] theorem Kind.ofText?_text (kind : Kind) : Kind.ofText? kind.text = some kind := by
  cases kind <;> rfl

/-- An entry of a container.  At rest `order` counts its siblings from one and `path` ends in
`name`. -/
structure Member where
  id : Id
  name : String
  order : Nat
  kind : Kind
  path : Path
  children : List Member
  deriving Inhabited

/-- The members that a container owns, in their listed order. -/
abbrev Forest := List Member

mutual

/-- Members are equal when all their fields are, children included. -/
def Member.decEq : (a b : Member) → Decidable (a = b)
  | ⟨id, name, order, kind, path, children⟩, ⟨id', name', order', kind', path', children'⟩ =>
    if fields : id = id' ∧ name = name' ∧ order = order' ∧ kind = kind' ∧ path = path' then
      match Forest.decEq children children' with
      | isTrue same => isTrue (by
          obtain ⟨rfl, rfl, rfl, rfl, rfl⟩ := fields
          rw [same])
      | isFalse differ => isFalse fun same => differ (by injection same)
    else
      isFalse fun same => fields (by
        injection same with h₁ h₂ h₃ h₄ h₅ h₆
        exact ⟨h₁, h₂, h₃, h₄, h₅⟩)

/-- Forests are equal when their members are, one by one. -/
def Forest.decEq : (a b : List Member) → Decidable (a = b)
  | [], [] => isTrue rfl
  | [], _ :: _ => isFalse (by simp)
  | _ :: _, [] => isFalse (by simp)
  | m :: ms, n :: ns =>
    match Member.decEq m n, Forest.decEq ms ns with
    | isTrue head, isTrue tail => isTrue (by rw [head, tail])
    | isFalse head, _ => isFalse fun same => head (by injection same)
    | _, isFalse tail => isFalse fun same => tail (by injection same)

end

instance : DecidableEq Member := Member.decEq

namespace Member

/-- A member without children, placed directly under the container at `parent`. -/
def fresh (id : Id) (name : String) (order : Nat) (kind : Kind) (parent : Path) : Member where
  id := id
  name := name
  order := order
  kind := kind
  path := parent.child name
  children := []

/-- Whether the member may own children. -/
def isInterior (m : Member) : Bool :=
  m.kind = .interior

/-- Whether the member's name equals `name` in lower case. -/
def nameMatches (m : Member) (name : String) : Bool :=
  Text.lower m.name = Text.lower name

/-- The member without its children. -/
def shallow (m : Member) : Member :=
  { m with children := [] }

end Member

mutual

/-- The member placed under the container at `parent`, with its own path and all below it derived
anew. -/
def Member.rebased : Member → (parent : Path) → Member
  | ⟨id, name, order, kind, _, children⟩, parent =>
    ⟨id, name, order, kind, parent.child name, Forest.rebased children (parent.child name)⟩

/-- Every member of the forest placed under the container at `parent`. -/
def Forest.rebased : List Member → (parent : Path) → List Member
  | [], _ => []
  | m :: ms, parent => m.rebased parent :: Forest.rebased ms parent

end

mutual

/-- Whether a member strictly below this one has the identifier. -/
def Member.contains : Member → Id → Bool
  | ⟨_, _, _, _, _, children⟩, id => Forest.containsId children id

/-- Whether a member of the forest, at any depth, has the identifier. -/
def Forest.containsId : List Member → Id → Bool
  | [], _ => false
  | m :: ms, id => m.id = id || m.contains id || Forest.containsId ms id

end

mutual

/-- The member and all members below it, each before its children. -/
def Member.subtree : Member → List Member
  | ⟨id, name, order, kind, path, children⟩ =>
    ⟨id, name, order, kind, path, children⟩ :: Forest.subtrees children

/-- All members of the forest, each before its children. -/
def Forest.subtrees : List Member → List Member
  | [] => []
  | m :: ms => m.subtree ++ Forest.subtrees ms

end

namespace Member

/-- The member with other children, whose paths are derived anew below its own. -/
def withChildren (m : Member) (children : Forest) : Member :=
  { m with children := Forest.rebased children m.path }

/-- The identifiers of the member and all members below it. -/
def ids (m : Member) : List Id :=
  m.subtree.map Member.id

end Member

/-- The identifiers of all members of the forest. -/
def Forest.ids (ms : Forest) : List Id :=
  (Forest.subtrees ms).map Member.id

namespace Member

variable (m : Member) (parent : Path)

@[simp] theorem id_rebased : (m.rebased parent).id = m.id := by
  cases m
  rfl

@[simp] theorem name_rebased : (m.rebased parent).name = m.name := by
  cases m
  rfl

@[simp] theorem order_rebased : (m.rebased parent).order = m.order := by
  cases m
  rfl

@[simp] theorem kind_rebased : (m.rebased parent).kind = m.kind := by
  cases m
  rfl

@[simp] theorem path_rebased : (m.rebased parent).path = parent.child m.name := by
  cases m
  rfl

@[simp] theorem children_rebased :
    (m.rebased parent).children = Forest.rebased m.children (parent.child m.name) := by
  cases m
  rfl

theorem subtree_eq : m.subtree = m :: Forest.subtrees m.children := by
  cases m
  rfl

end Member

mutual

theorem Member.contains_iff : ∀ (m : Member) (id : Id),
    m.contains id = true ↔ id ∈ Forest.ids m.children
  | ⟨_, _, _, _, _, children⟩, id => by
    rw [Member.contains]
    exact Forest.containsId_iff children id

/-- A forest contains the identifiers that it lists. -/
theorem Forest.containsId_iff : ∀ (ms : List Member) (id : Id),
    Forest.containsId ms id = true ↔ id ∈ Forest.ids ms
  | [], _ => by simp [Forest.containsId, Forest.ids, Forest.subtrees]
  | m :: ms, id => by
    have below := m.contains_iff id
    have later := Forest.containsId_iff ms id
    simp only [Forest.ids] at below later
    simp only [Forest.containsId, Forest.ids, Forest.subtrees, Member.subtree_eq, below, later,
      Bool.or_eq_true, decide_eq_true_eq, List.map_append, List.map_cons, List.mem_append,
      List.mem_cons]
    rw [eq_comm (a := id)]

end

mutual

@[simp] theorem Member.ids_rebased : ∀ (m : Member) (parent : Path), (m.rebased parent).ids = m.ids
  | ⟨id, name, _, _, _, children⟩, parent => by
    have below := Forest.ids_rebased children (parent.child name)
    simp only [Forest.ids] at below
    simp [Member.ids, Member.rebased, Member.subtree, below]

/-- Other paths leave all identifiers as they are. -/
@[simp] theorem Forest.ids_rebased : ∀ (ms : List Member) (parent : Path),
    Forest.ids (Forest.rebased ms parent) = Forest.ids ms
  | [], _ => rfl
  | m :: ms, parent => by
    have first := Member.ids_rebased m parent
    have later := Forest.ids_rebased ms parent
    simp only [Member.ids, Forest.ids] at first later
    simp [Forest.ids, Forest.rebased, Forest.subtrees, first, later]

end

theorem Forest.rebased_eq_map (ms : Forest) (parent : Path) :
    Forest.rebased ms parent = ms.map (·.rebased parent) := by
  induction ms with
  | nil => rfl
  | cons m ms ih => simp [Forest.rebased, ih]

theorem Forest.subtrees_eq_flatMap (ms : Forest) :
    Forest.subtrees ms = ms.flatMap Member.subtree := by
  induction ms with
  | nil => rfl
  | cons m ms ih => simp [Forest.subtrees, ih]

end Outline
