import Outline.Proofs.Soundness
import Outline.Reconcile

/-!
# What the rules admit

The conditions under which a move or an edit passes its checks, read off the checks once and for
all.  `Outline.Workspace.checkDestination_eq_ok_iff`, `Outline.Workspace.checkInsert_eq_ok_iff`
and `Outline.Workspace.checkRename_eq_ok_iff` are exact; `Outline.Workspace.admits_of_classify`
says what every classified move comes with.
-/

namespace Outline

theorem findCollision?_eq_none_iff {siblings : Forest} {name : String} {except : Option Id} :
    findCollision? siblings name except = none ↔
      ∀ s ∈ siblings, some s.id ≠ except → Text.lower s.name ≠ Text.lower name := by
  rw [findCollision?, List.find?_eq_none]
  refine forall_congr' fun s => imp_congr_right fun _ => ?_
  simp [Member.nameMatches]

theorem Member.mem_ids_iff {m : Member} {id : Id} :
    id ∈ m.ids ↔ id = m.id ∨ m.contains id = true := by
  rw [ids_eq, List.mem_cons, contains_iff]

namespace Workspace

variable {w : Workspace}

/-- What it takes for a member to move into a container whose members are `siblings`. -/
structure Welcomes (w : Workspace) (family : Family) (moved : Member) (destination : Container)
    (siblings : Forest) : Prop where
  acyclic : ∀ node, destination.node = some node → node ∉ moved.ids
  fits : ∃ shape depth, w.shape? destination = some shape ∧ w.depth? destination = some depth ∧
    family.landsIn shape = true ∧ shape.accepts depth moved.kind = true
  members : w.members? destination = some siblings
  apart : ∀ s ∈ siblings, s.id ≠ moved.id → Text.lower s.name ≠ Text.lower moved.name

theorem checkDestination_eq_ok_iff {family : Family} {source : Located}
    {destination : Container} : w.checkDestination family source destination = .ok () ↔
      ∃ siblings, w.Welcomes family source.member destination siblings := by
  have cyclic : (destination.node.any fun node =>
      node = source.member.id || source.member.contains node) = false ↔
      ∀ node, destination.node = some node → node ∉ source.member.ids := by
    rw [Option.any_eq_false]
    refine forall_congr' fun node => imp_congr_right fun _ => ?_
    rw [Member.mem_ids_iff]
    simp
  unfold checkDestination
  dsimp only
  by_cases inside : (destination.node.any fun node =>
      node = source.member.id || source.member.contains node) = true
  · rw [if_pos inside]
    constructor
    · intro refused
      cases refused
    · rintro ⟨siblings, welcome⟩
      rw [cyclic.2 welcome.acyclic] at inside
      cases inside
  · rw [if_neg inside]
    have acyclic := cyclic.1 (Bool.eq_false_iff.2 inside)
    constructor
    · intro passed
      cases shaped : w.shape? destination with
      | none =>
          rw [shaped] at passed
          cases passed
      | some shape =>
          cases deep : w.depth? destination with
          | none =>
              rw [shaped, deep] at passed
              cases passed
          | some depth =>
              rw [shaped, deep] at passed
              dsimp only at passed
              split at passed
              next accepted =>
                rw [Bool.and_eq_true] at accepted
                split at passed
                next => cases passed
                next siblings members =>
                  split at passed
                  next => cases passed
                  next none =>
                    refine ⟨siblings, acyclic, ⟨shape, depth, shaped, deep, accepted⟩, members, ?_⟩
                    intro s member differ
                    exact findCollision?_eq_none_iff.1 none s member (by simpa using differ)
              next => cases passed
    · rintro ⟨siblings, -, ⟨shape, depth, shaped, deep, lands, accepted⟩, members, apart⟩
      have none : findCollision? siblings source.member.name (some source.member.id) = none :=
        findCollision?_eq_none_iff.2 fun s member differ => apart s member (by simpa using differ)
      rw [shaped, deep]
      simp only [lands, accepted, Bool.and_self, if_true, members, none]

theorem checkInsert_eq_ok_iff {container : Container} {name : String} {kind : Kind} :
    w.checkInsert container name kind = .ok () ↔ Text.isBlank name = false ∧
      ∃ shape depth siblings, w.shape? container = some shape ∧ w.depth? container = some depth ∧
        shape.accepts depth kind = true ∧ w.members? container = some siblings ∧
        ∀ s ∈ siblings, Text.lower s.name ≠ Text.lower name := by
  unfold checkInsert
  by_cases blank : Text.isBlank name = true
  · rw [if_pos blank]
    constructor
    · intro refused
      cases refused
    · rintro ⟨named, -⟩
      cases blank.symm.trans named
  · rw [if_neg blank]
    have named := Bool.eq_false_iff.2 blank
    constructor
    · intro passed
      cases shaped : w.shape? container with
      | none =>
          rw [shaped] at passed
          cases passed
      | some shape =>
          cases members : w.members? container with
          | none =>
              rw [shaped, members] at passed
              cases passed
          | some siblings =>
              cases deep : w.depth? container with
              | none =>
                  rw [shaped, members, deep] at passed
                  cases passed
              | some depth =>
                  rw [shaped, members, deep] at passed
                  dsimp only at passed
                  split at passed
                  next accepted =>
                    split at passed
                    next => cases passed
                    next none =>
                      exact ⟨named, shape, depth, siblings, rfl, rfl, accepted, rfl,
                        fun s member => findCollision?_eq_none_iff.1 none s member (by simp)⟩
                  next => cases passed
    · rintro ⟨-, shape, depth, siblings, shaped, deep, accepted, members, apart⟩
      have none : findCollision? siblings name none = none :=
        findCollision?_eq_none_iff.2 fun s member _ => apart s member
      rw [shaped, members, deep]
      simp only [accepted, if_true, none]

theorem checkRename_eq_ok_iff {id : Id} {name : String} {container : Container} :
    w.checkRename id name = .ok container ↔ Text.isBlank name = false ∧
      ∃ found siblings, w.locate? id = some found ∧ found.container = container ∧
        w.members? container = some siblings ∧
        ∀ s ∈ siblings, s.id ≠ id → Text.lower s.name ≠ Text.lower name := by
  unfold checkRename
  by_cases blank : Text.isBlank name = true
  · rw [if_pos blank]
    constructor
    · intro refused
      cases refused
    · rintro ⟨named, -⟩
      cases blank.symm.trans named
  · rw [if_neg blank]
    have named := Bool.eq_false_iff.2 blank
    constructor
    · intro passed
      cases located : w.locate? id with
      | none =>
          rw [located] at passed
          cases passed
      | some found =>
          rw [located] at passed
          dsimp only at passed
          split at passed
          next => cases passed
          next siblings members =>
            split at passed
            next => cases passed
            next none =>
              obtain rfl := Except.ok.inj passed
              refine ⟨named, found, siblings, rfl, rfl, members, fun s member differ => ?_⟩
              exact findCollision?_eq_none_iff.1 none s member (by simpa using differ)
    · rintro ⟨-, found, siblings, located, rfl, members, apart⟩
      have none : findCollision? siblings name (some id) = none :=
        findCollision?_eq_none_iff.2 fun s member differ => apart s member (by simpa using differ)
      rw [located]
      simp only [members, none]

theorem locateAt?_eq_some_iff {container : Container} {id : Id} {found : Located} :
    w.locateAt? container id = some found ↔
      w.locateIn? container.root id = some found ∧ found.container = container := by
  rw [locateAt?, Option.filter_eq_some_iff, decide_eq_true_eq]

/-- What a classified move comes with. -/
inductive Admits (w : Workspace) : Payload → Move → Prop where
  | within {family origin source found target} (side : Side)
      (located : w.locateAt? origin.container origin.member = some source)
      (there : w.locateAt? origin.container target = some found)
      (other : target ≠ origin.member) :
      Admits w (.member family origin) (.within origin target side)
  | across {family origin source destination found target siblings} (side : Side)
      (located : w.locateAt? origin.container origin.member = some source)
      (described : ∃ shape, w.shape? origin.container = some shape ∧
        family.describes shape source = true)
      (there : w.locateAt? destination target = some found)
      (other : destination ≠ origin.container)
      (welcome : w.Welcomes family source.member destination siblings) :
      Admits w (.member family origin) (.across origin destination target side)
  | intoMember {family origin source destination siblings}
      (located : w.locateAt? origin.container origin.member = some source)
      (described : ∃ shape, w.shape? origin.container = some shape ∧
        family.describes shape source = true)
      (other : destination ≠ origin.container)
      (welcome : w.Welcomes family source.member destination siblings) :
      Admits w (.member family origin) (.intoMember origin destination)
  | intoRoot {family origin source root siblings}
      (located : w.locateAt? origin.container origin.member = some source)
      (described : ∃ shape, w.shape? origin.container = some shape ∧
        family.describes shape source = true)
      (other : Container.ofRoot root ≠ origin.container)
      (welcome : w.Welcomes family source.member (.ofRoot root) siblings) :
      Admits w (.member family origin) (.intoRoot origin root)
  | ofRoot {root target} (side : Side) (present : (w.root? root).isSome)
      (there : (w.root? target).isSome) (other : target ≠ root) :
      Admits w (.root root) (.ofRoot root target side)

theorem map_eq_ok_iff {ε β : Type} {x : Except ε Unit} {f : Unit → β} {y : β} :
    x.map f = .ok y ↔ x = .ok () ∧ y = f () := by
  cases x with
  | error e => simp [Except.map]
  | ok => simp [Except.map, eq_comm]

theorem classifyRoot_eq_ok_iff {root : Id} {action : Action} {target : Target} {move : Move} :
    w.classifyRoot root action target = .ok move ↔ (w.root? root).isSome ∧ ∃ side other,
      action = .beside side ∧ target = .root other ∧ other ≠ root ∧ (w.root? other).isSome ∧
      move = .ofRoot root other side := by
  unfold classifyRoot
  cases present : w.root? root with
  | none => simp
  | some r =>
      rw [if_neg (by simp), and_iff_right Option.isSome_some]
      cases action with
      | combine => cases target <;> simp
      | beside side =>
          cases target with
          | member container member => simp
          | root other =>
              by_cases same : other = root
              · simp [same]
              cases there : w.root? other with
              | none => simp [same, there]
              | some t =>
                  dsimp only
                  rw [if_neg same, if_neg (by simp [there]), Except.ok.injEq]
                  constructor
                  · rintro rfl
                    exact ⟨side, other, rfl, rfl, same, by rw [there]; rfl, rfl⟩
                  · rintro ⟨side, other, ⟨⟩, ⟨⟩, -, -, rfl⟩
                    rfl

section

variable {family : Family} {origin : Origin} {source : Located} {move : Move}

theorem classifyOntoRoot_eq_ok_iff {root : Id} :
    w.classifyOntoRoot family origin source root = .ok move ↔ family ≠ .group ∧
      (w.root? root).isSome ∧ Container.ofRoot root ≠ source.container ∧
      (∃ siblings, w.Welcomes family source.member (.ofRoot root) siblings) ∧
      move = .intoRoot origin root := by
  unfold classifyOntoRoot
  by_cases group : family = .group
  · simp [group]
  cases there : w.root? root with
  | none => simp [group]
  | some r =>
      by_cases same : Container.ofRoot root = source.container
      · simp [group, same]
      rw [if_neg group, if_neg (by simp), if_neg same, map_eq_ok_iff, checkDestination_eq_ok_iff]
      simp [group, same]

theorem classifyOntoMember_eq_ok_iff {container : Container} {target : Id} :
    w.classifyOntoMember family origin source container target = .ok move ↔ family ≠ .group ∧
      target ≠ origin.member ∧ ∃ found, w.locateAt? container target = some found ∧
      found.member.kind = .interior ∧ Container.ofNode container.root target ≠ source.container ∧
      (∃ siblings, w.Welcomes family source.member (.ofNode container.root target) siblings) ∧
      move = .intoMember origin (.ofNode container.root target) := by
  unfold classifyOntoMember
  dsimp only
  by_cases group : family = .group
  · simp [group]
  by_cases itself : target = origin.member
  · simp [group, itself]
  rw [if_neg group, if_neg itself]
  cases there : w.locateAt? container target with
  | none => simp
  | some found =>
      by_cases leaf : (!found.member.isInterior) = true
      · have kind : found.member.kind ≠ .interior := by simpa [Member.isInterior] using leaf
        simp [leaf, kind]
      have kind : found.member.kind = .interior := by simpa [Member.isInterior] using leaf
      by_cases same : Container.ofNode container.root target = source.container
      · simp [leaf, same]
      dsimp only
      rw [if_neg leaf, if_neg same, map_eq_ok_iff, checkDestination_eq_ok_iff]
      simp [group, itself, kind, same]

theorem classifyBeside_eq_ok_iff {container : Container} {target : Id} {side : Side} :
    w.classifyBeside family origin source container target side = .ok move ↔
      target ≠ origin.member ∧ (∃ found, w.locateAt? container target = some found) ∧
      (container = source.container ∧ move = .within origin target side ∨
        container ≠ source.container ∧ family ≠ .group ∧
          (∃ siblings, w.Welcomes family source.member container siblings) ∧
          move = .across origin container target side) := by
  unfold classifyBeside
  by_cases itself : target = origin.member
  · simp [itself]
  rw [if_neg itself]
  cases there : w.locateAt? container target with
  | none => simp
  | some found =>
      obtain ⟨-, rfl⟩ := locateAt?_eq_some_iff.1 there
      by_cases same : found.container = source.container
      · simp [itself, same, eq_comm]
      by_cases group : family = .group
      · simp [same, group]
      dsimp only
      rw [if_neg same, if_neg group, map_eq_ok_iff, checkDestination_eq_ok_iff]
      simp [itself, same, group]

theorem classifyMember_eq_ok_iff {action : Action} {target : Target} :
    w.classifyMember family origin action target = .ok move ↔ ∃ source shape,
      w.locateAt? origin.container origin.member = some source ∧
      w.shape? origin.container = some shape ∧ family.describes shape source = true ∧
      ((∃ root, action = .combine ∧ target = .root root ∧
          w.classifyOntoRoot family origin source root = .ok move) ∨
        (∃ container member, action = .combine ∧ target = .member container member ∧
          w.classifyOntoMember family origin source container member = .ok move) ∨
        ∃ side container member, action = .beside side ∧ target = .member container member ∧
          w.classifyBeside family origin source container member side = .ok move) := by
  unfold classifyMember
  cases located : w.locateAt? origin.container origin.member with
  | none => simp
  | some source =>
      obtain ⟨-, own⟩ := locateAt?_eq_some_iff.1 located
      dsimp only
      rw [own]
      cases shaped : w.shape? origin.container with
      | none => simp
      | some shape =>
          by_cases described : family.describes shape source = true
          · cases action <;> cases target <;> simp [described]
          · simp [described]

/-- Every drop on an innermost target whose instruction is not blocked is classified by what is
dragged. -/
theorem classify_eq_ok_iff {payload : Payload} {location : Location} :
    w.classify payload location = .ok move ↔ ∃ candidate instruction,
      location.innermost? = some candidate ∧ candidate.instruction = some instruction ∧
      instruction.blocked = false ∧
      ((∃ root, payload = .root root ∧
          w.classifyRoot root instruction.action candidate.target = .ok move) ∨
        ∃ family origin, payload = .member family origin ∧
          w.classifyMember family origin instruction.action candidate.target = .ok move) := by
  unfold classify
  cases innermost : location.innermost? with
  | none => simp
  | some candidate =>
      cases carried : candidate.instruction with
      | none => simp [carried]
      | some instruction =>
          by_cases blocked : instruction.blocked = true
          · simp [carried, blocked]
          · cases payload <;> simp [carried, blocked]

theorem admits_of_classifyMember {action : Action} {target : Target}
    (classified : w.classifyMember family origin action target = .ok move) :
    w.Admits (.member family origin) move := by
  obtain ⟨source, shape, located, shaped, describes, accepted⟩ :=
    classifyMember_eq_ok_iff.1 classified
  obtain ⟨-, own⟩ := locateAt?_eq_some_iff.1 located
  have described : ∃ shape, w.shape? origin.container = some shape ∧
      family.describes shape source = true := ⟨shape, shaped, describes⟩
  rcases accepted with ⟨root, -, -, onto⟩ | ⟨container, target, -, -, onto⟩ |
    ⟨side, container, target, -, -, beside⟩
  · obtain ⟨-, -, other, ⟨siblings, welcome⟩, rfl⟩ := classifyOntoRoot_eq_ok_iff.1 onto
    exact .intoRoot located described (own ▸ other) welcome
  · obtain ⟨-, -, found, -, -, other, ⟨siblings, welcome⟩, rfl⟩ :=
      classifyOntoMember_eq_ok_iff.1 onto
    exact .intoMember located described (own ▸ other) welcome
  · obtain ⟨itself, ⟨found, there⟩, ⟨same, rfl⟩ | ⟨other, -, ⟨siblings, welcome⟩, rfl⟩⟩ :=
      classifyBeside_eq_ok_iff.1 beside
    · exact .within side located (own ▸ same ▸ there) itself
    · exact .across side located described there (own ▸ other) welcome

/-- Every classified move is admitted. -/
theorem admits_of_classify {payload : Payload} {location : Location}
    (classified : w.classify payload location = .ok move) : w.Admits payload move := by
  obtain ⟨candidate, instruction, -, -, -,
      ⟨root, rfl, accepted⟩ | ⟨family, origin, rfl, accepted⟩⟩ :=
    classify_eq_ok_iff.1 classified
  · obtain ⟨present, side, target, -, -, other, there, rfl⟩ := classifyRoot_eq_ok_iff.1 accepted
    exact .ofRoot side present there other
  · exact admits_of_classifyMember accepted

end

end Workspace

end Outline
