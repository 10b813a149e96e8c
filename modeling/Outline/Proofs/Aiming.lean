import Outline.CommandLine.Run
import Outline.Proofs.Acceptance
import Outline.Proofs.Searches

/-!
# What the command line drops

A drop on the command line names what is dragged and what it lands on by identifiers only.  From
them the drag and the drop target are made up that a pointer would have reported.  In a valid
workspace they tell where the two are, so the drop may be refused for what it asks, but not for
naming something that is not there (`Outline.CommandLine.drop_founded`).
-/

namespace Outline

/-- The refusals of drops that name something that is not there, or that ask for nothing. -/
inductive Refusal.Unfounded : Refusal → Prop where
  | blocked : Unfounded .blocked
  | noLocation : Unfounded .noLocation
  | noInstruction : Unfounded .noInstruction
  | sourceMissing (id : Id) : Unfounded (.sourceMissing id)
  | targetMissing (id : Id) : Unfounded (.targetMissing id)

/-- If the answer is a refusal, then not an unfounded one. -/
def Founded {α : Type} (answer : Except Refusal α) : Prop :=
  ∀ refusal, answer = .error refusal → ¬ refusal.Unfounded

section

variable {α β : Type}

theorem founded_ok (x : α) : Founded (.ok x) :=
  fun _ refused => by cases refused

theorem founded_error {refusal : Refusal} (founded : ¬ refusal.Unfounded) :
    Founded (Except.error refusal : Except Refusal α) := by
  intro other refused
  cases refused
  exact founded

theorem founded_ite {p : Prop} [Decidable p] {refusal : Refusal} {answer : Except Refusal α}
    (founded : ¬ refusal.Unfounded) (rest : ¬ p → Founded answer) :
    Founded (if p then .error refusal else answer) := by
  split
  next => exact founded_error founded
  next other => exact rest other

theorem Founded.map {answer : Except Refusal α} (founded : Founded answer) (f : α → β) :
    Founded (answer.map f) := by
  intro refusal refused
  cases answer with
  | ok x => cases refused
  | error other =>
      cases refused
      exact founded _ rfl

end

/-- Outside of trees an interior member stands directly under the root of a grouped list. -/
theorem Shape.grouped_of_accepts {shape : Shape} {depth : Nat}
    (accepted : shape.accepts depth .interior = true) (list : shape ≠ .tree) :
    shape = .groupedList ∧ depth = 0 := by
  unfold accepts at accepted
  split at accepted
  · exact absurd rfl list
  · contradiction
  · exact ⟨rfl, rfl⟩
  · contradiction
  · contradiction

namespace Workspace

variable {w : Workspace}

/-- There is a root or a member of the identifier. -/
def Knows (w : Workspace) (id : Id) : Prop :=
  id ∈ w.roots.map Root.id ∨ id ∈ w.ids

/-- The drag is of a root, or of a member from the container that lists it and of a family that
suits it. -/
inductive PicksUp (w : Workspace) : Id → Payload → Prop where
  | root {r : Root} (listed : r ∈ w.roots) : PicksUp w r.id (.root r.id)
  | member {m : Member} {site : Site} {family : Family} (stands : w.Stands m site)
      (suits : family.Suits m site) : PicksUp w m.id (.member family ⟨site.container, m.id⟩)

/-- The target is a root, or a member in the container that lists it. -/
inductive AimsAt (w : Workspace) : Id → Target → Prop where
  | root {r : Root} (listed : r ∈ w.roots) : AimsAt w r.id (.root r.id)
  | member {m : Member} {site : Site} (stands : w.Stands m site) :
      AimsAt w m.id (.member site.container m.id)

/-- If a member is dragged, it is where the drag says, and the check that the drag describes it is
passed. -/
def Describes (w : Workspace) : Payload → Prop
  | .root root => (w.root? root).isSome
  | .member family origin => ∃ found shape,
      w.locateAt? origin.container origin.member = some found ∧
        w.shape? found.container = some shape ∧ family.describes shape found = true

/-- A destination that is there is not refused as missing. -/
theorem founded_checkDestination {destination : Container} {shape : Shape} {depth : Nat}
    (shaped : w.shape? destination = some shape) (deep : w.depth? destination = some depth)
    (family : Family) (source : Located) :
    Founded (w.checkDestination family source destination) := by
  unfold checkDestination
  rw [shaped, deep]
  refine founded_ite (by rintro ⟨⟩) fun _ => ?_
  dsimp only
  split
  · split
    · exact founded_error (by rintro ⟨⟩)
    · split
      · exact founded_error (by rintro ⟨⟩)
      · exact founded_ok ()
  · exact founded_error (by rintro ⟨⟩)

theorem founded_classifyRoot {root id : Id} {target : Target} (known : (w.root? root).isSome)
    (aims : w.AimsAt id target) (action : Action) :
    Founded (w.classifyRoot root action target) := by
  obtain ⟨r, found⟩ := Option.isSome_iff_exists.1 known
  unfold classifyRoot
  rw [found, if_neg (by rintro ⟨⟩)]
  cases aims with
  | member stands => cases action <;> exact founded_error (by rintro ⟨⟩)
  | @root other listed =>
      obtain ⟨_, there⟩ := Option.isSome_iff_exists.1 (root?_isSome_iff.2 ⟨other, listed, rfl⟩)
      cases action with
      | combine => exact founded_error (by rintro ⟨⟩)
      | beside side =>
          refine founded_ite (by rintro ⟨⟩) fun _ => ?_
          rw [there, if_neg (by rintro ⟨⟩)]
          exact founded_ok _

namespace Valid

variable (valid : w.Valid)

include valid

theorem founded_checkDestination_of_owns {site : Site} {owner : Kind} {ms : Forest}
    (owns : w.Owns site owner ms) (family : Family) (source : Located) :
    Founded (w.checkDestination family source site.container) := by
  obtain ⟨r, found, -⟩ := owns.exists_root? valid.roots_distinct
  exact founded_checkDestination (congrArg (Option.map Root.shape) found)
    (owns.depth?_eq valid.roots_distinct valid.members_distinct) family source

theorem founded_classifyOntoRoot {r : Root} (listed : r ∈ w.roots) (family : Family)
    (origin : Origin) (source : Located) :
    Founded (w.classifyOntoRoot family origin source r.id) := by
  obtain ⟨_, found⟩ := Option.isSome_iff_exists.1 (root?_isSome_iff.2 ⟨r, listed, rfl⟩)
  unfold classifyOntoRoot
  refine founded_ite (by rintro ⟨⟩) fun _ => ?_
  rw [found, if_neg (by rintro ⟨⟩)]
  refine founded_ite (by rintro ⟨⟩) fun _ => ?_
  exact (valid.founded_checkDestination_of_owns (.root listed) family source).map _

theorem founded_classifyOntoMember {m : Member} {site : Site} (stands : w.Stands m site)
    (family : Family) (origin : Origin) (source : Located) :
    Founded (w.classifyOntoMember family origin source site.container m.id) := by
  have located := valid.locateAt?_iff_stands.2 ⟨m, site, stands, rfl, rfl, rfl⟩
  obtain ⟨owner, ms, owns, listed⟩ := stands
  unfold classifyOntoMember
  refine founded_ite (by rintro ⟨⟩) fun _ => founded_ite (by rintro ⟨⟩) fun _ => ?_
  rw [located]
  refine founded_ite (by rintro ⟨⟩) fun _ => founded_ite (by rintro ⟨⟩) fun _ => ?_
  exact (valid.founded_checkDestination_of_owns (owns.member listed) family source).map _

theorem founded_classifyBeside {m : Member} {site : Site} (stands : w.Stands m site)
    (family : Family) (origin : Origin) (source : Located) (side : Side) :
    Founded (w.classifyBeside family origin source site.container m.id side) := by
  have located := valid.locateAt?_iff_stands.2 ⟨m, site, stands, rfl, rfl, rfl⟩
  obtain ⟨owner, ms, owns, listed⟩ := stands
  unfold classifyBeside
  refine founded_ite (by rintro ⟨⟩) fun _ => ?_
  rw [located]
  dsimp only
  split
  · exact founded_ok _
  · refine founded_ite (by rintro ⟨⟩) fun _ => ?_
    exact (valid.founded_checkDestination_of_owns owns family source).map _

theorem describes_of_picksUp {source : Id} {payload : Payload} (picks : w.PicksUp source payload) :
    w.Describes payload := by
  cases picks with
  | @root r listed => exact root?_isSome_iff.2 ⟨r, listed, rfl⟩
  | @member m site family stands suits =>
      exact ⟨_, _, valid.locateAt?_iff_stands.2 ⟨m, site, stands, rfl, rfl, rfl⟩,
        stands.shape?_eq valid.roots_distinct, Family.describes_iff.2 suits⟩

/-- A member that the drag describes is not refused as unfounded on a target that is there. -/
theorem founded_classifyMember {family : Family} {origin : Origin} {id : Id} {target : Target}
    (describes : w.Describes (.member family origin)) (aims : w.AimsAt id target)
    (action : Action) : Founded (w.classifyMember family origin action target) := by
  obtain ⟨found, shape, located, shaped, described⟩ := describes
  unfold classifyMember
  rw [located]
  dsimp only
  rw [shaped]
  dsimp only
  rw [if_pos described]
  cases action <;> cases aims
  case combine.root listed => exact valid.founded_classifyOntoRoot listed _ _ _
  case combine.member stands => exact valid.founded_classifyOntoMember stands _ _ _
  case beside.root => exact founded_error (by rintro ⟨⟩)
  case beside.member stands => exact valid.founded_classifyBeside stands _ _ _ _

theorem founded_classify {payload : Payload} {id : Id} {target : Target}
    (describes : w.Describes payload) (aims : w.AimsAt id target) (action : Action) :
    Founded (w.classify payload (.single target action)) := by
  cases payload with
  | root root => exact founded_classifyRoot describes aims action
  | member family origin => exact valid.founded_classifyMember describes aims action

theorem accepts_of_stands {m : Member} {site : Site} (stands : w.Stands m site) :
    site.shape.accepts site.depth m.kind = true := by
  obtain ⟨owner, ms, owns, listed⟩ := stands
  exact (valid.sound owns.level_mem).kinds m.shallow (List.mem_map_of_mem listed)

end Valid

theorem Knows.exists_root_or_stands {id : Id} (known : w.Knows id) :
    (∃ r ∈ w.roots, r.id = id) ∨
      ¬ (w.root? id).isSome ∧ ∃ m site, w.Stands m site ∧ m.id = id := by
  rcases Classical.em (∃ r ∈ w.roots, r.id = id) with root | none
  · exact .inl root
  · have member : id ∈ w.ids := known.resolve_left fun inside => none (List.mem_map.1 inside)
    obtain ⟨row, inside, rfl⟩ := exists_row_of_mem_ids member
    obtain ⟨m, site, stands, rfl⟩ := exists_stands_of_row inside
    exact .inr ⟨fun found => none (root?_isSome_iff.1 found), m, site, stands, rfl⟩

end Workspace

namespace CommandLine

/-- What a landing names is there: a root or a member, or a root if only that will do. -/
inductive Landing.There (w : Workspace) : Landing → Prop where
  | beside {id : Id} (side : Side) (known : w.Knows id) : There w (.beside side id)
  | into {id : Id} (known : w.Knows id) : There w (.into id)
  | intoRoot {r : Root} (listed : r ∈ w.roots) : There w (.intoRoot r.id)

variable {w : Workspace} (valid : w.Valid)

include valid

/-- The family that is told from the shape of a root and the kind of a member suits the member, for
a valid workspace has only members of the kinds that the shape accepts where they stand. -/
theorem exists_payloadFor? {source : Id} (known : w.Knows source) :
    ∃ payload, payloadFor? w source = some payload ∧ w.PicksUp source payload := by
  obtain ⟨r, listed, rfl⟩ | ⟨absent, m, site, stands, rfl⟩ := known.exists_root_or_stands
  · have found := Workspace.root?_isSome_iff.2 ⟨r, listed, rfl⟩
    exact ⟨_, if_pos found, .root listed⟩
  · have accepted := valid.accepts_of_stands stands
    unfold payloadFor?
    rw [if_neg absent, stands.locate?_eq valid.roots_distinct valid.members_distinct]
    dsimp only [Option.bind_eq_bind, Option.bind_some]
    rw [stands.shape?_eq valid.roots_distinct]
    refine ⟨_, rfl, .member stands ?_⟩
    cases shape : site.shape <;> cases kind : m.kind <;> rw [shape, kind] at accepted
    case tree.leaf | tree.interior => exact .treeNode shape
    case flatList.leaf => exact .listItem kind (.inl shape)
    case flatList.interior => cases (Shape.grouped_of_accepts accepted (by decide)).1
    case groupedList.leaf => exact .listItem kind (.inr shape)
    case groupedList.interior =>
      exact .group shape (Shape.grouped_of_accepts accepted (by decide)).2

theorem exists_targetFor? {id : Id} (known : w.Knows id) :
    ∃ target, targetFor? w id = some target ∧ w.AimsAt id target := by
  obtain ⟨r, listed, rfl⟩ | ⟨absent, m, site, stands, rfl⟩ := known.exists_root_or_stands
  · have found := Workspace.root?_isSome_iff.2 ⟨r, listed, rfl⟩
    exact ⟨_, if_pos found, .root listed⟩
  · refine ⟨_, (if_neg absent).trans ?_, .member stands⟩
    rw [stands.locate?_eq valid.roots_distinct valid.members_distinct]
    rfl

omit valid in
/-- Into a root and directly under it is the same target. -/
theorem target?_into_root {r : Root} (listed : r ∈ w.roots) :
    (Landing.into r.id).target? w = (Landing.intoRoot r.id).target? w :=
  if_pos (Workspace.root?_isSome_iff.2 ⟨r, listed, rfl⟩)

theorem exists_target? {landing : Landing} (there : landing.There w) :
    ∃ target, landing.target? w = some target ∧ w.AimsAt landing.id target := by
  cases there with
  | beside _ known | into known => exact exists_targetFor? valid known
  | intoRoot listed => exact ⟨_, rfl, .root listed⟩

/-- From the identifiers of something that is there and of a landing that is there, the drag and the
target are made up that tell where they are, and the drop there is not refused as unfounded.  To
drop into a root is to drop directly under it. -/
theorem drop_founded :
    (∀ source (landing : Landing), w.Knows source → landing.There w → ∃ payload target,
      payloadFor? w source = some payload ∧ w.PicksUp source payload ∧ w.Describes payload ∧
      landing.target? w = some target ∧ w.AimsAt landing.id target ∧
      Founded (w.classify payload (.single target landing.action))) ∧
    ∀ r ∈ w.roots, (Landing.into r.id).target? w = (Landing.intoRoot r.id).target? w ∧
      (Landing.into r.id).action = (Landing.intoRoot r.id).action ∧
      ∀ db source, runDrop db w source (.into r.id) = runDrop db w source (.intoRoot r.id) := by
  constructor
  · intro source landing known there
    obtain ⟨payload, picked, picks⟩ := exists_payloadFor? valid known
    obtain ⟨target, aimed, aims⟩ := exists_target? valid there
    have describes := valid.describes_of_picksUp picks
    exact ⟨payload, target, picked, picks, describes, aimed, aims,
      valid.founded_classify describes aims landing.action⟩
  · intro r listed
    refine ⟨target?_into_root listed, rfl, fun db source => ?_⟩
    unfold runDrop
    rw [target?_into_root listed]
    rfl

omit valid in
open Reconciler in
/-- The note of `noteTree` is dropped into the folder, and into the root. -/
theorem noteTree_drop_founded :
    (∃ payload target, payloadFor? noteTree looseNote.member = some payload ∧
      (Landing.into { bits := 2 }).target? noteTree = some target ∧
      Founded (noteTree.classify payload (.single target .combine))) ∧
    ∀ db, runDrop db noteTree looseNote.member (.into { bits := 1 }) =
      runDrop db noteTree looseNote.member (.intoRoot { bits := 1 }) := by
  obtain ⟨lands, alike⟩ := drop_founded noteTree_valid
  obtain ⟨payload, target, picked, -, -, aimed, -, founded⟩ :=
    lands looseNote.member (.into { bits := 2 }) (.inr (by decide)) (.into (.inr (by decide)))
  exact ⟨⟨payload, target, picked, aimed, founded⟩,
    fun db => (alike _ (.head _)).2.2 db looseNote.member⟩

end CommandLine

end Outline
