import Outline.Proofs.Acceptance
import Outline.Proofs.Dispatches

/-!
# Drops computed from another workspace

A drop is classified in the workspace that its cache serves first and computed from the one served
next.  What is computed names nothing that is missing there, but whether the move is still one that
the rules admit is not looked at again: a drop may be carried out although it would be refused in
the workspace that it is computed from (`Outline.Request.offered_unchecked`).
-/

namespace Outline

/-- A reason to refuse a move that does not keep it from being computed. -/
inductive Move.Overlooks (move : Move) : Refusal → Prop where
  /-- The member is not of its family, or does not fit the root that it goes to. -/
  | incompatible {family : Family} {container : Container} (ofMember : move.roots = []) :
      Overlooks move (.incompatible (.member family) container)
  /-- The destination is the member itself or below it. -/
  | cycle {destination : Container} {id : Id} (crosses : move.destination? = some destination) :
      Overlooks move (.cycle id)
  /-- A member of the destination has the name. -/
  | nameCollision {destination : Container} {name : String}
      (crosses : move.destination? = some destination) : Overlooks move (.nameCollision name)
  /-- The member that becomes the container is not listed where it is said to be. -/
  | targetMissing {origin : Origin} {root target : Id}
      (into : move = .intoMember origin (.ofNode root target)) :
      Overlooks move (.targetMissing target)

/-- What becomes of the move if it is classified anew: it is found again, or refused for a reason
that is overlooked. -/
inductive Move.Reclassified (move : Move) : Except Refusal Move → Prop where
  | again : Reclassified move (.ok move)
  | refused {refusal : Refusal} (overlooked : move.Overlooks refusal) :
      Reclassified move (.error refusal)

namespace Workspace

variable {w w' : Workspace} {family : Family} {origin : Origin} {move : Move}

/-- A destination that is there is refused for no other reason than those that are overlooked. -/
theorem reclassified_of_crosses {source : Located} {destination : Container}
    (members : (w'.members? destination).isSome) (crosses : move.destination? = some destination)
    (ofMember : move.roots = []) :
    move.Reclassified ((w'.checkDestination family source destination).map fun () => move) := by
  obtain ⟨siblings, members⟩ := Option.isSome_iff_exists.1 members
  obtain ⟨site, frame, put, window⟩ := exists_window members
  unfold checkDestination
  dsimp only
  split
  next => exact .refused (.cycle crosses)
  next =>
    rw [window.shape, window.depth, members]
    dsimp only
    split
    next =>
      split
      next => exact .refused (.nameCollision crosses)
      next => exact .again
    next => exact .refused (.incompatible ofMember)

/-- A member that becomes a container is interior where it is listed. -/
theorem interior_of_members? {container : Container} {id : Id} {found : Located}
    (there : w'.locateAt? container id = some found)
    (members : (w'.members? (.ofNode container.root id)).isSome) :
    found.member.isInterior = true := by
  obtain ⟨search, -⟩ := locateAt?_eq_some_iff.1 there
  obtain ⟨r, root, search⟩ := Option.bind_eq_some_iff.1 search
  by_contra leaf
  simp [members?, Container.ofNode, root, search, leaf] at members

section

variable {source source' : Located} {planned : Rearrangement}
  (same : source'.container = source.container) (computed : w'.rearrange move = .ok planned)

include same computed

theorem reclassified_ontoRoot {root : Id}
    (onto : w.classifyOntoRoot family origin source root = .ok move) :
    move.Reclassified (w'.classifyOntoRoot family origin source' root) := by
  obtain ⟨single, -, other, -, rfl⟩ := classifyOntoRoot_eq_ok_iff.1 onto
  have members := (grounds_of_rearrange computed).containers (.ofRoot root) (.tail _ (.head _))
  have present : (w'.root? root).isNone ≠ true := by
    intro absent
    simp [members?, Container.ofRoot, Option.isNone_iff_eq_none.1 absent] at members
  rw [classifyOntoRoot, if_neg single, if_neg present, if_neg (same ▸ other)]
  exact reclassified_of_crosses members rfl rfl

/-- Only here the target may be somewhere else, since a move into it does not name its place. -/
theorem reclassified_ontoMember {container : Container} {id : Id}
    (onto : w.classifyOntoMember family origin source container id = .ok move) :
    move.Reclassified (w'.classifyOntoMember family origin source' container id) := by
  obtain ⟨single, itself, -, -, -, other, -, rfl⟩ := classifyOntoMember_eq_ok_iff.1 onto
  have members := (grounds_of_rearrange computed).containers (.ofNode container.root id)
    (.tail _ (.head _))
  rw [classifyOntoMember, if_neg single, if_neg itself]
  cases there : w'.locateAt? container id with
  | none => exact .refused (.targetMissing rfl)
  | some found =>
      have interior := interior_of_members? there members
      dsimp only
      rw [if_neg (by simp [interior]), if_neg (same ▸ other)]
      exact reclassified_of_crosses members rfl rfl

end

namespace Valid

variable (valid : w'.Valid)

include valid

/-- What a container lists is found in it. -/
theorem exists_locateAt? {container : Container} {id : Id} (listed : w'.Lists container id) :
    ∃ found, w'.locateAt? container id = some found := by
  obtain ⟨ms, members, inside⟩ := listed
  obtain ⟨m, member, rfl⟩ := List.mem_map.1 inside
  obtain ⟨site, rfl, owns⟩ := (members?_eq_some_iff valid.roots_distinct
    valid.members_distinct).1 members
  exact ⟨_, valid.locateAt?_iff_stands.2 ⟨m, site, ⟨_, ms, owns, member⟩, rfl, rfl, rfl⟩⟩

variable {planned : Rearrangement} (computed : w'.rearrange move = .ok planned)

include computed

theorem reclassified_beside {source source' : Located} {container : Container} {id : Id}
    {side : Side} (here : source.container = origin.container)
    (same : source'.container = source.container)
    (beside : w.classifyBeside family origin source container id side = .ok move) :
    move.Reclassified (w'.classifyBeside family origin source' container id side) := by
  have grounds := grounds_of_rearrange computed
  obtain ⟨itself, -, ⟨sibling, rfl⟩ | ⟨other, single, -, rfl⟩⟩ := classifyBeside_eq_ok_iff.1 beside
  · obtain rfl := sibling.trans here
    obtain ⟨found, there⟩ := valid.exists_locateAt? (grounds.places _ (.tail _ (.head _)))
    obtain ⟨-, listed⟩ := locateAt?_eq_some_iff.1 there
    rw [classifyBeside, if_neg itself, there]
    dsimp only
    rw [if_pos (listed.trans (same.trans here).symm)]
    exact .again
  · obtain ⟨found, there⟩ := valid.exists_locateAt? (grounds.places (container, id)
      (.tail _ (.head _)))
    obtain ⟨-, rfl⟩ := locateAt?_eq_some_iff.1 there
    have members := grounds.containers found.container (.tail _ (.head _))
    rw [classifyBeside, if_neg itself, there]
    dsimp only
    rw [if_neg (same ▸ other), if_neg single]
    exact reclassified_of_crosses members rfl rfl

theorem reclassified_member {action : Action} {target : Target}
    (accepted : w.classifyMember family origin action target = .ok move) :
    move.Reclassified (w'.classifyMember family origin action target) := by
  have named : (origin.container, origin.member) ∈ move.places ∧ move.roots = [] := by
    cases admits_of_classifyMember accepted <;> exact ⟨.head _, rfl⟩
  obtain ⟨source', located⟩ := valid.exists_locateAt? (grounds_of_rearrange computed |>.places _
    named.1)
  obtain ⟨m, site, stands, -, (there : site.container = origin.container), rfl⟩ :=
    valid.locateAt?_iff_stands.1 located
  obtain ⟨source, -, found, -, -, onto⟩ := classifyMember_eq_ok_iff.1 accepted
  obtain ⟨-, here⟩ := locateAt?_eq_some_iff.1 found
  have same := there.trans here.symm
  unfold classifyMember
  rw [located]
  dsimp only
  rw [stands.shape?_eq valid.roots_distinct]
  dsimp only
  split
  next =>
    rcases onto with ⟨root, rfl, rfl, onto⟩ | ⟨container, id, rfl, rfl, onto⟩ |
      ⟨side, container, id, rfl, rfl, beside⟩
    · exact reclassified_ontoRoot same computed onto
    · exact reclassified_ontoMember same computed onto
    · exact valid.reclassified_beside computed here same beside
  next => exact .refused (.incompatible named.2)

/-- A drop that is accepted in one workspace and computed from another is accepted there too, or
refused for a reason that is overlooked. -/
theorem reclassified {payload : Payload} {location : Location}
    (classified : w.classify payload location = .ok move) :
    move.Reclassified (w'.classify payload location) := by
  obtain ⟨candidate, instruction, innermost, carried, free, dragged⟩ :=
    classify_eq_ok_iff.1 classified
  rcases dragged with ⟨root, rfl, accepted⟩ | ⟨family, origin, rfl, accepted⟩
  · obtain ⟨-, side, other, action, target, differs, -, rfl⟩ := classifyRoot_eq_ok_iff.1 accepted
    have present : ∀ id ∈ [root, other], (w'.root? id).isSome := fun id named =>
      root?_isSome_iff.2 (List.mem_map.1 ((grounds_of_rearrange computed).roots id named))
    have again := classifyRoot_eq_ok_iff.2 ⟨present root (.head _), side, other, action, target,
      differs, present other (.tail _ (.head _)), rfl⟩
    rw [classify_eq_ok_iff.2 ⟨candidate, instruction, innermost, carried, free, .inl ⟨root, rfl,
      again⟩⟩]
    exact .again
  · have same : w'.classify (.member family origin) location =
        w'.classifyMember family origin instruction.action candidate.target := by
      simp [classify, innermost, carried, free]
    rw [same]
    exact valid.reclassified_member computed accepted

end Valid

end Workspace

open Reconciler Workspace

/-- A series that has come to its last workspace goes on serving it. -/
theorem Series.serves_last (n : Nat) {series : Series} (settled : series.upcoming = []) :
    cache.serves n series = series.last := by
  have read : (cache.read series) = (series.last, series) := by
    simp only [cache, settled]
  induction n with
  | zero => exact congrArg Prod.fst read
  | succ n ih =>
      rw [← ih, Cache.serves, Cache.serves, Cache.advance, read]

variable {σ κ : Type}

namespace Request

/-- Whatever is offered for a drop belongs to a move that was accepted in the workspace read first
and computed from the one read second.  There it would be accepted as well, or refused for a reason
that is overlooked; it is accepted if the same workspace is served both times. -/
theorem offered_unchecked (r : Reconciler σ κ) (session : Session) (location : Location)
    (s : State σ κ) (valid : (r.cache.serves 1 s.cache).Valid)
    (some : (drop session location).offers r s ≠ []) :
    let seen := (r.cache.serves · s.cache)
    ∃ move planned, (seen 0).classify session.payload location = .ok move ∧
      (seen 1).rearrange move = .ok planned ∧
      planned.Offered ((drop session location).offers r s) ∧
      ((seen 1).classify session.payload location = .ok move ∨
        seen 1 ≠ seen 0 ∧ ∃ refusal,
          (seen 1).classify session.payload location = .error refusal ∧
            move.Overlooks refusal) := by
  intro seen
  cases prepared : (drop session location).plan seen with
  | error failure => exact absurd (offers_eq_nil_of_unplanned r prepared).2 some
  | ok planned =>
      obtain ⟨move, classified, computed, -⟩ := plan_drop_eq_ok_iff.1 prepared
      refine ⟨move, planned, classified, computed, (offered_of_planned r prepared).2.1, ?_⟩
      have reclassified := valid.reclassified computed classified
      generalize again : (r.cache.serves 1 s.cache).classify session.payload location = answer
        at reclassified
      cases reclassified with
      | again => exact .inl rfl
      | @refused refusal overlooked =>
          refine .inr ⟨fun same => ?_, refusal, rfl, overlooked⟩
          rw [← same] at classified
          cases classified.symm.trans again

/-- `noteTree` with the name of the outer note, but for a capital, given to the inner one too. -/
def namesakes : Workspace where
  roots := noteTree.roots.map fun root => { root with
    members := root.members.map fun m => { m with
      children := m.children.map fun child =>
        { child with name := "Todo", path := m.path.child "Todo" } } }

/-- The note is dropped onto the folder, whose own note has got its name in the meantime. -/
theorem namesakes_offered_unchecked :
    let r : Reconciler Recorder Series := ⟨Recorder.backend, Series.cache⟩
    let s : State Recorder Series := ⟨{}, { upcoming := [noteTree], last := namesakes }⟩
    let session := Session.start (.member .treeNode looseNote)
    (drop session ontoFolder).offers r s ≠ [] ∧ namesakes.Valid ∧ ∃ move,
      noteTree.classify session.payload ontoFolder = .ok move ∧
        namesakes.classify session.payload ontoFolder = .error (.nameCollision "Todo") ∧
        move.Overlooks (.nameCollision "Todo") := by
  intro r s session
  have some : (drop session ontoFolder).offers r s ≠ [] := List.cons_ne_nil _ _
  have valid : namesakes.Valid := ⟨by decide, by decide, by decide⟩
  have refused : namesakes.classify session.payload ontoFolder = .error (.nameCollision "Todo") :=
    rfl
  obtain ⟨move, planned, classified, -, -, accepted | ⟨-, refusal, again, overlooked⟩⟩ :=
    offered_unchecked r session ontoFolder s valid some
  · cases accepted.symm.trans refused
  · obtain rfl := Except.error.inj (again.symm.trans refused)
    exact ⟨some, valid, move, classified, refused, overlooked⟩

/-- `noteTree` with a folder in place of the note. -/
def twoFolders : Workspace where
  roots := noteTree.roots.map fun root =>
    { root with members := root.members.map fun m => { m with kind := .interior } }

/-- The first of the two folders inside the second. -/
def nestedFolders : Workspace where
  roots := twoFolders.roots.map fun root => { root with
    members := Ordered.renumber
      ((root.members.drop 1).map (·.withChildren (root.members.take 1))) }

/-- The second folder is dropped before the note in the first one, which has moved into the second
in the meantime.  The drop is carried out and takes the folder below itself, so that none of the
members is left, although every workspace that is read is valid. -/
theorem nestedFolders_cycle_offered :
    let r : Reconciler Recorder Series := ⟨Recorder.backend, Series.cache⟩
    let s : State Recorder Series := ⟨{}, { upcoming := [twoFolders], last := nestedFolders }⟩
    let session := Session.start (.member .treeNode looseNote)
    let location := Location.single (.member (.ofNode { bits := 1 } { bits := 2 }) { bits := 3 })
      (.beside .before)
    (∀ n, (r.cache.serves n s.cache).Valid) ∧ (drop session location).offers r s ≠ [] ∧
      (∃ report, (r.drop session location s).1 = .ok report) ∧
      (r.drop session location s).2.2.cache.last.ids = [] ∧
      (r.cache.serves 1 s.cache).classify session.payload location =
        .error (.cycle looseNote.member) := by
  intro r s session location
  refine ⟨fun n => ?_, List.cons_ne_nil _ _, ⟨_, rfl⟩, rfl, rfl⟩
  cases n with
  | zero => exact ⟨by decide, by decide, by decide⟩
  | succ n =>
      have served : r.cache.serves (n + 1) s.cache = nestedFolders := Series.serves_last n rfl
      rw [served]
      exact ⟨by decide, by decide, by decide⟩

end Request

end Outline
