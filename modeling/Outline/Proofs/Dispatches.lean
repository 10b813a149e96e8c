import Outline.Proofs.Failures
import Outline.Proofs.Grounds

/-!
# What a drop dispatches

A drop reads its cache three times, and the workspace may have changed in between.  Something is
dispatched only if the drop can be classified, computed and resolved in what was read, and then it
is all that was planned (`Outline.Reconciler.drop_dispatches`).
-/

namespace Outline

/-- All that a resolved rearrangement touches is there. -/
theorem Rearrangement.found_of_resolve {planned : Rearrangement} {w : Workspace}
    (resolved : planned.resolve w = .ok ()) :
    (∀ change ∈ planned.changes, (w.members? change.container).isSome) ∧
      ∀ change, planned.roots = some change → ∀ root ∈ change.after, (w.root? root.id).isSome := by
  rw [resolve] at resolved
  split at resolved
  next => cases resolved
  next containers =>
    split at resolved
    next => cases resolved
    next roots =>
      constructor
      · intro change inside
        simpa [Option.isSome_iff_ne_none] using List.find?_eq_none.1 containers change inside
      · intro change same root inside
        rw [same] at roots
        simpa [Option.isSome_iff_ne_none] using List.find?_eq_none.1 roots root inside

/-- Something that a move names or touches is not there when it is computed from `second` and
resolved in `third`. -/
inductive Move.Misses (move : Move) (second third : Workspace) : Prop where
  /-- A member is not in the container in which the move names it. -/
  | member {container : Container} {id : Id} (named : (container, id) ∈ move.places)
      (gone : ¬ second.Lists container id)
  /-- A root that the move names is not in the list of roots. -/
  | root {id : Id} (named : id ∈ move.roots) (gone : id ∉ second.roots.map Root.id)
  /-- A container whose list the move changes is not there. -/
  | container {container : Container} (touched : container ∈ move.containers)
      (gone : second.members? container = none ∨ third.members? container = none)
  /-- A root that takes part in the new sequence of roots is not there any more. -/
  | slot {id : Id} (touched : move.roots ≠ []) (listed : id ∈ second.roots.map Root.id)
      (gone : third.root? id = none)

/-- A move that misses something is not computed, or not resolved. -/
theorem Move.Misses.unresolved {move : Move} {second third : Workspace}
    (misses : move.Misses second third) {planned : Rearrangement}
    (computed : second.rearrange move = .ok planned) : planned.resolve third ≠ .ok () := by
  intro resolved
  have grounds := Workspace.grounds_of_rearrange computed
  obtain ⟨containers, roots⟩ := Rearrangement.found_of_resolve resolved
  cases misses with
  | member named gone => exact gone (grounds.places _ named)
  | root named gone => exact gone (grounds.roots _ named)
  | container touched gone =>
      rcases gone with before | after
      · have found := grounds.containers _ touched
        rw [before] at found
        cases found
      · rw [← grounds.changes] at touched
        obtain ⟨change, inside, rfl⟩ := List.mem_map.1 touched
        have found := containers change inside
        rw [after] at found
        cases found
  | slot touched listed gone =>
      obtain ⟨change, same, perm⟩ := grounds.slots touched
      obtain ⟨root, inside, rfl⟩ := List.mem_map.1 (perm.mem_iff.2 listed)
      have found := roots change same root inside
      rw [gone] at found
      cases found

namespace Rearrangement

/-- Some batch of the rearrangement has something to do. -/
def Busy (planned : Rearrangement) : Prop :=
  (∃ batch ∈ planned.plans, batch.isEmpty = false) ∨
    ∃ change, planned.roots = some change ∧ change.plan.isEmpty = false

theorem busy_iff {planned : Rearrangement} : planned.Busy ↔ planned.parcels ≠ [] := by
  have members : planned.batches ≠ [] ↔ ∃ batch ∈ planned.plans, batch.isEmpty = false := by
    rw [batches, Ne, List.filter_eq_nil_iff]
    simp
  have roots : planned.rootBatch? ≠ none ↔
      ∃ change, planned.roots = some change ∧ change.plan.isEmpty = false := by
    rw [rootBatch?]
    cases planned.roots <;> simp
  rw [Busy, ← members, ← roots, Ne, Ne, ← not_and_or, ← parcels_eq_nil_iff]

/-- What a store is offered for a rearrangement: the batch of the list of roots first, if there is
one, and unless it is refused all other batches that have something to do. -/
inductive Offered (planned : Rearrangement) : List Offer → Prop where
  | rootsRefused {batch : RootBatch} {fault : CommitFault}
      (roots : planned.rootBatch? = some batch) : Offered planned [⟨.roots batch, .error fault⟩]
  | all {offers : List Offer} (sent : offers.map Exchange.sent =
        planned.rootBatch?.toList.map .roots ++ planned.batches.map .members)
      (roots : ∀ offer ∈ offers, ∀ batch, offer.sent = .roots batch → offer.answer = .ok ()) :
      Offered planned offers

variable {planned : Rearrangement} {replies : List Write} {offers : List Offer}
  {writes : List Write} {answer : Except Failure Report}

namespace Dispatched

variable (dispatched : planned.Dispatched replies offers writes answer)

include dispatched

theorem offered : planned.Offered offers := by
  cases dispatched with
  | idle nothing => exact .all nothing.symm (List.forall_mem_nil _)
  | rootsRefused roots => exact .rootsRefused roots
  | refused sent roots => exact .all sent roots
  | committed _ sent accepted => exact .all sent fun offer inside _ _ => accepted offer inside

theorem offers_ne_nil_iff : offers ≠ [] ↔ planned.Busy := by
  rw [busy_iff]
  cases dispatched with
  | idle nothing => simp [nothing]
  | rootsRefused roots => simp [parcels, roots]
  | refused sent => rw [← sent, Ne, Ne, List.map_eq_nil_iff]
  | committed _ sent => rw [← sent, Ne, Ne, List.map_eq_nil_iff]

/-- A commit succeeds if nothing is refused, and then the cache is given every list to write. -/
theorem done_of_accepted (accepted : ∀ offer ∈ offers, offer.answer = .ok ()) :
    (∃ report, answer = .ok report) ∧ (offers ≠ [] → writes = replies) := by
  cases dispatched with
  | idle => exact ⟨⟨_, rfl⟩, fun some => absurd rfl some⟩
  | rootsRefused => cases accepted _ (.head _)
  | refused sent roots some => exact absurd (Offer.faultless_of_accepted accepted) some
  | committed => exact ⟨⟨_, rfl⟩, fun _ => rfl⟩

end Dispatched

end Rearrangement

variable {σ κ : Type} (r : Reconciler σ κ)

namespace Request

open Reconciler

section

variable {request : Request} {s : State σ κ}

theorem offers_eq_nil_of_unplanned {failure : Failure}
    (stopped : request.plan (r.cache.serves · s.cache) = .error failure) :
    (request.run r s).1 = .error failure ∧ request.offers r s = [] := by
  rcases (request.course r s).2 with ⟨_, unplanned, ended, none, -⟩ | ⟨planned, _, ready, -⟩
  · obtain rfl := Except.error.inj (unplanned.symm.trans stopped)
    exact ⟨ended, none⟩
  · rw [stopped] at ready
    cases ready

/-- What is offered for a request that has a plan.  If all of it is accepted, the request succeeds
and the cache is given every list that was computed. -/
theorem offered_of_planned {planned : Rearrangement}
    (ready : request.plan (r.cache.serves · s.cache) = .ok planned) :
    (request.offers r s ≠ [] ↔ planned.Busy) ∧ planned.Offered (request.offers r s) ∧
      ((∀ offer ∈ request.offers r s, offer.answer = .ok ()) →
        (∃ report, (request.run r s).1 = .ok report) ∧ (request.offers r s ≠ [] →
          (request.writes r s).map Exchange.sent = planned.patches)) := by
  rcases (request.course r s).2 with ⟨_, stopped, -⟩ | ⟨_, answer, ready', dispatched, ended⟩
  · rw [stopped] at ready
    cases ready
  obtain rfl := Except.ok.inj (ready'.symm.trans ready)
  refine ⟨dispatched.offers_ne_nil_iff, dispatched.offered, fun accepted => ?_⟩
  obtain ⟨⟨report, rfl⟩, written⟩ := dispatched.done_of_accepted accepted
  refine ⟨⟨_, ended⟩, fun some => ?_⟩
  rw [written some, map_sent_converse]

end

/-- A drop that is classified, but misses something when it is to be computed or resolved. -/
theorem absent_of_misses {session : Session} {location : Location} {seen : Nat → Workspace}
    {move : Move} (classified : (seen 0).classify session.payload location = .ok move)
    (misses : move.Misses (seen 1) (seen 2)) :
    ∃ absence, (drop session location).plan seen = .error (.absent absence) := by
  have prepared := prepares session location seen
  generalize (drop session location).plan seen = prepares at prepared
  cases prepared with
  | refused refused =>
      rw [classified] at refused
      cases refused
  | uncomputed => exact ⟨_, rfl⟩
  | unresolved => exact ⟨_, rfl⟩
  | ready classified' computed resolved =>
      obtain rfl := Except.ok.inj (classified'.symm.trans classified)
      exact absurd resolved (misses.unresolved computed)

end Request

namespace Reconciler

/-- Something is offered to the store exactly if the drop is classified in the workspace read first,
computed from the one read second and resolved in the one read third, and there is something to do.
If all of it is accepted, the drop is committed whatever the cache answers, and the cache is given
every computed list in turn.  If something the drop names or touches is gone by then, the drop ends
without a commit. -/
theorem drop_dispatches (session : Session) (location : Location) (s : State σ κ) :
    let seen := (r.cache.serves · s.cache)
    let offers := (Request.drop session location).offers r s
    let writes := (Request.drop session location).writes r s
    let answer := (r.drop session location s).1
    let history := (r.drop session location s).2.1.history
    (offers ≠ [] ↔ ∃ move planned, (seen 0).classify session.payload location = .ok move ∧
      (seen 1).rearrange move = .ok planned ∧ planned.resolve (seen 2) = .ok () ∧ planned.Busy) ∧
    (∀ move planned, (seen 0).classify session.payload location = .ok move →
      (seen 1).rearrange move = .ok planned → planned.resolve (seen 2) = .ok () →
        planned.Offered offers ∧ ((∀ offer ∈ offers, offer.answer = .ok ()) →
          (∃ report, answer = .ok report) ∧ history = session.history ++
            [.classifying, .computing, .committing, .committed, .idle] ∧
          (offers ≠ [] → writes.map Exchange.sent = planned.patches))) ∧
    ∀ move, (seen 0).classify session.payload location = .ok move →
      move.Misses (seen 1) (seen 2) → (∃ absence, answer = .error (.absent absence)) ∧
        history = session.history ++ [.classifying, .computing, .failed, .idle] ∧ offers = [] := by
  intro seen offers writes answer history
  have stages : history = session.history ++ stagesTo answer :=
    r.history_drop session location s
  refine ⟨⟨fun some => ?_, ?_⟩, ?_, ?_⟩
  · cases prepared : (Request.drop session location).plan seen with
    | error failure => exact absurd (Request.offers_eq_nil_of_unplanned r prepared).2 some
    | ok planned =>
        obtain ⟨move, classified, computed, resolved⟩ := Request.plan_drop_eq_ok_iff.1 prepared
        have busy := (Request.offered_of_planned r prepared).1.1 some
        exact ⟨move, planned, classified, computed, resolved, busy⟩
  · rintro ⟨move, planned, classified, computed, resolved, busy⟩
    have ready := Request.plan_drop_eq_ok_iff.2 ⟨move, classified, computed, resolved⟩
    exact (Request.offered_of_planned r ready).1.2 busy
  · intro move planned classified computed resolved
    have ready := Request.plan_drop_eq_ok_iff.2 ⟨move, classified, computed, resolved⟩
    obtain ⟨-, offered, accepted⟩ := Request.offered_of_planned r ready
    refine ⟨offered, fun all => ?_⟩
    obtain ⟨⟨report, done⟩, written⟩ := accepted all
    exact ⟨⟨report, done⟩, stages.trans (congrArg (_ ++ stagesTo ·) done), written⟩
  · intro move classified misses
    obtain ⟨absence, stopped⟩ := Request.absent_of_misses classified misses
    obtain ⟨ended, none⟩ := Request.offers_eq_nil_of_unplanned r stopped
    exact ⟨⟨absence, ended⟩, stages.trans (congrArg (_ ++ stagesTo ·) ended), none⟩

/-- The note is dropped onto the folder.  If the workspace is emptied once the drop is classified,
nothing is offered; if it stays but the cache refuses to be written, the drop is committed. -/
theorem noteTree_drop_dispatches :
    let r : Reconciler Recorder Series := ⟨Recorder.backend, Series.cache⟩
    let session := Session.start (.member .treeNode looseNote)
    let emptied : State Recorder Series := ⟨{}, { upcoming := [noteTree], last := ⟨[]⟩ }⟩
    let stuck : State Recorder Series :=
      ⟨{}, { upcoming := [], last := noteTree, refusesPatches := true }⟩
    (∃ absence, (r.drop session ontoFolder emptied).1 = .error (.absent absence)) ∧
      (Request.drop session ontoFolder).offers r emptied = [] ∧
      (∃ report, (r.drop session ontoFolder stuck).1 = .ok report) ∧
      (r.drop session ontoFolder stuck).2.1.history =
        [.idle, .classifying, .computing, .committing, .committed, .idle] := by
  intro r session emptied stuck
  obtain ⟨-, -, missed⟩ := r.drop_dispatches session ontoFolder emptied
  obtain ⟨-, ready, -⟩ := r.drop_dispatches session ontoFolder stuck
  have gone : ¬ Workspace.Lists ⟨[]⟩ looseNote.container looseNote.member := by
    rintro ⟨_, found, -⟩
    cases found
  obtain ⟨absent, -, none⟩ := missed _ rfl (.member (.head _) gone)
  have accepted : ∀ offer ∈ (Request.drop session ontoFolder).offers r stuck,
      offer.answer = .ok () := List.forall_mem_singleton.2 rfl
  obtain ⟨done, history, -⟩ := (ready _ _ rfl rfl rfl).2 accepted
  exact ⟨absent, none, done, history⟩

end Reconciler

end Outline
