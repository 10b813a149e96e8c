import Outline.Proofs.Reconciliation
import Outline.Proofs.Requests

/-!
# Failed requests

A request that fails leaves the workspace as it is, and the kind of its failure tells what the store
was offered before (`Outline.Request.failed_offers`).
-/

namespace Outline

@[simp] theorem Cache.advance_ofWorkspace (n : Nat) (w : Workspace) :
    Cache.ofWorkspace.advance n w = w := by
  induction n with
  | zero => rfl
  | succ n ih => exact ih

@[simp] theorem Cache.serves_ofWorkspace (n : Nat) (w : Workspace) :
    Cache.ofWorkspace.serves n w = w := by
  rw [serves, advance_ofWorkspace]
  rfl

/-- An edit that is not computed was refused, or names something that is not there. -/
theorem Edit.failure_of_compute {edit : Edit} {fresh : Id} {w : Workspace} {failure : Failure}
    (stopped : edit.compute fresh w = .error failure) :
    (∃ refusal, failure = .refused refusal) ∨ ∃ absence, failure = .absent absence := by
  have absent : ∀ {computed : Except Absence Rearrangement},
      computed.mapError Failure.absent = .error failure → ∃ absence, failure = .absent absence := by
    intro computed stopped
    cases computed with
    | error absence => exact ⟨absence, (Except.error.inj stopped).symm⟩
    | ok planned => cases stopped
  cases edit with
  | add container name kind =>
      rw [compute] at stopped
      split at stopped
      next refusal _ => exact .inl ⟨refusal, (Except.error.inj stopped).symm⟩
      next => exact .inr (absent stopped)
  | rename member name =>
      rw [compute] at stopped
      split at stopped
      next refusal _ => exact .inl ⟨refusal, (Except.error.inj stopped).symm⟩
      next => exact .inr (absent stopped)
  | delete member => exact .inr (absent stopped)

namespace Request

/-- A request without a plan was refused, or names something that is not there. -/
theorem failure_of_plan {request : Request} {seen : Nat → Workspace} {failure : Failure}
    (stopped : request.plan seen = .error failure) :
    (∃ refusal, failure = .refused refusal) ∨ ∃ absence, failure = .absent absence := by
  cases request with
  | drop session location =>
      have prepared := prepares session location seen
      rw [stopped] at prepared
      cases prepared with
      | refused => exact .inl ⟨_, rfl⟩
      | uncomputed => exact .inr ⟨_, rfl⟩
      | unresolved => exact .inr ⟨_, rfl⟩
  | edit change fresh =>
      rw [plan] at stopped
      cases computed : change.compute fresh (seen 0) with
      | error failure' =>
          rw [computed] at stopped
          obtain rfl : failure' = failure := Except.error.inj stopped
          exact change.failure_of_compute computed
      | ok planned =>
          rw [computed] at stopped
          cases resolved : planned.resolve (seen 0) with
          | error absence =>
              simp only [Except.bind, resolved] at stopped
              exact .inr ⟨absence, (Except.error.inj stopped).symm⟩
          | ok =>
              simp only [Except.bind, resolved] at stopped
              cases stopped

open Reconciler

variable {σ : Type} {backend : Backend σ} {request : Request} {s : State σ Workspace}
  {failure : Failure}

/-- How a request goes beside a workspace that is its own cache. -/
theorem course_ofBackend (backend : Backend σ) (request : Request) (s : State σ Workspace) :
    (∃ failure, request.plan (fun _ => s.cache) = .error failure ∧
        (request.run (ofBackend backend) s).1 = .error failure ∧
        request.offers (ofBackend backend) s = [] ∧ request.writes (ofBackend backend) s = []) ∨
      ∃ planned answer, request.plan (fun _ => s.cache) = .ok planned ∧
        planned.Dispatched (converse Cache.ofWorkspace.send planned.patches s.cache).1
          (request.offers (ofBackend backend) s) (request.writes (ofBackend backend) s) answer ∧
        (request.run (ofBackend backend) s).1 = answer.map request.complete := by
  have course := (request.course (ofBackend backend) s).2
  simp only [ofBackend, Cache.serves_ofWorkspace, Cache.advance_ofWorkspace] at course
  exact course

/-- Only a commit that succeeds writes the cache. -/
theorem cache_of_failed (failed : (request.run (ofBackend backend) s).1 = .error failure) :
    (request.run (ofBackend backend) s).2.cache = s.cache := by
  have same : ∀ n, (ofBackend backend).cache.advance n s.cache = s.cache := fun n =>
    Cache.advance_ofWorkspace n s.cache
  cases prepared : request.plan ((ofBackend backend).cache.serves · s.cache) with
  | error stopped => rw [run_eq_of_error _ _ _ prepared, same]
  | ok planned =>
      rw [run_eq_of_ok _ _ _ prepared, same] at failed ⊢
      rcases commit_cases backend planned s with ⟨-, -, idle⟩ | ⟨failure, store, refused⟩ |
        ⟨report, store, committed⟩
      · rw [idle]
      · rw [refused]
      · rw [committed] at failed
        cases failed

/-- A request that fails leaves the workspace as it is.  If it was refused, or named something that
is not there, the store was offered nothing.  If the list of roots was refused, nothing else was
offered.  If batches were refused, all that was planned was offered, each parcel once, and the
failures are the faults of the batches that were refused. -/
theorem failed_offers (failed : (request.run (ofBackend backend) s).1 = .error failure) :
    let offers := request.offers (ofBackend backend) s
    (request.run (ofBackend backend) s).2.cache = s.cache ∧
      (∀ refusal, failure = .refused refusal → offers = []) ∧
      (∀ absence, failure = .absent absence → offers = []) ∧
      (∀ fault, failure = .rootOrderFailed fault → ∃ planned batch,
        request.plan (fun _ => s.cache) = .ok planned ∧ planned.rootBatch? = some batch ∧
          offers = [⟨.roots batch, .error fault⟩]) ∧
      ∀ attempted failures, failure = .commitFailed attempted failures → ∃ planned,
        request.plan (fun _ => s.cache) = .ok planned ∧
          offers.map Exchange.sent = planned.parcels ∧ attempted = planned.batches.length ∧
          failures = offers.filterMap Offer.fault? ∧ failures ≠ [] := by
  have course := course_ofBackend backend request s
  rw [failed] at course
  refine ⟨cache_of_failed failed, ?_⟩
  generalize request.offers (ofBackend backend) s = offers at course
  generalize request.writes (ofBackend backend) s = writes at course
  rcases course with
    ⟨stopped, unplanned, same, none, -⟩ | ⟨planned, answer, ready, dispatched, same⟩
  · obtain rfl : failure = stopped := Except.error.inj same
    rcases failure_of_plan unplanned with ⟨refusal, rfl⟩ | ⟨absence, rfl⟩ <;> simp [none]
  · cases dispatched with
    | idle => cases same
    | committed => cases same
    | rootsRefused roots =>
        obtain rfl := Except.error.inj same
        simp [ready, roots]
    | refused sent _ some =>
        obtain rfl := Except.error.inj same
        simp [ready, sent, some]

/-- The note of `noteTree` with the folder after it. -/
def noteFirst : Workspace where
  roots := noteTree.roots.map fun root =>
    { root with members := Ordered.renumber root.members.reverse }

/-- The note is dropped onto the folder.  The first batch, which moves the folder up, is refused;
the second is offered all the same, and the note stays where it is. -/
theorem noteFirst_failed_offers :
    let request := Request.drop (.start (.member .treeNode looseNote)) ontoFolder
    let s : State Recorder Workspace :=
      ⟨{ refused := [(.ofRoot { bits := 1 }, .timedOut)] }, noteFirst⟩
    (request.run (ofBackend Recorder.backend) s).2.cache = noteFirst ∧ ∃ planned,
      request.plan (fun _ => noteFirst) = .ok planned ∧ planned.batches.length = 2 ∧
        (request.offers (ofBackend Recorder.backend) s).map Exchange.sent = planned.parcels := by
  intro request s
  have failed : (request.run (ofBackend Recorder.backend) s).1 =
    .error (.commitFailed 2 [(.ofRoot { bits := 1 }, .timedOut)]) := rfl
  obtain ⟨cache, -, -, -, explained⟩ := failed_offers failed
  obtain ⟨planned, ready, sent, attempted, -, -⟩ := explained _ _ rfl
  exact ⟨cache, planned, ready, attempted.symm, sent⟩

end Request

end Outline
