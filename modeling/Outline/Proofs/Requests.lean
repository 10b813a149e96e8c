import Outline.Proofs.Transcripts

/-!
# Requests

A drop or an edit that a reconciler is asked for, what it amounts to in what the cache serves
(`Outline.Request.plan`), and what is exchanged with the store and the cache in its course
(`Outline.Request.course`).  A session remembers the stages that lead to the answer
(`Outline.Reconciler.session_drop`).
-/

namespace Outline

/-- What a reconciler may be asked for; an added member is called `fresh`. -/
inductive Request where
  | drop (session : Session) (location : Location)
  | edit (edit : Edit) (fresh : Id)

namespace Request

variable {σ κ : Type}

open Reconciler (State)

/-- Carries out a request. -/
def run (request : Request) (r : Reconciler σ κ) (s : State σ κ) :
    Except Failure Report × State σ κ :=
  match request with
  | .drop session location =>
    let ended := r.drop session location s
    (ended.1, ended.2.2)
  | .edit change fresh => r.edit change fresh s

/-- What the store is offered in the course of a request, with its answers. -/
def offers (request : Request) (r : Reconciler σ κ) (s : State σ κ) : List Offer :=
  (request.run r.logging (s.logged [] [])).2.store.log

/-- What the cache is given to write in the course of a request, with its answers. -/
def writes (request : Request) (r : Reconciler σ κ) (s : State σ κ) : List Write :=
  (request.run r.logging (s.logged [] [])).2.cache.log

/-- How often the cache is read, given what it serves. -/
def reads (request : Request) (seen : Nat → Workspace) : Nat :=
  match request with
  | .drop session location =>
    match (seen 0).classify session.payload location with
    | .error _ => 1
    | .ok move =>
      match (seen 1).rearrange move with
      | .error _ => 2
      | .ok _ => 3
  | .edit .. => 1

/-- What a request amounts to, if it is allowed and what it touches is there.  The cache has served
`seen 0`, `seen 1` and so on. -/
def plan (request : Request) (seen : Nat → Workspace) : Except Failure Rearrangement :=
  match request with
  | .drop session location =>
    (((seen 0).classify session.payload location).mapError .refused).bind fun move =>
      (((seen 1).rearrange move).mapError .absent).bind fun planned =>
        ((planned.resolve (seen 2)).mapError .absent).map fun () => planned
  | .edit change fresh =>
    (change.compute fresh (seen 0)).bind fun planned =>
      ((planned.resolve (seen 0)).mapError .absent).map fun () => planned

/-- The report of what was committed for a request. -/
def complete (request : Request) (report : Report) : Report :=
  match request with
  | .drop .. => report
  | .edit change fresh => { report with created := change.created? fresh }

/-- How a drop is prepared, from what the cache serves before anything is committed. -/
inductive Prepares (seen : Nat → Workspace) (payload : Payload) (location : Location) :
    Except Failure Rearrangement → Prop where
  | refused {refusal : Refusal}
      (classified : (seen 0).classify payload location = .error refusal) :
      Prepares seen payload location (.error (.refused refusal))
  | uncomputed {move : Move} {absence : Absence}
      (classified : (seen 0).classify payload location = .ok move)
      (computed : (seen 1).rearrange move = .error absence) :
      Prepares seen payload location (.error (.absent absence))
  | unresolved {move : Move} {planned : Rearrangement} {absence : Absence}
      (classified : (seen 0).classify payload location = .ok move)
      (computed : (seen 1).rearrange move = .ok planned)
      (resolved : planned.resolve (seen 2) = .error absence) :
      Prepares seen payload location (.error (.absent absence))
  | ready {move : Move} {planned : Rearrangement}
      (classified : (seen 0).classify payload location = .ok move)
      (computed : (seen 1).rearrange move = .ok planned)
      (resolved : planned.resolve (seen 2) = .ok ()) :
      Prepares seen payload location (.ok planned)

theorem prepares (session : Session) (location : Location) (seen : Nat → Workspace) :
    Prepares seen session.payload location ((drop session location).plan seen) := by
  rw [plan]
  cases classified : (seen 0).classify session.payload location with
  | error refusal => exact .refused classified
  | ok move =>
      cases computed : (seen 1).rearrange move with
      | error absence =>
          simp only [Except.mapError, Except.bind, computed]
          exact .uncomputed classified computed
      | ok planned =>
          cases resolved : planned.resolve (seen 2) with
          | error absence =>
              simp only [Except.mapError, Except.bind, Except.map, computed, resolved]
              exact .unresolved classified computed resolved
          | ok =>
              simp only [Except.mapError, Except.bind, Except.map, computed, resolved]
              exact .ready classified computed resolved

theorem plan_drop_eq_ok_iff {session : Session} {location : Location} {seen : Nat → Workspace}
    {planned : Rearrangement} : (drop session location).plan seen = .ok planned ↔
      ∃ move, (seen 0).classify session.payload location = .ok move ∧
        (seen 1).rearrange move = .ok planned ∧ planned.resolve (seen 2) = .ok () := by
  constructor
  · intro ready
    have prepared := prepares session location seen
    rw [ready] at prepared
    cases prepared with
    | ready classified computed resolved => exact ⟨_, classified, computed, resolved⟩
  · rintro ⟨move, classified, computed, resolved⟩
    simp only [plan, classified, computed, resolved, Except.mapError, Except.bind, Except.map]

theorem plan_edit_eq_ok_iff {change : Edit} {fresh : Id} {seen : Nat → Workspace}
    {planned : Rearrangement} : (edit change fresh).plan seen = .ok planned ↔
      change.compute fresh (seen 0) = .ok planned ∧ planned.resolve (seen 0) = .ok () := by
  constructor
  · intro ready
    rw [plan] at ready
    cases computed : change.compute fresh (seen 0) with
    | error failure =>
        rw [computed] at ready
        cases ready
    | ok planned' =>
        rw [computed] at ready
        cases resolved : planned'.resolve (seen 0) with
        | error absence =>
            simp only [Except.bind, resolved] at ready
            cases ready
        | ok =>
            simp only [Except.bind, resolved] at ready
            obtain rfl := Except.ok.inj ready
            exact ⟨rfl, resolved⟩
  · rintro ⟨computed, resolved⟩
    simp only [plan, computed, resolved, Except.mapError, Except.bind, Except.map]

end Request

/-- The stages that a drop goes through, told by how it ends. -/
def stagesTo : Except Failure Report → List Stage
  | .error (.refused _) => [.classifying, .rejected, .idle]
  | .error (.absent _) => [.classifying, .computing, .failed, .idle]
  | .error (.commitFailed ..) | .error (.rootOrderFailed _) =>
    [.classifying, .computing, .committing, .failed, .idle]
  | .ok _ => [.classifying, .computing, .committing, .committed, .idle]

/-- The session after it has gone through further stages. -/
def Session.follow (session : Session) (stages : List Stage) : Session :=
  stages.foldl enter session

@[simp] theorem Session.history_follow (session : Session) (stages : List Stage) :
    (session.follow stages).history = session.history ++ stages := by
  induction stages generalizing session with
  | nil => exact (List.append_nil _).symm
  | cons stage stages ih =>
      refine (ih (session.enter stage)).trans ?_
      rw [enter, List.append_assoc, List.singleton_append]

variable {σ κ : Type} (r : Reconciler σ κ)

namespace Reconciler

variable (session : Session) (location : Location) (s : State σ κ)

/-- A drop without a plan ends before anything is committed. -/
theorem drop_eq_of_error {failure : Failure}
    (stopped : (Request.drop session location).plan (r.cache.serves · s.cache) = .error failure) :
    let reads := (Request.drop session location).reads (r.cache.serves · s.cache)
    r.drop session location s = (.error failure, session.follow (stagesTo (.error failure)),
      { s with cache := r.cache.advance reads s.cache }) := by
  have prepared := Request.prepares session location (r.cache.serves · s.cache)
  rw [stopped] at prepared
  cases prepared with
  | refused classified =>
      dsimp only [Cache.serves, Cache.advance] at classified
      simp [drop, Request.reads, Session.finish, Cache.serves, Cache.advance, classified,
        Session.follow, stagesTo]
  | uncomputed classified computed =>
      dsimp only [Cache.serves, Cache.advance] at classified computed
      simp [drop, Request.reads, Session.finish, Cache.serves, Cache.advance, classified, computed,
        Session.follow, stagesTo]
  | unresolved classified computed resolved =>
      dsimp only [Cache.serves, Cache.advance] at classified computed resolved
      simp [drop, Request.reads, Session.finish, Cache.serves, Cache.advance, classified, computed,
        resolved, Session.follow, stagesTo]

/-- A drop with a plan ends as the plan is committed. -/
theorem drop_eq_of_ok {planned : Rearrangement}
    (ready : (Request.drop session location).plan (r.cache.serves · s.cache) = .ok planned) :
    let reads := (Request.drop session location).reads (r.cache.serves · s.cache)
    let done := r.commit planned { s with cache := r.cache.advance reads s.cache }
    r.drop session location s = (done.1, session.follow (stagesTo done.1), done.2) := by
  have prepared := Request.prepares session location (r.cache.serves · s.cache)
  rw [ready] at prepared
  cases prepared with
  | ready classified computed resolved =>
      dsimp only [Cache.serves, Cache.advance] at classified computed resolved
      simp only [drop, Request.reads, Session.finish, Session.payload_enter, Cache.serves,
        Cache.advance, classified, computed, resolved]
      split
      next report state committed => simp [committed, Session.follow, stagesTo]
      next failure state failed =>
        rcases r.failure_of_commit failed with ⟨-, fault, -, rfl⟩ |
          ⟨attempted, failures, rfl⟩ <;> simp [failed, Session.follow, stagesTo]

/-- A session remembers the stages that lead to the answer, after those it has gone through. -/
theorem session_drop :
    (r.drop session location s).2.1 = session.follow (stagesTo (r.drop session location s).1) := by
  cases prepared : (Request.drop session location).plan (r.cache.serves · s.cache) with
  | error failure => rw [r.drop_eq_of_error session location s prepared]
  | ok planned => rw [r.drop_eq_of_ok session location s prepared]

theorem history_drop : (r.drop session location s).2.1.history =
    session.history ++ stagesTo (r.drop session location s).1 := by
  rw [session_drop, Session.history_follow]

end Reconciler

namespace Request

open Reconciler (State)

variable (request : Request) (s : State σ κ)

/-- A request without a plan ends before anything is committed. -/
theorem run_eq_of_error {failure : Failure}
    (stopped : request.plan (r.cache.serves · s.cache) = .error failure) :
    let reads := request.reads (r.cache.serves · s.cache)
    request.run r s = (.error failure, { s with cache := r.cache.advance reads s.cache }) := by
  cases request with
  | drop session location => rw [run, r.drop_eq_of_error session location s stopped]
  | edit change fresh =>
      have computed : ((change.compute fresh (r.cache.read s.cache).1).bind fun planned =>
        ((planned.resolve (r.cache.read s.cache).1).mapError .absent).map fun () => planned) =
          .error failure := stopped
      simp only [run, reads, Reconciler.edit, Cache.advance, computed]

/-- A request with a plan ends as the plan is committed. -/
theorem run_eq_of_ok {planned : Rearrangement}
    (ready : request.plan (r.cache.serves · s.cache) = .ok planned) :
    let reads := request.reads (r.cache.serves · s.cache)
    let done := r.commit planned { s with cache := r.cache.advance reads s.cache }
    request.run r s = (done.1.map request.complete, done.2) := by
  cases request with
  | drop session location =>
      rw [run, r.drop_eq_of_ok session location s ready]
      dsimp only
      cases (r.commit planned _).1 <;> rfl
  | edit change fresh =>
      have computed : ((change.compute fresh (r.cache.read s.cache).1).bind fun planned =>
        ((planned.resolve (r.cache.read s.cache).1).mapError .absent).map fun () => planned) =
          .ok planned := ready
      simp only [run, reads, Reconciler.edit, Cache.advance, computed]
      split
      next report state committed => rw [committed]; rfl
      next failure state failed => rw [failed]; rfl

/-- Noting down what is exchanged changes nothing about a request, and what is noted is how the
request went: nothing without a plan, and what committing it took otherwise. -/
theorem course :
    request.run r.logging (s.logged [] []) =
        ((request.run r s).1,
          (request.run r s).2.logged (request.offers r s) (request.writes r s)) ∧
      ((∃ failure, request.plan (r.cache.serves · s.cache) = .error failure ∧
          (request.run r s).1 = .error failure ∧ request.offers r s = [] ∧
          request.writes r s = []) ∨
        ∃ planned answer, request.plan (r.cache.serves · s.cache) = .ok planned ∧
          planned.Dispatched (converse r.cache.send planned.patches
            (r.cache.advance (request.reads (r.cache.serves · s.cache)) s.cache)).1
            (request.offers r s) (request.writes r s) answer ∧
          (request.run r s).1 = answer.map request.complete) := by
  have advance : ∀ n, r.logging.cache.advance n (s.logged [] []).cache =
      ⟨r.cache.advance n s.cache, []⟩ := r.cache.advance_logging [] s.cache
  have serves : (r.logging.cache.serves · (s.logged [] []).cache) = (r.cache.serves · s.cache) := by
    funext n
    rw [Cache.serves, advance]
    rfl
  cases prepared : request.plan (r.cache.serves · s.cache) with
  | error failure =>
      have plain := run_eq_of_error r request s prepared
      have noted := run_eq_of_error r.logging request (s.logged [] []) (serves ▸ prepared)
      dsimp only at plain noted
      rw [serves, advance] at noted
      rw [offers, writes, noted, plain]
      exact ⟨rfl, .inl ⟨failure, rfl, rfl, rfl, rfl⟩⟩
  | ok planned =>
      have plain := run_eq_of_ok r request s prepared
      have noted := run_eq_of_ok r.logging request (s.logged [] []) (serves ▸ prepared)
      dsimp only at plain noted
      rw [serves, advance] at noted
      obtain ⟨_, _, dispatched, same⟩ := r.commit_logging planned
        { s with cache := r.cache.advance (request.reads (r.cache.serves · s.cache)) s.cache }
      replace noted := noted.trans
        (congrArg (fun done => (done.1.map request.complete, done.2)) same)
      rw [offers, writes, noted, plain]
      exact ⟨rfl, .inr ⟨planned, _, rfl, dispatched, rfl⟩⟩

end Request

end Outline
