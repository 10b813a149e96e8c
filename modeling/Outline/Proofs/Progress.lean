import Outline.Proofs.Failures

/-!
# Progress

In a valid workspace that is its own cache, what has been accepted never gets stuck: it can be
computed, all it touches is there, and every computed list is taken (`Outline.Workspace.Proceeds`).
So a drop comes to nothing only if it is refused, or if the store refuses something
(`Outline.Workspace.Valid.never_stuck`).
-/

namespace Outline

namespace Workspace

variable {w : Workspace}

/-- All that a rearrangement touches is there, and its lists can be put in place one after the
other. -/
structure Proceeds (w : Workspace) (planned : Rearrangement) : Prop where
  resolved : planned.resolve w = .ok ()
  carried : ∃ w', planned.carryOut w = .ok w'

theorem Outcome.proceeds {w' : Workspace} {planned : Rearrangement}
    (outcome : w.Outcome planned w') : w.Proceeds planned :=
  ⟨outcome.resolved, w', outcome.carried⟩

namespace Valid

variable (valid : w.Valid)

include valid

theorem exists_proceeds_of_classify {payload : Payload} {location : Location} {move : Move}
    (classified : w.classify payload location = .ok move) :
    ∃ planned, w.rearrange move = .ok planned ∧ w.Proceeds planned := by
  obtain ⟨planned, w', computed, outcome, -⟩ :=
    valid.exists_outcome_of_admits (admits_of_classify classified)
  exact ⟨planned, computed, outcome.proceeds⟩

/-- A member is added whatever it is called. -/
theorem exists_proceeds_of_checkInsert {container : Container} {name : String} {kind : Kind}
    (allowed : w.checkInsert container name kind = .ok ()) (fresh : Id) :
    ∃ planned, w.add container name kind fresh = .ok planned ∧ w.Proceeds planned := by
  obtain ⟨-, _, _, siblings, -, -, -, members, -⟩ := checkInsert_eq_ok_iff.1 allowed
  obtain ⟨site, frame, put, window⟩ := exists_window members
  refine ⟨_, valid.add_eq_ok window name kind fresh, ?_, _, carryOut_single (window.patch _)⟩
  refine resolve_eq_ok (List.forall_mem_singleton.2 (Option.isSome_of_eq_some members)) ?_
  exact fun _ none => by cases none

theorem exists_proceeds_of_checkRename {id : Id} {name : String} {container : Container}
    (allowed : w.checkRename id name = .ok container) :
    ∃ planned, w.rename id name = .ok planned ∧ w.Proceeds planned := by
  obtain ⟨planned, w', computed, outcome⟩ := valid.exists_outcome_of_rename allowed
  exact ⟨planned, computed, outcome.proceeds⟩

theorem exists_proceeds_of_locate? {id : Id} {found : Located}
    (located : w.locate? id = some found) :
    ∃ planned, w.delete id = .ok planned ∧ w.Proceeds planned := by
  obtain ⟨planned, w', computed, outcome⟩ :=
    valid.exists_outcome_of_delete (Option.isSome_of_eq_some located)
  exact ⟨planned, computed, outcome.proceeds⟩

/-- What has been computed for an edit proceeds, also if the new identifier is in use. -/
theorem proceeds_of_compute {edit : Edit} {fresh : Id} {planned : Rearrangement}
    (computed : edit.compute fresh w = .ok planned) : w.Proceeds planned := by
  have allowed := allowed_of_compute computed
  cases edit with
  | add container name kind =>
      have passed : w.checkInsert container name kind = .ok () := allowed
      obtain ⟨planned', same, proceeds⟩ := valid.exists_proceeds_of_checkInsert passed fresh
      rw [Edit.compute, passed, same] at computed
      exact Except.ok.inj computed ▸ proceeds
  | rename member name =>
      obtain ⟨container, passed⟩ := allowed
      obtain ⟨planned', same, proceeds⟩ := valid.exists_proceeds_of_checkRename passed
      rw [Edit.compute, passed, same] at computed
      exact Except.ok.inj computed ▸ proceeds
  | delete member =>
      obtain ⟨found, located⟩ := Option.isSome_iff_exists.1 allowed
      obtain ⟨planned', same, proceeds⟩ := valid.exists_proceeds_of_locate? located
      rw [Edit.compute, same] at computed
      exact Except.ok.inj computed ▸ proceeds

/-- Whatever a request amounts to proceeds. -/
theorem proceeds_of_plan {request : Request} {planned : Rearrangement}
    (ready : request.plan (fun _ => w) = .ok planned) : w.Proceeds planned := by
  cases request with
  | drop session location =>
      obtain ⟨move, classified, computed, -⟩ := Request.plan_drop_eq_ok_iff.1 ready
      obtain ⟨planned', same, proceeds⟩ := valid.exists_proceeds_of_classify classified
      obtain rfl := Except.ok.inj (same.symm.trans computed)
      exact proceeds
  | edit change fresh => exact valid.proceeds_of_compute (Request.plan_edit_eq_ok_iff.1 ready).1

end Valid

end Workspace

/-- The store accepts whatever it is offered. -/
def Backend.AcceptsAll {σ : Type} (backend : Backend σ) : Prop :=
  ∀ parcel store, (backend.send parcel store).1 = .ok ()

namespace Reconciler

variable {σ κ : Type}

theorem offerRoots_of_acceptsAll {r : Reconciler σ κ} (accepts : r.backend.AcceptsAll)
    (batch : Option RootBatch) (store : σ) : (r.offerRoots batch store).1 = .ok () := by
  cases batch with
  | none => rfl
  | some batch => exact accepts (.roots batch) store

/-- With a store that accepts everything, every commit succeeds. -/
theorem commit_of_acceptsAll {r : Reconciler σ κ} (accepts : r.backend.AcceptsAll)
    (planned : Rearrangement) (s : State σ κ) : ∃ report, (r.commit planned s).1 = .ok report := by
  by_cases idle : planned.parcels = []
  · rw [commit_eq_of_idle r idle]
    exact ⟨_, rfl⟩
  · have faultless := Offer.faultless_of_accepted
      (answer_of_mem_converse r.backend.send accepts planned.parcels s.store)
    have committed :=
      commit_eq_of_rootsAccepted r (s := s) idle (offerRoots_of_acceptsAll accepts _ _)
    dsimp only at committed
    rw [committed, if_pos faultless]
    exact ⟨_, rfl⟩

end Reconciler

namespace Workspace

open Reconciler

variable {σ : Type} {w : Workspace}

/-- Every list that a request writes is taken. -/
theorem Valid.taken_of_writes (valid : w.Valid) (backend : Backend σ) (request : Request)
    (store : σ) :
    ∀ write ∈ request.writes (ofBackend backend) ⟨store, w⟩, write.answer = .ok () := by
  rcases Request.course_ofBackend backend request ⟨store, w⟩ with
    ⟨failure, -, -, -, none⟩ | ⟨planned, answer, ready, dispatched, -⟩
  · rw [none]
    exact List.forall_mem_nil _
  · obtain ⟨w', carried⟩ := (valid.proceeds_of_plan ready).carried
    have taken := (taken_of_carryOut carried).2
    generalize request.writes (ofBackend backend) ⟨store, w⟩ = writes at dispatched
    generalize request.offers (ofBackend backend) ⟨store, w⟩ = offers at dispatched
    cases dispatched with
    | committed => exact taken
    | idle => exact List.forall_mem_nil _
    | rootsRefused => exact List.forall_mem_nil _
    | refused => exact List.forall_mem_nil _

/-- With a store that accepts everything, a drop is refused or committed. -/
theorem Valid.drop_ends (valid : w.Valid) {backend : Backend σ} (accepts : backend.AcceptsAll)
    (session : Session) (location : Location) (store : σ) :
    let answer := ((ofBackend backend).drop session location ⟨store, w⟩).1
    (∃ refusal, answer = .error (.refused refusal)) ∨ ∃ report, answer = .ok report := by
  cases classified : w.classify session.payload location with
  | error refusal =>
      exact .inl ⟨refusal, (drop_eq_of_refused backend (s := ⟨store, w⟩) classified).1⟩
  | ok move =>
      obtain ⟨planned, computed, proceeds⟩ := valid.exists_proceeds_of_classify classified
      obtain ⟨answered, -⟩ := drop_eq_of_computed backend (s := ⟨store, w⟩) classified computed
        proceeds.resolved
      obtain ⟨report, done⟩ := commit_of_acceptsAll (r := ofBackend backend) accepts planned
        ⟨store, w⟩
      exact .inr ⟨report, answered.trans done⟩

/-- In a valid workspace whatever is classified, and every edit that passes its check, can be
computed and resolved, and every list written after a commit is taken.  So with a store that
accepts everything a drop ends refused or committed. -/
theorem Valid.never_stuck (valid : w.Valid) :
    (∀ payload location move, w.classify payload location = .ok move →
      ∃ planned, w.rearrange move = .ok planned ∧ planned.resolve w = .ok ()) ∧
    (∀ container name kind fresh, w.checkInsert container name kind = .ok () →
      ∃ planned, w.add container name kind fresh = .ok planned ∧ planned.resolve w = .ok ()) ∧
    (∀ id name container, w.checkRename id name = .ok container →
      ∃ planned, w.rename id name = .ok planned ∧ planned.resolve w = .ok ()) ∧
    (∀ id found, w.locate? id = some found →
      ∃ planned, w.delete id = .ok planned ∧ planned.resolve w = .ok ()) ∧
    (∀ (backend : Backend σ) (request : Request) store,
      ∀ write ∈ request.writes (ofBackend backend) ⟨store, w⟩, write.answer = .ok ()) ∧
    ∀ (backend : Backend σ), backend.AcceptsAll → ∀ session location store,
      let ended := (ofBackend backend).drop session location ⟨store, w⟩
      ((∃ refusal, ended.1 = .error (.refused refusal)) ∧
        ended.2.1.history = session.history ++ [.classifying, .rejected, .idle]) ∨
      ((∃ report, ended.1 = .ok report) ∧ ended.2.1.history =
        session.history ++ [.classifying, .computing, .committing, .committed, .idle]) := by
  refine ⟨?_, ?_, ?_, ?_, valid.taken_of_writes, ?_⟩
  · intro payload location move classified
    obtain ⟨planned, computed, proceeds⟩ := valid.exists_proceeds_of_classify classified
    exact ⟨planned, computed, proceeds.resolved⟩
  · intro container name kind fresh allowed
    obtain ⟨planned, computed, proceeds⟩ := valid.exists_proceeds_of_checkInsert allowed fresh
    exact ⟨planned, computed, proceeds.resolved⟩
  · intro id name container allowed
    obtain ⟨planned, computed, proceeds⟩ := valid.exists_proceeds_of_checkRename allowed
    exact ⟨planned, computed, proceeds.resolved⟩
  · intro id found located
    obtain ⟨planned, computed, proceeds⟩ := valid.exists_proceeds_of_locate? located
    exact ⟨planned, computed, proceeds.resolved⟩
  · intro backend accepts session location store ended
    have stages : ended.2.1.history = session.history ++ stagesTo ended.1 :=
      (ofBackend backend).history_drop session location ⟨store, w⟩
    rcases valid.drop_ends accepts session location store with ⟨refusal, ends⟩ | ⟨report, ends⟩
    · exact .inl ⟨⟨refusal, ends⟩, stages.trans (congrArg (_ ++ stagesTo ·) ends)⟩
    · exact .inr ⟨⟨report, ends⟩, stages.trans (congrArg (_ ++ stagesTo ·) ends)⟩

/-- The note is dropped onto the folder, and another one is added next to it under an identifier
that is in use. -/
theorem noteTree_never_stuck :
    (∃ planned, noteTree.rearrange (.intoMember looseNote (.ofNode { bits := 1 } { bits := 2 })) =
      .ok planned ∧ planned.resolve noteTree = .ok ()) ∧
    (∃ planned, noteTree.add looseNote.container "idea" .leaf looseNote.member = .ok planned ∧
      planned.resolve noteTree = .ok ()) ∧
    ∀ write ∈ (Request.drop (.start (.member .treeNode looseNote)) ontoFolder).writes
      (ofBackend Recorder.backend) ⟨{}, noteTree⟩, write.answer = .ok () := by
  obtain ⟨moves, adds, -, -, writes, -⟩ := @Valid.never_stuck Recorder noteTree noteTree_valid
  exact ⟨moves (.member .treeNode looseNote) ontoFolder _ rfl, adds _ _ _ _ (by decide),
    writes Recorder.backend _ {}⟩

end Workspace

end Outline
