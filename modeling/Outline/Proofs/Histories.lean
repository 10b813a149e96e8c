import Mathlib.Data.List.Induction
import Outline.Proofs.Dispatches

/-!
# The history of a session

A session may be used for several drops, beside any stores and caches, and be cancelled in between.
Each turn adds one block of stages to its history, and the block tells how the turn ended and
whether the store was asked for anything (`Outline.Session.Lived.history_blocks`).
-/

namespace Outline

/-- One use of a session. -/
inductive Turn where
  | cancelled
  /-- A drop that ended with the answer, after the store was offered something or nothing. -/
  | dropped (answer : Except Failure Report) (offers : List Offer)

namespace Turn

/-- The stages that the turn goes through. -/
def block : Turn → List Stage
  | cancelled => [.idle]
  | dropped answer _ => stagesTo answer

/-- The terminal stage that the turn goes through, if there is one. -/
def ending? (turn : Turn) : Option Stage :=
  turn.block.find? Stage.isTerminal

/-- The turn leaves the session idle. -/
theorem exists_block (turn : Turn) : ∃ stages, turn.block = stages ++ [.idle] := by
  match turn with
  | cancelled => exact ⟨[], rfl⟩
  | dropped (.ok _) _ => exact ⟨[.classifying, .computing, .committing, .committed], rfl⟩
  | dropped (.error (.refused _)) _ => exact ⟨[.classifying, .rejected], rfl⟩
  | dropped (.error (.absent _)) _ => exact ⟨[.classifying, .computing, .failed], rfl⟩
  | dropped (.error (.commitFailed ..)) _ | dropped (.error (.rootOrderFailed _)) _ =>
      exact ⟨[.classifying, .computing, .committing, .failed], rfl⟩

/-- No turn goes through two terminal stages, so that its first is its last. -/
theorem find?_reverse_block (turn : Turn) :
    turn.block.reverse.find? Stage.isTerminal = turn.ending? := by
  match turn with
  | cancelled | dropped (.ok _) _ | dropped (.error (.refused _)) _
  | dropped (.error (.absent _)) _ | dropped (.error (.commitFailed ..)) _
  | dropped (.error (.rootOrderFailed _)) _ => rfl

end Turn

/-- How a drop's block of stages belongs to its answer and to what the store was offered. -/
structure Turn.Tells (block : List Stage) (answer : Except Failure Report) (offers : List Offer) :
    Prop where
  /-- The block is one of four. -/
  known : block ∈ [[.classifying, .rejected, .idle], [.classifying, .computing, .failed, .idle],
    [.classifying, .computing, .committing, .committed, .idle],
    [.classifying, .computing, .committing, .failed, .idle]]
  rejected : block = [.classifying, .rejected, .idle] ↔
    ∃ refusal, answer = .error (.refused refusal)
  aborted : block = [.classifying, .computing, .failed, .idle] ↔
    ∃ absence, answer = .error (.absent absence)
  failed : block = [.classifying, .computing, .committing, .failed, .idle] ↔
    (∃ attempted failures, answer = .error (.commitFailed attempted failures)) ∨
      ∃ fault, answer = .error (.rootOrderFailed fault)
  committed : block = [.classifying, .computing, .committing, .committed, .idle] ↔
    ∃ report, answer = .ok report
  ended : ∃ stage, block.find? Stage.isTerminal = some stage
  /-- The store is asked for something only in the course of a commit. -/
  offered : offers ≠ [] → .committing ∈ block

/-- The stages that lead to an answer tell it, whatever was offered before a commit. -/
theorem Turn.tells_stagesTo {answer : Except Failure Report} {offers : List Offer}
    (offered : offers ≠ [] → .committing ∈ stagesTo answer) :
    Turn.Tells (stagesTo answer) answer offers := by
  match answer with
  | .ok _ | .error (.refused _) | .error (.absent _) | .error (.commitFailed ..)
  | .error (.rootOrderFailed _) =>
      constructor
      case ended => exact ⟨_, rfl⟩
      case offered => exact offered
      all_goals simp [stagesTo]

namespace Request

open Reconciler

variable {σ κ : Type} (r : Reconciler σ κ)

/-- Only a drop that reaches its commit offers anything. -/
theorem committing_of_offered {session : Session} {location : Location} {s : State σ κ}
    (some : (drop session location).offers r s ≠ []) :
    .committing ∈ stagesTo (r.drop session location s).1 := by
  cases prepared : (drop session location).plan (r.cache.serves · s.cache) with
  | error failure => exact absurd (offers_eq_nil_of_unplanned r prepared).2 some
  | ok planned =>
      rw [r.drop_eq_of_ok session location s prepared]
      cases committed : r.commit planned _ with
      | mk answer state =>
          cases answer with
          | ok report => simp [stagesTo]
          | error failure =>
              rcases r.failure_of_commit committed with ⟨-, fault, -, rfl⟩ |
                ⟨attempted, failures, rfl⟩ <;> simp [stagesTo]

end Request

namespace Session

@[simp] theorem follow_nil (session : Session) : session.follow [] = session := rfl

@[simp] theorem follow_follow (session : Session) (first later : List Stage) :
    (session.follow first).follow later = session.follow (first ++ later) :=
  List.foldl_append.symm

theorem stage_follow_block (session : Session) (turn : Turn) :
    (session.follow turn.block).stage = .idle := by
  obtain ⟨stages, same⟩ := turn.exists_block
  rw [same, ← follow_follow]
  rfl

/-- The stage of a session is the last that it remembers, also in the middle of a turn. -/
theorem getLast?_history_follow (payload : Payload) (stages : List Stage) :
    ((start payload).follow stages).history.getLast? =
      some ((start payload).follow stages).stage := by
  induction stages using List.reverseRecOn with
  | nil => rfl
  | append_singleton stages stage _ =>
      rw [← follow_follow]
      exact getLast?_history_enter _ stage

theorem outcome?_follow_block (session : Session) (turn : Turn) :
    (session.follow turn.block).outcome? = turn.ending?.or session.outcome? := by
  rw [outcome?, history_follow, List.reverse_append, List.find?_append, turn.find?_reverse_block]
  rfl

theorem stage_follow_blocks (payload : Payload) (turns : List Turn) :
    ((start payload).follow (turns.flatMap Turn.block)).stage = .idle := by
  induction turns using List.reverseRecOn with
  | nil => rfl
  | append_singleton turns turn _ =>
      rw [List.flatMap_append, ← follow_follow, List.flatMap_singleton, stage_follow_block]

/-- A session remembers how its latest drop ended. -/
theorem outcome?_follow_blocks (payload : Payload) (turns : List Turn) :
    ((start payload).follow (turns.flatMap Turn.block)).outcome? =
      (turns.filterMap Turn.ending?).getLast? := by
  induction turns using List.reverseRecOn with
  | nil => rfl
  | append_singleton turns turn ih =>
      rw [List.flatMap_append, ← follow_follow, List.flatMap_singleton, outcome?_follow_block, ih,
        List.filterMap_append]
      cases ending : turn.ending? <;> simp [ending]

/-- The life of a session: it starts out idle, and then it is cancelled or used for a drop beside
any store and any cache, turn after turn. -/
inductive Lived (payload : Payload) : Session → List Turn → Prop where
  | start : Lived payload (.start payload) []
  | cancel {session : Session} {turns : List Turn} (lived : Lived payload session turns) :
      Lived payload session.cancel (turns ++ [.cancelled])
  | drop {session : Session} {turns : List Turn} (lived : Lived payload session turns)
      {σ κ : Type} (r : Reconciler σ κ) (location : Location) (s : Reconciler.State σ κ) :
      Lived payload (r.drop session location s).2.1 (turns ++
        [.dropped (r.drop session location s).1 ((Request.drop session location).offers r s)])

namespace Lived

open Reconciler

variable {payload : Payload} {session : Session} {turns : List Turn}

/-- Each turn of a session adds its block. -/
theorem eq_follow (lived : Lived payload session turns) :
    session = (Session.start payload).follow (turns.flatMap Turn.block) := by
  induction lived with
  | start => simp
  | @cancel session turns lived ih =>
      have step : session.cancel = session.follow (Turn.block .cancelled) := rfl
      rw [step, List.flatMap_append, ← follow_follow, ← ih, List.flatMap_singleton]
  | @drop session turns lived σ κ r location s ih =>
      have step := r.session_drop session location s
      rw [step, List.flatMap_append, ← follow_follow, ← ih, List.flatMap_singleton]
      rfl

/-- The stage that a session is in is the last of its history. -/
theorem getLast?_history (lived : Lived payload session turns) :
    session.history.getLast? = some session.stage := by
  rw [lived.eq_follow]
  exact getLast?_history_follow payload _

theorem tells (lived : Lived payload session turns) {answer : Except Failure Report}
    {offers : List Offer} (dropped : .dropped answer offers ∈ turns) :
    Turn.Tells (stagesTo answer) answer offers := by
  induction lived with
  | start => cases dropped
  | cancel _ ih =>
      rcases List.mem_append.1 dropped with earlier | last
      · exact ih earlier
      · cases List.mem_singleton.1 last
  | drop _ r location s ih =>
      rcases List.mem_append.1 dropped with earlier | last
      · exact ih earlier
      · obtain ⟨rfl, rfl⟩ := Turn.dropped.inj (List.mem_singleton.1 last)
        exact Turn.tells_stagesTo (Request.committing_of_offered r)

/-- The history of a session is one block of stages for each of its turns, after the stage it
starts in, and every turn leaves it idle.  The outcome is the terminal stage of the latest turn that
has one, which is the latest drop.  Each drop goes through one of four blocks, told by its answer,
and the store is offered something only in a block with a commit in it. -/
theorem history_blocks (lived : Lived payload session turns) :
    session.history = .idle :: turns.flatMap Turn.block ∧ session.stage = .idle ∧
      session.outcome? = (turns.filterMap Turn.ending?).getLast? ∧
      ∀ answer offers, .dropped answer offers ∈ turns →
        Turn.Tells (Turn.dropped answer offers).block answer offers := by
  have same := lived.eq_follow
  refine ⟨?_, ?_, ?_, fun answer offers => lived.tells⟩
  · rw [same, history_follow]
    rfl
  · rw [same, stage_follow_blocks]
  · rw [same, outcome?_follow_blocks]

/-- A session for the note of `noteTree`: it is dropped nowhere, the drag is given up, and at last
it is dropped onto the folder. -/
theorem noteTree_history_blocks :
    let r : Reconciler Recorder Workspace := ⟨Recorder.backend, Cache.ofWorkspace⟩
    let missed := r.drop (.start (.member .treeNode looseNote)) ⟨[]⟩ ⟨{}, noteTree⟩
    let landed := r.drop missed.2.1.cancel ontoFolder missed.2.2
    landed.2.1.history = [.idle, .classifying, .rejected, .idle, .idle,
        .classifying, .computing, .committing, .committed, .idle] ∧
      landed.2.1.outcome? = some .committed := by
  intro r missed landed
  have begun : Lived (.member .treeNode looseNote) missed.2.1 _ := .drop .start r _ _
  have lived := begun.cancel.drop r ontoFolder missed.2.2
  obtain ⟨history, -, outcome, -⟩ := lived.history_blocks
  exact ⟨history.trans rfl, outcome.trans rfl⟩

end Lived

end Session

end Outline
