import Outline.Admission
import Outline.Patch
import Outline.Plan
import Outline.Session

/-!
# Reconciliation

A drop or an edit is checked and computed against what the cache serves, committed batch by batch,
and written back to the cache once every batch has been accepted.  The store that accepts batches
and the cache are parameters: each is a state with the operations on it.
-/

namespace Outline

/-- Why a batch was not committed. -/
inductive CommitFault where
  | rejected (reason : String)
  | timedOut
  | storage (reason : String)
  deriving DecidableEq

/-- The text of a commit fault. -/
def CommitFault.message : CommitFault → String
  | .rejected reason => "commit rejected: " ++ reason
  | .timedOut => "commit timed out"
  | .storage reason => "storage error: " ++ reason

/-- A store that accepts or refuses each batch by itself. -/
structure Backend (σ : Type) where
  commit : Batch → σ → Except CommitFault Unit × σ
  commitRoots : RootBatch → σ → Except CommitFault Unit × σ

/-- A cache that serves workspaces and takes computed lists of members and roots. -/
structure Cache (κ : Type) where
  read : κ → Workspace × κ
  patch : Container → Forest → κ → Except Absence Unit × κ
  patchRoots : List Root → κ → Except Absence Unit × κ

/-- A change asked for by other means than a drop. -/
inductive Edit where
  | add (container : Container) (name : String) (kind : Kind)
  | rename (member : Id) (name : String)
  | delete (member : Id)
  deriving DecidableEq

/-- The name of an edit. -/
def Edit.text : Edit → String
  | .add .. => "add"
  | .rename .. => "rename"
  | .delete .. => "delete"

/-- Why a drop or an edit came to nothing. -/
inductive Failure where
  | refused (refusal : Refusal)
  | absent (absence : Absence)
  /-- Some of the batches, of which `attempted` were offered, were not committed. -/
  | commitFailed (attempted : Nat) (failures : List (Container × CommitFault))
  | rootOrderFailed (fault : CommitFault)
  deriving DecidableEq

namespace Failure

/-- The text of a failure. -/
def message : Failure → String
  | .refused refusal => "rejected: " ++ refusal.message
  | .absent absence => "invariant violation: " ++ absence.message
  | .commitFailed attempted failures =>
    s!"{failures.length} of {attempted} batches failed to commit"
  | .rootOrderFailed fault => "root order failed to commit: " ++ fault.message

/-- The text of what caused the failure, where that is a cause of its own. -/
def cause? : Failure → Option String
  | .refused refusal => some refusal.message
  | .absent absence => some absence.message
  | _ => none

end Failure

/-- What was committed. -/
structure Report where
  /-- The batches that had something to do, one for each container. -/
  batches : List Batch := []
  rootBatch : Option RootBatch := none
  /-- The member that an edit added. -/
  created : Option Id := none
  deriving DecidableEq, Inhabited

namespace Report

/-- Whether there was nothing to commit. -/
def isNoop (report : Report) : Bool :=
  report.batches.isEmpty && report.rootBatch.isNone

/-- The number of commands committed. -/
def commands (report : Report) : Nat :=
  report.batches.foldl (fun n batch => n + batch.size) 0 +
    report.rootBatch.elim 0 RootBatch.size

/-- The number of batches committed. -/
def size (report : Report) : Nat :=
  report.batches.length + report.rootBatch.elim 0 fun _ => 1

end Report

namespace Edit

/-- What an edit makes of a workspace, if the rules allow it; an added member is called `fresh`. -/
def compute (edit : Edit) (fresh : Id) (w : Workspace) : Except Failure Rearrangement :=
  match edit with
  | .add container name kind =>
    match w.checkInsert container name kind with
    | .error refusal => .error (.refused refusal)
    | .ok () => (w.add container name kind fresh).mapError .absent
  | .rename member name =>
    match w.checkRename member name with
    | .error refusal => .error (.refused refusal)
    | .ok _ => (w.rename member name).mapError .absent
  | .delete member => (w.delete member).mapError .absent

/-- The member that the edit adds. -/
def created? (edit : Edit) (fresh : Id) : Option Id :=
  match edit with
  | .add .. => some fresh
  | _ => none

end Edit

/-- The sequence in which a store gets to batches that are offered to it at once.  There are no more
than two of them, so that these are all. -/
inductive Schedule where
  | forward
  | backward

/-- A store and a cache that stand for one workspace. -/
structure Reconciler (σ κ : Type) where
  backend : Backend σ
  cache : Cache κ

/-- The present states of a store and a cache. -/
structure Reconciler.State (σ κ : Type) where
  store : σ
  cache : κ

namespace Reconciler

variable {σ κ : Type} (r : Reconciler σ κ)

/-- Offers every batch in turn, also after one was refused, and lists the faults. -/
def offer : List Batch → σ → List (Container × CommitFault) × σ
  | [], store => ([], store)
  | batch :: rest, store =>
    let (answer, store) := r.backend.commit batch store
    let (failures, store) := offer rest store
    match answer with
    | .ok () => (failures, store)
    | .error fault => ((batch.container, fault) :: failures, store)

/-- Offers every batch at once.  The faults are listed in the sequence of the batches, whichever the
store gets to first. -/
def offerAll (batches : List Batch) (store : σ) :
    Schedule → List (Container × CommitFault) × σ
  | .forward => r.offer batches store
  | .backward =>
    let (failures, store) := r.offer batches.reverse store
    (failures.reverse, store)

/-- Offers the batch of the list of roots, if there is one. -/
def offerRoots (batch : Option RootBatch) (store : σ) : Except CommitFault Unit × σ :=
  match batch with
  | some batch => r.backend.commitRoots batch store
  | none => (.ok (), store)

/-- Writes every computed list to the cache.  What the cache refuses stays as it is. -/
def writeBack (rearrangement : Rearrangement) (cache : κ) : κ :=
  let cache := rearrangement.changes.foldl
    (fun cache change => (r.cache.patch change.container change.after cache).2) cache
  match rearrangement.roots with
  | some roots => (r.cache.patchRoots roots.after cache).2
  | none => cache

/-- Commits a rearrangement: the list of roots first, then every batch.  The cache is written only
if all were accepted. -/
def commit (rearrangement : Rearrangement) (state : State σ κ)
    (schedule : Schedule := .forward) : Except Failure Report × State σ κ :=
  let batches := rearrangement.batches
  let rootBatch := rearrangement.rootBatch?
  if batches.isEmpty && rootBatch.isNone then
    (.ok {}, state)
  else
    match r.offerRoots rootBatch state.store with
    | (.error fault, store) => (.error (.rootOrderFailed fault), { state with store })
    | (.ok (), store) =>
      match r.offerAll batches store schedule with
      | ([], store) =>
        (.ok { batches, rootBatch }, { store, cache := r.writeBack rearrangement state.cache })
      | (failures, store) =>
        (.error (.commitFailed batches.length failures), { state with store })

/-- Carries out a drop.  The cache is read once to classify it, once to compute it and once to see
that all it touches is still there. -/
def drop (session : Session) (location : Location) (state : State σ κ)
    (schedule : Schedule := .forward) : Except Failure Report × Session × State σ κ :=
  let session := session.enter .classifying
  let (seen, cache) := r.cache.read state.cache
  match seen.classify session.payload location with
  | .error refusal =>
    (.error (.refused refusal), session.finish .rejected, { state with cache })
  | .ok move =>
    let session := session.enter .computing
    let (seen, cache) := r.cache.read cache
    match seen.rearrange move with
    | .error absence =>
      (.error (.absent absence), session.finish .failed, { state with cache })
    | .ok rearrangement =>
      let (seen, cache) := r.cache.read cache
      match rearrangement.resolve seen with
      | .error absence =>
        (.error (.absent absence), session.finish .failed, { state with cache })
      | .ok () =>
        let session := session.enter .committing
        match r.commit rearrangement { state with cache } schedule with
        | (.ok report, state) => (.ok report, session.finish .committed, state)
        | (.error failure, state) => (.error failure, session.finish .failed, state)

/-- Carries out an edit.  The cache is read once. -/
def edit (change : Edit) (fresh : Id) (state : State σ κ) :
    Except Failure Report × State σ κ :=
  let (seen, cache) := r.cache.read state.cache
  let computed := (change.compute fresh seen).bind fun rearrangement =>
    ((rearrangement.resolve seen).mapError .absent).map fun () => rearrangement
  match computed with
  | .error failure => (.error failure, { state with cache })
  | .ok rearrangement =>
    match r.commit rearrangement { state with cache } with
    | (.ok report, state) => (.ok { report with created := change.created? fresh }, state)
    | (.error failure, state) => (.error failure, state)

end Reconciler

/-- A workspace as its own cache: it serves itself and takes every list it can resolve. -/
def Cache.ofWorkspace : Cache Workspace where
  read w := (w, w)
  patch container after w :=
    match w.patch container after with
    | .ok w' => (.ok (), w')
    | .error absence => (.error absence, w)
  patchRoots after w :=
    match w.patchRoots after with
    | .ok w' => (.ok (), w')
    | .error absence => (.error absence, w)

end Outline
