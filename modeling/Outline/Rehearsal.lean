import Outline.Reconcile

/-!
# Rehearsals

A store that refuses what it is told to and remembers what it accepted, and a cache that serves a
series of workspaces: surroundings in which to watch a reconciliation.
-/

namespace Outline

/-- What a recorder refuses, and what it has accepted, latest last. -/
structure Recorder where
  /-- Containers whose batches are refused; the first mention of a container counts. -/
  refused : List (Container × CommitFault) := []
  refusedRoots : Option CommitFault := none
  accepted : List Batch := []
  acceptedRoots : List RootBatch := []
  deriving Inhabited

/-- The store that a recorder is. -/
def Recorder.backend : Backend Recorder where
  commit batch recorder :=
    match recorder.refused.lookup batch.container with
    | some fault => (.error fault, recorder)
    | none => (.ok (), { recorder with accepted := recorder.accepted ++ [batch] })
  commitRoots batch recorder :=
    match recorder.refusedRoots with
    | some fault => (.error fault, recorder)
    | none => (.ok (), { recorder with acceptedRoots := recorder.acceptedRoots ++ [batch] })

/-- Workspaces to be served one after the other, the last of them from then on. -/
structure Series where
  upcoming : List Workspace
  last : Workspace
  /-- Whether computed lists are refused. -/
  refusesPatches : Bool := false
  deriving Inhabited

/-- The cache that a series is.  Computed lists go to its last workspace. -/
def Series.cache : Cache Series where
  read series :=
    match series.upcoming with
    | w :: rest => (w, { series with upcoming := rest })
    | [] => (series.last, series)
  patch container after series :=
    if series.refusesPatches then
      (.error (.noContainer container), series)
    else
      let (answer, last) := Cache.ofWorkspace.patch container after series.last
      (answer, { series with last })
  patchRoots after series :=
    if series.refusesPatches then
      (.error (.noRoot .nil), series)
    else
      let (answer, last) := Cache.ofWorkspace.patchRoots after series.last
      (answer, { series with last })

end Outline
