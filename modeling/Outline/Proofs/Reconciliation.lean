import Outline.Proofs.Differences
import Outline.Proofs.Tables
import Outline.Proofs.Transcripts
import Outline.Rehearsal

/-!
# Reconciliation beside a store

A workspace that is its own cache, beside a store that accepts or refuses every batch as it likes.
A drop or an edit leaves the workspace as it is or takes it to the outcome of what was computed
(`Outline.Reconciler.cache_drop`, `Outline.Reconciler.cache_edit`).
-/

namespace Outline

namespace Workspace

variable {w w' : Workspace} {r : Rearrangement}

/-- Without a difference the rows are the same. -/
theorem Difference.rows_perm (difference : w.Difference w' []) (valid : w.Valid)
    (valid' : w'.Valid) : w.rows.Perm w'.rows := by
  have same : ∀ old ∈ w.rows, ∀ new ∈ w'.rows, old.id = new.id → old = new := by
    intro old inside new listed id
    by_contra other
    have differs : old.Differs new := by
      by_contra alike
      exact other (Row.eq_of_not_differs id (difference.kinds old inside new listed id) alike)
    have update := (difference.updates _).2
      ⟨old, inside, new, listed, id, differs, old.updateTo_turns new⟩
    exact absurd update List.not_mem_nil
  apply (List.perm_ext_iff_of_nodup valid.nodup_rows valid'.nodup_rows).2
  intro row
  constructor
  · intro inside
    have stays : row.id ∈ w'.ids := by
      by_contra gone
      have listed : row.id ∈ w.ids.filter (· ∉ w'.ids) :=
        List.mem_filter.2 ⟨id_mem_of_mem_rows inside, decide_eq_true gone⟩
      exact absurd (difference.deletes.mem_iff.2 listed) List.not_mem_nil
    obtain ⟨new, listed, id⟩ := exists_row_of_mem_ids stays
    rwa [same row inside new listed id.symm]
  · intro inside
    have known : row.id ∈ w.ids := by
      by_contra new
      have listed : row ∈ w'.rows.filter (·.id ∉ w.ids) :=
        List.mem_filter.2 ⟨inside, decide_eq_true new⟩
      exact absurd (difference.creates.mem_iff.2 listed) List.not_mem_nil
    obtain ⟨old, listed, id⟩ := exists_row_of_mem_ids known
    rwa [← same old listed row inside id]

/-- Without a batch for the list of roots, the roots stay as they are. -/
theorem Outcome.roots_eq_of_idle (outcome : w.Outcome r w') (valid : w.Valid)
    (ascending : w.Ascending) (idle : r.rootBatch? = none) :
    w.roots.map Root.shallow = w'.roots.map Root.shallow := by
  cases changed : r.roots with
  | none => exact (outcome.same_roots changed).symm
  | some roots =>
      have difference := outcome.rootDifference valid
      rw [Rearrangement.rootBatch?, changed] at idle
      have none : roots.plan.updates = [] := by
        simpa [RootBatch.isEmpty, Option.filter] using idle
      rw [changed, Option.elim_some, none] at difference
      have known : ∀ root ∈ w'.roots.map Root.shallow, root ∈ w.roots.map Root.shallow := by
        rw [List.forall_mem_map]
        intro new listed
        obtain ⟨old, inside, fields⟩ := outcome.known_roots new listed
        have order : old.order = new.order := by
          by_contra differs
          have update := (difference.updates ⟨new.id, new.order⟩).2
            ⟨old, inside, new, listed, (congrArg Root.id fields).symm, differs, rfl⟩
          exact absurd update List.not_mem_nil
        refine List.mem_map.2 ⟨old, inside, ?_⟩
        rw [fields, ← order]
        rfl
      have ids : ∀ roots : List Root, (roots.map Root.shallow).map Root.id = roots.map Root.id := by
        intro roots
        rw [List.map_map]
        rfl
      have distinct := outcome.valid.roots_distinct
      have perm : (w'.roots.map Root.shallow).Perm (w.roots.map Root.shallow) := by
        apply List.Subperm.perm_of_length_le
        · refine List.subperm_of_subset (List.Nodup.of_map Root.id ?_) known
          rwa [ids]
        · rw [List.length_map, List.length_map]
          have := outcome.root_ids.length_eq
          rw [List.length_map, List.length_map] at this
          exact Nat.le_of_eq this.symm
      have ascends := outcome.ascending ascending
      have before : (w.roots.map Root.shallow).Pairwise (·.order < ·.order) :=
        List.pairwise_map.2 ascending.roots
      refine perm.symm.eq_of_pairwise ?_ before (List.pairwise_map.2 ascends.roots)
      intro a b _ _ less greater
      exact absurd less (Nat.not_lt_of_gt greater)

/-- With nothing to commit, the outcome is the workspace itself. -/
theorem Outcome.eq_of_idle (outcome : w.Outcome r w') (valid : w.Valid) (ascending : w.Ascending)
    (batches : r.batches = []) (rootBatch : r.rootBatch? = none) : w' = w := by
  have difference := Rearrangement.difference_batches (outcome.difference valid)
  rw [batches] at difference
  have rows := difference.rows_perm valid outcome.valid
  have roots := outcome.roots_eq_of_idle valid ascending rootBatch
  exact (valid.eq_of_rows outcome.valid ascending (outcome.ascending ascending) roots rows).symm

end Workspace

namespace Reconciler

variable {σ : Type}

/-- A reconciler of a store with a workspace that is its own cache. -/
def ofBackend (backend : Backend σ) : Reconciler σ Workspace where
  backend := backend
  cache := .ofWorkspace

variable (backend : Backend σ)

/-- Changes that can be put in place one after the other are all taken. -/
theorem taken_of_foldlM {changes : List Change} {w w' : Workspace}
    (carried : changes.foldlM (fun w change => w.patch change.container change.after) w = .ok w') :
    let heard := converse Cache.ofWorkspace.send
      (changes.map fun change => .members change.container change.after) w
    heard.2 = w' ∧ ∀ write ∈ heard.1, write.answer = .ok () := by
  induction changes generalizing w with
  | nil => exact ⟨Except.ok.inj carried, List.forall_mem_nil _⟩
  | cons change changes ih =>
      rw [List.foldlM_cons] at carried
      obtain ⟨w₁, patched, carried⟩ := exists_of_bind_eq_ok carried
      have answered : Cache.ofWorkspace.send (.members change.container change.after) w =
          (.ok (), w₁) := by
        simp only [Cache.send, Cache.ofWorkspace, patched]
      obtain ⟨state, taken⟩ := ih carried
      simp only [List.map_cons, converse, answered]
      exact ⟨state, List.forall_mem_cons.2 ⟨rfl, taken⟩⟩

/-- Lists that can all be put in place are all taken. -/
theorem taken_of_carryOut {r : Rearrangement} {w w' : Workspace} (carried : r.carryOut w = .ok w') :
    let heard := converse Cache.ofWorkspace.send r.patches w
    heard.2 = w' ∧ ∀ write ∈ heard.1, write.answer = .ok () := by
  obtain ⟨w₁, first, carried⟩ := exists_of_bind_eq_ok carried
  obtain ⟨state, taken⟩ := taken_of_foldlM first
  dsimp only
  rw [Rearrangement.patches, (converse_append ..).1, (converse_append ..).2, state]
  cases changed : r.roots with
  | none =>
      rw [changed] at carried
      obtain rfl := Except.ok.inj carried
      simpa [converse] using taken
  | some roots =>
      rw [changed] at carried
      have patched : w₁.patchRoots roots.after = .ok w' := carried
      have answered : Cache.ofWorkspace.send (.roots roots.after) w₁ = (.ok (), w') := by
        simp only [Cache.send, Cache.ofWorkspace, patched]
      simp only [Option.toList_some, List.map_cons, List.map_nil, converse, answered]
      exact ⟨trivial, List.forall_mem_append.2 ⟨taken, List.forall_mem_singleton.2 rfl⟩⟩

/-- Lists that can all be put in place are all written back. -/
theorem writeBack_eq {r : Rearrangement} {w w' : Workspace} (carried : r.carryOut w = .ok w') :
    (ofBackend backend).writeBack r w = w' := by
  rw [writeBack_eq_converse]
  exact (taken_of_carryOut carried).1

/-- A commit writes the cache only if the store has accepted all. -/
theorem commit_cases (r : Rearrangement) (s : State σ Workspace) :
    (r.batches = [] ∧ r.rootBatch? = none ∧ (ofBackend backend).commit r s = (.ok {}, s)) ∨
    (∃ failure store, (ofBackend backend).commit r s = (.error failure, { s with store })) ∨
    ∃ report store, (ofBackend backend).commit r s =
      (.ok report, ⟨store, (ofBackend backend).writeBack r s.cache⟩) := by
  unfold commit
  dsimp only
  split
  next idle =>
    rw [Bool.and_eq_true, List.isEmpty_iff, Option.isNone_iff_eq_none] at idle
    exact .inl ⟨idle.1, idle.2, rfl⟩
  next =>
    split
    next fault store _ => exact .inr (.inl ⟨_, store, rfl⟩)
    next store _ =>
      split
      next store _ => exact .inr (.inr ⟨_, store, rfl⟩)
      next store _ _ => exact .inr (.inl ⟨_, store, rfl⟩)

variable {session : Session} {location : Location} {s : State σ Workspace}

/-- A drop that is refused leaves everything as it is. -/
theorem drop_eq_of_refused {refusal : Refusal}
    (refused : s.cache.classify session.payload location = .error refusal)
    (schedule : Schedule := .forward) :
    ((ofBackend backend).drop session location s schedule).1 = .error (.refused refusal) ∧
      ((ofBackend backend).drop session location s schedule).2.2 = s := by
  simp only [drop, ofBackend, Cache.ofWorkspace, Session.payload_enter, refused, and_self]

/-- A drop that can be computed and resolved is committed. -/
theorem drop_eq_of_computed {move : Move} {r : Rearrangement}
    (classified : s.cache.classify session.payload location = .ok move)
    (computed : s.cache.rearrange move = .ok r) (resolved : r.resolve s.cache = .ok ())
    (schedule : Schedule := .forward) :
    ((ofBackend backend).drop session location s schedule).1 =
        ((ofBackend backend).commit r s schedule).1 ∧
      ((ofBackend backend).drop session location s schedule).2.2 =
        ((ofBackend backend).commit r s schedule).2 := by
  simp only [drop, ofBackend, Cache.ofWorkspace, Session.payload_enter, classified, computed,
    resolved]
  split
  next committed => exact ⟨(congrArg Prod.fst committed).symm, (congrArg Prod.snd committed).symm⟩
  next failed => exact ⟨(congrArg Prod.fst failed).symm, (congrArg Prod.snd failed).symm⟩

variable {edit : Edit} {fresh : Id}

/-- An edit that is refused, or cannot be computed, leaves everything as it is. -/
theorem edit_eq_of_refused {failure : Failure}
    (refused : edit.compute fresh s.cache = .error failure) :
    (ofBackend backend).edit edit fresh s = (.error failure, s) := by
  simp only [Reconciler.edit, ofBackend, Cache.ofWorkspace, refused, Except.bind]

/-- An edit that can be computed and resolved is committed. -/
theorem edit_eq_of_computed {r : Rearrangement} (computed : edit.compute fresh s.cache = .ok r)
    (resolved : r.resolve s.cache = .ok ()) :
    ((ofBackend backend).edit edit fresh s).1 = ((ofBackend backend).commit r s).1.map
        (fun report => { report with created := edit.created? fresh }) ∧
      ((ofBackend backend).edit edit fresh s).2 = ((ofBackend backend).commit r s).2 := by
  simp only [Reconciler.edit, ofBackend, Cache.ofWorkspace, computed, resolved, Except.bind,
    Except.mapError, Except.map]
  split
  next committed => rw [committed]; exact ⟨rfl, rfl⟩
  next failed => rw [failed]; exact ⟨rfl, rfl⟩

/-- Committing an outcome leaves the workspace as it is or takes it to the outcome. -/
theorem cache_commit {r : Rearrangement} {w' : Workspace} (outcome : s.cache.Outcome r w') :
    ((ofBackend backend).commit r s).2.cache = s.cache ∨
      ((ofBackend backend).commit r s).2.cache = w' := by
  rcases commit_cases backend r s with ⟨-, -, idle⟩ | ⟨failure, store, failed⟩ |
    ⟨report, store, committed⟩
  · rw [idle]
    exact .inl rfl
  · rw [failed]
    exact .inl rfl
  · rw [committed]
    exact .inr (writeBack_eq backend outcome.carried)

/-- A drop leaves the workspace as it is or takes it to the outcome of a rearrangement. -/
theorem cache_drop (session : Session) (location : Location) (valid : s.cache.Valid) :
    ((ofBackend backend).drop session location s).2.2.cache = s.cache ∨
      ∃ r, s.cache.Outcome r ((ofBackend backend).drop session location s).2.2.cache := by
  cases classified : s.cache.classify session.payload location with
  | error refusal =>
      rw [(drop_eq_of_refused backend classified).2]
      exact .inl rfl
  | ok move =>
      obtain ⟨r, w', computed, outcome, -, -⟩ :=
        valid.exists_outcome_of_admits (Workspace.admits_of_classify classified)
      rw [(drop_eq_of_computed backend classified computed outcome.resolved).2]
      rcases cache_commit backend outcome with same | changed
      · exact .inl same
      · exact .inr ⟨r, changed ▸ outcome⟩

/-- An edit leaves the workspace as it is or takes it to the outcome of a rearrangement. -/
theorem cache_edit (valid : s.cache.Valid) (minted : s.cache.Mints edit fresh) :
    ((ofBackend backend).edit edit fresh s).2.cache = s.cache ∨
      ∃ r, s.cache.Outcome r ((ofBackend backend).edit edit fresh s).2.cache := by
  cases computed : edit.compute fresh s.cache with
  | error failure =>
      rw [edit_eq_of_refused backend computed]
      exact .inl rfl
  | ok r =>
      obtain ⟨w', outcome⟩ := valid.outcome_of_computes (.edit minted computed)
      rw [(edit_eq_of_computed backend computed outcome.resolved).2]
      rcases cache_commit backend outcome with same | changed
      · exact .inl same
      · exact .inr ⟨r, changed ▸ outcome⟩

/-- The states that drops and edits reach one after the other, with new identifiers for added
members. -/
inductive Reaches (r : Reconciler σ Workspace) (start : State σ Workspace) :
    State σ Workspace → Prop where
  | start : Reaches r start start
  | drop {t : State σ Workspace} (reached : Reaches r start t) (session : Session)
      (location : Location) : Reaches r start (r.drop session location t).2.2
  | edit {t : State σ Workspace} (reached : Reaches r start t) (edit : Edit) {fresh : Id}
      (minted : t.cache.Mints edit fresh) : Reaches r start (r.edit edit fresh t).2

/-- Whatever the store refuses, a valid workspace stays valid through every sequence of drops and
edits, and lists in ascending order stay so. -/
theorem Reaches.stays_valid {backend : Backend σ} {start s : State σ Workspace}
    (reached : (ofBackend backend).Reaches start s) (valid : start.cache.Valid) :
    s.cache.Valid ∧ (start.cache.Ascending → s.cache.Ascending) := by
  induction reached with
  | start => exact ⟨valid, fun ascending => ascending⟩
  | drop reached session location ih =>
      rcases cache_drop backend session location ih.1 with
        same | ⟨r, outcome⟩
      · rw [same]
        exact ih
      · exact ⟨outcome.valid, fun ascending => outcome.ascending (ih.2 ascending)⟩
  | edit reached edit minted ih =>
      rcases cache_edit backend ih.1 minted with same | ⟨r, outcome⟩
      · rw [same]
        exact ih
      · exact ⟨outcome.valid, fun ascending => outcome.ascending (ih.2 ascending)⟩

/-- A folder that holds a note, and another note beside it. -/
def noteTree : Workspace where
  roots := [{
    id := { bits := 1 }, name := "notes", shape := .tree, order := 1, members := [
      { id := { bits := 2 }, name := "drafts", order := 1, kind := .interior, path := ⟨["drafts"]⟩,
        children := [
          { id := { bits := 3 }, name := "plan", order := 1, kind := .leaf,
            path := ⟨["drafts", "plan"]⟩, children := [] }] },
      { id := { bits := 4 }, name := "todo", order := 2, kind := .leaf, path := ⟨["todo"]⟩,
        children := [] }] }]

theorem noteTree_valid : noteTree.Valid := ⟨by decide, by decide, by decide⟩

theorem noteTree_ascending : noteTree.Ascending := ⟨by decide, by decide, by decide⟩

/-- The note outside the folder of `noteTree`, where it is. -/
def looseNote : Origin where
  container := .ofRoot { bits := 1 }
  member := { bits := 4 }

/-- The folder of `noteTree` as a drop target. -/
def ontoFolder : Location :=
  .single (.member (.ofRoot { bits := 1 }) { bits := 2 }) .combine

/-- The note is dropped into the folder, and a new one is added to it. -/
theorem noteTree_stays_valid :
    let r := ofBackend Recorder.backend
    let dropped := (r.drop (.start (.member .treeNode looseNote)) ontoFolder ⟨{}, noteTree⟩).2.2
    let added := (r.edit (.add (.ofNode { bits := 1 } { bits := 2 }) "idea" .leaf) { bits := 5 }
      dropped).2
    added.cache.Valid ∧ added.cache.Ascending :=
  have reached := (Reaches.drop .start _ _).edit _ (Workspace.mints_of_not_mem (by decide))
  ⟨(Reaches.stays_valid reached noteTree_valid).1,
    (Reaches.stays_valid reached noteTree_valid).2 noteTree_ascending⟩

/-- A committed drop leads where its move says, and no root or member is lost or doubled. -/
theorem drop_leads {move : Move} {report : Report} (valid : s.cache.Valid)
    (ascending : s.cache.Ascending)
    (classified : s.cache.classify session.payload location = .ok move)
    (committed : ((ofBackend backend).drop session location s).1 = .ok report) :
    let w' := ((ofBackend backend).drop session location s).2.2.cache
    s.cache.Leads w' move ∧ (w'.roots.map Root.id).Perm (s.cache.roots.map Root.id) ∧
      w'.ids.Perm s.cache.ids ∧ (w'.roots.map Root.id).Nodup ∧ w'.ids.Nodup := by
  obtain ⟨r, w', computed, outcome, ids, leads⟩ :=
    valid.exists_outcome_of_admits (Workspace.admits_of_classify classified)
  obtain ⟨answer, state⟩ := drop_eq_of_computed backend classified computed
    outcome.resolved
  have reached : ((ofBackend backend).drop session location s).2.2.cache = w' := by
    rw [state]
    rcases commit_cases backend r s with ⟨batches, rootBatch, idle⟩ | ⟨failure, store, failed⟩ |
      ⟨report, store, done⟩
    · rw [idle]
      exact (outcome.eq_of_idle valid ascending batches rootBatch).symm
    · rw [committed, failed] at answer
      cases answer
    · rw [done]
      exact writeBack_eq backend outcome.carried
  dsimp only
  rw [reached]
  exact ⟨leads ascending, outcome.root_ids, ids, outcome.valid.roots_distinct,
    outcome.valid.members_distinct⟩

/-- The note dropped onto the folder comes last in it. -/
theorem noteTree_drop_leads : noteTree.Leads
    ((ofBackend Recorder.backend).drop (.start (.member .treeNode looseNote)) ontoFolder
      ⟨{}, noteTree⟩).2.2.cache
    (.intoMember looseNote (.ofNode { bits := 1 } { bits := 2 })) :=
  have classified : noteTree.classify (.member .treeNode looseNote) ontoFolder =
    .ok (.intoMember looseNote (.ofNode { bits := 1 } { bits := 2 })) := rfl
  (@drop_leads _ Recorder.backend (.start (.member .treeNode looseNote)) ontoFolder ⟨{}, noteTree⟩
    _ _ noteTree_valid noteTree_ascending classified rfl).1

/-- The batches planned for a drop or an edit are the difference between the workspace and what is
written back, all of which the cache takes. -/
theorem plans_difference {w : Workspace} {r : Rearrangement} (valid : w.Valid)
    (computes : w.Computes r) :
    let w' := (ofBackend backend).writeBack r w
    r.carryOut w = .ok w' ∧ w.Difference w' r.plans ∧
      w.RootDifference w' (r.roots.elim [] fun roots => roots.plan.updates) := by
  obtain ⟨w', outcome⟩ := valid.outcome_of_computes computes
  dsimp only
  rw [writeBack_eq backend outcome.carried]
  exact ⟨outcome.carried, outcome.difference valid, outcome.rootDifference valid⟩

/-- The batches for the note that is dropped onto the folder. -/
theorem noteTree_plans_difference : ∃ r,
    noteTree.rearrange (.intoMember looseNote (.ofNode { bits := 1 } { bits := 2 })) = .ok r ∧
    noteTree.Difference ((ofBackend Recorder.backend).writeBack r noteTree) r.plans :=
  have classified : noteTree.classify (.member .treeNode looseNote) ontoFolder =
    .ok (.intoMember looseNote (.ofNode { bits := 1 } { bits := 2 })) := rfl
  ⟨_, rfl, (plans_difference Recorder.backend noteTree_valid (.drop classified rfl)).2.1⟩

end Reconciler

end Outline
