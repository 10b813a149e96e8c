import Outline.Proofs.NewRoots
import Outline.Proofs.Oversized
import Outline.Store.Migration

/-!
# Runs on the tables

Roots are created, members dropped and edited, in any sequence, starting from empty tables.  The
tables and the workspace beside them stay in step (`Outline.Store.InStep`), whether a call is
accepted or refused, so that loading gives the workspace at any time.  Whatever the rules allow is
committed, in either schedule, but for one thing: a member with too many members one below the other
is not deleted (`Outline.Store.Reached.in_step`), and calls can lead to such a member
(`Outline.Store.exists_allowed_not_committed`).
-/

namespace Outline

namespace Store

/-- The tables, with the workspace that is kept beside them. -/
abbrev Ensemble := Reconciler.State Database Workspace

/-- A call with what it takes from outside. -/
inductive Call where
  | createRoot (id : Id) (name : String) (shape : Shape) (time : String)
  | drop (session : Session) (location : Location) (time : String) (schedule : Schedule)
  | edit (change : Edit) (fresh : Id) (time : String)

namespace Call

/-- What a call leads to.  After a root has been created the workspace is loaded anew. -/
def run (call : Call) (s : Ensemble) : Ensemble :=
  match call with
  | .createRoot id name shape time =>
    match s.store.createRoot id name shape time with
    | .ok (_, store) => { store, cache := store.load.toOption.getD s.cache }
    | .error _ => s
  | .drop session location time schedule =>
    ((Database.reconciler time).drop session location s schedule).2.2
  | .edit change fresh time => ((Database.reconciler time).edit change fresh s).2

/-- The identifier that a call mints is new to the workspace. -/
def Mints (call : Call) (w : Workspace) : Prop :=
  match call with
  | .createRoot id _ _ _ => id ∉ w.roots.map Root.id
  | .drop .. => True
  | .edit change fresh _ => w.Mints change fresh

end Call

/-- What calls lead to from empty tables, as long as all lists stay short enough. -/
inductive Reached : Ensemble → Prop where
  | empty : Reached ⟨.fresh, ⟨[]⟩⟩
  | call {s : Ensemble} (reached : Reached s) (call : Call) (minted : call.Mints s.cache)
      (fits : (call.run s).cache.Fits) : Reached (call.run s)

/-- The tables keep the workspace beside them, which is valid and in order. -/
structure InStep (s : Ensemble) : Prop where
  keeps : s.store.Keeps s.cache
  valid : s.cache.Valid
  ascending : s.cache.Ascending

namespace InStep

variable {s : Ensemble} (inStep : InStep s)

include inStep

theorem load_eq (fits : s.cache.Fits) : s.store.load = .ok s.cache :=
  inStep.keeps.load_eq inStep.valid inStep.ascending (inStep.valid.storable fits)

/-- A rearrangement with an outcome is committed, unless it deletes too high a member. -/
theorem commit {r : Rearrangement} {w' : Workspace} (outcome : s.cache.Outcome r w')
    (shallow : r.Shallow s.cache) (time : String) (schedule : Schedule) : ∃ report after,
      (Database.reconciler time).commit r s schedule = (.ok report, ⟨after, w'⟩) ∧
        InStep ⟨after, w'⟩ := by
  obtain ⟨report, after, committed, keeps⟩ :=
    inStep.keeps.commit inStep.valid outcome inStep.ascending shallow schedule time
  exact ⟨report, after, committed, keeps, outcome.valid, outcome.ascending inStep.ascending⟩

/-- A drop that the rules allow is committed. -/
theorem drop {session : Session} {location : Location} {move : Move}
    (classified : s.cache.classify session.payload location = .ok move) (time : String)
    (schedule : Schedule) :
    (∃ report, ((Database.reconciler time).drop session location s schedule).1 = .ok report) ∧
      InStep ((Database.reconciler time).drop session location s schedule).2.2 := by
  obtain ⟨r, w', computed, outcome, shallow⟩ :=
    inStep.valid.exists_outcome_of_classified classified
  obtain ⟨answer, state⟩ := Reconciler.drop_eq_of_computed (Database.backend time) classified
    computed outcome.resolved schedule
  obtain ⟨report, after, committed, kept⟩ := inStep.commit outcome shallow time schedule
  change ((Database.reconciler time).drop session location s schedule).1 =
    ((Database.reconciler time).commit r s schedule).1 at answer
  change ((Database.reconciler time).drop session location s schedule).2.2 =
    ((Database.reconciler time).commit r s schedule).2 at state
  rw [answer, state, committed]
  exact ⟨⟨report, rfl⟩, kept⟩

/-- An edit that can be computed is committed, unless it deletes too high a member. -/
theorem edit {change : Edit} {fresh : Id} {r : Rearrangement} {w' : Workspace}
    (computed : change.compute fresh s.cache = .ok r) (outcome : s.cache.Outcome r w')
    (low : ¬ change.Oversized s.cache) (time : String) : ∃ report after,
      (Database.reconciler time).edit change fresh s = (.ok report, ⟨after, w'⟩) ∧
        InStep ⟨after, w'⟩ := by
  have shallow := inStep.valid.shallow_of_compute computed low
  obtain ⟨answer, state⟩ := Reconciler.edit_eq_of_computed (Database.backend time) computed
    outcome.resolved
  obtain ⟨report, after, committed, kept⟩ := inStep.commit outcome shallow time .forward
  change ((Database.reconciler time).edit change fresh s).1 =
    ((Database.reconciler time).commit r s).1.map _ at answer
  change ((Database.reconciler time).edit change fresh s).2 =
    ((Database.reconciler time).commit r s).2 at state
  rw [committed] at answer state
  exact ⟨_, after, Prod.ext answer state, kept⟩

/-- A member that is too high is not deleted, and everything stays as it is. -/
theorem edit_of_high {member : Id} {found : Located} (located : s.cache.locate? member = some found)
    (high : cascadeDepth < found.member.height) (fresh : Id) (time : String) :
    (Database.reconciler time).edit (.delete member) fresh s =
      (.error (.commitFailed 1 [(found.container, .storage Fault.tooDeep.message)]), s) := by
  obtain ⟨r, batch, computed, batches, rootBatch, container, deletes⟩ :=
    inStep.valid.exists_batch_of_delete located fresh
  obtain ⟨w', outcome⟩ := inStep.valid.outcome_of_computes
    (.edit (fun _ none => absurd none.symm (Option.some_ne_none _)) computed)
  obtain ⟨-, site, stands, -, -⟩ := Workspace.stands_of_locate? inStep.valid.roots_distinct
    inStep.valid.members_distinct located
  obtain ⟨answer, state⟩ := Reconciler.edit_eq_of_computed (Database.backend time) computed
    outcome.resolved
  have failed := inStep.keeps.commit_of_high inStep.valid outcome batches rootBatch
    stands.mem_members deletes high .forward time
  change ((Database.reconciler time).edit (.delete member) fresh s).1 =
    ((Database.reconciler time).commit r s).1.map _ at answer
  change ((Database.reconciler time).edit (.delete member) fresh s).2 =
    ((Database.reconciler time).commit r s).2 at state
  rw [failed, container] at answer state
  exact Prod.ext answer state

/-- A new root is created after all others, and the workspace can be loaded with it. -/
theorem createRoot (fits : s.cache.Fits) {id : Id} (new : id ∉ s.cache.roots.map Root.id)
    (name : String) (shape : Shape) (time : String) :
    ∃ store, s.store.createRoot id name shape time =
        .ok (Database.nextRoot s.cache id name shape, store) ∧
      store.load = .ok (s.cache.withRoot (Database.nextRoot s.cache id name shape)) ∧
      InStep ⟨store, s.cache.withRoot (Database.nextRoot s.cache id name shape)⟩ := by
  obtain ⟨store, created, keeps⟩ := inStep.keeps.createRoot inStep.valid fits new name shape time
  have valid : (s.cache.withRoot (Database.nextRoot s.cache id name shape)).Valid :=
    inStep.valid.withRoot rfl new rfl
  have ascending : (s.cache.withRoot (Database.nextRoot s.cache id name shape)).Ascending :=
    inStep.ascending.withRoot inStep.valid rfl rfl
  have storable : (s.cache.withRoot (Database.nextRoot s.cache id name shape)).Storable :=
    fits.storable_withRoot inStep.valid rfl rfl
  exact ⟨store, created, keeps.load_eq valid ascending storable, keeps, valid, ascending⟩

/-- Every call leaves the tables and the workspace in step. -/
theorem run (fits : s.cache.Fits) (call : Call) (minted : call.Mints s.cache) :
    InStep (call.run s) := by
  cases call with
  | createRoot id name shape time =>
      obtain ⟨store, created, loaded, kept⟩ := inStep.createRoot fits minted name shape time
      simp only [Call.run, created, loaded]
      exact kept
  | drop session location time schedule =>
      cases classified : s.cache.classify session.payload location with
      | error refusal =>
          have same := (Reconciler.drop_eq_of_refused (Database.backend time) classified schedule).2
          change ((Database.reconciler time).drop session location s schedule).2.2 = s at same
          rw [Call.run, same]
          exact inStep
      | ok move => exact (inStep.drop classified time schedule).2
  | edit change fresh time =>
      cases computed : change.compute fresh s.cache with
      | error failure =>
          have same := Reconciler.edit_eq_of_refused (Database.backend time) computed
          change (Database.reconciler time).edit change fresh s = _ at same
          rw [Call.run, same]
          exact inStep
      | ok r =>
          rw [Call.run]
          by_cases oversized : change.Oversized s.cache
          · obtain ⟨member, found, rfl, located, high⟩ := oversized
            rw [inStep.edit_of_high located high]
            exact inStep
          · obtain ⟨w', outcome⟩ := inStep.valid.outcome_of_computes (.edit minted computed)
            obtain ⟨report, after, committed, kept⟩ := inStep.edit computed outcome oversized time
            rw [committed]
            exact kept

end InStep

/-- Empty tables keep the empty workspace. -/
theorem inStep_empty : InStep ⟨.fresh, ⟨[]⟩⟩ where
  keeps := ⟨⟨[], rfl, .refl _⟩, [], rfl, .refl _⟩
  valid := ⟨rfl, List.nodup_nil, List.nodup_nil⟩
  ascending := ⟨.nil, by simp, by simp [Workspace.members]⟩

theorem Reached.inStep_fits {s : Ensemble} (reached : Reached s) : InStep s ∧ s.cache.Fits := by
  induction reached with
  | empty =>
      refine ⟨inStep_empty, by decide, ?_, ?_⟩
      · exact fun _ none => absurd none List.not_mem_nil
      · exact fun _ none => absurd none List.not_mem_nil
  | call reached call minted fits ih => exact ⟨ih.1.run ih.2 call minted, fits⟩

/-- After every call, loading gives the workspace, which is valid and in order.  Every drop that the
rules allow is committed, in either schedule, and so is every edit, unless it is to delete a member
that has too many members one below the other.  Such an edit is refused by the tables, and
everything stays as it is.  A new root comes last when the workspace is loaded with it. -/
theorem Reached.in_step {s : Ensemble} (reached : Reached s) :
    s.store.load = .ok s.cache ∧ s.cache.Valid ∧ s.cache.Ascending ∧
    (∀ session location move time schedule,
      s.cache.classify session.payload location = .ok move → ∃ report,
        ((Database.reconciler time).drop session location s schedule).1 = .ok report) ∧
    (∀ change fresh time, Edit.Allowed change s.cache → s.cache.Mints change fresh →
      ¬ change.Oversized s.cache →
        ∃ report, ((Database.reconciler time).edit change fresh s).1 = .ok report) ∧
    (∀ member found fresh time, s.cache.locate? member = some found →
      cascadeDepth < found.member.height →
        (Database.reconciler time).edit (.delete member) fresh s =
          (.error (.commitFailed 1 [(found.container, .storage Fault.tooDeep.message)]), s)) ∧
    ∀ id name shape time, id ∉ s.cache.roots.map Root.id → ∃ root store,
      s.store.createRoot id name shape time = .ok (root, store) ∧
      store.load = .ok (s.cache.withRoot root) ∧ (s.cache.withRoot root).Valid ∧
      root = Database.nextRoot s.cache id name shape := by
  obtain ⟨inStep, fits⟩ := reached.inStep_fits
  refine ⟨inStep.load_eq fits, inStep.valid, inStep.ascending, ?_, ?_, ?_, ?_⟩
  · intro session location move time schedule classified
    exact (inStep.drop classified time schedule).1
  · intro change fresh time allowed minted low
    obtain ⟨r, w', computed, outcome⟩ := inStep.valid.exists_outcome_of_allowed allowed minted
    obtain ⟨report, after, committed, -⟩ := inStep.edit computed outcome low time
    exact ⟨report, congrArg Prod.fst committed⟩
  · exact fun member found fresh time located high => inStep.edit_of_high located high fresh time
  · intro id name shape time new
    obtain ⟨store, created, loaded, kept⟩ := inStep.createRoot fits new name shape time
    exact ⟨_, store, created, loaded, kept.valid, rfl⟩

/-- A root is created, a folder and a note are added to it, and the note is dropped into the
folder; the batch of the folder comes before that of the root. -/
theorem noteRun_in_step :
    let created := (Call.createRoot { bits := 1 } "notes" .tree "2024-05-01").run ⟨.fresh, ⟨[]⟩⟩
    let filed := (Call.edit (.add (.ofRoot { bits := 1 }) "drafts" .interior) { bits := 2 }
      "2024-05-02").run created
    let noted := (Call.edit (.add (.ofRoot { bits := 1 }) "todo" .leaf) { bits := 4 }
      "2024-05-03").run filed
    let dropped := (Call.drop (.start (.member .treeNode Reconciler.looseNote))
      Reconciler.ontoFolder "2024-05-04" .backward).run noted
    dropped.store.load = .ok dropped.cache ∧ dropped.cache.Valid ∧
      dropped.cache.ids = [{ bits := 2 }, { bits := 4 }] :=
  have created := Reached.empty.call (.createRoot { bits := 1 } "notes" .tree "2024-05-01")
    (by decide : _ ∉ ([] : List Id)) (by decide +kernel)
  have filed := created.call (.edit (.add (.ofRoot { bits := 1 }) "drafts" .interior)
    { bits := 2 } "2024-05-02") (Workspace.mints_of_not_mem (by decide +kernel)) (by decide +kernel)
  have noted := filed.call (.edit (.add (.ofRoot { bits := 1 }) "todo" .leaf) { bits := 4 }
    "2024-05-03") (Workspace.mints_of_not_mem (by decide +kernel)) (by decide +kernel)
  have dropped := noted.call (.drop (.start (.member .treeNode Reconciler.looseNote))
    Reconciler.ontoFolder "2024-05-04" .backward) trivial (by decide +kernel)
  ⟨(Reached.in_step dropped).1, (Reached.in_step dropped).2.1, by decide +kernel⟩

/-- Calls lead to a folder without members as many lists down. -/
structure Towers (s : Ensemble) (n : Nat) : Prop where
  reached : Reached s
  vacant : ∃ site, s.cache.Owns site .interior [] ∧ site.depth = n ∧ site.shape = .tree
  single : s.cache.roots.length = 1
  size : s.cache.ids.length = n
  numbered : ∀ id ∈ s.cache.ids, id.bits < n

/-- The first list is that of a new root. -/
theorem exists_towers_zero : ∃ s, Towers s 0 := by
  let created := (Call.createRoot { bits := 1 } "notes" .tree "2024-05-01").run ⟨.fresh, ⟨[]⟩⟩
  have fits : created.cache.Fits := by decide +kernel
  have listed :
      { Root.fresh { bits := 1 } "notes" .tree with order := 1 } ∈ created.cache.roots := by
    decide +kernel
  exact ⟨created, {
    reached := Reached.empty.call _ (by decide : _ ∉ ([] : List Id)) fits
    vacant := ⟨_, .root listed, rfl, rfl⟩
    single := by decide +kernel
    size := by decide +kernel
    numbered := by decide +kernel }⟩

/-- Another folder is added where there is none yet. -/
theorem Towers.exists_succ {s : Ensemble} {n : Nat} (towers : Towers s n)
    (small : n + 1 < orderLimit - 1) : ∃ s', Towers s' (n + 1) := by
  obtain ⟨reached, ⟨site, vacant, depth, tree⟩, single, size, numbered⟩ := towers
  have inStep := reached.inStep_fits.1
  let fresh : Id := ⟨n, Nat.lt_trans (Nat.lt_of_succ_lt small) (by decide)⟩
  have new : fresh ∉ s.cache.ids := fun known => Nat.lt_irrefl n (numbered fresh known)
  obtain ⟨r, w', inner, computed, outcome, owns, deeper, tree', ids⟩ :=
    inStep.valid.exists_deeper vacant tree new
  have low : ¬ (Edit.add site.container "folder" .interior).Oversized s.cache := by
    rintro ⟨_, _, same, -⟩
    cases same
  obtain ⟨report, after, committed, -⟩ := inStep.edit computed outcome low "2024-05-01"
  let call : Call := .edit (.add site.container "folder" .interior) fresh "2024-05-01"
  have ended : call.run s = ⟨after, w'⟩ := congrArg Prod.snd committed
  have roots := outcome.root_ids.length_eq
  rw [List.length_map, List.length_map, single] at roots
  have count : w'.ids.length = n + 1 := ids.length_eq.trans (congrArg (· + 1) size)
  have fits : w'.Fits :=
    Workspace.fits_of_length (by rw [roots]; decide) (by rw [count]; exact small)
  refine ⟨⟨after, w'⟩, {
    reached := ended ▸ reached.call call (Workspace.mints_of_not_mem new) (ended.symm ▸ fits)
    vacant := ⟨inner, owns, by rw [deeper, depth], tree'⟩
    single := roots
    size := count
    numbered := fun id inside => ?_ }⟩
  rcases List.mem_cons.1 (ids.mem_iff.1 inside) with rfl | before
  · exact Nat.lt_succ_self n
  · exact Nat.lt_succ_of_lt (numbered id before)

theorem exists_towers (n : Nat) (small : n < orderLimit - 1) : ∃ s, Towers s n := by
  induction n with
  | zero => exact exists_towers_zero
  | succ n ih =>
      obtain ⟨s, towers⟩ := ih (Nat.lt_of_succ_lt small)
      exact towers.exists_succ small

/-- Calls lead to a member that the rules allow to delete and the tables do not. -/
theorem exists_allowed_not_committed :
    ∃ s member, Reached s ∧ Edit.Allowed (.delete member) s.cache ∧ ∀ fresh time,
      s.cache.Mints (.delete member) fresh ∧ ∃ failure,
        ((Database.reconciler time).edit (.delete member) fresh s).1 = .error failure := by
  obtain ⟨s, towers⟩ := exists_towers (cascadeDepth + 1) (by decide)
  obtain ⟨site, vacant, depth, -⟩ := towers.vacant
  have inStep := towers.reached.inStep_fits.1
  obtain ⟨top, member, high⟩ := vacant.exists_high (depth ▸ Nat.succ_pos _)
  rw [depth] at high
  obtain ⟨place, stands⟩ := Workspace.exists_stands_of_mem member
  have located := stands.locate?_eq inStep.valid.roots_distinct inStep.valid.members_distinct
  refine ⟨s, top.id, towers.reached, Option.isSome_of_eq_some located, fun fresh time => ?_⟩
  have failed := congrArg Prod.fst (inStep.edit_of_high located high fresh time)
  exact ⟨fun _ none => absurd none.symm (Option.some_ne_none _), _, failed⟩

end Store

end Outline
