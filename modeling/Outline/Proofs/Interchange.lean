import Outline.Proofs.Progress

/-!
# Requests in either sequence

What it means that two requests may be made in either sequence (`Outline.Workspace.Interchange`):
each is accepted before and after the other, is reported alike, and the same workspace is reached.
It is enough that the plans agree and that carrying them out meets
(`Outline.Workspace.interchange_of_plans`), also where one of them has nothing to commit.
-/

namespace Outline

/-- What is reported once a rearrangement is committed. -/
def Rearrangement.report (planned : Rearrangement) : Report where
  batches := planned.batches
  rootBatch := planned.rootBatch?

theorem Rearrangement.isNoop_report {planned : Rearrangement} :
    planned.report.isNoop = true ↔ planned.parcels = [] := by
  rw [parcels_eq_nil_iff]
  simp [report, Report.isNoop]

/-- Whether the rules allow what is asked for. -/
def Request.Allowed (request : Request) (w : Workspace) : Prop :=
  match request with
  | .drop session location => ∃ move, w.classify session.payload location = .ok move
  | .edit change _ => change.Allowed w

namespace Workspace

open Reconciler

variable {w : Workspace}

/-- In the workspace, beside whatever store that accepts all it is offered, the request ends with
the report and leads to the other workspace. -/
def Takes (w : Workspace) (request : Request) (report : Report) (w' : Workspace) : Prop :=
  ∀ (σ : Type) (backend : Backend σ), backend.AcceptsAll → ∀ store,
    let ended := request.run (ofBackend backend) ⟨store, w⟩
    ended.1 = .ok report ∧ ended.2.cache = w'

/-- Each of two requests is accepted before and after the other and reported alike, and both
sequences lead to one workspace. -/
def Interchange (w : Workspace) (first second : Request) : Prop :=
  ∃ report report' between between' w',
    w.Takes first report between ∧ between.Takes second report' w' ∧
    w.Takes second report' between' ∧ between'.Takes first report w'

/-- Every allowed edit can be computed and proceeds, also if the new identifier is in use. -/
theorem Valid.exists_proceeds_of_allowed (valid : w.Valid) {change : Edit}
    (allowed : change.Allowed w) (fresh : Id) :
    ∃ planned, change.compute fresh w = .ok planned ∧ w.Proceeds planned := by
  cases change with
  | add container name kind =>
      have passes : w.checkInsert container name kind = .ok () := allowed
      obtain ⟨planned, computed, proceeds⟩ := valid.exists_proceeds_of_checkInsert passes fresh
      refine ⟨planned, ?_, proceeds⟩
      simp only [Edit.compute, passes, computed, Except.mapError]
  | rename member name =>
      obtain ⟨container, passes⟩ := allowed
      obtain ⟨planned, computed, proceeds⟩ := valid.exists_proceeds_of_checkRename passes
      refine ⟨planned, ?_, proceeds⟩
      simp only [Edit.compute, passes, computed, Except.mapError]
  | delete member =>
      obtain ⟨found, located⟩ := Option.isSome_iff_exists.1 allowed
      obtain ⟨planned, computed, proceeds⟩ := valid.exists_proceeds_of_locate? located
      refine ⟨planned, ?_, proceeds⟩
      simp only [Edit.compute, computed, Except.mapError]

/-- Whatever is allowed in a valid workspace can be planned and carried out. -/
theorem Valid.exists_plan_of_allowed (valid : w.Valid) {request : Request}
    (allowed : request.Allowed w) :
    ∃ planned w', request.plan (fun _ => w) = .ok planned ∧ planned.carryOut w = .ok w' := by
  cases request with
  | drop session location =>
      obtain ⟨move, classified⟩ := allowed
      obtain ⟨planned, computed, proceeds⟩ := valid.exists_proceeds_of_classify classified
      obtain ⟨w', carried⟩ := proceeds.carried
      exact ⟨planned, w',
        Request.plan_drop_eq_ok_iff.2 ⟨move, classified, computed, proceeds.resolved⟩, carried⟩
  | edit change fresh =>
      obtain ⟨planned, computed, proceeds⟩ := valid.exists_proceeds_of_allowed allowed fresh
      obtain ⟨w', carried⟩ := proceeds.carried
      exact ⟨planned, w', Request.plan_edit_eq_ok_iff.2 ⟨computed, proceeds.resolved⟩, carried⟩

/-- A request leads where its plan does, unless there is nothing to commit. -/
theorem takes_of_plan {request : Request} {planned : Rearrangement} {w' : Workspace}
    (ready : request.plan (fun _ => w) = .ok planned) (carried : planned.carryOut w = .ok w') :
    w.Takes request (request.complete planned.report)
      (if planned.report.isNoop then w else w') := by
  intro σ backend accepts store
  have same : ∀ n, (ofBackend backend).cache.advance n w = w := fun n =>
    Cache.advance_ofWorkspace n w
  have seen : request.plan ((ofBackend backend).cache.serves · w) = .ok planned := by
    simpa only [ofBackend, Cache.serves_ofWorkspace] using ready
  have run := Request.run_eq_of_ok (ofBackend backend) request ⟨store, w⟩ seen
  dsimp only at run ⊢
  rw [run, same]
  by_cases idle : planned.parcels = []
  · obtain ⟨batches, rootBatch⟩ := Rearrangement.parcels_eq_nil_iff.1 idle
    rw [commit_eq_of_idle _ idle, if_pos (Rearrangement.isNoop_report.2 idle)]
    simp only [Rearrangement.report, batches, rootBatch, Except.map, and_self]
  · have faultless := Offer.faultless_of_accepted
      (answer_of_mem_converse (ofBackend backend).backend.send accepts planned.parcels store)
    have committed := commit_eq_of_rootsAccepted (ofBackend backend) (s := ⟨store, w⟩) idle
      (offerRoots_of_acceptsAll accepts _ _)
    dsimp only at committed
    rw [committed, if_pos faultless, if_neg (mt Rearrangement.isNoop_report.1 idle)]
    exact ⟨rfl, (taken_of_carryOut carried).1⟩

/-- Two requests may be made in either sequence if each has a plan before and after the other, with
the same commands, and what is carried out meets. -/
theorem interchange_of_plans {first second : Request} {between between' w' : Workspace}
    {planned planned' later later' : Rearrangement}
    (ready : first.plan (fun _ => w) = .ok planned) (carried : planned.carryOut w = .ok between)
    (ready' : second.plan (fun _ => w) = .ok planned')
    (carried' : planned'.carryOut w = .ok between')
    (again : first.plan (fun _ => between') = .ok later) (same : later.report = planned.report)
    (again' : second.plan (fun _ => between) = .ok later')
    (same' : later'.report = planned'.report)
    (meets : later.carryOut between' = .ok w') (meets' : later'.carryOut between = .ok w') :
    w.Interchange first second := by
  have opens := takes_of_plan ready carried
  have opens' := takes_of_plan ready' carried'
  have closes := takes_of_plan again meets
  have closes' := takes_of_plan again' meets'
  rw [same] at closes
  rw [same'] at closes'
  -- A request with nothing to commit leaves the workspace as it is, before and after the other.
  cases idle : planned.report.isNoop <;> cases idle' : planned'.report.isNoop <;>
    simp only [idle, idle', if_true, if_false, Bool.false_eq_true] at opens opens' closes closes'
  · exact ⟨_, _, _, _, _, opens, closes', opens', closes⟩
  · exact ⟨_, _, _, _, _, opens, closes', opens', opens⟩
  · exact ⟨_, _, _, _, _, opens, opens', opens', closes⟩
  · exact ⟨_, _, _, _, _, opens, opens', opens', opens⟩

end Workspace

end Outline
