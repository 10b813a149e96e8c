import Mathlib.Data.List.Nodup
import Outline.Reconcile

/-!
# Transcripts

What a reconciler says to its store and to its cache, with the answers.  A logging reconciler notes
all of it down and otherwise commits like the one it is made from, and its log tells how the commit
went (`Outline.Reconciler.commit_logging`).
-/

namespace Outline

/-- Something that was sent, and the answer to it. -/
structure Exchange (α ε : Type) where
  sent : α
  answer : Except ε Unit

/-- A state, and the exchanges that led to it, latest last. -/
structure Logged (S α ε : Type) where
  state : S
  log : List (Exchange α ε)

section

variable {S α ε : Type} (send : α → S → Except ε Unit × S)

/-- Sends one thing after the other, whatever the answers are. -/
def converse : List α → S → List (Exchange α ε) × S
  | [], s => ([], s)
  | x :: xs, s =>
    let answered := send x s
    let later := converse xs answered.2
    (⟨x, answered.1⟩ :: later.1, later.2)

/-- Sends something and notes the answer down. -/
def noting (x : α) (s : Logged S α ε) : Except ε Unit × Logged S α ε :=
  let answered := send x s.state
  (answered.1, ⟨answered.2, s.log ++ [⟨x, answered.1⟩]⟩)

@[simp] theorem map_sent_converse (xs : List α) (s : S) :
    (converse send xs s).1.map Exchange.sent = xs := by
  induction xs generalizing s with
  | nil => rfl
  | cons x xs ih => rw [converse, List.map_cons, ih]

theorem converse_append (xs ys : List α) (s : S) :
    (converse send (xs ++ ys) s).1 =
        (converse send xs s).1 ++ (converse send ys (converse send xs s).2).1 ∧
      (converse send (xs ++ ys) s).2 = (converse send ys (converse send xs s).2).2 := by
  induction xs generalizing s with
  | nil => exact ⟨rfl, rfl⟩
  | cons x xs ih =>
      obtain ⟨exchanges, state⟩ := ih (send x s).2
      simp only [List.cons_append, converse, exchanges, state, and_self]

/-- What always gives the same answer gives it to everything. -/
theorem answer_of_mem_converse {answer : Except ε Unit} (always : ∀ x s, (send x s).1 = answer)
    (xs : List α) (s : S) : ∀ exchange ∈ (converse send xs s).1, exchange.answer = answer := by
  induction xs generalizing s with
  | nil => exact List.forall_mem_nil _
  | cons x xs ih => exact List.forall_mem_cons.2 ⟨always x s, ih _⟩

/-- Noting the answers down changes nothing about them. -/
theorem converse_noting (xs : List α) (s : S) (log : List (Exchange α ε)) :
    converse (noting send) xs ⟨s, log⟩ =
      ((converse send xs s).1, ⟨(converse send xs s).2, log ++ (converse send xs s).1⟩) := by
  induction xs generalizing s log with
  | nil => simp only [converse, List.append_nil]
  | cons x xs ih => simp only [converse, noting, ih, List.append_assoc, List.singleton_append]

end

/-- What a store is offered. -/
inductive Parcel where
  | roots (batch : RootBatch)
  | members (batch : Batch)
  deriving DecidableEq

/-- A list that a cache is given to write. -/
inductive Patch where
  | members (container : Container) (after : Forest)
  | roots (after : List Root)
  deriving DecidableEq

/-- Something offered to a store. -/
abbrev Offer := Exchange Parcel CommitFault

/-- Something given to a cache. -/
abbrev Write := Exchange Patch Absence

/-- The container of a batch that was refused, and why it was. -/
def Offer.fault? : Offer → Option (Container × CommitFault)
  | ⟨.members batch, .error fault⟩ => some (batch.container, fault)
  | _ => none

theorem Offer.faultless_of_accepted {offers : List Offer}
    (accepted : ∀ offer ∈ offers, offer.answer = .ok ()) :
    offers.filterMap Offer.fault? = [] := by
  refine List.filterMap_eq_nil_iff.2 fun offer inside => ?_
  obtain ⟨sent, answer⟩ := offer
  obtain rfl : answer = .ok () := accepted _ inside
  cases sent <;> rfl

/-- Without a fault everything but the list of roots was accepted. -/
theorem Offer.accepted_of_faultless {offers : List Offer}
    (faultless : offers.filterMap Offer.fault? = [])
    (roots : ∀ offer ∈ offers, ∀ batch, offer.sent = .roots batch → offer.answer = .ok ()) :
    ∀ offer ∈ offers, offer.answer = .ok () := by
  intro offer inside
  have none := List.filterMap_eq_nil_iff.1 faultless offer inside
  obtain ⟨sent, answer⟩ := offer
  cases sent with
  | roots batch => exact roots _ inside batch rfl
  | members batch =>
      cases answer with
      | ok => rfl
      | error fault => cases none

namespace Rearrangement

/-- What there is to offer to a store, in this sequence. -/
def parcels (planned : Rearrangement) : List Parcel :=
  planned.rootBatch?.toList.map .roots ++ planned.batches.map .members

theorem parcels_eq_nil_iff {planned : Rearrangement} :
    planned.parcels = [] ↔ planned.batches = [] ∧ planned.rootBatch? = none := by
  rw [parcels, List.append_eq_nil_iff, List.map_eq_nil_iff, List.map_eq_nil_iff,
    Option.toList_eq_nil_iff, and_comm]

/-- What there is to write to a cache, in this sequence. -/
def patches (planned : Rearrangement) : List Patch :=
  (planned.changes.map fun change => .members change.container change.after) ++
    planned.roots.toList.map fun change => .roots change.after

end Rearrangement

/-- How a commit may go: what is offered, what is written and how it ends.  The cache would give
`replies` to the patches. -/
inductive Rearrangement.Dispatched (planned : Rearrangement) (replies : List Write) :
    List Offer → List Write → Except Failure Report → Prop where
  /-- There is nothing to offer. -/
  | idle (nothing : planned.parcels = []) : Dispatched planned replies [] [] (.ok {})
  /-- The list of roots is refused, and nothing else is offered. -/
  | rootsRefused {batch : RootBatch} {fault : CommitFault}
      (roots : planned.rootBatch? = some batch) : Dispatched planned replies
        [⟨.roots batch, .error fault⟩] [] (.error (.rootOrderFailed fault))
  /-- Everything is offered, but some of the batches are refused. -/
  | refused {offers : List Offer} (sent : offers.map Exchange.sent = planned.parcels)
      (roots : ∀ offer ∈ offers, ∀ batch, offer.sent = .roots batch → offer.answer = .ok ())
      (some : offers.filterMap Offer.fault? ≠ []) : Dispatched planned replies offers []
        (.error (.commitFailed planned.batches.length (offers.filterMap Offer.fault?)))
  /-- Everything is offered and accepted. -/
  | committed {offers : List Offer} (some : offers ≠ [])
      (sent : offers.map Exchange.sent = planned.parcels)
      (accepted : ∀ offer ∈ offers, offer.answer = .ok ()) : Dispatched planned replies offers
        replies (.ok { batches := planned.batches, rootBatch := planned.rootBatch? })

variable {σ κ : Type}

/-- Offers a parcel. -/
def Backend.send (backend : Backend σ) : Parcel → σ → Except CommitFault Unit × σ
  | .roots batch => backend.commitRoots batch
  | .members batch => backend.commit batch

/-- The store that notes down what it answers. -/
def Backend.logging (backend : Backend σ) : Backend (Logged σ Parcel CommitFault) where
  commit batch := noting backend.send (.members batch)
  commitRoots batch := noting backend.send (.roots batch)

namespace Cache

variable (cache : Cache κ)

/-- Writes a list. -/
def send : Patch → κ → Except Absence Unit × κ
  | .members container after => cache.patch container after
  | .roots after => cache.patchRoots after

/-- The cache that notes down what it answers when it is written. -/
def logging : Cache (Logged κ Patch Absence) where
  read logged :=
    let served := cache.read logged.state
    (served.1, { logged with state := served.2 })
  patch container after := noting cache.send (.members container after)
  patchRoots after := noting cache.send (.roots after)

/-- The cache after it has been read the given number of times. -/
def advance : Nat → κ → κ
  | 0, state => state
  | n + 1, state => advance n (cache.read state).2

/-- What the cache serves when it has been read the given number of times. -/
def serves (n : Nat) (state : κ) : Workspace :=
  (cache.read (cache.advance n state)).1

end Cache

theorem Cache.advance_logging (cache : Cache κ) (log : List Write) (state : κ) (n : Nat) :
    cache.logging.advance n ⟨state, log⟩ = ⟨cache.advance n state, log⟩ := by
  induction n generalizing state with
  | zero => rfl
  | succ n ih => exact ih _

theorem Backend.send_logging (backend : Backend σ) :
    backend.logging.send = noting backend.send := by
  funext parcel
  cases parcel <;> rfl

theorem Cache.send_logging (cache : Cache κ) : cache.logging.send = noting cache.send := by
  funext patch
  cases patch <;> rfl

namespace Reconciler

variable (r : Reconciler σ κ)

/-- The reconciler whose store and cache note down what they answer. -/
def logging : Reconciler (Logged σ Parcel CommitFault) (Logged κ Patch Absence) where
  backend := r.backend.logging
  cache := r.cache.logging

/-- A state together with what was exchanged to reach it. -/
def State.logged (s : State σ κ) (offers : List Offer) (writes : List Write) :
    State (Logged σ Parcel CommitFault) (Logged κ Patch Absence) where
  store := ⟨s.store, offers⟩
  cache := ⟨s.cache, writes⟩

/-- Every batch is offered once, and the faults of those refused are listed. -/
theorem offer_eq_converse (batches : List Batch) (store : σ) : r.offer batches store =
    ((converse r.backend.send (batches.map .members) store).1.filterMap Offer.fault?,
      (converse r.backend.send (batches.map .members) store).2) := by
  induction batches generalizing store with
  | nil => rfl
  | cons batch batches ih =>
      simp only [offer, ih, List.map_cons, converse, Backend.send]
      cases (r.backend.commit batch store).1 with
      | ok => rfl
      | error fault => rfl

/-- Every list is written once. -/
theorem writeBack_eq_converse (planned : Rearrangement) (cache : κ) :
    r.writeBack planned cache = (converse r.cache.send planned.patches cache).2 := by
  have changes : ∀ (changes : List Change) (cache : κ),
      changes.foldl (fun cache change =>
          (r.cache.patch change.container change.after cache).2) cache =
        (converse r.cache.send
          (changes.map fun change => .members change.container change.after) cache).2 := by
    intro changes
    induction changes with
    | nil => exact fun _ => rfl
    | cons change changes ih => exact fun cache => ih _
  rw [writeBack, Rearrangement.patches, (converse_append ..).2, changes]
  cases planned.roots <;> rfl

section

variable {planned : Rearrangement} {s : State σ κ}

theorem commit_eq_of_idle (idle : planned.parcels = []) : r.commit planned s = (.ok {}, s) := by
  obtain ⟨batches, roots⟩ := Rearrangement.parcels_eq_nil_iff.1 idle
  simp only [commit, roots, batches, List.isEmpty_nil, Option.isNone_none, Bool.and_self, if_true]

theorem commit_eq_of_rootsRefused {batch : RootBatch} {fault : CommitFault}
    (roots : planned.rootBatch? = some batch)
    (refused : (r.backend.commitRoots batch s.store).1 = .error fault) : r.commit planned s =
      (.error (.rootOrderFailed fault),
        { s with store := (r.backend.commitRoots batch s.store).2 }) := by
  have answered : r.backend.commitRoots batch s.store =
      (.error fault, (r.backend.commitRoots batch s.store).2) := Prod.ext refused rfl
  simp only [commit, roots, Option.isNone_some, Bool.and_false, offerRoots]
  rw [answered]
  rfl

/-- The list of roots is offered alone, before anything else. -/
theorem converse_roots (batch? : Option RootBatch) (store : σ) :
    converse r.backend.send (batch?.toList.map .roots) store =
      (batch?.toList.map fun batch => ⟨.roots batch, (r.offerRoots batch? store).1⟩,
        (r.offerRoots batch? store).2) := by
  cases batch? <;> rfl

/-- Once the list of roots is accepted, the answers to all that is offered decide. -/
theorem commit_eq_of_rootsAccepted (busy : planned.parcels ≠ [])
    (accepted : (r.offerRoots planned.rootBatch? s.store).1 = .ok ()) :
    let heard := converse r.backend.send planned.parcels s.store
    let faults := heard.1.filterMap Offer.fault?
    r.commit planned s =
      if faults = [] then
        (.ok { batches := planned.batches, rootBatch := planned.rootBatch? },
          { store := heard.2, cache := (converse r.cache.send planned.patches s.cache).2 })
      else
        (.error (.commitFailed planned.batches.length faults), { s with store := heard.2 }) := by
  have some : (planned.batches.isEmpty && planned.rootBatch?.isNone) = false := by
    rw [Bool.eq_false_iff]
    intro none
    rw [Bool.and_eq_true, List.isEmpty_iff, Option.isNone_iff_eq_none] at none
    exact busy (Rearrangement.parcels_eq_nil_iff.2 none)
  have answered : r.offerRoots planned.rootBatch? s.store =
      (.ok (), (r.offerRoots planned.rootBatch? s.store).2) := Prod.ext accepted rfl
  have faultless : ((converse r.backend.send (planned.rootBatch?.toList.map .roots)
      s.store).1.filterMap Offer.fault?) = [] := by
    rw [converse_roots]
    cases planned.rootBatch? <;> rfl
  have state := congrArg Prod.snd (r.converse_roots planned.rootBatch? s.store)
  obtain ⟨exchanges, later⟩ := converse_append r.backend.send
    (planned.rootBatch?.toList.map .roots) (planned.batches.map .members) s.store
  dsimp only
  rw [Rearrangement.parcels, exchanges, later, List.filterMap_append, faultless, List.nil_append,
    state]
  generalize faults : (converse r.backend.send (planned.batches.map .members)
    (r.offerRoots planned.rootBatch? s.store).2).1.filterMap Offer.fault? = found
  simp only [commit, some]
  rw [answered, if_neg Bool.false_ne_true]
  simp only [offerAll, offer_eq_converse, writeBack_eq_converse, faults]
  cases found <;> rfl

end

/-- The only answer about the list of roots is the one it was offered for. -/
theorem answer_of_roots {planned : Rearrangement} {store : σ}
    (accepted : (r.offerRoots planned.rootBatch? store).1 = .ok ()) :
    ∀ offer ∈ (converse r.backend.send planned.parcels store).1, ∀ batch,
      offer.sent = .roots batch → offer.answer = .ok () := by
  intro offer inside batch sent
  rw [Rearrangement.parcels, (converse_append ..).1, List.mem_append] at inside
  rcases inside with first | later
  · rw [converse_roots] at first
    obtain ⟨_, _, rfl⟩ := List.mem_map.1 first
    exact accepted
  · have named := List.mem_map_of_mem (f := Exchange.sent) later
    rw [map_sent_converse, sent] at named
    obtain ⟨_, _, other⟩ := List.mem_map.1 named
    cases other

/-- Noting down what is exchanged changes nothing about a commit, and what is noted is how the
commit went. -/
theorem commit_logging (planned : Rearrangement) (s : State σ κ) : ∃ offers writes,
    planned.Dispatched (converse r.cache.send planned.patches s.cache).1 offers writes
        (r.commit planned s).1 ∧
      r.logging.commit planned (s.logged [] []) =
        ((r.commit planned s).1, (r.commit planned s).2.logged offers writes) := by
  by_cases busy : planned.parcels = []
  · rw [commit_eq_of_idle r busy, commit_eq_of_idle r.logging busy]
    exact ⟨[], [], .idle busy, rfl⟩
  cases answer : (r.offerRoots planned.rootBatch? s.store).1 with
  | error fault =>
      cases roots : planned.rootBatch? with
      | none =>
          rw [roots] at answer
          cases answer
      | some batch =>
          rw [roots] at answer
          have noted : (r.logging.backend.commitRoots batch ⟨s.store, []⟩).1 = .error fault :=
            answer
          rw [commit_eq_of_rootsRefused r roots answer,
            commit_eq_of_rootsRefused r.logging roots noted]
          refine ⟨[⟨.roots batch, .error fault⟩], [], .rootsRefused roots, ?_⟩
          rw [← answer]
          rfl
  | ok =>
      have noted : (r.logging.offerRoots planned.rootBatch? ⟨s.store, []⟩).1 = .ok () := by
        rw [← answer]
        cases planned.rootBatch? <;> rfl
      have first := commit_eq_of_rootsAccepted r busy answer
      have second := commit_eq_of_rootsAccepted r.logging (s := s.logged [] []) busy noted
      rw [show r.logging.backend.send = noting r.backend.send from r.backend.send_logging,
        show r.logging.cache.send = noting r.cache.send from r.cache.send_logging] at second
      simp only [State.logged, converse_noting, List.nil_append] at second
      have roots := r.answer_of_roots answer
      by_cases faultless :
          (converse r.backend.send planned.parcels s.store).1.filterMap Offer.fault? = []
      · simp only [faultless, if_true] at first second
        rw [first, State.logged, second]
        refine ⟨_, _, .committed (fun none => busy ?_) (map_sent_converse ..)
          (Offer.accepted_of_faultless faultless roots), rfl⟩
        rw [← map_sent_converse r.backend.send planned.parcels s.store, none, List.map_nil]
      · simp only [faultless, if_false] at first second
        rw [first, State.logged, second]
        exact ⟨_, _, .refused (map_sent_converse ..) roots faultless, rfl⟩

/-- A commit fails in no other way than that the store refuses something. -/
theorem failure_of_commit {planned : Rearrangement} {s t : State σ κ} {failure : Failure}
    (failed : r.commit planned s = (.error failure, t)) :
    (∃ batch fault, planned.rootBatch? = some batch ∧ failure = .rootOrderFailed fault) ∨
      ∃ attempted failures, failure = .commitFailed attempted failures := by
  obtain ⟨offers, writes, dispatched, -⟩ := r.commit_logging planned s
  rw [failed] at dispatched
  cases dispatched with
  | rootsRefused roots => exact .inl ⟨_, _, roots, rfl⟩
  | refused => exact .inr ⟨_, _, rfl⟩

end Reconciler

end Outline
