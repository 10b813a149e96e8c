import Outline.Proofs.Crossings
import Outline.Proofs.Failures

/-!
# Ways back

A member that a committed drop has taken to another container can be dropped back: before the
sibling that came next, or onto the container where it was last.  That drop is accepted, and once it
is committed the workspace is as it was (`Outline.Reconciler.drop_returns`).
-/

namespace Outline

/-- Of the members in a list, the one that comes after the one called `id`. -/
def Forest.next? (ms : Forest) (id : Id) : Option Id :=
  ((ms.map Member.id).dropWhile (· ≠ id)).tail.head?

/-- An item of a list without repetitions is found at one place only. -/
theorem eq_length_of_head?_drop {α : Type} {xs front back : List α} {x : α} {index : Nat}
    (split : xs = front ++ x :: back) (distinct : xs.Nodup)
    (head : (xs.drop index).head? = some x) : index = front.length := by
  rw [List.head?_drop] at head
  obtain ⟨inside, -⟩ := List.getElem?_eq_some_iff.1 head
  refine (List.getElem?_inj inside distinct).1 (head.trans ?_)
  rw [split, List.getElem?_append_right (Nat.le_refl _), Nat.sub_self, List.getElem?_cons_zero]

/-- A list with distinct identifiers goes on after each member as it is split there. -/
theorem Forest.next?_eq {ms front back : Forest} {m : Member} (split : ms = front ++ m :: back)
    (distinct : (ms.map Member.id).Nodup) : ms.next? m.id = (back.map Member.id).head? := by
  rw [split, List.map_append, List.map_cons] at distinct
  have before : ∀ id ∈ front.map Member.id, decide (id ≠ m.id) = true := fun id inside =>
    decide_eq_true ((List.nodup_append.1 distinct).2.2 id inside m.id (.head _))
  rw [next?, split, List.map_append, List.map_cons, List.dropWhile_append_of_pos before,
    List.dropWhile_cons_of_neg (by simp), List.tail_cons]

namespace Workspace

/-- Where to drop so as to come into a container: on the header of a root, or on a member where it
is listed. -/
def header? (w : Workspace) (container : Container) : Option Target :=
  container.node.elim (some (.root container.root)) fun node =>
    (w.locateIn? container.root node).map fun found => .member found.container node

/-- Where to drop a member in `w'` for it to come back to the place that it has in `w`: before the
sibling that comes next or, if it is the last one, onto the container. -/
def wayBack? (w w' : Workspace) (origin : Origin) : Option Location :=
  ((w.members? origin.container).bind (Forest.next? · origin.member)).elim
    ((w'.header? origin.container).map (Location.single · .combine)) fun next =>
      some (.single (.member origin.container next) (.beside .before))

end Workspace

namespace Family

variable {family : Family} {m m' : Member} {here there : Site}

theorem Inhabits.single {shape : Shape} (inhabits : family.Inhabits shape) : family ≠ .group := by
  rintro rfl
  cases inhabits

/-- A member that is not a group may land in roots of the shape in which it stands. -/
theorem Suits.inhabits (suits : family.Suits m here) (single : family ≠ .group) :
    family.Inhabits here.shape := by
  cases suits with
  | treeNode tree => exact tree ▸ .tree
  | listItem leaf list => exact list.elim (· ▸ .flatList) (· ▸ .groupedList)
  | group => exact absurd rfl single

/-- A member is of the same family where it has landed. -/
theorem Suits.landed (suits : family.Suits m here) (kind : m'.kind = m.kind)
    (inhabits : family.Inhabits there.shape) : family.Suits m' there := by
  generalize shaped : there.shape = shape at inhabits
  cases inhabits with
  | tree => exact .treeNode shaped
  | flatList =>
      cases suits with
      | listItem leaf _ => exact .listItem (kind.trans leaf) (.inl shaped)
  | groupedList =>
      cases suits with
      | listItem leaf _ => exact .listItem (kind.trans leaf) (.inr shaped)

end Family

namespace Workspace

variable {w w' : Workspace} {family : Family} {m : Member}

section

variable {source destination : Container} {before landing siblings remaining : Forest}
  {here there site : Site} {index : Nat}

namespace Valid

variable (valid : w.Valid)

include valid

section

variable (stands : w.Stands m site) (suits : family.Suits m site) (single : family ≠ .group)
  (differs : destination ≠ site.container) (welcome : w.Welcomes family m destination siblings)

include stands suits single differs welcome

/-- A member is welcome beside each of the members of a container that welcomes it. -/
theorem classify_beside {id : Id} (listed : id ∈ siblings.map Member.id) (other : id ≠ m.id)
    (side : Side) : w.classify (.member family ⟨site.container, m.id⟩)
        (.single (.member destination id) (.beside side)) =
      .ok (.across ⟨site.container, m.id⟩ destination id side) := by
  have there : ∃ found, w.locateAt? destination id = some found := by
    obtain ⟨x, inside, rfl⟩ := List.mem_map.1 listed
    obtain ⟨place, frame, put, window⟩ := exists_window welcome.members
    exact ⟨_, valid.locateAt?_iff_stands.2 ⟨x, place, valid.stands_of_window window inside, rfl,
      window.container_eq, rfl⟩⟩
  refine classify_eq_ok_iff.2 ⟨_, _, rfl, rfl, rfl, .inr ⟨_, _, rfl, ?_⟩⟩
  refine (valid.classifyMember_iff_of_stands stands suits).2
    (.inr (.inr ⟨side, destination, id, rfl, rfl, ?_⟩))
  exact classifyBeside_eq_ok_iff.2 ⟨other, there, .inr ⟨differs, single, ⟨_, welcome⟩, rfl⟩⟩

/-- A member is welcome on a container that welcomes it, and comes last there. -/
theorem exists_classify_header : ∃ header move, w.header? destination = some header ∧
    w.classify (.member family ⟨site.container, m.id⟩) (.single header .combine) = .ok move ∧
    move.destination? = some destination ∧
    ∀ landing index, move.Enters landing index → index = landing.length := by
  obtain ⟨root, node⟩ := destination
  cases node with
  | none =>
      have onto : w.classify (.member family ⟨site.container, m.id⟩)
          (.single (.root root) .combine) = .ok (.intoRoot ⟨site.container, m.id⟩ root) := by
        refine classify_eq_ok_iff.2 ⟨_, _, rfl, rfl, rfl, .inr ⟨_, _, rfl, ?_⟩⟩
        refine (valid.classifyMember_iff_of_stands stands suits).2 (.inl ⟨root, rfl, rfl, ?_⟩)
        exact classifyOntoRoot_eq_ok_iff.2 ⟨single, (holds_of_members? welcome.members).1, differs,
          ⟨_, welcome⟩, rfl⟩
      exact ⟨_, _, rfl, onto, rfl, fun _ _ last => last⟩
  | some node =>
      obtain ⟨r, here, inside⟩ := Option.bind_eq_some_iff.1 welcome.members
      obtain ⟨found, located, members⟩ := Option.bind_eq_some_iff.1 inside
      have search : w.locateIn? root node = some found :=
        Option.bind_eq_some_iff.2 ⟨r, here, located⟩
      obtain ⟨rfl, place, standing, rfl, above, -⟩ :=
        stands_of_locateIn? valid.members_distinct search
      have interior : found.member.kind = .interior := by
        by_contra leaf
        simp [Member.isInterior, leaf] at members
      have other : found.member.id ≠ m.id := by
        intro same
        refine welcome.acyclic _ rfl ?_
        rw [same, Member.ids_eq]
        exact .head _
      have there := valid.locateAt?_iff_stands.2 ⟨_, place, standing, rfl, rfl, rfl⟩
      have onto : w.classify (.member family ⟨site.container, m.id⟩)
          (.single (.member place.container found.member.id) .combine) =
            .ok (.intoMember ⟨site.container, m.id⟩
              (.ofNode place.container.root found.member.id)) := by
        refine classify_eq_ok_iff.2 ⟨_, _, rfl, rfl, rfl, .inr ⟨_, _, rfl, ?_⟩⟩
        refine (valid.classifyMember_iff_of_stands stands suits).2
          (.inr (.inl ⟨_, _, rfl, rfl, ?_⟩))
        exact classifyOntoMember_eq_ok_iff.2 ⟨single, other, _, there, interior, differs,
          ⟨_, welcome⟩, rfl⟩
      refine ⟨_, _, ?_, onto, rfl, fun _ _ last => last⟩
      exact Option.map_eq_some_iff.2 ⟨found, search, by rw [above]⟩

end

end Valid

namespace Crossing

section

variable (crossing : w.Crossing w' m source destination here there before landing index)
  (valid' : w'.Valid)

include crossing valid'

/-- The member stands in its destination afterwards, under the path there. -/
theorem exists_stands : ∃ n,
    w'.Stands (Ordered.withOrder (m.rebased there.path) n) there := by
  obtain ⟨present, _, _, -, window⟩ := crossing.exists_landed valid'
  obtain ⟨n, listed⟩ := Ordered.exists_mem_insertAt present (m.rebased there.path) index
  exact ⟨n, valid'.stands_of_window window listed⟩

/-- The member is welcome where it came from. -/
theorem exists_welcome (valid : w.Valid) (suits : family.Suits m here)
    (single : family ≠ .group) (n : Nat) : ∃ remaining frame put,
      w'.Window source remaining here frame put ∧
      w'.Welcomes family (Ordered.withOrder (m.rebased there.path) n) source remaining := by
  obtain ⟨_, _, src⟩ := crossing.src
  obtain ⟨remaining, frame, put, fields, window⟩ := crossing.exists_remaining valid'
  obtain ⟨-, names, -, kinds⟩ := Forest.sound_iff.1 (valid.sound src.level_mem)
  refine ⟨remaining, frame, put, window, ?_⟩
  exact {
    acyclic := by
      intro node below inside
      refine valid.not_mem_ids_of_window src crossing.member below ?_
      rw [← m.ids_rebased there.path]
      rwa [Member.ids_eq] at inside ⊢
    fits := by
      refine ⟨_, _, window.shape, window.depth, Family.landsIn_iff.2 (suits.inhabits single), ?_⟩
      exact (m.kind_rebased there.path) ▸ kinds m crossing.member
    members := window.members
    apart := by
      intro s inside _ clash
      have listed : s.shallow ∈ remaining.map Member.shallow := List.mem_map_of_mem inside
      rw [fields] at listed
      obtain ⟨x, renumbered, same⟩ := List.mem_map.1 listed
      obtain ⟨y, stayed, k, rfl⟩ := Ordered.mem_renumber renumbered
      obtain ⟨stayed, differs⟩ := Forest.mem_without.1 stayed
      have name : y.name = s.name := by
        change (Ordered.withOrder y k).shallow.name = s.shallow.name
        rw [same]
      have alike : Text.lower y.name = Text.lower m.name := by
        rw [name, clash]
        exact congrArg Text.lower (m.name_rebased there.path)
      exact differs (congrArg Member.id
        (List.inj_on_of_nodup_map names stayed crossing.member alike)) }

/-- The members that stay in the source keep their sequence. -/
theorem map_id_sorted_remaining (valid : w.Valid) {front back : Forest}
    (split : before = front ++ m :: back) (ascending : before.Pairwise (·.order < ·.order))
    {frame : List Level} {put : Forest → Workspace}
    (window : w'.Window source remaining site frame put) :
    (Ordered.sorted remaining).map Member.id = front.map Member.id ++ back.map Member.id := by
  obtain ⟨_, _, src⟩ := crossing.src
  obtain ⟨_, _, _, fields, stayed⟩ := crossing.exists_remaining valid'
  obtain ⟨rfl, rfl⟩ := valid'.window_ext window stayed
  rw [Forest.without_eq split (Forest.nodup_map_id (valid.nodup_present src)) ascending] at fields
  have orders := congrArg (List.map Member.order) fields
  have ids := congrArg (List.map Member.id) fields
  rw [List.map_map, List.map_map] at orders ids
  have ascends : (remaining.map Member.order).Pairwise (· ≤ ·) :=
    orders ▸ List.pairwise_map.2 (Ordered.pairwise_renumber (front ++ back))
  rw [Ordered.sorted_eq_self (List.pairwise_map.1 ascends), ← List.map_append]
  exact ids.trans (Ordered.map_renumber_eq (f := Member.id) fun _ _ => rfl)

/-- The member is there afterwards, of its family, and welcome where it came from. -/
theorem exists_readmitted (valid : w.Valid) (suits : family.Suits m here)
    (inhabits : family.Inhabits there.shape) : ∃ m' left frame put, m'.id = m.id ∧
      w'.Stands m' there ∧ family.Suits m' there ∧ w'.Window source left here frame put ∧
      w'.Welcomes family m' source left := by
  obtain ⟨n, stands⟩ := crossing.exists_stands valid'
  obtain ⟨left, frame, put, window, welcome⟩ :=
    crossing.exists_welcome valid' valid suits inhabits.single n
  exact ⟨Ordered.withOrder (m.rebased there.path) n, left, frame, put, m.id_rebased there.path,
    stands, suits.landed (m.kind_rebased there.path) inhabits, window, welcome⟩

section

variable (valid : w.Valid) {front back : Forest} (ascending : before.Pairwise (·.order < ·.order))
  {frame : List Level} {put : Forest → Workspace}
  (window : w'.Window source remaining site frame put)

include valid ascending window

/-- Behind the members that stay is the place that the last member had. -/
theorem length_remaining (split : before = front ++ [m]) : remaining.length = front.length := by
  have ids := crossing.map_id_sorted_remaining valid' valid split ascending window
  simpa using congrArg List.length ids

/-- Before the sibling that came next is the place that the member had. -/
theorem index_eq_of_borders {b : Member} (split : before = front ++ m :: b :: back) {index : Nat}
    (borders : Side.before.Borders b.id (((Ordered.sorted remaining).take index).map Member.id)
      (((Ordered.sorted remaining).drop index).map Member.id)) : index = front.length := by
  have ids := crossing.map_id_sorted_remaining valid' valid split ascending window
  have apart := Ordered.nodup_map_id_sorted (α := Member)
    (Forest.nodup_map_id (valid'.nodup_present window))
  have head : (((Ordered.sorted remaining).drop index).map Member.id).head? = some b.id := borders
  rw [List.map_drop] at head
  exact (eq_length_of_head?_drop ids apart head).trans (List.length_map ..)

end

/-- There is a way back, it is accepted, and it ends at the place that the member had. -/
theorem exists_wayBack (valid : w.Valid) (suits : family.Suits m here)
    (inhabits : family.Inhabits there.shape) {front back : Forest}
    (split : before = front ++ m :: back) (ascending : before.Pairwise (·.order < ·.order)) :
    ∃ location move, w.wayBack? w' ⟨source, m.id⟩ = some location ∧
      w'.classify (.member family ⟨destination, m.id⟩) location = .ok move ∧
      move.destination? = some source ∧
      ∀ {remaining site frame put index}, w'.Window source remaining site frame put →
        move.Enters remaining index → index = front.length := by
  obtain ⟨_, _, src⟩ := crossing.src
  obtain ⟨_, _, dst⟩ := crossing.dst
  obtain ⟨m', left, _, _, named, stands, landed, window, welcome⟩ :=
    crossing.exists_readmitted valid' valid suits inhabits
  have distinct := Forest.nodup_map_id (valid.nodup_present src)
  have differs : source ≠ there.container := dst.container_eq ▸ crossing.other.symm
  have next : (w.members? source).bind (Forest.next? · m.id) = (back.map Member.id).head? := by
    rw [src.members, Option.bind_some, Forest.next?_eq split distinct]
  rw [← dst.container_eq, ← named]
  -- The way back depends on whether a sibling came next.
  cases back with
  | nil =>
      obtain ⟨header, move, found, classified, crosses, last⟩ :=
        valid'.exists_classify_header stands landed inhabits.single differs welcome
      refine ⟨.single header .combine, move, ?_, classified, crosses, fun window enters => ?_⟩
      · rw [wayBack?, named, next]
        exact congrArg (Option.map (Location.single · .combine)) found
      · have behind := crossing.length_remaining valid' valid ascending window split
        exact (last _ _ enters).trans behind
  | cons b back =>
      have listed : b.id ∈ left.map Member.id := by
        have ids := crossing.map_id_sorted_remaining valid' valid split ascending window
        exact (Ordered.mem_map_id_sorted (α := Member)).1
          (ids ▸ List.mem_append_right _ (.head _))
      have other : b.id ≠ m'.id := by
        rw [split, List.map_append, List.map_cons] at distinct
        intro clash
        refine (List.nodup_cons.1 (List.nodup_append.1 distinct).2.1).1 ?_
        exact (clash.trans named) ▸ .head _
      have classified := valid'.classify_beside stands landed inhabits.single differs welcome listed
        other .before
      refine ⟨_, _, ?_, classified, rfl, fun window enters => ?_⟩
      · rw [wayBack?, named, next]
        rfl
      · exact crossing.index_eq_of_borders valid' valid ascending window split enters

/-- The row of the member is another one afterwards. -/
theorem not_rows_perm (valid : w.Valid) : ¬ w.rows.Perm w'.rows := by
  intro rows
  obtain ⟨_, _, src⟩ := crossing.src
  obtain ⟨_, _, dst⟩ := crossing.dst
  obtain ⟨n, stands⟩ := crossing.exists_stands valid'
  have old := src.mem_rows (Forest.row_mem_rows crossing.member source)
  have new := rows.mem_iff.2 stands.row_mem
  have same := congrArg Row.parent (valid.row_ext old new (m.id_rebased there.path).symm)
  exact crossing.other (dst.container_eq.symm.trans same.symm)

end

end Crossing

end

end Workspace

namespace Reconciler

open Workspace

variable {σ : Type} {backend : Backend σ} {session : Session} {location : Location}
  {s : State σ Workspace} {move : Move}

/-- A drop that takes a member to another container is committed unless the store refuses one of the
batches. -/
theorem drop_of_crossing (backend : Backend σ) {planned : Rearrangement} {w' : Workspace}
    {m : Member} {source destination : Container} {here there : Site} {before landing : Forest}
    {index : Nat} (valid : s.cache.Valid)
    (classified : s.cache.classify session.payload location = .ok move)
    (computed : s.cache.rearrange move = .ok planned) (roots : planned.roots = none)
    (outcome : s.cache.Outcome planned w')
    (crossing : s.cache.Crossing w' m source destination here there before landing index) :
    let ended := (ofBackend backend).drop session location s
    (∃ attempted failures, ended.1 = .error (.commitFailed attempted failures)) ∨
      (∃ report, ended.1 = .ok report) ∧ ended.2.2.cache = w' := by
  obtain ⟨answer, state⟩ := drop_eq_of_computed backend classified computed outcome.resolved
  dsimp only
  rw [answer, state]
  rcases commit_cases backend planned s with ⟨none, -, -⟩ | ⟨failure, store, failed⟩ |
    ⟨report, store, committed⟩
  · -- Without batches all rows would stay, but the member has another container.
    have difference := Rearrangement.difference_batches (outcome.difference valid)
    rw [none] at difference
    exact absurd (difference.rows_perm valid outcome.valid)
      (crossing.not_rows_perm outcome.valid valid)
  · rw [failed]
    rcases failure_of_commit _ failed with ⟨batch, -, offered, -⟩ | ⟨attempted, failures, rfl⟩
    · simp [Rearrangement.rootBatch?, roots] at offered
    · exact .inl ⟨attempted, failures, rfl⟩
  · rw [committed]
    exact .inr ⟨⟨report, rfl⟩, writeBack_eq backend outcome.carried⟩

/-- A drop that has taken a member to another container can be taken back: from there the member
may be dropped before the sibling that came next, or onto its former container if it was the last
one there.  The drop is accepted, and unless the store refuses a batch it is committed and leaves
the workspace as it was. -/
theorem drop_returns {family : Family} {origin : Origin} {destination : Container}
    {report : Report} (valid : s.cache.Valid)
    (ascending : ∀ container ms, s.cache.members? container = some ms →
      ms.Pairwise (·.order < ·.order))
    (dragged : session.payload = .member family origin)
    (classified : s.cache.classify session.payload location = .ok move)
    (crosses : move.destination? = some destination)
    (committed : ((ofBackend backend).drop session location s).1 = .ok report) :
    let w' := ((ofBackend backend).drop session location s).2.2.cache
    let payload := Payload.member family ⟨destination, origin.member⟩
    ∃ back move', s.cache.wayBack? w' origin = some back ∧
      w'.classify payload back = .ok move' ∧
      ∀ {τ : Type} (backend' : Backend τ) (session' : Session) (store : τ),
        session'.payload = payload →
        let ended := (ofBackend backend').drop session' back ⟨store, w'⟩
        (∃ attempted failures, ended.1 = .error (.commitFailed attempted failures)) ∨
          (∃ report, ended.1 = .ok report) ∧ ended.2.2.cache = s.cache := by
  obtain ⟨container, id⟩ := origin
  have accepted := classified
  rw [dragged] at accepted
  obtain ⟨m, w', here, there, before, landing, index, rfl, crossing, -, computed, outcome, suits,
    inhabits⟩ := valid.exists_transfer accepted crosses
  obtain ⟨attempted, failures, failed⟩ | ⟨-, reached⟩ :=
    drop_of_crossing backend valid classified computed rfl outcome crossing
  · cases committed.symm.trans failed
  dsimp only
  rw [reached]
  obtain ⟨_, _, src⟩ := crossing.src
  obtain ⟨_, _, dst⟩ := crossing.dst
  obtain ⟨front, later, split⟩ := List.append_of_mem crossing.member
  have ascends := ascending _ _ src.members
  obtain ⟨back, move', way, readmitted, returns, ends⟩ :=
    crossing.exists_wayBack outcome.valid valid suits inhabits split ascends
  refine ⟨back, move', way, readmitted, fun backend' session' store dragged' => ?_⟩
  obtain ⟨m', w'', _, _, _, _, _, same, again, enters, computed', outcome', -⟩ :=
    outcome.valid.exists_transfer readmitted returns
  obtain ⟨_, _, home⟩ := again.dst
  obtain rfl := crossing.eq_of_back valid outcome.valid again same split (ends home enters) ascends
    (ascending _ _ dst.members)
  exact drop_of_crossing backend' (s := ⟨store, w'⟩) outcome.valid (dragged' ▸ readmitted) computed'
    rfl outcome' again

open Request in
/-- The note that stands first is dropped onto the folder, and then before the folder again. -/
theorem noteFirst_drop_returns :
    let session := Session.start (.member .treeNode looseNote)
    let dropped := ((ofBackend Recorder.backend).drop session ontoFolder ⟨{}, noteFirst⟩).2.2
    let back := Location.single (.member looseNote.container { bits := 2 }) (.beside .before)
    let returning := Session.start
      (.member .treeNode ⟨.ofNode { bits := 1 } { bits := 2 }, looseNote.member⟩)
    dropped.cache ≠ noteFirst ∧ noteFirst.wayBack? dropped.cache looseNote = some back ∧
      ((ofBackend Recorder.backend).drop returning back dropped).2.2.cache = noteFirst := by
  intro session dropped back returning
  have valid : noteFirst.Valid := ⟨by decide, by decide, by decide⟩
  have ascending : noteFirst.Ascending := ⟨by decide, by decide, by decide⟩
  have lists : ∀ container ms, noteFirst.members? container = some ms →
      ms.Pairwise (·.order < ·.order) := by
    intro container ms members
    obtain ⟨site, frame, put, window⟩ := exists_window members
    exact window.ascending_present ascending
  have classified : noteFirst.classify session.payload ontoFolder =
    .ok (.intoMember looseNote (.ofNode { bits := 1 } { bits := 2 })) := rfl
  obtain ⟨way, move, found, -, ends⟩ := @drop_returns _ Recorder.backend session ontoFolder
    ⟨{}, noteFirst⟩ _ _ _ _ _ valid lists rfl classified rfl rfl
  have wayBack : noteFirst.wayBack? dropped.cache looseNote = some back := by decide
  obtain rfl : way = back := Option.some.inj (found.symm.trans wayBack)
  refine ⟨by decide, wayBack, ?_⟩
  obtain ⟨attempted, failures, failed⟩ | ⟨-, home⟩ :=
    ends Recorder.backend returning dropped.store rfl
  · cases failed
  · exact home

end Reconciler

end Outline
