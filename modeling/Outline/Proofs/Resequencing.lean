import Outline.Proofs.Acceptance
import Outline.Proofs.Interchange
import Outline.Proofs.Renumberings

/-!
# Siblings in another sequence

A member that moves among its siblings exchanges one level of the workspace for another, and both
the new level and the batch follow from the old one (`Outline.Workspace.Resequenced`,
`Outline.Workspace.Valid.exists_resequenced`).  Moves among the siblings of different containers may
therefore be made in either sequence, also where one container is nested in the other
(`Outline.Workspace.Valid.interchange_siblings`).
-/

namespace Outline

section

variable {α β : Type} [Ordered α] [Ordered β]

/-- A map that keeps identifiers and numbers, new numbers as well. -/
structure Ordered.Carries (f : α → β) : Prop where
  id : ∀ x, Ordered.id (f x) = Ordered.id x
  order : ∀ x, Ordered.order (f x) = Ordered.order x
  withOrder : ∀ x n, f (Ordered.withOrder x n) = Ordered.withOrder (f x) n

namespace Ordered.Carries

variable {f : α → β} (carries : Carries f)

include carries

theorem sorted_map (items : List α) : sorted (items.map f) = (sorted items).map f :=
  Ordered.sorted_map fun x _ y _ => by rw [carries.order, carries.order]

theorem insertAt_map (items : List α) (x : α) (index : Nat) :
    insertAt (items.map f) (f x) index = (insertAt items x index).map f := by
  rw [insertAt_eq, insertAt_eq, map_renumber fun x _ n => carries.withOrder x n,
    carries.sorted_map, List.map_append, List.map_cons, List.map_take, List.map_drop]

theorem takeFirst?_map (id : Id) (items : List α) :
    takeFirst? id (items.map f) = (takeFirst? id items).map (Prod.map f (List.map f)) := by
  induction items with
  | nil => rfl
  | cons x xs ih =>
      rw [List.map_cons, takeFirst?, takeFirst?, carries.id]
      split
      · rfl
      · rw [ih, Option.map_map, Option.map_map]
        rfl

theorem landingIndex?_map (items : List α) (target : Id) (side : Side) :
    landingIndex? (items.map f) target side = landingIndex? items target side := by
  rw [landingIndex?, landingIndex?, List.findIdx?_map]
  simp only [Function.comp_def, carries.id]

/-- Moving an item next to another looks only at identifiers and numbers. -/
theorem reorder_map {ε : Type} (missing : Id → ε) (items : List α) (moved target : Id)
    (side : Side) : reorder missing (items.map f) moved target side =
      (reorder missing items moved target side).map (List.map f) := by
  rw [reorder, reorder, takeOut?, takeOut?, carries.sorted_map, carries.takeFirst?_map]
  cases takeFirst? moved (sorted items) with
  | none => rfl
  | some taken =>
      simp only [Option.map_some, Prod.map, carries.landingIndex?_map]
      cases landingIndex? taken.2 target side with
      | none => rfl
      | some index => simp only [carries.insertAt_map, Except.map]

end Ordered.Carries

end

theorem Member.carries_shallow : Ordered.Carries Member.shallow :=
  ⟨fun _ => rfl, fun _ => rfl, fun _ _ => rfl⟩

/-- Of a member, a family looks at the kind only. -/
theorem Family.Suits.of_kind {family : Family} {m m' : Member} {site : Site}
    (suits : family.Suits m site) (kind : m'.kind = m.kind) : family.Suits m' site := by
  cases suits with
  | treeNode tree => exact .treeNode tree
  | listItem leaf list => exact .listItem (kind.trans leaf) list
  | group grouped top => exact .group grouped top

/-- The batch that brings the siblings of a level up to date with those of another. -/
def Level.batch (old new : Level) : Batch where
  container := new.container
  updates := new.rows.filterMap (Row.updateFrom? old.rows)

namespace Workspace

variable {w w' : Workspace}

section

variable {container : Container} {present list : Forest} {site : Site} {frame : List Level}
  {put : Forest → Workspace}

/-- A list in another sequence takes the batch of its level. -/
theorem Valid.plan_resequenced (valid : w.Valid)
    (window : w.Window container present site frame put) (perm : list.Perm present) :
    Change.plan { container, before := present, after := Ordered.renumber list } =
      (site.level present).batch (site.level (Ordered.renumber list)) := by
  have own : ∀ ms : Forest, (site.level ms).rows = ms.map (·.row container) := by
    intro ms
    rw [Level.rows, Level.container, window.container_eq, List.map_map]
    rfl
  have kept := (Ordered.SameItems.renumber list).trans (.of_perm perm)
  rw [Change.plan_eq_of_sameItems container [] (valid.nodup_present window) kept (.refl _),
    Level.batch, own, own]
  congr 1
  exact window.container_eq.symm

end

/-- The workspace with one level exchanged for another, in which a sibling has moved beside another
one.  The new level follows from the old. -/
structure Resequenced (w w' : Workspace) (origin : Origin) (target : Id) (side : Side)
    (old new : Level) : Prop where
  old_mem : old ∈ w.levels
  container : old.container = origin.container
  site : new.site = old.site
  owner : new.owner = old.owner
  reordered : reorder (Absence.notAmong · origin.container) old.members origin.member target side =
    .ok new.members
  exchanged : (old :: w'.levels).Perm (new :: w.levels)
  roots : w'.roots.map Root.shallow = w.roots.map Root.shallow

namespace Resequenced

open scoped List

variable {origin : Origin} {target : Id} {side : Side} {old new : Level}

/-- The new level follows from the old. -/
theorem new_eq {between after : Workspace} {made : Level}
    (first : w.Resequenced w' origin target side old new)
    (second : between.Resequenced after origin target side old made) : made = new := by
  obtain ⟨site, owner, members⟩ := made
  obtain rfl : site = old.site := second.site
  obtain rfl : owner = old.owner := second.owner
  obtain rfl : members = new.members :=
    Except.ok.inj (second.reordered.symm.trans first.reordered)
  rw [← first.site, ← first.owner]

/-- Two exchanges of levels lead to one workspace in either sequence. -/
theorem meet {w₁ w₂ w₁₂ w₂₁ : Workspace} {origin' : Origin} {target' : Id} {side' : Side}
    {old' new' : Level} (valid : w₁₂.Valid) (first : w.Resequenced w₁ origin target side old new)
    (then_second : w₁.Resequenced w₁₂ origin' target' side' old' new')
    (second : w.Resequenced w₂ origin' target' side' old' new')
    (then_first : w₂.Resequenced w₂₁ origin target side old new) : w₁₂ = w₂₁ := by
  refine valid.eq_of_levels ?_ ?_
  · rw [then_second.roots, first.roots, then_first.roots, second.roots]
  · have one : (old :: old' :: w₁₂.levels).Perm (new :: new' :: w.levels) :=
      calc
        _ ~ old :: new' :: w₁.levels := then_second.exchanged.cons _
        _ ~ new' :: old :: w₁.levels := .swap ..
        _ ~ new' :: new :: w.levels := first.exchanged.cons _
        _ ~ _ := .swap ..
    have other : (old :: old' :: w₂₁.levels).Perm (new :: new' :: w.levels) :=
      calc
        _ ~ old' :: old :: w₂₁.levels := .swap ..
        _ ~ old' :: new :: w₂.levels := then_first.exchanged.cons _
        _ ~ new :: old' :: w₂.levels := .swap ..
        _ ~ _ := second.exchanged.cons _
    exact (one.trans other.symm).cons_inv.cons_inv

/-- The levels of other containers stay. -/
theorem mem_levels (resequenced : w.Resequenced w' origin target side old new) {level : Level}
    (inside : level ∈ w.levels) (other : level.container ≠ origin.container) :
    level ∈ w'.levels := by
  have among := resequenced.exchanged.symm.subset (List.mem_cons_of_mem new inside)
  obtain rfl | stays := List.mem_cons.1 among
  · exact absurd resequenced.container other
  · exact stays

end Resequenced

section

variable {container : Container} {present list : Forest} {site : Site} {frame : List Level}
  {put : Forest → Workspace}

/-- Another sequence of a list changes no level but its own. -/
theorem Window.exchanged (window : w.Window container present site frame put)
    (perm : list.Perm present) :
    (site.level present :: (put (Ordered.renumber list)).levels).Perm
      (site.level (Ordered.renumber list) :: w.levels) := by
  have after : (put (Ordered.renumber list)).levels.Perm
      (site.level (Ordered.renumber list) :: (Forest.innerLevels present site ++ frame)) := by
    refine (window.put_levels _).trans (.cons _ (.append_right _ ?_))
    rw [Forest.innerLevels_renumber]
    exact Forest.innerLevels_perm perm site
  have before : w.levels.Perm
      (site.level present :: (Forest.innerLevels present site ++ frame)) := window.levels
  exact (after.cons _).trans ((List.Perm.swap ..).trans (before.symm.cons _))

/-- A move beside a sibling is computed from the list alone. -/
theorem reordered_of_rearrange (window : w.Window container present site frame put) {id target : Id}
    {side : Side} {after : Forest} (computed : w.rearrange (.within ⟨container, id⟩ target side) =
      .ok { changes := [{ container, before := present, after }] }) :
    reorder (Absence.notAmong · container) present id target side = .ok after := by
  obtain ⟨siblings, listing, computed⟩ := exists_of_bind_eq_ok computed
  obtain ⟨after', reordered, done⟩ := exists_of_bind_eq_ok computed
  obtain rfl := Except.ok.inj (listing.symm.trans (listing_eq_ok window.members))
  cases Except.ok.inj done
  exact reordered

end

section

variable {family : Family} {origin : Origin} {target : Id} {side : Side} {payload : Payload}
  {location : Location}

/-- A move among siblings exchanges the level of their container, and its batch is that of the
level. -/
theorem Valid.exists_resequenced (valid : w.Valid)
    (classified : w.classify payload location = .ok (.within origin target side)) :
    ∃ planned w' old new, w.rearrange (.within origin target side) = .ok planned ∧
      w.Outcome planned w' ∧ w.Resequenced w' origin target side old new ∧
      planned.plans = [old.batch new] ∧ planned.roots = none := by
  cases admits_of_classify classified with
  | @within _ _ source _ _ _ located there other =>
      obtain ⟨container, id⟩ := origin
      obtain ⟨present, site, frame, put, window, member, rfl, beside⟩ :=
        valid.exists_window_of_siblings located there
      obtain ⟨front, back, split, -, computed⟩ :=
        valid.rearrange_within window member beside other side
      have distinct := Forest.nodup_map_id (valid.nodup_present window)
      have perm : (front ++ source.member :: back).Perm present :=
        Ordered.perm_of_without (α := Member) distinct member split
      have kept : present.Perm (front ++ source.member :: back ++ []) := by
        rw [List.append_nil]
        exact perm.symm
      have outcome := valid.outcome_remaining window kept (.refl (Forest.ids []))
      have reordered := Member.carries_shallow.reorder_map (Absence.notAmong · container) present
        source.member.id target side
      rw [reordered_of_rearrange window computed] at reordered
      refine ⟨_, _, site.level present,
        site.level (Ordered.renumber (front ++ source.member :: back)), computed, outcome, {
        old_mem := window.level_mem
        container := window.container_eq
        site := rfl
        owner := rfl
        reordered := reordered
        exchanged := window.exchanged perm
        roots := window.put_roots _ },
        congrArg (· :: []) (valid.plan_resequenced window perm), rfl⟩

/-- A member stands where it does as long as the level there stays. -/
theorem Stands.of_level {m : Member} {site : Site} (stands : w.Stands m site)
    (keeps : ∀ level ∈ w.levels, level.container = site.container → level ∈ w'.levels) :
    ∃ m', w'.Stands m' site ∧ m'.shallow = m.shallow := by
  obtain ⟨owner, ms, owns, listed⟩ := stands
  obtain ⟨ms', owns', same⟩ := exists_owns_of_level (keeps _ owns.level_mem rfl)
  have among : m.shallow ∈ ms'.map Member.shallow := same ▸ List.mem_map_of_mem listed
  obtain ⟨m', listed', alike⟩ := List.mem_map.1 among
  exact ⟨m', ⟨owner, ms', owns', listed'⟩, alike⟩

/-- A drop of a member amounts to a move among siblings exactly if it is dropped beside another
member of its container. -/
theorem Valid.classifyMember_within_iff (valid : w.Valid) {action : Action} {onto : Target} :
    w.classifyMember family origin action onto = .ok (.within origin target side) ↔
      action = .beside side ∧ onto = .member origin.container target ∧
      target ≠ origin.member ∧ ∃ m n site place, w.Stands m site ∧ family.Suits m site ∧
        w.Stands n place ∧ place.container = site.container ∧ origin = ⟨site.container, m.id⟩ ∧
        n.id = target := by
  rw [classifyMember_eq_ok_iff]
  constructor
  · rintro ⟨source, shape, located, shaped, described, onto⟩
    obtain ⟨m, site, stands, named, here, rfl⟩ := valid.locateAt?_iff_stands.1 located
    obtain rfl : shape = site.shape := by
      rw [← here, stands.shape?_eq valid.roots_distinct] at shaped
      exact (Option.some.inj shaped).symm
    rcases onto with ⟨root, -, -, onto⟩ | ⟨container, id, -, -, onto⟩ |
      ⟨side', container, id, rfl, rfl, beside⟩
    · cases (classifyOntoRoot_eq_ok_iff.1 onto).2.2.2.2
    · obtain ⟨-, -, found, -, -, -, -, same⟩ := classifyOntoMember_eq_ok_iff.1 onto
      cases same
    · obtain ⟨other, ⟨found, there⟩, ⟨rfl, same⟩ | ⟨-, -, -, same⟩⟩ :=
        classifyBeside_eq_ok_iff.1 beside
      · cases same
        obtain ⟨n, place, stands', named', here', -⟩ := valid.locateAt?_iff_stands.1 there
        refine ⟨rfl, by rw [here], other, m, n, site, place, stands,
          Family.describes_iff.1 described, stands', here', ?_, named'⟩
        rw [here, named]
      · cases same
  · rintro ⟨rfl, rfl, other, m, n, site, place, stands, suits, stands', here, rfl, rfl⟩
    have located := valid.locateAt?_iff_stands.2 ⟨m, site, stands, rfl, rfl, rfl⟩
    have there := valid.locateAt?_iff_stands.2 ⟨n, place, stands', rfl, here, rfl⟩
    refine ⟨_, _, located, stands.shape?_eq valid.roots_distinct, Family.describes_iff.2 suits,
      .inr (.inr ⟨side, site.container, n.id, rfl, rfl, ?_⟩)⟩
    exact classifyBeside_eq_ok_iff.2 ⟨other, ⟨_, there⟩, .inl ⟨rfl, rfl⟩⟩

/-- A move among siblings is classified alike as long as the level of their container stays. -/
theorem Valid.classify_within (valid : w.Valid) (valid' : w'.Valid)
    (keeps : ∀ level ∈ w.levels, level.container = origin.container → level ∈ w'.levels)
    (classified : w.classify payload location = .ok (.within origin target side)) :
    w'.classify payload location = .ok (.within origin target side) := by
  obtain ⟨candidate, instruction, innermost, instructed, free, dragged⟩ :=
    classify_eq_ok_iff.1 classified
  refine classify_eq_ok_iff.2 ⟨candidate, instruction, innermost, instructed, free, ?_⟩
  rcases dragged with ⟨root, -, ofRoot⟩ | ⟨family, origin', rfl, ofMember⟩
  · obtain ⟨-, side', other, -, -, -, -, same⟩ := classifyRoot_eq_ok_iff.1 ofRoot
    cases same
  · obtain rfl : origin = origin' := by
      cases admits_of_classifyMember ofMember
      rfl
    obtain ⟨beside, targeted, other, m, n, site, place, stands, suits, stands', here, rfl, rfl⟩ :=
      valid.classifyMember_within_iff.1 ofMember
    obtain ⟨m', standing, alike⟩ := stands.of_level keeps
    obtain ⟨n', standing', alike'⟩ := stands'.of_level (by rwa [here])
    have kind : m'.kind = m.kind := by
      change m'.shallow.kind = m.shallow.kind
      rw [alike]
    refine .inr ⟨family, _, rfl, valid'.classifyMember_within_iff.2 ⟨beside, targeted, other,
      m', n', site, place, standing, suits.of_kind kind, standing', here, ?_, ?_⟩⟩
    · rw [Member.id_eq_of_shallow alike]
    · rw [Member.id_eq_of_shallow alike']

end

section

variable {first second : Session} {here there : Location} {origin origin' : Origin}
  {target target' : Id} {side side' : Side}

/-- A move among siblings, made after one among those of another container, exchanges the level that
it exchanges otherwise, and takes the same batch. -/
theorem Valid.exists_resequenced_after (valid : w.Valid) {between after : Workspace}
    {old new old' new' : Level} (valid' : between.Valid)
    (resequenced : w.Resequenced between origin target side old new)
    (classified : w.classify second.payload there = .ok (.within origin' target' side'))
    (expected : w.Resequenced after origin' target' side' old' new')
    (apart : origin'.container ≠ origin.container) :
    ∃ planned w', (Request.drop second there).plan (fun _ => between) = .ok planned ∧
      planned.carryOut between = .ok w' ∧ w'.Valid ∧
      between.Resequenced w' origin' target' side' old' new' ∧
      planned.plans = [old'.batch new'] ∧ planned.roots = none := by
  have keeps : ∀ level ∈ w.levels, level.container = origin'.container → level ∈ between.levels :=
    fun level inside here => resequenced.mem_levels inside fun same => apart (here ▸ same)
  have classified' := valid.classify_within valid' keeps classified
  obtain ⟨planned, w', found, made, computed, outcome, again, plans, roots⟩ :=
    valid'.exists_resequenced classified'
  have stays := keeps old' expected.old_mem expected.container
  obtain rfl : found = old' := level_ext valid'.roots_distinct valid'.members_distinct
    again.old_mem stays (again.container.trans expected.container.symm)
  obtain rfl : made = new' := expected.new_eq again
  exact ⟨planned, w', Request.plan_drop_eq_ok_iff.2 ⟨_, classified', computed, outcome.resolved⟩,
    outcome.carried, outcome.valid, again, plans, roots⟩

/-- What is reported depends on the plans only. -/
theorem report_eq {planned planned' : Rearrangement} (plans : planned.plans = planned'.plans)
    (roots : planned.roots = planned'.roots) : planned.report = planned'.report := by
  simp only [Rearrangement.report, Rearrangement.batches, Rearrangement.rootBatch?, plans, roots]

/-- Members may be moved among the siblings of different containers in either sequence. -/
theorem Valid.interchange_siblings (valid : w.Valid)
    (classified : w.classify first.payload here = .ok (.within origin target side))
    (classified' : w.classify second.payload there = .ok (.within origin' target' side'))
    (apart : origin.container ≠ origin'.container) :
    w.Interchange (.drop first here) (.drop second there) := by
  obtain ⟨planned, w₁, old, new, computed, outcome, resequenced, plans, roots⟩ :=
    valid.exists_resequenced classified
  obtain ⟨planned', w₂, old', new', computed', outcome', resequenced', plans', roots'⟩ :=
    valid.exists_resequenced classified'
  have ready : (Request.drop first here).plan (fun _ => w) = .ok planned :=
    Request.plan_drop_eq_ok_iff.2 ⟨_, classified, computed, outcome.resolved⟩
  have ready' : (Request.drop second there).plan (fun _ => w) = .ok planned' :=
    Request.plan_drop_eq_ok_iff.2 ⟨_, classified', computed', outcome'.resolved⟩
  obtain ⟨later', w₁₂, again', meets', valid₁₂, then_second, same', none'⟩ :=
    valid.exists_resequenced_after outcome.valid resequenced classified' resequenced' apart.symm
  obtain ⟨later, w₂₁, again, meets, -, then_first, same, none⟩ :=
    valid.exists_resequenced_after outcome'.valid resequenced' classified resequenced apart
  obtain rfl : w₁₂ = w₂₁ := resequenced.meet valid₁₂ then_second resequenced' then_first
  exact interchange_of_plans ready outcome.carried ready' outcome'.carried
    again (report_eq (same.trans plans.symm) (none.trans roots.symm))
    again' (report_eq (same'.trans plans'.symm) (none'.trans roots'.symm)) meets meets'

end

end Workspace

end Outline
