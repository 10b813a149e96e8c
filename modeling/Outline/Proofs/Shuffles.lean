import Outline.Proofs.Grounds
import Outline.Proofs.Interchange

/-!
# Roots in another sequence

The sequence of the roots and their numbers bear on no list of members, and what stands below the
roots does not bear on their sequence.  So requests about members are planned alike wherever the
roots stand (`Outline.Workspace.Alike.plan_eq`), and their lists are put in place root by root
(`Outline.Workspace.exists_revision_of_carryOut`).  A move of roots may therefore be made before or
after any of them (`Outline.Workspace.Valid.interchange_roots`).
-/

namespace Outline

/-- The first result is the same in any sequence if no two items have one. -/
theorem findSome?_eq_of_perm {α β : Type} {f : α → Option β} {xs ys : List α} (same : xs.Perm ys)
    (single : xs.Pairwise fun x y => f x = none ∨ f y = none) :
    xs.findSome? f = ys.findSome? f := by
  induction same with
  | nil => rfl
  | cons x _ ih => rw [List.findSome?_cons, List.findSome?_cons, ih single.of_cons]
  | swap x y rest =>
      have either := (List.pairwise_cons.1 single).1 x (.head _)
      simp only [List.findSome?_cons]
      rcases either with none | none <;> simp only [none]
  | trans first _ ih ih' => rw [ih single, ih' (first.pairwise single Or.symm)]

/-- A drop of a member, or an edit: what is asked for leaves the list of roots as it is. -/
def Request.OfMembers : Request → Prop
  | .drop session _ => ∃ family origin, session.payload = .member family origin
  | .edit .. => True

namespace Workspace

variable {w w' : Workspace}

/-- The same roots with the same members, in another sequence and with other numbers. -/
def Shuffled (w w' : Workspace) : Prop :=
  (w.roots.map (Ordered.withOrder · 0)).Perm (w'.roots.map (Ordered.withOrder · 0))

theorem Shuffled.refl (w : Workspace) : w.Shuffled w :=
  List.Perm.refl _

theorem shuffled_renumber {listing : List Root} (perm : listing.Perm w.roots) :
    w.Shuffled ⟨Ordered.renumber listing⟩ := by
  have same : (Ordered.renumber listing).map (Ordered.withOrder · 0) =
      listing.map (Ordered.withOrder · 0) :=
    Ordered.map_renumber_eq fun r n => Ordered.withOrder_withOrder r n 0
  rw [Shuffled, same]
  exact (perm.map _).symm

/-- Look-ups find the same members in both workspaces, and roots that differ in nothing but their
numbers. -/
structure Alike (w w' : Workspace) : Prop where
  root? : ∀ id, (w.root? id).map (Ordered.withOrder · 0) = (w'.root? id).map (Ordered.withOrder · 0)
  locate? : ∀ id, w.locate? id = w'.locate? id

theorem map_root? (w : Workspace) (id : Id) : (w.root? id).map (Ordered.withOrder · 0) =
    (w.roots.map (Ordered.withOrder · 0)).findSome? (Option.guard (·.id = id)) := by
  rw [← List.find?_eq_findSome?_guard, List.find?_map]
  rfl

theorem locate?_eq_findSome? (w : Workspace) (id : Id) : w.locate? id =
    (w.roots.map (Ordered.withOrder · 0)).findSome? fun root =>
      Forest.locate? root.members id root.container 0 := by
  rw [List.findSome?_map]
  rfl

theorem Shuffled.root?_eq (shuffled : w.Shuffled w') (distinct : (w.roots.map Root.id).Nodup)
    (id : Id) :
    (w.root? id).map (Ordered.withOrder · 0) = (w'.root? id).map (Ordered.withOrder · 0) := by
  rw [map_root?, map_root?]
  refine findSome?_eq_of_perm shuffled (List.pairwise_map.2 ?_)
  refine (List.pairwise_map.1 distinct).imp fun {r s} (differ : r.id ≠ s.id) => ?_
  rw [Option.guard_eq_none_iff, Option.guard_eq_none_iff]
  by_cases first : r.id = id
  · exact .inr (decide_eq_false fun second => differ (first.trans second.symm))
  · exact .inl (decide_eq_false first)

/-- With distinct identifiers look-ups do not depend on the sequence of the roots. -/
theorem Shuffled.alike (shuffled : w.Shuffled w') (roots : (w.roots.map Root.id).Nodup)
    (members : w.ids.Nodup) : w.Alike w' where
  root? := shuffled.root?_eq roots
  locate? id := by
    rw [locate?_eq_findSome?, locate?_eq_findSome?]
    refine findSome?_eq_of_perm shuffled (List.pairwise_map.2 ?_)
    refine (List.nodup_flatMap.1 members).2.imp fun {r s} apart => ?_
    have absent : ∀ root : Root, id ∉ Forest.ids root.members →
        Forest.locate? root.members id root.container 0 = none := by
      intro root absent
      rw [← Forest.locate?_isSome_iff _ _ root.container 0] at absent
      exact Option.not_isSome_iff_eq_none.1 absent
    by_cases first : id ∈ Forest.ids r.members
    · exact .inr (absent s (apart first))
    · exact .inl (absent r first)

/-- A member that is dropped moves among members. -/
theorem roots_of_move_eq_nil {family : Family} {origin : Origin} {location : Location} {move : Move}
    (classified : w.classify (.member family origin) location = .ok move) : move.roots = [] := by
  cases admits_of_classify classified <;> rfl

namespace Alike

variable (alike : w.Alike w')

include alike

/-- What is read off a root but for its number. -/
theorem bind_root? {α : Type} (f : Root → Option α)
    (ignores : ∀ r n, f (Ordered.withOrder r n) = f r) (id : Id) :
    (w.root? id).bind f = (w'.root? id).bind f := by
  have off : ∀ r : Option Root, r.bind f = (r.map (Ordered.withOrder · 0)).bind f := by
    intro r
    cases r with
    | none => rfl
    | some r => exact (ignores r 0).symm
  rw [off, alike.root?, ← off]

theorem map_root? {α : Type} (f : Root → α) (ignores : ∀ r n, f (Ordered.withOrder r n) = f r)
    (id : Id) : (w.root? id).map f = (w'.root? id).map f := by
  simp only [Option.map_eq_bind]
  exact alike.bind_root? (some ∘ f) (fun r n => congrArg some (ignores r n)) id

theorem isNone_root? (id : Id) : (w.root? id).isNone = (w'.root? id).isNone := by
  rw [← Option.isNone_map (f := fun _ : Root => ()), alike.map_root? _ fun _ _ => rfl,
    Option.isNone_map]

theorem shape? (container : Container) : w.shape? container = w'.shape? container :=
  alike.map_root? Root.shape (fun _ _ => rfl) container.root

theorem locateIn? (root id : Id) : w.locateIn? root id = w'.locateIn? root id :=
  alike.bind_root? (fun r => Forest.locate? r.members id r.container 0) (fun _ _ => rfl) root

theorem members? (container : Container) : w.members? container = w'.members? container := by
  unfold Workspace.members?
  exact alike.bind_root? _ (fun _ _ => rfl) container.root

theorem path? (container : Container) : w.path? container = w'.path? container := by
  unfold Workspace.path?
  split
  · exact alike.map_root? _ (fun _ _ => rfl) container.root
  · rw [alike.locateIn?]

theorem depth? (container : Container) : w.depth? container = w'.depth? container := by
  unfold Workspace.depth?
  split
  · exact alike.map_root? _ (fun _ _ => rfl) container.root
  · rw [alike.locateIn?]

theorem checkDestination (family : Family) (source : Located) (destination : Container) :
    w.checkDestination family source destination =
      w'.checkDestination family source destination := by
  simp only [Workspace.checkDestination, alike.shape?, alike.depth?, alike.members?]

theorem classifyMember (family : Family) (origin : Origin) (action : Action) (target : Target) :
    w.classifyMember family origin action target =
      w'.classifyMember family origin action target := by
  simp only [Workspace.classifyMember, classifyOntoRoot, classifyOntoMember, classifyBeside,
    locateAt?, alike.locateIn?, alike.shape?, alike.isNone_root?, alike.checkDestination]

theorem listing (container : Container) : w.listing container = w'.listing container := by
  rw [Workspace.listing, Workspace.listing, alike.members?]

theorem path (container : Container) : w.path container = w'.path container := by
  rw [Workspace.path, Workspace.path, alike.path?]

/-- A move of a member is computed alike. -/
theorem rearrange {move : Move} (ofMember : move.roots = []) :
    w.rearrange move = w'.rearrange move := by
  cases move with
  | ofRoot root target side => cases ofMember
  | _ => simp only [Workspace.rearrange, combine, alike.listing, alike.path]

/-- Every edit is computed alike. -/
theorem compute (change : Edit) (fresh : Id) :
    change.compute fresh w = change.compute fresh w' := by
  cases change with
  | add container name kind =>
      simp only [Edit.compute, checkInsert, add, alike.shape?, alike.members?, alike.depth?,
        alike.listing, alike.path]
  | rename member name =>
      simp only [Edit.compute, checkRename, rename, alike.locate?, alike.members?, alike.listing,
        alike.path]
  | delete member => simp only [Edit.compute, delete, alike.locate?, alike.listing]

theorem resolve (planned : Rearrangement) : planned.resolve w = planned.resolve w' := by
  simp only [Rearrangement.resolve, alike.members?, alike.isNone_root?]

/-- A request about members has the same plan. -/
theorem plan_eq {request : Request} (ofMembers : request.OfMembers) :
    request.plan (fun _ => w) = request.plan (fun _ => w') := by
  cases request with
  | drop session location =>
      obtain ⟨family, origin, dragged⟩ := ofMembers
      have classified : w.classify session.payload location =
          w'.classify session.payload location := by
        simp only [classify, dragged, alike.classifyMember]
      simp only [Request.plan, ← classified]
      cases found : w.classify session.payload location with
      | error refusal => rfl
      | ok move =>
          have ofMember : move.roots = [] := by
            rw [dragged] at found
            exact roots_of_move_eq_nil found
          simp only [Except.mapError, Except.bind, alike.rearrange ofMember, alike.resolve]
  | edit change fresh => simp only [Request.plan, alike.compute, alike.resolve]

end Alike

/-- An edit leaves the list of roots as it is. -/
theorem roots_of_compute {change : Edit} {fresh : Id} {planned : Rearrangement}
    (computed : change.compute fresh w = .ok planned) : planned.roots = none := by
  cases change with
  | add container name kind =>
      rw [Edit.compute] at computed
      split at computed
      next => cases computed
      next =>
        obtain ⟨_, -, computed⟩ := exists_of_bind_eq_ok (ok_of_mapError computed)
        obtain ⟨_, -, done⟩ := exists_of_bind_eq_ok computed
        exact (Except.ok.inj done) ▸ rfl
  | rename member name =>
      rw [Edit.compute] at computed
      split at computed
      next => cases computed
      next =>
        replace computed := ok_of_mapError computed
        rw [rename] at computed
        split at computed
        next =>
          obtain ⟨_, -, computed⟩ := exists_of_bind_eq_ok computed
          obtain ⟨_, -, done⟩ := exists_of_bind_eq_ok computed
          exact (Except.ok.inj done) ▸ rfl
        next => cases computed
  | delete member =>
      rw [Edit.compute] at computed
      replace computed := ok_of_mapError computed
      rw [delete] at computed
      split at computed
      next =>
        obtain ⟨_, -, computed⟩ := exists_of_bind_eq_ok computed
        obtain ⟨_, -, done⟩ := exists_of_bind_eq_ok computed
        exact (Except.ok.inj done) ▸ rfl
      next => cases computed

/-- A request about members is planned without a list of roots. -/
theorem roots_of_plan {request : Request} (ofMembers : request.OfMembers)
    {planned : Rearrangement} (ready : request.plan (fun _ => w) = .ok planned) :
    planned.roots = none := by
  cases request with
  | drop session location =>
      obtain ⟨family, origin, dragged⟩ := ofMembers
      obtain ⟨move, classified, computed, -⟩ := Request.plan_drop_eq_ok_iff.1 ready
      rw [dragged] at classified
      exact roots_of_rearrange computed (roots_of_move_eq_nil classified)
  | edit change fresh =>
      exact roots_of_compute (Request.plan_edit_eq_ok_iff.1 ready).1

/-- What is planned for a root that is dropped depends on the list of roots only. -/
theorem plan_root_eq (same : w.roots.map Root.shallow = w'.roots.map Root.shallow)
    {session : Session} {root : Id} (dragged : session.payload = .root root) (location : Location) :
    (Request.drop session location).plan (fun _ => w) =
      (Request.drop session location).plan (fun _ => w') := by
  have shown : ∀ id, (w.root? id).isNone = (w'.root? id).isNone := by
    have off : ∀ v : Workspace, ∀ id, (v.root? id).isNone =
        ((v.roots.map Root.shallow).find? (·.id = id)).isNone := by
      intro v id
      rw [List.find?_map, Option.isNone_map]
      rfl
    intro id
    rw [off, same, ← off]
  have classified : w.classify session.payload location =
      w'.classify session.payload location := by
    simp only [classify, dragged, classifyRoot, shown]
  simp only [Request.plan, ← classified]
  cases found : w.classify session.payload location with
  | error refusal => rfl
  | ok move =>
      rw [dragged] at found
      cases admits_of_classify found with
      | ofRoot =>
          simp only [Except.mapError, Except.bind, Workspace.rearrange, same]
          cases reorderRoots (w'.roots.map Root.shallow) _ _ _ with
          | error => rfl
          | ok after =>
              simp only [Rearrangement.resolve, shown, bind, Except.bind, pure, Except.pure,
                List.find?_nil]

end Workspace

/-- Focuses on the list of the root that has the members, or on that of its interior member called
`node`. -/
def Forest.focusAt? (ms : Forest) (node : Option Id) : Option (Focus Forest Forest) :=
  match node with
  | none => some ⟨ms, fun other => other⟩
  | some node => (focus? ms node).bind fun owner =>
      if owner.part.isInterior then
        some ⟨owner.part.children, fun other =>
          owner.replace { owner.part with children := other }⟩
      else
        none

namespace Root

/-- The root with other members, if it is the one called `id`. -/
def refill (id : Id) (ms : Forest) (r : Root) : Root :=
  if r.id = id then r.withMembers ms else r

/-- What is done to each root: its members may become others, whatever number it has. -/
structure Revision (f : Root → Root) : Prop where
  shallow : ∀ r, (f r).shallow = r.shallow
  withOrder : ∀ r n, f (Ordered.withOrder r n) = Ordered.withOrder (f r) n

theorem revision_refill (id : Id) (ms : Forest) : Revision (refill id ms) where
  shallow r := by
    unfold refill
    split <;> rfl
  withOrder r n := by
    simp only [refill, show (Ordered.withOrder r n).id = r.id from rfl]
    split <;> rfl

namespace Revision

variable {f g : Root → Root}

theorem comp (later : Revision g) (first : Revision f) : Revision (g ∘ f) where
  shallow r := (later.shallow (f r)).trans (first.shallow r)
  withOrder r n := by
    simp only [Function.comp_apply, first.withOrder, later.withOrder]

theorem map_shallow (revision : Revision f) (roots : List Root) :
    (roots.map f).map Root.shallow = roots.map Root.shallow := by
  rw [List.map_map]
  exact List.map_congr_left fun r _ => revision.shallow r

theorem map_id (revision : Revision f) (roots : List Root) :
    (roots.map f).map Root.id = roots.map Root.id := by
  have same : ∀ r, (f r).shallow.id = r.shallow.id := fun r => by rw [revision.shallow]
  rw [List.map_map]
  exact List.map_congr_left fun r _ => same r

end Revision

end Root

namespace Workspace

variable {w w' : Workspace}

namespace Shuffled

theorem nodup_map_id (shuffled : w.Shuffled w') (distinct : (w.roots.map Root.id).Nodup) :
    (w'.roots.map Root.id).Nodup := by
  have same := shuffled.map Root.id
  rw [List.map_map, List.map_map] at same
  exact same.nodup_iff.1 distinct

/-- Roots that are revised alike are still the same in another sequence. -/
theorem revised (shuffled : w.Shuffled w') {f : Root → Root} (revision : Root.Revision f) :
    Shuffled ⟨w.roots.map f⟩ ⟨w'.roots.map f⟩ := by
  have off : ∀ roots : List Root, (roots.map f).map (Ordered.withOrder · 0) =
      (roots.map (Ordered.withOrder · 0)).map f := by
    intro roots
    simp only [List.map_map]
    exact List.map_congr_left fun r _ => (revision.withOrder r 0).symm
  simp only [Shuffled, off]
  exact shuffled.map f

end Shuffled

/-- Other members for a root in focus come to it and to no other root. -/
theorem replace_withMembers (distinct : (w.roots.map Root.id).Nodup) {id : Id}
    {focus : Focus Workspace Root} (found : w.focusRoot? id = some focus) (ms : Forest) :
    focus.replace (focus.part.withMembers ms) = ⟨w.roots.map (Root.refill id ms)⟩ := by
  obtain ⟨part, focused, rfl⟩ := Option.map_eq_some_iff.1 found
  obtain ⟨front, root, back, split, rfl, before, rfl⟩ := focusRoot?_eq_some_iff.1 focused
  have others : ∀ part : List Root, (∀ r ∈ part, r.id ≠ root.id) →
      part.map (Root.refill root.id ms) = part := by
    intro part differ
    refine (List.map_congr_left fun r inside => ?_).trans (List.map_id part)
    exact if_neg (differ r inside)
  have later : ∀ r ∈ back, r.id ≠ root.id := by
    intro r inside same
    rw [split, List.map_append, List.map_cons] at distinct
    have alone := (List.nodup_cons.1 (List.nodup_append.1 distinct).2.1).1
    exact alone (same ▸ List.mem_map_of_mem inside)
  rw [split, List.map_append, List.map_cons, others front before, others back later]
  simp only [Root.refill, if_true]

theorem focus?_eq (w : Workspace) (container : Container) : w.focus? container =
    (w.focusRoot? container.root).bind fun root =>
      (root.part.members.focusAt? container.node).map fun list =>
        ⟨list.part, fun ms => root.replace (root.part.withMembers (list.replace ms))⟩ := by
  unfold focus? Forest.focusAt?
  congr 1
  funext root
  cases container.node with
  | none => rfl
  | some node =>
      simp only [Option.map_bind]
      congr 1
      funext owner
      simp only [Function.comp_apply]
      split <;> rfl

/-- A list that can be put in place comes to its root, in whatever sequence the roots are. -/
theorem exists_refill_of_patch (distinct : (w.roots.map Root.id).Nodup) {container : Container}
    {after : Forest} {between : Workspace} (patched : w.patch container after = .ok between) :
    ∃ ms, ∀ w', w.Shuffled w' →
      w'.patch container after = .ok ⟨w'.roots.map (Root.refill container.root ms)⟩ := by
  unfold patch at patched
  split at patched
  next focused focus =>
    rw [focus?_eq] at focus
    obtain ⟨root, found, focus⟩ := Option.bind_eq_some_iff.1 focus
    obtain ⟨list, listed, rfl⟩ := Option.map_eq_some_iff.1 focus
    refine ⟨list.replace (Forest.patched list.part after), fun w' shuffled => ?_⟩
    have same : (w'.focusRoot? container.root).map (·.part.members) = some root.part.members := by
      have read : ∀ v : Workspace, (v.focusRoot? container.root).map (·.part.members) =
          ((v.root? container.root).map (Ordered.withOrder · 0)).map Root.members := by
        intro v
        rw [← map_part_focusRoot?, Option.map_map, Option.map_map]
        rfl
      rw [read, ← shuffled.root?_eq distinct, ← read, found, Option.map_some]
    obtain ⟨root', found', members⟩ := Option.map_eq_some_iff.1 same
    have focus' : w'.focus? container =
        some ⟨list.part, fun ms => root'.replace (root'.part.withMembers (list.replace ms))⟩ := by
      rw [focus?_eq, found', Option.bind_some, members, listed, Option.map_some]
    rw [patch, focus']
    exact congrArg Except.ok
      (replace_withMembers (shuffled.nodup_map_id distinct) found' _)
  next => cases patched

/-- Lists that can be put in place one after the other come to their roots, in whatever sequence the
roots are. -/
theorem exists_revision_of_foldlM {changes : List Change} (distinct : (w.roots.map Root.id).Nodup)
    {between : Workspace} (carried :
      changes.foldlM (fun w change => w.patch change.container change.after) w = .ok between) :
    ∃ f, Root.Revision f ∧ ∀ w', w.Shuffled w' →
      changes.foldlM (fun w change => w.patch change.container change.after) w' =
        .ok ⟨w'.roots.map f⟩ := by
  induction changes generalizing w with
  | nil =>
      refine ⟨fun r => r, ⟨fun _ => rfl, fun _ _ => rfl⟩, fun w' _ => ?_⟩
      rw [List.map_id']
      rfl
  | cons change changes ih =>
      rw [List.foldlM_cons] at carried
      obtain ⟨next, patched, carried⟩ := exists_of_bind_eq_ok carried
      obtain ⟨ms, refills⟩ := exists_refill_of_patch distinct patched
      have revision := Root.revision_refill change.container.root ms
      obtain rfl := Except.ok.inj (patched.symm.trans (refills w (.refl w)))
      obtain ⟨f, later, follows⟩ := ih (by rwa [revision.map_id]) carried
      refine ⟨_, later.comp revision, fun w' shuffled => ?_⟩
      rw [List.foldlM_cons, refills w' shuffled]
      have done := follows _ (shuffled.revised revision)
      rw [List.map_map] at done
      exact done

/-- What is planned about members is carried out root by root, in whatever sequence the roots
are. -/
theorem exists_revision_of_carryOut (distinct : (w.roots.map Root.id).Nodup)
    {planned : Rearrangement} (roots : planned.roots = none) {between : Workspace}
    (carried : planned.carryOut w = .ok between) :
    ∃ f, Root.Revision f ∧ ∀ w', w.Shuffled w' →
      planned.carryOut w' = .ok ⟨w'.roots.map f⟩ := by
  have plain : ∀ v, planned.carryOut v = planned.changes.foldlM
      (fun w change => w.patch change.container change.after) v := by
    intro v
    rw [Rearrangement.carryOut, roots]
    exact bind_pure _
  rw [plain] at carried
  simp only [plain]
  exact exists_revision_of_foldlM distinct carried

/-- A move of roots lists them in another sequence, each once. -/
theorem Valid.exists_listing_of_classify (valid : w.Valid) {root : Id} {location : Location}
    {move : Move} (classified : w.classify (.root root) location = .ok move) :
    ∃ listing, listing.Perm w.roots ∧ w.rearrange move = .ok { roots := some {
      before := w.roots.map Root.shallow
      after := (Ordered.renumber listing).map Root.shallow } } := by
  cases admits_of_classify classified with
  | ofRoot side present there other =>
      obtain ⟨r, found⟩ := Option.isSome_iff_exists.1 present
      obtain ⟨t, found'⟩ := Option.isSome_iff_exists.1 there
      obtain rfl : r.id = root := by simpa using List.find?_some found
      obtain rfl : t.id = _ := by simpa using List.find?_some found'
      obtain ⟨front, back, perm, -, -, reordered⟩ := valid.exists_reordered
        (List.mem_of_find?_eq_some found) (List.mem_map_of_mem (List.mem_of_find?_eq_some found'))
        other side
      refine ⟨_, perm, ?_⟩
      simp only [rearrange, bind, Except.bind, reordered]
      rfl

/-- A root may be moved before or after whatever is asked for about members. -/
theorem Valid.interchange_roots (valid : w.Valid) {session : Session} {location : Location}
    {root : Id} {move : Move} (dragged : session.payload = .root root)
    (classified : w.classify session.payload location = .ok move) {request : Request}
    (ofMembers : request.OfMembers) (allowed : request.Allowed w) :
    w.Interchange (.drop session location) request := by
  obtain ⟨planned, between, ready, carried⟩ := valid.exists_plan_of_allowed allowed
  obtain ⟨f, revision, follows⟩ := exists_revision_of_carryOut valid.roots_distinct
    (roots_of_plan ofMembers ready) carried
  obtain rfl := Except.ok.inj (carried.symm.trans (follows w (.refl w)))
  obtain ⟨listing, perm, computed⟩ := valid.exists_listing_of_classify (dragged ▸ classified)
  have sorts : (Request.drop session location).Allowed w := ⟨move, classified⟩
  obtain ⟨sorting, sorted, ready', carried'⟩ := valid.exists_plan_of_allowed sorts
  obtain ⟨move', classified', computed', -⟩ := Request.plan_drop_eq_ok_iff.1 ready'
  obtain rfl := Except.ok.inj (classified.symm.trans classified')
  obtain rfl := Except.ok.inj (computed.symm.trans computed')
  have shuffled := shuffled_renumber perm
  have placed := patchRoots_renumber valid.roots_distinct perm
  obtain rfl := Except.ok.inj (carried'.symm.trans placed)
  have meets : Workspace.patchRoots ⟨w.roots.map f⟩ ((Ordered.renumber listing).map Root.shallow) =
      .ok ⟨(Ordered.renumber listing).map f⟩ := by
    have renumbered : (Ordered.renumber listing).map f = Ordered.renumber (listing.map f) :=
      Ordered.map_renumber fun r _ n => revision.withOrder r n
    rw [← revision.map_shallow, renumbered]
    refine patchRoots_renumber ?_ (perm.map f)
    rw [revision.map_id]
    exact valid.roots_distinct
  have again := plan_root_eq (revision.map_shallow w.roots).symm dragged location
  have again' := (shuffled.alike valid.roots_distinct valid.members_distinct).plan_eq ofMembers
  exact interchange_of_plans ready' carried' ready carried (again.symm.trans ready') rfl
    (again'.symm.trans ready) rfl meets (follows _ shuffled)

end Workspace

end Outline
