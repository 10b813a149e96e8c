import Outline.Patch
import Outline.Proofs.Levels

/-!
# Windows

The view of a workspace from one of its containers: the list that the container owns, where it
stands, and a frame of all levels elsewhere.  Putting another list in its place leaves the frame
as it is (`Outline.Workspace.Window.put_levels`), wherever other containers are nested.  Every
container whose members can be looked up has a window (`Outline.Workspace.exists_window`), and
with distinct identifiers these are the containers of the levels that roots and interior members
own (`Outline.Workspace.exists_members_of_level`).
-/

namespace Outline

namespace Forest

theorem locate?_cons (m : Member) (ms : Forest) (id : Id) (container : Container) (depth : Nat) :
    locate? (m :: ms) id container depth =
      if m.id = id then some ⟨m, container, depth⟩
      else (locate? m.children id (.ofNode container.root m.id) (depth + 1)).or
        (locate? ms id container depth) := by
  obtain ⟨mid, name, order, kind, path, children⟩ := m
  by_cases same : mid = id
  · simp only [locate?, Member.locate?, if_pos same]
  · simp only [locate?, Member.locate?, if_neg same]
    cases locate? children id (.ofNode container.root mid) (depth + 1) <;> rfl

theorem focus?_cons (m : Member) (ms : Forest) (id : Id) : focus? (m :: ms) id =
    if m.id = id then some ⟨m, (· :: ms)⟩
    else match focus? m.children id with
      | some below => some ⟨below.part, fun other =>
          { m with children := below.replace other } :: ms⟩
      | none => (focus? ms id).map fun later =>
          ⟨later.part, fun other => m :: later.replace other⟩ := by
  obtain ⟨mid, name, order, kind, path, children⟩ := m
  by_cases same : mid = id
  · simp only [focus?, Member.focus?, if_pos same]
  · simp only [focus?, Member.focus?, if_neg same]
    cases focus? children id <;> rfl

/-- A search fails exactly if no member has the identifier. -/
theorem locate?_isSome_iff (ms : Forest) (id : Id) (container : Container) (depth : Nat) :
    (locate? ms id container depth).isSome ↔ id ∈ ids ms := by
  induction ms using Forest.induct generalizing container depth with
  | nil => simp [locate?]
  | cons m ms inner later =>
      rw [locate?_cons, ids_cons]
      by_cases same : m.id = id
      · simp [same]
      · rw [if_neg same, Option.isSome_or, Bool.or_eq_true, inner, later, List.mem_cons,
          List.mem_append]
        exact (or_iff_right (Ne.symm same)).symm

/-- Searching and focusing find the same member. -/
theorem map_part_focus? (ms : Forest) (id : Id) (container : Container) (depth : Nat) :
    (focus? ms id).map Focus.part = (locate? ms id container depth).map Located.member := by
  induction ms using Forest.induct generalizing container depth with
  | nil => rfl
  | cons m ms inner later =>
      rw [locate?_cons, focus?_cons]
      by_cases same : m.id = id
      · rw [if_pos same, if_pos same]
        rfl
      · rw [if_neg same, if_neg same]
        have below := inner (.ofNode container.root m.id) (depth + 1)
        have after := later container depth
        cases found : focus? m.children id with
        | some focus =>
            rw [found] at below
            obtain ⟨located, here, same⟩ := Option.map_eq_some_iff.1 below.symm
            rw [here]
            exact congrArg some same.symm
        | none =>
            rw [found] at below
            rw [Option.map_eq_none_iff.1 below.symm, Option.none_or, ← after, Option.map_map]
            rfl

/-- What a focus on a member of a forest at `site` amounts to: the member stands at `place`, and the
levels of `frame` are not below it. -/
structure Focused (ms : Forest) (site : Site) (owner : Kind) (focus : Focus Forest Member)
    (place : Site) (frame : List Level) : Prop where
  located : locate? ms focus.part.id site.container site.depth =
    some ⟨focus.part, place.container, place.depth⟩
  shape : place.shape = site.shape
  root : place.container.root = site.container.root
  present : focus.part ∈ subtrees ms
  listed : ∃ level ∈ levels ms site owner,
    level.site = place ∧ focus.part.shallow ∈ level.members
  same : focus.replace focus.part = ms
  outer : ∀ other : Member, other.shallow = focus.part.shallow →
    (focus.replace other).map Member.shallow = ms.map Member.shallow
  inner : ∀ other : Member, other.shallow = focus.part.shallow →
    (innerLevels (focus.replace other) site).Perm (other.levels place ++ frame)
  again : ∀ other : Member, other.id = focus.part.id →
    focus? (focus.replace other) focus.part.id = some ⟨other, focus.replace⟩

namespace Focused

/-- The first member in focus stands where its list does. -/
theorem first (m : Member) (ms : Forest) (site : Site) (owner : Kind) :
    Focused (m :: ms) site owner ⟨m, (· :: ms)⟩ site (innerLevels ms site) where
  located := by rw [locate?_cons, if_pos rfl]
  shape := rfl
  root := rfl
  present := by
    rw [subtrees_cons]
    exact .head _
  listed := ⟨_, .head _, rfl, .head _⟩
  same := rfl
  outer other fields := by simp only [List.map_cons, fields]
  inner other _ := .refl _
  again other sameId := by rw [focus?_cons, if_pos sameId]

variable {m : Member} {ms : Forest} {focus : Focus Forest Member} {site place : Site} {owner : Kind}
  {frame : List Level}

/-- A member in focus below the first one. -/
theorem below (focused : Focused m.children (site.below m.id m.name) m.kind focus place frame)
    (other_id : m.id ≠ focus.part.id) : Focused (m :: ms) site owner
      ⟨focus.part, fun other => { m with children := focus.replace other } :: ms⟩ place
      (⟨site.below m.id m.name, m.kind, m.children.map .shallow⟩ ::
        (frame ++ innerLevels ms site)) where
  located := by
    have here : locate? m.children focus.part.id (.ofNode site.container.root m.id)
        (site.depth + 1) = some ⟨focus.part, place.container, place.depth⟩ := focused.located
    dsimp only
    rw [locate?_cons, if_neg other_id, here, Option.some_or]
  shape := focused.shape
  root := focused.root
  present := by
    rw [subtrees_cons]
    exact .tail _ (List.mem_append_left _ focused.present)
  listed := by
    obtain ⟨level, inside, rest⟩ := focused.listed
    refine ⟨level, .tail _ (List.mem_append_left _ ?_), rest⟩
    rw [Member.levels_eq]
    exact inside
  same := by
    change { m with children := focus.replace focus.part } :: ms = m :: ms
    rw [focused.same, Member.mk_eta]
  outer other fields := rfl
  inner other fields := by
    dsimp only
    rw [innerLevels_cons, Member.levels_eq]
    dsimp only
    rw [levels, focused.outer other fields, List.cons_append]
    apply (((focused.inner other fields).append_right _).cons _).trans
    rw [List.append_assoc]
    exact List.perm_middle.symm
  again other sameId := by
    dsimp only
    rw [focus?_cons, if_neg other_id]
    dsimp only
    rw [focused.again other sameId]

/-- A member in focus after the first one and not below it. -/
theorem later (focused : Focused ms site owner focus place frame)
    (other_id : m.id ≠ focus.part.id) (not_below : focus? m.children focus.part.id = none) :
    Focused (m :: ms) site owner ⟨focus.part, fun other => m :: focus.replace other⟩ place
      (m.levels site ++ frame) where
  located := by
    have none := map_part_focus? m.children focus.part.id (.ofNode site.container.root m.id)
      (site.depth + 1)
    rw [not_below] at none
    dsimp only
    rw [locate?_cons, if_neg other_id, Option.map_eq_none_iff.1 none.symm, Option.none_or,
      focused.located]
  shape := focused.shape
  root := focused.root
  present := by
    rw [subtrees_cons]
    exact .tail _ (List.mem_append_right _ focused.present)
  listed := by
    obtain ⟨level, inside, here, listed⟩ := focused.listed
    rcases List.mem_cons.1 inside with rfl | inside
    · exact ⟨_, .head _, here, .tail _ listed⟩
    · exact ⟨level, .tail _ (List.mem_append_right _ inside), here, listed⟩
  same := by
    dsimp only
    rw [focused.same]
  outer other fields := by simp only [List.map_cons, focused.outer other fields]
  inner other fields := by
    dsimp only
    rw [innerLevels_cons]
    exact ((focused.inner other fields).append_left _).trans (List.perm_append_comm_assoc ..)
  again other sameId := by
    dsimp only
    rw [focus?_cons, if_neg other_id, not_below, focused.again other sameId]
    rfl

end Focused

theorem exists_focused {ms : Forest} {id : Id} {focus : Focus Forest Member}
    (found : focus? ms id = some focus) (site : Site) (owner : Kind) :
    focus.part.id = id ∧ ∃ place frame, Focused ms site owner focus place frame := by
  induction ms using Forest.induct generalizing focus site owner with
  | nil => exact absurd found (by simp [focus?])
  | cons m ms inner later =>
      rw [focus?_cons] at found
      by_cases same : m.id = id
      · rw [if_pos same] at found
        obtain rfl := Option.some.inj found
        exact ⟨same, site, _, .first m ms site owner⟩
      · rw [if_neg same] at found
        cases deeper : focus? m.children id with
        | some focus =>
            rw [deeper] at found
            obtain rfl := Option.some.inj found
            obtain ⟨named, place, frame, focused⟩ :=
              inner deeper (site.below m.id m.name) m.kind
            exact ⟨named, place, _, focused.below (named ▸ same)⟩
        | none =>
            rw [deeper] at found
            obtain ⟨focus, after, rfl⟩ := Option.map_eq_some_iff.1 found
            obtain ⟨named, place, frame, focused⟩ := later after site owner
            exact ⟨named, place, _, focused.later (named ▸ same) (named ▸ deeper)⟩

end Forest

/-- A focus on a root splits the list of roots around the first root with the identifier. -/
theorem focusRoot?_eq_some_iff {roots : List Root} {id : Id} {focus : Focus (List Root) Root} :
    focusRoot? roots id = some focus ↔ ∃ front root back, roots = front ++ root :: back ∧
      root.id = id ∧ (∀ r ∈ front, r.id ≠ id) ∧
      focus = ⟨root, fun other => front ++ other :: back⟩ := by
  induction roots generalizing focus with
  | nil => simp [focusRoot?]
  | cons r rs ih =>
      rw [focusRoot?]
      by_cases same : r.id = id
      · rw [if_pos same]
        constructor
        · intro found
          exact ⟨[], r, rs, rfl, same, by simp, (Option.some.inj found).symm⟩
        · rintro ⟨front, root, back, split, named, before, rfl⟩
          cases front with
          | nil =>
              obtain ⟨rfl, rfl⟩ := List.cons.inj split
              rfl
          | cons f fs =>
              obtain ⟨rfl, -⟩ := List.cons.inj split
              exact absurd same (before _ (.head _))
      · rw [if_neg same, Option.map_eq_some_iff]
        constructor
        · rintro ⟨later, found, rfl⟩
          obtain ⟨front, root, back, rfl, named, before, rfl⟩ := ih.1 found
          exact ⟨r :: front, root, back, rfl, named,
            List.forall_mem_cons.2 ⟨same, before⟩, rfl⟩
        · rintro ⟨front, root, back, split, named, before, rfl⟩
          cases front with
          | nil =>
              obtain ⟨rfl, -⟩ := List.cons.inj split
              exact absurd named same
          | cons f fs =>
              obtain ⟨rfl, rfl⟩ := List.cons.inj split
              refine ⟨_, ih.2 ⟨fs, root, back, rfl, named, ?_, rfl⟩, rfl⟩
              exact fun r inside => before r (.tail _ inside)

namespace Workspace

/-- The view of a workspace from a container that owns `present`: `site` is where the list stands,
the levels of `frame` are elsewhere, and `put` puts another list in its place. -/
structure Window (w : Workspace) (container : Container) (present : Forest) (site : Site)
    (frame : List Level) (put : Forest → Workspace) : Prop where
  container_eq : site.container = container
  members : w.members? container = some present
  shape : w.shape? container = some site.shape
  depth : w.depth? container = some site.depth
  /-- The container's own path is the one that its place calls for, if all paths are. -/
  path : (∀ level ∈ w.levels, ∀ m ∈ level.members, m.path = level.site.path.child m.name) →
    w.path? container = some site.path
  listed : ∀ m ∈ present, m ∈ w.members
  levels : w.levels.Perm (Forest.levels present site .interior ++ frame)
  put_levels : ∀ ms, (put ms).levels.Perm (Forest.levels ms site .interior ++ frame)
  put_members : ∀ ms, (put ms).members? container = some ms
  put_roots : ∀ ms, (put ms).roots.map Root.shallow = w.roots.map Root.shallow
  patch : ∀ after, w.patch container after = .ok (put (Forest.patched present after))

variable {w : Workspace}

theorem root?_eq_some {front back : List Root} {root : Root}
    (before : ∀ r ∈ front, r.id ≠ root.id) :
    root? ⟨front ++ root :: back⟩ root.id = some root := by
  rw [root?, List.find?_append, List.find?_eq_none.2, Option.none_or, List.find?_cons_of_pos]
  · exact decide_eq_true rfl
  · exact fun r inside => by simpa using before r inside

theorem root?_eq_some_iff {id : Id} {root : Root} : w.root? id = some root ↔
    ∃ front back, w = ⟨front ++ root :: back⟩ ∧ root.id = id ∧ ∀ r ∈ front, r.id ≠ id := by
  constructor
  · intro found
    obtain ⟨named, front, back, split, before⟩ := List.find?_eq_some_iff_append.1 found
    refine ⟨front, back, ?_, by simpa using named, fun r inside => by simpa using before r inside⟩
    rw [← split]
  · rintro ⟨front, back, rfl, rfl, before⟩
    exact root?_eq_some before

theorem map_part_focusRoot? (w : Workspace) (id : Id) :
    (w.focusRoot? id).map Focus.part = w.root? id := by
  have search : ∀ roots : List Root,
      (Outline.focusRoot? roots id).map Focus.part = roots.find? (·.id = id) := by
    intro roots
    induction roots with
    | nil => rfl
    | cons r rs ih =>
        rw [Outline.focusRoot?, List.find?_cons]
        by_cases called : r.id = id
        · simp only [called, if_true, Option.map_some, decide_true]
        · simp only [called, if_false, decide_false, ← ih, Option.map_map]
          rfl
  rw [focusRoot?, root?, ← search, Option.map_map]
  rfl

/-- A focus on a container shows the members that can be looked up. -/
theorem map_part_focus? (w : Workspace) (container : Container) :
    (w.focus? container).map Focus.part = w.members? container := by
  rw [focus?, members?, ← map_part_focusRoot?]
  cases w.focusRoot? container.root with
  | none => rfl
  | some root =>
      rw [Option.map_some, Option.bind_some, Option.bind_some]
      cases container.node with
      | none => rfl
      | some node =>
          have part := Forest.map_part_focus? root.part.members node root.part.container 0
          cases found : Forest.focus? root.part.members node with
          | none =>
              rw [found] at part
              simp only [found, Option.map_eq_none_iff.1 part.symm, Option.bind_none,
                Option.map_none]
          | some owner =>
              rw [found] at part
              obtain ⟨located, search, same⟩ := Option.map_eq_some_iff.1 part.symm
              simp only [found, search, Option.bind_some, same]
              split <;> rfl

theorem patch_eq_error {container : Container} (absent : w.members? container = none)
    (after : Forest) : w.patch container after = .error (.noContainer container) := by
  rw [← map_part_focus?, Option.map_eq_none_iff] at absent
  rw [patch, absent]

/-- The levels of one root among those of a workspace. -/
theorem levels_split (front : List Root) (root : Root) (back : List Root) :
    (levels ⟨front ++ root :: back⟩).Perm
      (Forest.levels root.members root.site .interior ++
        (levels ⟨front⟩ ++ levels ⟨back⟩)) := by
  simp only [levels, List.flatMap_append, List.flatMap_cons]
  exact List.perm_append_comm_assoc ..

theorem exists_window_root {front back : List Root} {root : Root}
    (before : ∀ r ∈ front, r.id ≠ root.id) :
    Window ⟨front ++ root :: back⟩ root.container root.members root.site
      (levels ⟨front⟩ ++ levels ⟨back⟩) fun ms => ⟨front ++ root.withMembers ms :: back⟩ where
  container_eq := rfl
  members := by
    rw [members?]
    change (root? _ root.id).bind _ = _
    rw [root?_eq_some before]
    rfl
  shape := by
    change (root? _ root.id).map _ = _
    rw [root?_eq_some before]
    rfl
  depth := by
    change (root? _ root.id).map _ = _
    rw [root?_eq_some before]
    rfl
  path _ := by
    change (root? _ root.id).map _ = _
    rw [root?_eq_some before]
    rfl
  listed m member := List.mem_flatMap.2 ⟨root, List.mem_append_right _ (.head _),
    Forest.mem_subtrees_of_mem member⟩
  levels := levels_split ..
  put_levels ms := levels_split front (root.withMembers ms) back
  put_members ms := by
    rw [members?]
    change (root? _ (root.withMembers ms).id).bind _ = _
    rw [show root? ⟨front ++ root.withMembers ms :: back⟩ (root.withMembers ms).id =
      some (root.withMembers ms) from root?_eq_some before]
    rfl
  put_roots ms := by
    simp only [List.map_append, List.map_cons]
    rfl
  patch after := by
    have found : Outline.focusRoot? (front ++ root :: back) root.id =
        some ⟨root, fun other => front ++ other :: back⟩ :=
      focusRoot?_eq_some_iff.2 ⟨front, root, back, rfl, rfl, before, rfl⟩
    have focus : focus? ⟨front ++ root :: back⟩ root.container =
        some ⟨root.members, fun ms => ⟨front ++ root.withMembers ms :: back⟩⟩ := by
      simp only [focus?, focusRoot?, Root.container, Container.ofRoot, found, Option.map_some,
        Option.bind_some]
    rw [patch, focus]

section

variable {front back : List Root} {root : Root} (before : ∀ r ∈ front, r.id ≠ root.id)
  {focus : Focus Forest Member} {place : Site} {frame : List Level}
  (focused : Forest.Focused root.members root.site .interior focus place frame)

/-- A workspace with other children for the member in focus in one of its roots. -/
abbrev exchanged (front back : List Root) (root : Root) (focus : Focus Forest Member)
    (children : Forest) : Workspace :=
  ⟨front ++ root.withMembers (focus.replace { focus.part with children }) :: back⟩

include focused in
theorem levels_exchanged (kind : focus.part.kind = .interior) (children : Forest) :
    (exchanged front back root focus children).levels.Perm
      (Forest.levels children (place.below focus.part.id focus.part.name) .interior ++
        (root.site.level root.members ::
          (frame ++ (levels ⟨front⟩ ++ levels ⟨back⟩)))) := by
  have inner := focused.inner { focus.part with children } rfl
  have own : Member.kind { focus.part with children } = .interior := kind
  rw [Member.levels_eq, own] at inner
  apply (levels_split ..).trans
  change (Forest.levels (focus.replace { focus.part with children }) root.site .interior ++
    _).Perm _
  rw [Forest.levels, focused.outer { focus.part with children } rfl, List.cons_append]
  apply ((inner.append_right _).cons _).trans
  rw [List.append_assoc]
  exact List.perm_middle.symm

include before focused in
theorem members?_exchanged (interior : focus.part.isInterior = true) (children : Forest) :
    (exchanged front back root focus children).members? (.ofNode root.id focus.part.id) =
      some children := by
  let other := root.withMembers (focus.replace { focus.part with children })
  have again := focused.again { focus.part with children } rfl
  have part := Forest.map_part_focus? other.members focus.part.id other.container 0
  change Option.map _ (Forest.focus? (focus.replace { focus.part with children }) _) = _ at part
  rw [again] at part
  obtain ⟨located, search, same⟩ := Option.map_eq_some_iff.1 part.symm
  have there : root? (exchanged front back root focus children) root.id = some other :=
    root?_eq_some before
  simp only [members?, Container.ofNode, there, Option.bind_some, search, same]
  exact if_pos interior

include before in
theorem focus?_node (found : Forest.focus? root.members focus.part.id = some focus)
    (interior : focus.part.isInterior = true) :
    focus? ⟨front ++ root :: back⟩ (.ofNode root.id focus.part.id) =
      some ⟨focus.part.children, exchanged front back root focus⟩ := by
  have found_root : Outline.focusRoot? (front ++ root :: back) root.id =
      some ⟨root, fun other => front ++ other :: back⟩ :=
    focusRoot?_eq_some_iff.2 ⟨front, root, back, rfl, rfl, before, rfl⟩
  simp only [focus?, focusRoot?, Container.ofNode, found_root, Option.map_some, Option.bind_some,
    found, interior, if_true]

include before focused in
/-- The member that a container is, and the focus on it, in a root that is found. -/
theorem exists_window_node (found : Forest.focus? root.members focus.part.id = some focus)
    (interior : focus.part.isInterior = true) :
    Window ⟨front ++ root :: back⟩ (.ofNode root.id focus.part.id) focus.part.children
      (place.below focus.part.id focus.part.name)
      (root.site.level root.members :: (frame ++ (levels ⟨front⟩ ++ levels ⟨back⟩)))
      (exchanged front back root focus) := by
  have located : Forest.locate? root.members focus.part.id root.container 0 =
      some ⟨focus.part, place.container, place.depth⟩ := focused.located
  have in_root : place.container.root = root.id := focused.root
  have kind : focus.part.kind = .interior := of_decide_eq_true interior
  have search : locateIn? ⟨front ++ root :: back⟩ root.id focus.part.id =
      some ⟨focus.part, place.container, place.depth⟩ := by
    rw [locateIn?, root?_eq_some before, Option.bind_some, located]
  exact {
    container_eq := by
      rw [Site.below, in_root]
    members := by
      simp only [members?, Container.ofNode, root?_eq_some before, Option.bind_some, located,
        interior, if_true]
    shape := by
      change (root? _ root.id).map _ = _
      rw [root?_eq_some before]
      exact congrArg some focused.shape.symm
    depth := by
      change (locateIn? _ root.id focus.part.id).map _ = _
      rw [search]
      rfl
    path := by
      intro derive
      obtain ⟨level, inside, here, listed⟩ := focused.listed
      have own := derive level
        ((levels_split front root back).mem_iff.2 (List.mem_append_left _ inside)) _ listed
      change (locateIn? _ root.id focus.part.id).map _ = _
      rw [search, Option.map_some]
      rw [here] at own
      exact congrArg some own
    listed := by
      intro m member
      refine mem_members_of_mem_children (m := focus.part) ?_ member
      exact List.mem_flatMap.2 ⟨root, List.mem_append_right _ (.head _), focused.present⟩
    levels := by
      have itself := @levels_exchanged front back root focus place frame focused kind
        focus.part.children
      rwa [exchanged, Member.mk_eta, focused.same] at itself
    put_levels := levels_exchanged focused kind
    put_members := members?_exchanged before focused interior
    put_roots := by
      intro ms
      simp only [List.map_append, List.map_cons]
      rfl
    patch := by
      intro after
      rw [Workspace.patch, focus?_node before found interior] }

end

/-- Every container whose members can be looked up has a window. -/
theorem exists_window {container : Container} {present : Forest}
    (members : w.members? container = some present) :
    ∃ site frame put, w.Window container present site frame put := by
  obtain ⟨root, here, inside⟩ := Option.bind_eq_some_iff.1 members
  obtain ⟨front, back, rfl, named, before⟩ := root?_eq_some_iff.1 here
  obtain ⟨rootId, node⟩ := container
  dsimp only at named inside
  subst named
  cases node with
  | none =>
      obtain rfl := Option.some.inj inside
      exact ⟨_, _, _, exists_window_root before⟩
  | some node =>
      obtain ⟨located, search, children⟩ := Option.bind_eq_some_iff.1 inside
      split at children
      next interior =>
        obtain rfl := Option.some.inj children
        have part := Forest.map_part_focus? root.members node root.container 0
        rw [search] at part
        obtain ⟨focus, found, same⟩ := Option.map_eq_some_iff.1 part
        rw [← same] at interior ⊢
        obtain ⟨rfl, place, frame, focused⟩ :=
          Forest.exists_focused found root.site .interior
        exact ⟨_, _, _, exists_window_node before focused found interior⟩
      next => exact absurd children (by simp)

/-- The list of a window's container is one of the levels. -/
theorem Window.level_mem {container : Container} {present : Forest} {site : Site}
    {frame : List Level} {put : Forest → Workspace}
    (window : w.Window container present site frame put) :
    ⟨site, .interior, present.map Member.shallow⟩ ∈ w.levels :=
  window.levels.mem_iff.2 (.head _)

/-- What is below a member of the list is among the levels. -/
theorem Window.mem_levels {container : Container} {present : Forest} {site : Site}
    {frame : List Level} {put : Forest → Workspace}
    (window : w.Window container present site frame put) {m : Member} (member : m ∈ present)
    {level : Level} (inside : level ∈ m.levels site) : level ∈ w.levels := by
  refine window.levels.mem_iff.2 (List.mem_append_left _ (.tail _ ?_))
  rw [Forest.innerLevels_eq_flatMap]
  exact List.mem_flatMap.2 ⟨m, member, inside⟩

/-- Identifiers that are new to the workspace are new to the list. -/
theorem Window.not_mem_map_id {container : Container} {present : Forest} {site : Site}
    {frame : List Level} {put : Forest → Workspace}
    (window : w.Window container present site frame put) {id : Id} (fresh : id ∉ w.ids) :
    id ∉ present.map Member.id := by
  intro inside
  obtain ⟨m, member, rfl⟩ := List.mem_map.1 inside
  exact fresh (mem_ids_of_mem_members (window.listed m member))

theorem exists_split (distinct : (w.roots.map Root.id).Nodup) {root : Root}
    (member : root ∈ w.roots) :
    ∃ front back, w = ⟨front ++ root :: back⟩ ∧ ∀ r ∈ front, r.id ≠ root.id := by
  obtain ⟨front, back, split⟩ := List.append_of_mem member
  refine ⟨front, back, by rw [← split], fun r inside same => ?_⟩
  rw [split, List.map_append, List.nodup_append] at distinct
  exact distinct.2.2 r.id (List.mem_map_of_mem inside) root.id (.head _) same

/-- No two members are called as the container is, if it is a member. -/
def HasOnce (w : Workspace) (container : Container) : Prop :=
  ∀ node, container.node = some node → w.ids.count node ≤ 1

theorem hasOnce_of_nodup (members : w.ids.Nodup) (container : Container) : w.HasOnce container :=
  fun node _ => List.nodup_iff_count_le_one.1 members node

theorem HasOnce.count_le_one {container : Container} (once : w.HasOnce container) {root : Root}
    (listed : root ∈ w.roots) {node : Id} (own : container.node = some node) :
    (Forest.ids root.members).count node ≤ 1 := by
  obtain ⟨front, back, split⟩ := List.append_of_mem listed
  refine Nat.le_trans ?_ (once node own)
  rw [ids, split, List.flatMap_append, List.flatMap_cons, List.count_append, List.count_append]
  omega

/-- The members of a level that a root or an interior member owns can be looked up, if no other
member is called as the owner. -/
theorem HasOnce.exists_members_of_level (roots : (w.roots.map Root.id).Nodup) {level : Level}
    (once : w.HasOnce level.container) (inside : level ∈ w.levels)
    (interior : level.owner = .interior) :
    ∃ ms, w.members? level.container = some ms ∧ ms.map Member.shallow = level.members := by
  obtain ⟨root, listed, level_mem⟩ := List.mem_flatMap.1 inside
  have single := fun {node} => @once.count_le_one _ _ root listed node
  obtain ⟨front, back, rfl, before⟩ := exists_split roots listed
  rcases List.mem_cons.1 level_mem with rfl | below
  · exact ⟨root.members, (exists_window_root before).members, rfl⟩
  · obtain ⟨m, member, above, in_root, site, kind, same⟩ :=
      Forest.exists_mem_subtrees_of_level below
    have container : level.container = .ofNode root.id m.id := by
      rw [Level.container, site, Site.below, in_root]
      rfl
    have present : (Forest.focus? root.members m.id).isSome := by
      have search := Forest.map_part_focus? root.members m.id root.container 0
      rw [← Option.isSome_map (f := Focus.part), search, Option.isSome_map,
        Forest.locate?_isSome_iff]
      exact List.mem_map_of_mem member
    obtain ⟨focus, found⟩ := Option.isSome_iff_exists.1 present
    obtain ⟨named, place, frame, focused⟩ := Forest.exists_focused found root.site .interior
    obtain rfl : focus.part = m :=
      eq_of_count_map_le_one (single (by rw [container]; rfl)) member focused.present named
    have own : focus.part.isInterior = true := decide_eq_true (kind.symm.trans interior)
    refine ⟨focus.part.children, ?_, same.symm⟩
    rw [container]
    exact (exists_window_node before focused found own).members

/-- With distinct identifiers, the members of all such levels can be looked up. -/
theorem exists_members_of_level (roots : (w.roots.map Root.id).Nodup) (members : w.ids.Nodup)
    {level : Level} (inside : level ∈ w.levels) (interior : level.owner = .interior) :
    ∃ ms, w.members? level.container = some ms ∧ ms.map Member.shallow = level.members :=
  (hasOnce_of_nodup members level.container).exists_members_of_level roots inside interior

/-- A search's result is where it says: in a list of the workspace, at a depth, in a root of a
shape. -/
structure Holds (w : Workspace) (found : Located) (level : Level) : Prop where
  level_mem : level ∈ w.levels
  container : level.container = found.container
  depth : level.site.depth = found.depth
  shape : w.shape? found.container = some level.site.shape
  listed : found.member.shallow ∈ level.members
  member : found.member ∈ w.members

theorem holds_of_root {front back : List Root} {root : Root}
    (before : ∀ r ∈ front, r.id ≠ root.id) {id : Id} {found : Located}
    (search : Forest.locate? root.members id root.container 0 = some found) :
    found.member.id = id ∧ found.container.root = root.id ∧
      ∃ level, Holds ⟨front ++ root :: back⟩ found level := by
  have part := Forest.map_part_focus? root.members id root.container 0
  rw [search] at part
  obtain ⟨focus, focus_found, same⟩ := Option.map_eq_some_iff.1 part
  obtain ⟨rfl, place, frame, focused⟩ :=
    Forest.exists_focused focus_found root.site .interior
  have located : Forest.locate? root.members focus.part.id root.container 0 =
      some ⟨focus.part, place.container, place.depth⟩ := focused.located
  obtain rfl := Option.some.inj (search.symm.trans located)
  obtain ⟨level, inside, here, listed⟩ := focused.listed
  have in_root : place.container.root = root.id := focused.root
  refine ⟨rfl, in_root, level, ?_⟩
  exact {
    level_mem := (levels_split front root back).mem_iff.2 (List.mem_append_left _ inside)
    container := by rw [Level.container, here]
    depth := by rw [here]
    shape := by
      change (root? _ place.container.root).map _ = _
      rw [in_root, root?_eq_some before, here]
      exact congrArg some focused.shape.symm
    listed := listed
    member := List.mem_flatMap.2 ⟨root, List.mem_append_right _ (.head _), focused.present⟩ }

theorem holds_of_locateIn? {root id : Id} {found : Located}
    (search : w.locateIn? root id = some found) :
    found.member.id = id ∧ found.container.root = root ∧ ∃ level, w.Holds found level := by
  obtain ⟨r, here, located⟩ := Option.bind_eq_some_iff.1 search
  obtain ⟨front, back, rfl, rfl, before⟩ := root?_eq_some_iff.1 here
  exact holds_of_root before located

theorem holds_of_locate? (roots : (w.roots.map Root.id).Nodup) {id : Id} {found : Located}
    (search : w.locate? id = some found) :
    found.member.id = id ∧ ∃ level, w.Holds found level := by
  obtain ⟨r, listed, located⟩ := List.exists_of_findSome?_eq_some search
  obtain ⟨front, back, rfl, before⟩ := exists_split roots listed
  obtain ⟨named, -, level, holds⟩ := @holds_of_root front back _ before _ _ located
  exact ⟨named, level, holds⟩

theorem locate?_isSome_iff {id : Id} : (w.locate? id).isSome ↔ id ∈ w.ids := by
  rw [locate?, List.findSome?_isSome_iff, ids, List.mem_flatMap]
  simp only [Forest.locate?_isSome_iff]

end Workspace

end Outline
