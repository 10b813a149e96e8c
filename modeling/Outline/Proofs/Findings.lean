import Mathlib.Data.List.Flatten
import Outline.Proofs.Reconciliation

/-!
# What the defects of a workspace tell

The defects listed for a workspace are those that it has, told without the search
(`Outline.Workspace.FallsShort`): of its roots, and of each list that is reached from a root through
interior members.  They come list by list, each list with those of its own
(`Outline.Workspace.defects_perm`), so with distinct identifiers each list and each member is named
once for each thing that is wrong with it (`Outline.Workspace.defects_exact`).
-/

namespace Outline

/-- A list of siblings, with the place where it stands. -/
structure Roster where
  site : Site
  members : Forest

/-- The list as a level. -/
def Roster.level (roster : Roster) : Level :=
  roster.site.level roster.members

mutual

/-- The lists reached through a member that stands at `site`; a leaf leads to none. -/
def Member.rosters : Member → Site → List Roster
  | ⟨id, name, _, kind, _, children⟩, site =>
    match kind with
    | .interior =>
      ⟨site.below id name, children⟩ :: Forest.innerRosters children (site.below id name)
    | .leaf => []

/-- The lists reached through the members that stand at `site`. -/
def Forest.innerRosters : List Member → Site → List Roster
  | [], _ => []
  | m :: ms, site => m.rosters site ++ Forest.innerRosters ms site

end

namespace Workspace

/-- The lists that are looked into, those of the roots first of all. -/
def rosters (w : Workspace) : List Roster :=
  w.roots.flatMap fun root =>
    ⟨root.site, root.members⟩ :: Forest.innerRosters root.members root.site

/-- The list is reached from a root through interior members, and stands at the place. -/
inductive Hosts (w : Workspace) : Site → Forest → Prop where
  | root {r : Root} (listed : r ∈ w.roots) : Hosts w r.site r.members
  | member {site : Site} {ms : Forest} {m : Member} (hosts : Hosts w site ms) (listed : m ∈ ms)
      (interior : m.kind = .interior) : Hosts w (site.below m.id m.name) m.children

end Workspace

/-- A list of siblings keeps all rules at its place, apart from what stands below interior
members. -/
structure Forest.Orderly (ms : Forest) (site : Site) : Prop where
  numbers : (ms.map Member.order).Perm (List.range' 1 ms.length)
  names : ms.Pairwise fun a b => Text.lower a.name ≠ Text.lower b.name
  paths : ∀ m ∈ ms, m.path = site.path.child m.name
  kinds : ∀ m ∈ ms, site.shape.accepts site.depth m.kind = true
  childless : ∀ m ∈ ms, m.kind = .leaf → m.children = []

/-- In what a list of siblings falls short at its place. -/
inductive Forest.FallsShort (ms : Forest) (site : Site) : Defect → Prop where
  | numbers {orders : List Nat} (uneven : ¬(ms.map Member.order).Perm (List.range' 1 ms.length))
      (all : orders.Perm (ms.map Member.order)) (ascending : orders.Pairwise (· ≤ ·)) :
      FallsShort ms site (.notDense site.container orders)
  | names {front back : Forest} {m e : Member} (split : ms = front ++ m :: back)
      (earlier : e ∈ front) (same : Text.lower e.name = Text.lower m.name) :
      FallsShort ms site (.duplicateName site.container m.name)
  | paths {m : Member} (listed : m ∈ ms) (differs : m.path ≠ site.path.child m.name) :
      FallsShort ms site (.pathMismatch m.id (site.path.child m.name) m.path)
  | kinds {m : Member} (listed : m ∈ ms) (unfit : site.shape.accepts site.depth m.kind ≠ true) :
      FallsShort ms site (.shapeMismatch site.container m.id)
  | children {m : Member} (listed : m ∈ ms) (leaf : m.kind = .leaf) (some : m.children ≠ []) :
      FallsShort ms site (.leafWithChildren m.id)

/-- In what a workspace falls short. -/
inductive Workspace.FallsShort (w : Workspace) : Defect → Prop where
  | roots {orders : List Nat}
      (uneven : ¬(w.roots.map Root.order).Perm (List.range' 1 w.roots.length))
      (all : orders.Perm (w.roots.map Root.order)) (ascending : orders.Pairwise (· ≤ ·)) :
      FallsShort w (.rootsNotDense orders)
  | list {site : Site} {ms : Forest} {defect : Defect} (hosts : w.Hosts site ms)
      (short : ms.FallsShort site defect) : FallsShort w defect

namespace Defect

/-- The container whose members are not numbered densely. -/
def uneven? : Defect → Option Container
  | .notDense container _ => some container
  | _ => none

/-- The name that a member of the container shares with an earlier one. -/
def repeated? (container : Container) : Defect → Option String
  | .duplicateName place name => if place = container then some name else none
  | _ => none

/-- The member whose path is not the one that the names above it call for. -/
def misplaced? : Defect → Option Id
  | .pathMismatch member _ _ => some member
  | _ => none

/-- The member that does not fit the shape of its root. -/
def misfit? : Defect → Option Id
  | .shapeMismatch _ member => some member
  | _ => none

/-- The leaf that has children. -/
def overfull? : Defect → Option Id
  | .leafWithChildren member => some member
  | _ => none

end Defect

/-- The members that have the name of an earlier one in lower case. -/
def Forest.repeats (ms : Forest) : Forest :=
  (ms.zipIdx.filter fun entry =>
    (ms.take entry.2).any fun e => Text.lower e.name = Text.lower entry.1.name).map Prod.fst

/-- The defect of a leaf that has children. -/
def Member.leafDefects (m : Member) : List Defect :=
  if m.kind = .leaf ∧ m.children ≠ [] then [.leafWithChildren m.id] else []

/-- The defects of the members at `site` that follow `earlier`, without those of lists below. -/
def Forest.siblingDefects (site : Site) : (earlier ms : Forest) → List Defect
  | _, [] => []
  | earlier, m :: ms =>
    (ownDefects site earlier m ++ m.leafDefects) ++ siblingDefects site (earlier ++ [m]) ms

/-- The defects of a list of siblings, without those of lists below. -/
def Roster.defects (roster : Roster) : List Defect :=
  densityDefects roster.site roster.members ++ Forest.siblingDefects roster.site [] roster.members

namespace Forest

theorem innerRosters_cons (m : Member) (ms : Forest) (site : Site) :
    innerRosters (m :: ms) site = m.rosters site ++ innerRosters ms site := rfl

theorem rosters_of_interior {m : Member} (interior : m.kind = .interior) (site : Site) :
    m.rosters site = ⟨site.below m.id m.name, m.children⟩ ::
      innerRosters m.children (site.below m.id m.name) := by
  obtain ⟨id, name, order, kind, path, children⟩ := m
  obtain rfl : kind = .interior := interior
  rfl

theorem rosters_of_leaf {m : Member} (leaf : m.kind = .leaf) (site : Site) :
    m.rosters site = [] := by
  obtain ⟨id, name, order, kind, path, children⟩ := m
  obtain rfl : kind = .leaf := leaf
  rfl

/-- What is wrong below a member is wrong with the lists reached through it, or with the member as a
leaf. -/
theorem innerDefects_eq (m : Member) (site : Site) : m.innerDefects site = m.leafDefects ++
    if m.kind = .interior then
      densityDefects (site.below m.id m.name) m.children ++
        memberDefects m.children (site.below m.id m.name) []
    else [] := by
  obtain ⟨id, name, order, kind, path, children⟩ := m
  cases kind with
  | interior => rfl
  | leaf => cases children <;> rfl

/-- The defects of members come list by list. -/
theorem memberDefects_perm (ms : Forest) (site : Site) (earlier : Forest) :
    (memberDefects ms site earlier).Perm
      (siblingDefects site earlier ms ++ (innerRosters ms site).flatMap Roster.defects) := by
  induction ms using Forest.induct generalizing site earlier with
  | nil => exact .refl _
  | cons m ms inner later =>
      have below : (m.innerDefects site).Perm
          (m.leafDefects ++ (m.rosters site).flatMap Roster.defects) := by
        rw [innerDefects_eq]
        refine .append_left _ ?_
        cases kind : m.kind with
        | interior =>
            rw [if_pos rfl, rosters_of_interior kind, List.flatMap_cons, Roster.defects,
              List.append_assoc]
            exact .append_left _ (inner _ _)
        | leaf => rw [if_neg (by simp), rosters_of_leaf kind, List.flatMap_nil]
      rw [memberDefects, siblingDefects, innerRosters_cons, List.flatMap_append]
      refine ((below.append_left _).append (later _ _)).trans ?_
      -- The lists below the first member come before the defects of its later siblings.
      simp only [List.append_assoc]
      exact .append_left _ (.append_left _ (List.perm_append_comm_assoc ..))

/-- The lists reached through interior members are levels. -/
theorem innerRosters_sublist (ms : Forest) (site : Site) :
    ((innerRosters ms site).map Roster.level).Sublist (innerLevels ms site) := by
  induction ms using Forest.induct generalizing site with
  | nil => exact .slnil
  | cons m ms inner later =>
      rw [innerRosters_cons, innerLevels_cons, List.map_append, Member.levels_eq, levels]
      refine .append ?_ (later site)
      cases kind : m.kind with
      | interior =>
          rw [rosters_of_interior kind, List.map_cons]
          exact (inner _).cons_cons _
      | leaf =>
          rw [rosters_of_leaf kind]
          exact List.nil_sublist _

theorem mem_siblingDefects_iff {ms : Forest} {site : Site} {earlier : Forest} {defect : Defect} :
    defect ∈ siblingDefects site earlier ms ↔ ∃ front m back, ms = front ++ m :: back ∧
      defect ∈ ownDefects site (earlier ++ front) m ++ m.leafDefects := by
  induction ms generalizing earlier with
  | nil => simp [siblingDefects]
  | cons m ms ih =>
      rw [siblingDefects, List.mem_append, ih]
      constructor
      · rintro (own | ⟨front, n, back, rfl, own⟩)
        · exact ⟨[], m, ms, rfl, by rwa [List.append_nil]⟩
        · exact ⟨m :: front, n, back, rfl, by rwa [List.append_assoc] at own⟩
      · rintro ⟨front, n, back, split, own⟩
        cases front with
        | nil =>
            obtain ⟨rfl, rfl⟩ := List.cons.inj split
            exact .inl (by rwa [List.append_nil] at own)
        | cons first front =>
            obtain ⟨rfl, rfl⟩ := List.cons.inj split
            exact .inr ⟨front, n, back, rfl, by rwa [List.append_assoc]⟩

theorem mem_ownDefects_iff {site : Site} {earlier : Forest} {m : Member} {defect : Defect} :
    defect ∈ ownDefects site earlier m ++ m.leafDefects ↔
      ((∃ e ∈ earlier, Text.lower e.name = Text.lower m.name) ∧
        defect = .duplicateName site.container m.name) ∨
      (m.path ≠ site.path.child m.name ∧
        defect = .pathMismatch m.id (site.path.child m.name) m.path) ∨
      (site.shape.accepts site.depth m.kind ≠ true ∧ defect = .shapeMismatch site.container m.id) ∨
      (m.kind = .leaf ∧ m.children ≠ []) ∧ defect = .leafWithChildren m.id := by
  have twin : (findCollision? earlier m.name none).isSome = true ↔
      ∃ e ∈ earlier, Text.lower e.name = Text.lower m.name := by
    rw [← Option.not_isNone, Bool.not_eq_true', ← Bool.not_eq_true, Option.isNone_iff_eq_none,
      findCollision?_none_eq_none]
    push Not
    rfl
  rw [ownDefects, Member.leafDefects, List.mem_append, List.mem_append, List.mem_append,
    List.mem_ite_nil_right, List.mem_ite_nil_right, List.mem_ite_nil_left, List.mem_ite_nil_right,
    twin, or_assoc, or_assoc]
  simp only [List.mem_singleton]

end Forest

theorem sortedOrders_unique {α : Type} [Ordered α] {items : List α} {orders : List Nat} :
    orders = sortedOrders items ↔
      orders.Perm (items.map Ordered.order) ∧ orders.Pairwise (· ≤ ·) := by
  have perm : (sortedOrders items).Perm (items.map Ordered.order) :=
    (Ordered.sorted_perm items).map _
  have ascending : (sortedOrders items).Pairwise (· ≤ ·) :=
    List.pairwise_map.2 (Ordered.pairwise_sorted items)
  constructor
  · rintro rfl
    exact ⟨perm, ascending⟩
  · rintro ⟨all, listed⟩
    exact List.Perm.eq_of_pairwise (fun _ _ _ _ => Nat.le_antisymm) listed ascending
      (all.trans perm.symm)

namespace Forest

/-- The defects of one list are those in which it falls short. -/
theorem mem_defects_iff {ms : Forest} {site : Site} {defect : Defect} :
    defect ∈ Roster.defects ⟨site, ms⟩ ↔ ms.FallsShort site defect := by
  rw [Roster.defects, List.mem_append, densityDefects, List.mem_ite_nil_left,
    mem_siblingDefects_iff, Ordered.isDense_iff_perm, List.mem_singleton]
  constructor
  · rintro (⟨uneven, rfl⟩ | ⟨front, m, back, split, own⟩)
    · obtain ⟨all, ascending⟩ := sortedOrders_unique.1 (rfl : sortedOrders ms = sortedOrders ms)
      exact .numbers uneven all ascending
    · replace split : ms = front ++ m :: back := split
      have listed : m ∈ ms := split ▸ List.mem_append_right _ (.head _)
      rw [mem_ownDefects_iff, List.nil_append] at own
      rcases own with ⟨⟨e, earlier, same⟩, rfl⟩ | ⟨differs, rfl⟩ | ⟨unfit, rfl⟩ |
        ⟨⟨leaf, some⟩, rfl⟩
      · exact .names split earlier same
      · exact .paths listed differs
      · exact .kinds listed unfit
      · exact .children listed leaf some
  · have own : ∀ {m : Member} {defect : Defect}, m ∈ ms →
        (∀ earlier, defect ∈ ownDefects site earlier m ++ m.leafDefects) →
        ∃ front n back, ms = front ++ n :: back ∧
          defect ∈ ownDefects site ([] ++ front) n ++ n.leafDefects := by
      intro m defect listed own
      obtain ⟨front, back, split⟩ := List.append_of_mem listed
      exact ⟨front, m, back, split, own _⟩
    intro short
    cases short with
    | numbers uneven all ascending =>
        exact .inl ⟨uneven, congrArg _ (sortedOrders_unique.2 ⟨all, ascending⟩)⟩
    | names split earlier same =>
        exact .inr ⟨_, _, _, split, mem_ownDefects_iff.2 (.inl ⟨⟨_, earlier, same⟩, rfl⟩)⟩
    | paths listed differs =>
        exact .inr (own listed fun _ => mem_ownDefects_iff.2 (.inr (.inl ⟨differs, rfl⟩)))
    | kinds listed unfit =>
        exact .inr (own listed fun _ => mem_ownDefects_iff.2 (.inr (.inr (.inl ⟨unfit, rfl⟩))))
    | children listed leaf some =>
        exact .inr (own listed fun _ =>
          mem_ownDefects_iff.2 (.inr (.inr (.inr ⟨⟨leaf, some⟩, rfl⟩))))

/-- A list is orderly exactly if it does not fall short in anything. -/
theorem orderly_iff {ms : Forest} {site : Site} :
    ms.Orderly site ↔ ∀ defect, ¬ms.FallsShort site defect := by
  constructor
  · intro orderly defect short
    cases short with
    | numbers uneven => exact uneven orderly.numbers
    | names split earlier same =>
        have names := orderly.names
        rw [split, List.pairwise_append] at names
        exact names.2.2 _ earlier _ (.head _) same
    | paths listed differs => exact differs (orderly.paths _ listed)
    | kinds listed unfit => exact unfit (orderly.kinds _ listed)
    | children listed leaf some => exact some (orderly.childless _ listed leaf)
  · intro none
    refine ⟨?_, ?_, ?_, ?_, ?_⟩
    · by_contra uneven
      obtain ⟨all, ascending⟩ := sortedOrders_unique.1 (rfl : sortedOrders ms = sortedOrders ms)
      exact none _ (.numbers uneven all ascending)
    · refine List.pairwise_iff_forall_sublist.2 fun {a b} listed same => ?_
      obtain ⟨front, back, split, first, inside⟩ := List.cons_sublist_iff.1 listed
      obtain ⟨between, later, rfl⟩ := List.append_of_mem (List.singleton_sublist.1 inside)
      have split' : ms = (front ++ between) ++ b :: later := by rw [split, List.append_assoc]
      exact none _ (.names split' (List.mem_append_left _ first) same)
    · exact fun m listed => by_contra fun differs => none _ (.paths listed differs)
    · exact fun m listed => by_contra fun unfit => none _ (.kinds listed unfit)
    · exact fun m listed leaf => by_contra fun some => none _ (.children listed leaf some)

theorem innerRosters_eq_flatMap (ms : Forest) (site : Site) :
    innerRosters ms site = ms.flatMap (·.rosters site) := by
  induction ms with
  | nil => rfl
  | cons m ms ih => rw [innerRosters_cons, ih, List.flatMap_cons]

theorem mem_innerRosters {ms : Forest} {m : Member} (listed : m ∈ ms) (site : Site)
    (interior : m.kind = .interior) :
    ⟨site.below m.id m.name, m.children⟩ ∈ innerRosters ms site := by
  rw [innerRosters_eq_flatMap]
  refine List.mem_flatMap.2 ⟨m, listed, ?_⟩
  rw [rosters_of_interior interior]
  exact .head _

/-- An interior member of a list that is reached leads on to its children. -/
theorem mem_innerRosters_trans {ms : Forest} {site : Site} {roster : Roster}
    (reached : roster ∈ innerRosters ms site) {m : Member} (listed : m ∈ roster.members)
    (interior : m.kind = .interior) :
    ⟨roster.site.below m.id m.name, m.children⟩ ∈ innerRosters ms site := by
  induction ms using Forest.induct generalizing site with
  | nil => exact absurd reached List.not_mem_nil
  | cons n ns inner later =>
      rw [innerRosters_cons, List.mem_append] at reached ⊢
      refine reached.imp (fun below => ?_) later
      cases kind : n.kind with
      | interior =>
          rw [rosters_of_interior kind, List.mem_cons] at below ⊢
          rcases below with rfl | deeper
          · exact .inr (mem_innerRosters listed _ interior)
          · exact .inr (inner deeper)
      | leaf =>
          rw [rosters_of_leaf kind] at below
          exact absurd below List.not_mem_nil

end Forest

namespace Workspace

variable {w : Workspace}

theorem hosts_of_innerRosters {site : Site} {ms part : Forest} (hosts : w.Hosts site ms)
    (listed : ∀ m ∈ part, m ∈ ms) {roster : Roster}
    (reached : roster ∈ Forest.innerRosters part site) :
    w.Hosts roster.site roster.members := by
  induction part using Forest.induct generalizing site ms with
  | nil => exact absurd reached List.not_mem_nil
  | cons m part inner later =>
      rw [Forest.innerRosters_cons, List.mem_append] at reached
      rcases reached with below | after
      · cases kind : m.kind with
        | interior =>
            have hosts' := hosts.member (listed m (.head _)) kind
            rw [Forest.rosters_of_interior kind, List.mem_cons] at below
            rcases below with rfl | deeper
            · exact hosts'
            · exact inner hosts' (fun _ inside => inside) deeper
        | leaf =>
            rw [Forest.rosters_of_leaf kind] at below
            exact absurd below List.not_mem_nil
      · exact later hosts (fun n inside => listed n (.tail _ inside)) after

/-- The lists that are looked into are those reached through interior members. -/
theorem hosts_iff {site : Site} {ms : Forest} : w.Hosts site ms ↔ ⟨site, ms⟩ ∈ w.rosters := by
  constructor
  · intro hosts
    induction hosts with
    | root listed => exact List.mem_flatMap.2 ⟨_, listed, .head _⟩
    | member hosts listed interior ih =>
        obtain ⟨r, inside, reached⟩ := List.mem_flatMap.1 ih
        refine List.mem_flatMap.2 ⟨r, inside, .tail _ ?_⟩
        rcases List.mem_cons.1 reached with same | deeper
        · obtain ⟨rfl, rfl⟩ := Roster.mk.inj same
          exact Forest.mem_innerRosters listed _ interior
        · exact Forest.mem_innerRosters_trans deeper listed interior
  · intro reached
    obtain ⟨r, inside, reached⟩ := List.mem_flatMap.1 reached
    have top := Hosts.root inside
    rcases List.mem_cons.1 reached with same | deeper
    · obtain ⟨rfl, rfl⟩ := Roster.mk.inj same
      exact top
    · exact hosts_of_innerRosters top (fun _ inside => inside) deeper

/-- The defects of a workspace come list by list. -/
theorem defects_perm (w : Workspace) : w.defects.Perm
    ((if Ordered.isDense w.roots then [] else [.rootsNotDense (sortedOrders w.roots)]) ++
      w.rosters.flatMap Roster.defects) := by
  rw [defects, rosters, List.flatMap_assoc]
  refine .append_left _ (List.Perm.flatMap_left _ fun root _ => ?_)
  rw [Forest.defects, List.flatMap_cons, Roster.defects, List.append_assoc]
  exact .append_left _ (Forest.memberDefects_perm _ _ _)

/-- A workspace has the defects in which it falls short. -/
theorem mem_defects_iff {defect : Defect} : defect ∈ w.defects ↔ w.FallsShort defect := by
  rw [w.defects_perm.mem_iff, List.mem_append, List.mem_ite_nil_left, Ordered.isDense_iff_perm,
    List.mem_singleton, List.mem_flatMap]
  constructor
  · rintro (⟨uneven, rfl⟩ | ⟨⟨site, ms⟩, reached, own⟩)
    · obtain ⟨all, ascending⟩ :=
        sortedOrders_unique.1 (rfl : sortedOrders w.roots = sortedOrders w.roots)
      exact .roots uneven all ascending
    · exact .list (hosts_iff.2 reached) (Forest.mem_defects_iff.1 own)
  · intro short
    cases short with
    | roots uneven all ascending =>
        exact .inl ⟨uneven, congrArg _ (sortedOrders_unique.2 ⟨all, ascending⟩)⟩
    | list hosts short =>
        exact .inr ⟨_, hosts_iff.1 hosts, Forest.mem_defects_iff.2 short⟩

/-- Of the defects of a workspace, those of one sort come list by list. -/
theorem filterMap_defects_perm {β : Type} {sort : Defect → Option β}
    (roots : ∀ orders, sort (.rootsNotDense orders) = none) : (w.defects.filterMap sort).Perm
      (w.rosters.flatMap fun roster => roster.defects.filterMap sort) := by
  refine (w.defects_perm.filterMap sort).trans (.of_eq ?_)
  rw [List.filterMap_append, List.filterMap_flatMap]
  split
  · rfl
  · rw [List.filterMap_cons_none (roots _)]
    rfl

theorem rosters_sublist (w : Workspace) : (w.rosters.map Roster.level).Sublist w.levels := by
  rw [rosters, levels, List.map_flatMap]
  exact List.Sublist.flatMap_right _ fun root _ =>
    (Forest.innerRosters_sublist root.members root.site).cons_cons _

end Workspace

namespace Forest

variable {site : Site} {earlier : Forest}

/-- Of the defects of siblings, those that name a member name each at most once. -/
theorem siblingDefects_sublist {sort : Defect → Option Id} (own : ∀ earlier (m : Member),
      ((ownDefects site earlier m ++ m.leafDefects).filterMap sort).Sublist [m.id]) (ms : Forest) :
    ((siblingDefects site earlier ms).filterMap sort).Sublist (ms.map Member.id) := by
  induction ms generalizing earlier with
  | nil => exact .slnil
  | cons m ms ih =>
      rw [siblingDefects, List.filterMap_append, List.map_cons, ← List.singleton_append]
      exact (own _ _).append ih

/-- A member is named at most once for its path, and likewise for its kind and its children. -/
theorem misplaced_sublist (m : Member) :
    ((ownDefects site earlier m ++ m.leafDefects).filterMap Defect.misplaced?).Sublist [m.id] := by
  unfold ownDefects Member.leafDefects
  split_ifs <;> simp [List.filterMap_cons, Defect.misplaced?]

theorem misfit_sublist (m : Member) :
    ((ownDefects site earlier m ++ m.leafDefects).filterMap Defect.misfit?).Sublist [m.id] := by
  unfold ownDefects Member.leafDefects
  split_ifs <;> simp [List.filterMap_cons, Defect.misfit?]

theorem overfull_sublist (m : Member) :
    ((ownDefects site earlier m ++ m.leafDefects).filterMap Defect.overfull?).Sublist [m.id] := by
  unfold ownDefects Member.leafDefects
  split_ifs <;> simp [List.filterMap_cons, Defect.overfull?]

theorem filterMap_uneven (m : Member) :
    (ownDefects site earlier m ++ m.leafDefects).filterMap Defect.uneven? = [] := by
  unfold ownDefects Member.leafDefects
  split_ifs <;> rfl

theorem filterMap_repeated (container : Container) (m : Member) :
    (ownDefects site earlier m ++ m.leafDefects).filterMap (Defect.repeated? container) =
      if site.container = container ∧
        (earlier.any fun e => Text.lower e.name = Text.lower m.name) = true
      then [m.name] else [] := by
  have twin : (findCollision? earlier m.name none).isSome =
      earlier.any fun e => Text.lower e.name = Text.lower m.name := by
    rw [findCollision?, List.isSome_find?]
    simp [Member.nameMatches]
  unfold ownDefects Member.leafDefects
  rw [twin]
  by_cases here : site.container = container <;> split_ifs <;> simp_all [Defect.repeated?]

/-- The names of siblings that repeat a name come in the sequence of the siblings. -/
theorem filterMap_repeated_siblings (container : Container) (ms : Forest) :
    (siblingDefects site earlier ms).filterMap (Defect.repeated? container) =
      if site.container = container then
        ((ms.zipIdx earlier.length).filter fun entry => ((earlier ++ ms).take entry.2).any fun e =>
          Text.lower e.name = Text.lower entry.1.name).map fun entry => entry.1.name
      else [] := by
  induction ms generalizing earlier with
  | nil => simp [siblingDefects]
  | cons m ms ih =>
      have before : (earlier ++ m :: ms).take earlier.length = earlier := by simp
      rw [siblingDefects, List.filterMap_append, filterMap_repeated, ih, List.zipIdx_cons,
        List.filter_cons, before, List.append_assoc, List.length_append]
      by_cases here : site.container = container
      · simp only [here, true_and, if_pos, List.singleton_append, List.length_singleton]
        split <;> rfl
      · simp [here]

end Forest

namespace Roster

theorem filterMap_uneven_sublist (roster : Roster) :
    (roster.defects.filterMap Defect.uneven?).Sublist [roster.site.container] := by
  have siblings : ∀ earlier ms,
      (Forest.siblingDefects roster.site earlier ms).filterMap Defect.uneven? = [] := by
    intro earlier ms
    induction ms generalizing earlier with
    | nil => rfl
    | cons m ms ih =>
        rw [Forest.siblingDefects, List.filterMap_append, Forest.filterMap_uneven, ih,
          List.nil_append]
  rw [defects, List.filterMap_append, siblings, List.append_nil, densityDefects]
  split
  · exact List.nil_sublist _
  · exact .refl _

theorem filterMap_repeated (roster : Roster) (container : Container) :
    roster.defects.filterMap (Defect.repeated? container) =
      if roster.site.container = container then roster.members.repeats.map Member.name else [] := by
  have density : (densityDefects roster.site roster.members).filterMap
      (Defect.repeated? container) = [] := by
    unfold densityDefects
    split <;> rfl
  rw [defects, List.filterMap_append, density, Forest.filterMap_repeated_siblings, Forest.repeats,
    List.map_map]
  rfl

end Roster

namespace Workspace

variable {w : Workspace}

section

variable (roots : (w.roots.map Root.id).Nodup) (members : w.ids.Nodup)

include members in
/-- With distinct identifiers no member is named twice for the same thing. -/
theorem nodup_filterMap_defects {sort : Defect → Option Id}
    (own : ∀ site earlier (m : Member),
      ((ownDefects site earlier m ++ m.leafDefects).filterMap sort).Sublist [m.id])
    (density : ∀ container orders, sort (.notDense container orders) = none)
    (list : ∀ orders, sort (.rootsNotDense orders) = none) : (w.defects.filterMap sort).Nodup := by
  rw [(filterMap_defects_perm list).nodup_iff]
  have listed : ∀ roster : Roster,
      (roster.defects.filterMap sort).Sublist roster.level.ids := by
    intro roster
    have none : (densityDefects roster.site roster.members).filterMap sort = [] := by
      unfold densityDefects
      split
      · rfl
      · rw [List.filterMap_cons_none (density _ _)]
        rfl
    rw [Roster.defects, List.filterMap_append, none, List.nil_append, Roster.level, Level.ids_level]
    exact Forest.siblingDefects_sublist (own _) _
  refine ((List.Sublist.flatMap_right _ fun roster _ => listed roster).trans ?_).nodup
    (w.ids_perm_levels.nodup_iff.1 members)
  rw [← List.flatMap_map]
  exact w.rosters_sublist.flatMap Level.ids

include roots members

/-- With distinct identifiers each list that is looked into belongs to a container of its own. -/
theorem nodup_map_container_rosters :
    (w.rosters.map fun roster => roster.site.container).Nodup := by
  have listed := w.rosters_sublist.map Level.container
  rw [List.map_map] at listed
  exact listed.nodup (nodup_map_container roots members)

theorem nodup_uneven : (w.defects.filterMap Defect.uneven?).Nodup := by
  rw [(filterMap_defects_perm fun _ => rfl).nodup_iff]
  refine (List.Sublist.flatMap_right _ fun roster _ => roster.filterMap_uneven_sublist).nodup ?_
  rw [← List.map_eq_flatMap]
  exact nodup_map_container_rosters roots members

/-- With distinct identifiers the names reported for a container are those of its members that
repeat a name. -/
theorem filterMap_repeated_perm {site : Site} {ms : Forest} (hosts : w.Hosts site ms) :
    (w.defects.filterMap (Defect.repeated? site.container)).Perm (ms.repeats.map Member.name) := by
  have distinct := nodup_map_container_rosters roots members
  obtain ⟨front, back, split⟩ := List.append_of_mem (hosts_iff.1 hosts)
  rw [split, List.map_append, List.map_cons, List.nodup_append, List.nodup_cons] at distinct
  have elsewhere : ∀ part : List Roster, site.container ∉ part.map (·.site.container) →
      (part.flatMap fun roster => roster.defects.filterMap (Defect.repeated? site.container)) =
        [] := by
    intro part absent
    refine List.flatMap_eq_nil_iff.2 fun roster inside => ?_
    rw [Roster.filterMap_repeated,
      if_neg fun same => absent (List.mem_map.2 ⟨roster, inside, same⟩)]
  have before : site.container ∉ front.map (·.site.container) := fun inside =>
    distinct.2.2 _ inside _ (.head _) rfl
  refine (filterMap_defects_perm fun _ => rfl).trans (.of_eq ?_)
  rw [split, List.flatMap_append, List.flatMap_cons, elsewhere front before,
    elsewhere back distinct.2.1.1, Roster.filterMap_repeated, if_pos rfl, List.append_nil,
    List.nil_append]

end

/-- A workspace has no defect exactly if its roots and all lists reached through interior members
keep the rules.  Its defects are the ones in which it falls short, and with distinct identifiers
each is listed once: a container that is not numbered densely, a member at the wrong path, of the
wrong kind or a leaf with children, and one repeated name for each member that repeats one. -/
theorem defects_exact (w : Workspace) :
    (w.defects = [] ↔ (w.roots.map Root.order).Perm (List.range' 1 w.roots.length) ∧
      ∀ site ms, w.Hosts site ms → ms.Orderly site) ∧
    (∀ defect, defect ∈ w.defects ↔ w.FallsShort defect) ∧
    ((w.roots.map Root.id).Nodup → w.ids.Nodup →
      (w.defects.filterMap Defect.uneven?).Nodup ∧ (w.defects.filterMap Defect.misplaced?).Nodup ∧
      (w.defects.filterMap Defect.misfit?).Nodup ∧ (w.defects.filterMap Defect.overfull?).Nodup ∧
      ∀ site ms, w.Hosts site ms →
        (w.defects.filterMap (Defect.repeated? site.container)).Perm
          (ms.repeats.map Member.name)) := by
  refine ⟨?_, fun _ => mem_defects_iff, fun roots members => ?_⟩
  · rw [List.eq_nil_iff_forall_not_mem]
    simp only [mem_defects_iff, Forest.orderly_iff]
    constructor
    · intro none
      refine ⟨by_contra fun uneven => ?_,
        fun site ms hosts defect short => none _ (.list hosts short)⟩
      obtain ⟨all, ascending⟩ :=
        sortedOrders_unique.1 (rfl : sortedOrders w.roots = sortedOrders w.roots)
      exact none _ (.roots uneven all ascending)
    · rintro ⟨dense, orderly⟩ defect (⟨uneven, -, -⟩ | ⟨hosts, short⟩)
      · exact uneven dense
      · exact orderly _ _ hosts _ short
  · have once := @nodup_filterMap_defects w members
    exact ⟨nodup_uneven roots members,
      once (fun _ _ => Forest.misplaced_sublist) (fun _ _ => rfl) fun _ => rfl,
      once (fun _ _ => Forest.misfit_sublist) (fun _ _ => rfl) fun _ => rfl,
      once (fun _ _ => Forest.overfull_sublist) (fun _ _ => rfl) fun _ => rfl,
      fun site ms hosts => filterMap_repeated_perm roots members hosts⟩

/-- The tree of notes once all its top members have been given one name and one number. -/
def untidyTree : Workspace where
  roots := Reconciler.noteTree.roots.map fun r =>
    r.withMembers (r.members.map fun m => { m with name := "Todo", order := 3 })

/-- Among other things, the second top member of `untidyTree` repeats the name of the first. -/
theorem untidyTree_defects_exact : (untidyTree.defects.filterMap Defect.uneven?).Nodup ∧
    (untidyTree.defects.filterMap Defect.misplaced?).Nodup ∧
    (untidyTree.defects.filterMap (Defect.repeated? (.ofRoot { bits := 1 }))).Perm ["Todo"] ∧
    ¬∀ site ms, untidyTree.Hosts site ms → ms.Orderly site := by
  obtain ⟨sound, -, once⟩ := untidyTree.defects_exact
  obtain ⟨uneven, misplaced, -, -, repeated⟩ := once (by decide) (by decide)
  refine ⟨uneven, misplaced, repeated _ _ (.root (.head _)), fun orderly => ?_⟩
  have none := sound.2 ⟨by decide, orderly⟩
  revert none
  decide

end Workspace

end Outline
