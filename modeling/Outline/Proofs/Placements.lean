import Mathlib.Data.List.Nodup
import Outline.Proofs.Loading

/-!
# Placing the members of a pool

Putting forests together told without a bound on their depth: the list of a container is taken out
of the pool, and each of its members takes its own list out of what is left (`Pool.Attaches`), root
after root (`Pool.Fills`).  However the entries of a pool refer to each other, this comes to an end,
and the number of levels that is allowed for never cuts it short
(`Outline.Store.Pool.exists_fills`).  Nothing is lost or doubled on the way
(`Outline.Store.Pool.Fills.ids_perm`), and each member that is placed has the list that the pool
holds for it (`Outline.Store.Pool.Fills.supplies`).
-/

namespace Outline

namespace Store

namespace Pool

/-- The identifiers of the members in the pool. -/
def ids (pool : Pool) : List Id :=
  pool.map (·.2.id)

/-- Each of the members takes its own list out of the pool, and so do the members of that list,
before the next member does: what they become, and what is left of the pool. -/
inductive Attaches (root : Id) : Forest → Pool → Forest → Pool → Prop where
  | nil {pool : Pool} : Attaches root [] pool [] pool
  | cons {m : Member} {ms children ns : Forest} {pool middle rest : Pool}
      (own : Attaches root (pool.list (.ofNode root m.id)) (pool.outside [.ofNode root m.id])
        children middle)
      (later : Attaches root ms middle ns rest) :
      Attaches root (m :: ms) pool ({ m with children } :: ns) rest

/-- Each of the roots takes its list out of the pool, with all that belongs below it. -/
inductive Fills : List Root → Pool → List Root → Pool → Prop where
  | nil {pool : Pool} : Fills [] pool [] pool
  | cons {r : Root} {rs filled : List Root} {members : Forest} {pool middle rest : Pool}
      (own : Attaches r.id (pool.list r.container) (pool.outside [r.container]) members middle)
      (later : Fills rs middle filled rest) :
      Fills (r :: rs) pool (r.withMembers members :: filled) rest

section

variable {pool : Pool} {container : Container}

theorem length_outside_le {xs : List Container} : (pool.outside xs).length ≤ pool.length :=
  List.length_filter_le ..

/-- Taking a list out of the pool makes it smaller, unless the list is empty. -/
theorem length_outside_lt (listed : pool.list container ≠ []) :
    (pool.outside [container]).length < pool.length := by
  refine List.length_filter_lt_length_iff_exists.2 ?_
  obtain ⟨m, member⟩ := List.exists_mem_of_ne_nil _ listed
  obtain ⟨entry, inside, -⟩ := List.mem_map.1 member
  obtain ⟨inside, here⟩ := List.mem_filter.1 inside
  have here : entry.1 = container := of_decide_eq_true here
  exact ⟨entry, inside, by simp [here]⟩

/-- A list and the pool without it hold what the pool holds. -/
theorem ids_split (pool : Pool) (container : Container) :
    ((pool.list container).map Member.id ++ (pool.outside [container]).ids).Perm pool.ids := by
  have own : (pool.list container).map Member.id = ids (pool.filter (·.1 = container)) := by
    rw [list, List.map_map]
    rfl
  have rest : pool.outside [container] = pool.filter fun entry => !decide (entry.1 = container) :=
    List.filter_congr fun entry _ => by simp
  rw [own, rest, ids, ids, ← List.map_append]
  exact (List.filter_append_perm ..).map _

theorem bare_outside {xs : List Container} (bare : ∀ entry ∈ pool, entry.2.shallow = entry.2) :
    ∀ entry ∈ pool.outside xs, entry.2.shallow = entry.2 :=
  fun entry inside => bare entry (List.mem_filter.1 inside).1

/-- The lists of a pool whose members have no children hold no children. -/
theorem map_shallow_list (bare : ∀ entry ∈ pool, entry.2.shallow = entry.2)
    (container : Container) :
    (pool.list container).map Member.shallow = pool.list container := by
  refine (List.map_congr_left fun m member => ?_).trans (List.map_id _)
  obtain ⟨entry, inside, rfl⟩ := List.mem_map.1 member
  exact bare entry (List.mem_filter.1 inside).1

end

namespace Attaches

variable {root : Id} {ms ns : Forest} {pool rest : Pool}

theorem length_le (attaches : Attaches root ms pool ns rest) : rest.length ≤ pool.length := by
  induction attaches with
  | nil => exact Nat.le_refl _
  | cons _ _ inner outer => exact (outer.trans inner).trans length_outside_le

/-- The members keep their fields. -/
theorem map_shallow (attaches : Attaches root ms pool ns rest) :
    ns.map Member.shallow = ms.map Member.shallow := by
  induction attaches with
  | nil => rfl
  | cons _ _ _ outer =>
      rw [List.map_cons, List.map_cons, outer]
      rfl

/-- What is placed and what is left are together what there was. -/
theorem ids_perm (attaches : Attaches root ms pool ns rest) :
    (Forest.ids ns ++ rest.ids).Perm (ms.map Member.id ++ pool.ids) := by
  induction attaches with
  | nil => exact .refl _
  | @cons m ms children ns pool middle rest _ _ inner outer =>
      rw [Forest.ids_cons, List.map_cons, List.cons_append, List.cons_append]
      have later : (Forest.ids children ++ Forest.ids ns ++ rest.ids).Perm
          (Forest.ids children ++ (ms.map Member.id ++ middle.ids)) := by
        rw [List.append_assoc]
        exact outer.append_left _
      have own : (Forest.ids children ++ middle.ids).Perm pool.ids := inner.trans (ids_split ..)
      exact .cons _ (later.trans ((List.perm_append_comm_assoc ..).trans (own.append_left _)))

/-- What becomes of the list of a container, if what stands below its members is known. -/
theorem supplies_list {children : Forest} {middle : Pool} (site : Site) {owner : Kind}
    (own : Attaches root (pool.list site.container) (pool.outside [site.container]) children middle)
    (bare : ∀ entry ∈ pool, entry.2.shallow = entry.2)
    (distinct : ((Forest.levels children site owner).map Level.container).Nodup)
    (below : (pool.outside [site.container]).Supplies (Forest.innerLevels children site) ∧
      middle = (pool.outside [site.container]).outside
        ((Forest.innerLevels children site).map Level.container)) :
    pool.Supplies (Forest.levels children site owner) ∧
      middle = pool.outside ((Forest.levels children site owner).map Level.container) := by
  obtain ⟨deeper, left⟩ := below
  have listed : pool.list site.container = children.map Member.shallow := by
    rw [own.map_shallow]
    exact (map_shallow_list bare _).symm
  exact ⟨.cons listed deeper distinct, left.trans outside_outside⟩

/-- Where no two lists belong to one container, each member has the list that the pool holds for
it. -/
theorem supplies (attaches : Attaches root ms pool ns rest) (site : Site)
    (here : site.container.root = root) (bare : ∀ entry ∈ pool, entry.2.shallow = entry.2)
    (distinct : ((Forest.innerLevels ns site).map Level.container).Nodup) :
    pool.Supplies (Forest.innerLevels ns site) ∧
      rest = pool.outside ((Forest.innerLevels ns site).map Level.container) := by
  induction attaches generalizing site with
  | nil => exact ⟨⟨distinct, fun _ inside => absurd inside List.not_mem_nil⟩, outside_nil.symm⟩
  | @cons m ms children ns pool middle rest own later inner outer =>
      subst here
      rw [Forest.innerLevels_cons, Member.levels_eq, List.map_append] at distinct
      obtain ⟨below, after, -⟩ := List.nodup_append.1 distinct
      have deeper := inner (site.below m.id m.name) rfl (bare_outside bare)
        (List.nodup_cons.1 below).2
      obtain ⟨first, rfl⟩ := supplies_list (site.below m.id m.name) own bare below deeper
      obtain ⟨others, last⟩ := outer site rfl (bare_outside bare) after
      rw [← List.map_append] at distinct
      rw [outside_outside, ← List.map_append] at last
      exact ⟨first.append others distinct, last⟩

end Attaches

namespace Fills

variable {roots filled : List Root} {pool rest : Pool}

/-- The roots keep their fields. -/
theorem map_shallow (fills : Fills roots pool filled rest) :
    filled.map Root.shallow = roots.map Root.shallow := by
  induction fills with
  | nil => rfl
  | cons _ _ outer =>
      rw [List.map_cons, List.map_cons, outer]
      rfl

/-- What is placed below the roots and what is left are together what there was. -/
theorem ids_perm (fills : Fills roots pool filled rest) :
    (Workspace.ids ⟨filled⟩ ++ rest.ids).Perm pool.ids := by
  induction fills with
  | nil => exact .refl _
  | @cons r rs filled members pool middle rest own _ outer =>
      have inner : (Forest.ids members ++ middle.ids).Perm pool.ids :=
        own.ids_perm.trans (ids_split ..)
      rw [Workspace.ids, List.flatMap_cons, List.append_assoc]
      exact (outer.append_left _).trans inner

/-- Each member that is placed has the list that the pool holds for it, and so has each root. -/
theorem supplies (fills : Fills roots pool filled rest)
    (bare : ∀ entry ∈ pool, entry.2.shallow = entry.2)
    (distinct : ((Workspace.levels ⟨filled⟩).map Level.container).Nodup) :
    pool.Supplies (Workspace.levels ⟨filled⟩) := by
  induction fills with
  | nil => exact ⟨distinct, fun _ inside => absurd inside List.not_mem_nil⟩
  | @cons r rs filled members pool middle rest own _ outer =>
      have split : Workspace.levels ⟨r.withMembers members :: filled⟩ =
          Forest.levels members r.site .interior ++ Workspace.levels ⟨filled⟩ := rfl
      rw [split] at distinct ⊢
      have apart := distinct
      rw [List.map_append] at apart
      obtain ⟨below, after, -⟩ := List.nodup_append.1 apart
      have deeper := own.supplies r.site rfl (bare_outside bare)
        (List.nodup_cons.1 below).2
      obtain ⟨first, rfl⟩ := Attaches.supplies_list r.site own bare below deeper
      exact first.append (outer (bare_outside bare) after) distinct

end Fills

/-- A list is attached, with all that belongs below it, if as many levels are allowed for as there
are members left. -/
theorem exists_attaches {levels : Nat} {container : Container} {pool : Pool}
    (enough : pool.length < levels) : ∃ children rest,
      attach levels container pool = (children, rest) ∧
        Attaches container.root (pool.list container) (pool.outside [container]) children rest := by
  induction levels generalizing container pool with
  | zero => exact absurd enough (Nat.not_lt_zero _)
  | succ levels deeper =>
      have threads : ∀ (ms : Forest) (pool : Pool), pool.length < levels → ∃ ns rest,
          threadPool (attachBelow levels container.root) ms pool = (ns, rest) ∧
            Attaches container.root ms pool ns rest := by
        intro ms
        induction ms with
        | nil => exact fun pool _ => ⟨[], pool, rfl, .nil⟩
        | cons m ms ih =>
            intro pool enough
            obtain ⟨children, middle, attached, own⟩ :=
              @deeper (.ofNode container.root m.id) pool enough
            have shorter := own.length_le.trans length_outside_le
            obtain ⟨ns, rest, threaded, later⟩ := ih middle (shorter.trans_lt enough)
            refine ⟨_, rest, ?_, .cons own later⟩
            rw [threadPool, attachBelow_eq attached]
            dsimp only
            rw [threaded]
      rw [attach_succ]
      by_cases listed : pool.list container = []
      · rw [listed]
        exact ⟨[], _, rfl, .nil⟩
      · -- The list takes at least one member out of the pool, so one level less is enough.
        exact threads _ _ (Nat.lt_of_lt_of_le (length_outside_lt listed) (Nat.le_of_lt_succ enough))

/-- Roots are filled from any pool. -/
theorem exists_fills (roots : List Root) (pool : Pool) : ∃ filled rest,
    threadPool place roots pool = (filled, rest) ∧ Fills roots pool filled rest := by
  induction roots generalizing pool with
  | nil => exact ⟨[], pool, rfl, .nil⟩
  | cons r rs ih =>
      obtain ⟨members, middle, attached, own⟩ :=
        @exists_attaches _ r.container pool (Nat.lt_succ_self _)
      obtain ⟨filled, rest, threaded, later⟩ := ih middle
      refine ⟨_, rest, ?_, .cons own later⟩
      rw [threadPool, place, attached]
      dsimp only
      rw [threaded]

end Pool

end Store

end Outline
