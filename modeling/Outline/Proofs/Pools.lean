import Outline.Proofs.Tables
import Outline.Store.Load

/-!
# Rebuilding forests from a pool

A pool that supplies the levels of a forest, each container's members in their sequence, is enough
to put the forest together again, whatever else it holds (`Outline.Store.Pool.attach_eq`).
-/

namespace Outline.Store

namespace Pool

/-- The members that the pool holds for a container, in sequence. -/
def list (pool : Pool) (container : Container) : Forest :=
  (pool.filter (·.1 = container)).map (·.2)

/-- The pool without the members of some containers. -/
def outside (pool : Pool) (containers : List Container) : Pool :=
  pool.filter (·.1 ∉ containers)

/-- The pool holds for each level the members that it lists. -/
structure Supplies (pool : Pool) (levels : List Level) : Prop where
  distinct : (levels.map Level.container).Nodup
  lists : ∀ level ∈ levels, pool.list level.container = level.members

variable {pool : Pool} {xs ys : List Container} {front back : List Level}

@[simp] theorem outside_nil : pool.outside [] = pool := by
  simp [outside]

theorem outside_outside : (pool.outside xs).outside ys = pool.outside (xs ++ ys) := by
  unfold outside
  rw [List.filter_filter]
  apply List.filter_congr
  intro entry _
  rw [← Bool.decide_and, decide_eq_decide, List.mem_append, not_or, and_comm]

/-- Taking members out of the pool takes none of other containers. -/
theorem list_outside {container : Container} (other : container ∉ xs) :
    (pool.outside xs).list container = pool.list container := by
  unfold list outside
  rw [List.filter_filter]
  congr 1
  apply List.filter_congr
  intro entry _
  by_cases same : entry.1 = container
  · simp [same, other]
  · simp [same]

theorem Supplies.left (supplies : pool.Supplies (front ++ back)) : pool.Supplies front where
  distinct := by
    have distinct := supplies.distinct
    rw [List.map_append] at distinct
    exact distinct.of_append_left
  lists level inside := supplies.lists level (List.mem_append_left _ inside)

/-- What is left of the pool supplies the later levels. -/
theorem Supplies.right (supplies : pool.Supplies (front ++ back)) :
    (pool.outside (front.map Level.container)).Supplies back := by
  have distinct := supplies.distinct
  rw [List.map_append] at distinct
  obtain ⟨-, later, apart⟩ := List.nodup_append.1 distinct
  refine ⟨later, fun level inside => ?_⟩
  rw [list_outside fun before => apart _ before _ (List.mem_map_of_mem inside) rfl]
  exact supplies.lists level (List.mem_append_right _ inside)

/-- What supplies some levels, and then others with what is left, supplies them all. -/
theorem Supplies.append (first : pool.Supplies front)
    (later : (pool.outside (front.map Level.container)).Supplies back)
    (distinct : ((front ++ back).map Level.container).Nodup) : pool.Supplies (front ++ back) := by
  refine ⟨distinct, fun level inside => ?_⟩
  rw [List.map_append] at distinct
  obtain ⟨-, -, apart⟩ := List.nodup_append.1 distinct
  rcases List.mem_append.1 inside with before | after
  · exact first.lists level before
  · rw [← later.lists level after]
    exact (list_outside fun clash => apart _ clash _ (List.mem_map_of_mem after) rfl).symm

theorem Supplies.cons {level : Level} {levels : List Level}
    (own : pool.list level.container = level.members)
    (later : (pool.outside [level.container]).Supplies levels)
    (distinct : ((level :: levels).map Level.container).Nodup) :
    pool.Supplies (level :: levels) := by
  have first : pool.Supplies [level] :=
    ⟨List.nodup_singleton _, fun l inside => List.mem_singleton.1 inside ▸ own⟩
  exact first.append later distinct

theorem Supplies.tail {level : Level} {levels : List Level}
    (supplies : pool.Supplies (level :: levels)) :
    (pool.outside [level.container]).Supplies levels := by
  rw [← List.singleton_append] at supplies
  exact supplies.right

/-- A pool is no smaller than what it supplies. -/
theorem Supplies.length_le {levels : List Level} (supplies : pool.Supplies levels) :
    (levels.flatMap Level.members).length ≤ pool.length := by
  induction levels generalizing pool with
  | nil => exact Nat.zero_le _
  | cons level levels ih =>
      have own := supplies.lists level (.head _)
      have later := ih supplies.tail
      have count := List.length_eq_length_filter_add (l := pool) (·.1 = level.container)
      have rest : pool.filter (fun entry => !decide (entry.1 = level.container)) =
          pool.outside [level.container] :=
        List.filter_congr fun entry _ => by simp
      rw [rest] at count
      rw [List.flatMap_cons, List.length_append, ← own, list, List.length_map]
      omega

/-- Takes the members below a member out of the pool. -/
def attachBelow (levels : Nat) (root : Id) (m : Member) (pool : Pool) : Member × Pool :=
  let (children, pool) := attach levels (.ofNode root m.id) pool
  ({ m with children }, pool)

theorem attachBelow_eq {levels : Nat} {root : Id} {m : Member} {children : Forest} {rest : Pool}
    (attached : attach levels (.ofNode root m.id) pool = (children, rest)) :
    attachBelow levels root m pool = ({ m with children }, rest) := by
  rw [attachBelow, attached]

theorem attach_succ (levels : Nat) (container : Container) (pool : Pool) :
    attach (levels + 1) container pool =
      threadPool (attachBelow levels container.root) (pool.list container)
        (pool.outside [container]) := by
  have rest : pool.filter (·.1 ≠ container) = pool.outside [container] :=
    List.filter_congr fun entry _ => by simp
  rw [attach, rest]
  rfl

/-- A forest is put together if what stands below its members is. -/
theorem attach_succ_eq {ms : Forest} {site : Site} {owner : Kind} {levels : Nat}
    (supplies : pool.Supplies (Forest.levels ms site owner))
    (below : ∀ {pool : Pool}, pool.Supplies (Forest.innerLevels ms site) →
      threadPool (attachBelow levels site.container.root) (ms.map Member.shallow) pool =
        (ms, pool.outside ((Forest.innerLevels ms site).map Level.container))) :
    attach (levels + 1) site.container pool =
      (ms, pool.outside ((Forest.levels ms site owner).map Level.container)) := by
  have own := supplies.lists _ (.head _)
  change pool.list site.container = ms.map Member.shallow at own
  rw [attach_succ, own]
  refine (below supplies.tail).trans (Prod.ext rfl ?_)
  exact outside_outside

/-- What stands below the members of a list is taken out of the pool and put below them. -/
theorem threadPool_attachBelow {ms : Forest} {site : Site} {levels : Nat} {pool : Pool}
    (supplies : pool.Supplies (Forest.innerLevels ms site))
    (enough : (Forest.ids ms).length ≤ levels) :
    threadPool (attachBelow levels site.container.root) (ms.map Member.shallow) pool =
      (ms, pool.outside ((Forest.innerLevels ms site).map Level.container)) := by
  induction ms using Forest.induct generalizing site levels pool with
  | nil => exact Prod.ext rfl outside_nil.symm
  | cons m ms inner later =>
      rw [Forest.ids_cons, List.length_cons, List.length_append] at enough
      obtain ⟨levels, rfl⟩ : ∃ n, levels = n + 1 := ⟨levels - 1, by omega⟩
      rw [Forest.innerLevels_cons, Member.levels_eq] at supplies ⊢
      have first : attach (levels + 1) (site.below m.id m.name).container pool = (m.children, _) :=
        attach_succ_eq supplies.left fun supplied => inner supplied (by omega)
      have others := @later site (levels + 1) _ supplies.right (by omega)
      have step : attachBelow (levels + 1) site.container.root m.shallow pool =
          (m, pool.outside ((Forest.levels m.children (site.below m.id m.name) m.kind).map
            Level.container)) := by
        rw [attachBelow_eq (m := m.shallow) first]
        exact Prod.ext m.mk_eta rfl
      rw [List.map_cons, threadPool, step]
      dsimp only
      rw [others, outside_outside, List.map_append]

/-- A forest is put together from a pool that supplies its levels. -/
theorem attach_eq {ms : Forest} {site : Site} {owner : Kind} {levels : Nat}
    (supplies : pool.Supplies (Forest.levels ms site owner))
    (enough : (Forest.ids ms).length < levels) : attach levels site.container pool =
      (ms, pool.outside ((Forest.levels ms site owner).map Level.container)) := by
  obtain ⟨levels, rfl⟩ : ∃ n, levels = n + 1 := ⟨levels - 1, by omega⟩
  exact attach_succ_eq supplies fun supplied =>
    threadPool_attachBelow supplied (Nat.le_of_lt_succ enough)

end Pool

end Outline.Store
