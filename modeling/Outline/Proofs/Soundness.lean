import Mathlib.Tactic.Tauto
import Outline.Proofs.Numbering
import Outline.Proofs.Windows

/-!
# Sound workspaces

A workspace is valid if it has no defect and no identifier is used twice.  It has no defect
exactly if its roots are dense and every level is sound in itself
(`Outline.Workspace.defects_eq_nil_iff`), and in a valid workspace the look-ups agree: a member
found in a container is listed there (`Outline.Workspace.Valid.exists_members_of_holds`).
-/

namespace Outline

/-- A list of siblings that keeps the rules at its place. -/
structure Level.Sound (level : Level) : Prop where
  dense : Ordered.isDense level.members = true
  names : (level.members.map fun m => Text.lower m.name).Nodup
  paths : ∀ m ∈ level.members, m.path = level.site.path.child m.name
  kinds : ∀ m ∈ level.members, level.site.shape.accepts level.site.depth m.kind = true
  childless : level.owner = .leaf → level.members = []

theorem Level.sound_of_empty {level : Level} (empty : level.members = []) : level.Sound := by
  obtain ⟨site, owner, members⟩ := level
  obtain rfl : members = [] := empty
  exact ⟨rfl, List.nodup_nil, by simp, by simp, fun _ => rfl⟩

namespace Forest

theorem isDense_shallow (ms : Forest) :
    Ordered.isDense (ms.map Member.shallow) = Ordered.isDense ms := by
  rw [Bool.eq_iff_iff, Ordered.isDense_iff_perm, Ordered.isDense_iff_perm, List.length_map,
    List.map_map]
  rfl

theorem findCollision?_none_eq_none {ms : Forest} {name : String} :
    findCollision? ms name none = none ↔ ∀ m ∈ ms, Text.lower m.name ≠ Text.lower name := by
  rw [findCollision?, List.find?_eq_none]
  simp [Member.nameMatches]

theorem ownDefects_eq_nil {site : Site} {earlier : Forest} {m : Member} :
    ownDefects site earlier m = [] ↔
      (∀ e ∈ earlier, Text.lower e.name ≠ Text.lower m.name) ∧
      m.path = site.path.child m.name ∧ site.shape.accepts site.depth m.kind = true := by
  rw [ownDefects, List.append_eq_nil_iff, List.append_eq_nil_iff, ite_eq_right_iff,
    ite_eq_right_iff, ite_eq_left_iff, and_assoc]
  simp [← findCollision?_none_eq_none]

/-- When the list of a root or of an interior member is sound. -/
theorem sound_iff {ms : Forest} {site : Site} :
    Level.Sound ⟨site, .interior, ms.map Member.shallow⟩ ↔
      Ordered.isDense ms = true ∧
      (ms.map fun m => Text.lower m.name).Nodup ∧
      (∀ m ∈ ms, m.path = site.path.child m.name) ∧
      ∀ m ∈ ms, site.shape.accepts site.depth m.kind = true := by
  have lowered : (ms.map Member.shallow).map (fun m => Text.lower m.name) =
      ms.map fun m => Text.lower m.name := by
    rw [List.map_map]
    rfl
  constructor
  · intro sound
    refine ⟨?_, lowered ▸ sound.names, ?_, ?_⟩
    · rw [← isDense_shallow]
      exact sound.dense
    · exact fun m member => sound.paths m.shallow (List.mem_map_of_mem member)
    · exact fun m member => sound.kinds m.shallow (List.mem_map_of_mem member)
  · rintro ⟨dense, names, paths, kinds⟩
    exact {
      dense := by rw [isDense_shallow]; exact dense
      names := lowered.symm ▸ names
      paths := List.forall_mem_map.2 paths
      kinds := List.forall_mem_map.2 kinds
      childless := fun leaf => by cases leaf }

theorem densityDefects_eq_nil_iff {site : Site} {ms : Forest} :
    densityDefects site ms = [] ↔ Ordered.isDense ms = true := by
  rw [densityDefects, ite_eq_left_iff]
  simp

/-- The defects of members that follow `earlier`, in terms of the rules for each list. -/
theorem memberDefects_eq_nil_iff {ms : Forest} {site : Site} {earlier : Forest} :
    memberDefects ms site earlier = [] ↔
      (∀ e ∈ earlier, ∀ m ∈ ms, Text.lower e.name ≠ Text.lower m.name) ∧
      (ms.map fun m => Text.lower m.name).Nodup ∧
      (∀ m ∈ ms, m.path = site.path.child m.name) ∧
      (∀ m ∈ ms, site.shape.accepts site.depth m.kind = true) ∧
      ∀ level ∈ innerLevels ms site, level.Sound := by
  induction ms using Forest.induct generalizing site earlier with
  | nil => simp [memberDefects, innerLevels]
  | cons m ms inner later =>
      have below : m.innerDefects site = [] ↔ ∀ level ∈ m.levels site, level.Sound := by
        have children := @inner (site.below m.id m.name) []
        obtain ⟨id, name, order, kind, path, forest⟩ := m
        dsimp only at children
        cases kind with
        | interior =>
            rw [Member.innerDefects, List.append_eq_nil_iff, densityDefects_eq_nil_iff, children,
              Member.levels, List.forall_mem_cons, sound_iff]
            simp only [List.not_mem_nil, false_implies, implies_true, true_and, and_assoc]
        | leaf =>
            rw [Member.innerDefects, Member.levels, List.forall_mem_cons]
            constructor
            · intro none
              obtain rfl : forest = [] := by simpa using none
              exact ⟨⟨rfl, List.nodup_nil, by simp, by simp, fun _ => rfl⟩, by simp [innerLevels]⟩
            · rintro ⟨sound, -⟩
              have none : forest.map Member.shallow = [] := sound.childless rfl
              rw [List.map_eq_nil_iff] at none
              simp [none]
      rw [memberDefects, List.append_eq_nil_iff, List.append_eq_nil_iff, ownDefects_eq_nil, below,
        later, innerLevels_cons, List.forall_mem_append]
      simp only [List.mem_cons, List.mem_append, List.map_cons, List.nodup_cons, List.mem_map,
        not_exists, not_and, List.not_mem_nil, or_false, or_imp, forall_and, forall_eq]
      simp only [ne_comm (a := Text.lower m.name), ← ne_eq]
      tauto

/-- A forest has no defect exactly if all its levels are sound. -/
theorem defects_eq_nil_iff {ms : Forest} {site : Site} :
    defects site ms = [] ↔ ∀ level ∈ levels ms site .interior, level.Sound := by
  rw [defects, List.append_eq_nil_iff, densityDefects_eq_nil_iff, memberDefects_eq_nil_iff, levels,
    List.forall_mem_cons, sound_iff]
  simp only [List.not_mem_nil, false_implies, implies_true, true_and, and_assoc]

end Forest

namespace Workspace

variable {w : Workspace}

/-- A workspace has no defect exactly if its roots are dense and all levels are sound. -/
theorem defects_eq_nil_iff :
    w.defects = [] ↔ Ordered.isDense w.roots = true ∧ ∀ level ∈ w.levels, level.Sound := by
  rw [defects, List.append_eq_nil_iff, List.flatMap_eq_nil_iff, ite_eq_left_iff]
  simp only [Forest.defects_eq_nil_iff, levels, List.mem_flatMap]
  constructor
  · rintro ⟨dense, sound⟩
    refine ⟨by simpa using dense, ?_⟩
    rintro level ⟨root, member, inside⟩
    exact sound root member level inside
  · rintro ⟨dense, sound⟩
    exact ⟨by simp [dense], fun root member level inside => sound level ⟨root, member, inside⟩⟩

/-- Nothing is wrong with the workspace, and no identifier is used twice. -/
structure Valid (w : Workspace) : Prop where
  flawless : w.defects = []
  roots_distinct : (w.roots.map Root.id).Nodup
  members_distinct : w.ids.Nodup

namespace Valid

variable (valid : w.Valid)

include valid

theorem dense : Ordered.isDense w.roots = true :=
  (defects_eq_nil_iff.1 valid.flawless).1

theorem sound {level : Level} (inside : level ∈ w.levels) : level.Sound :=
  (defects_eq_nil_iff.1 valid.flawless).2 level inside

theorem nodup_map_id_rows : (w.rows.map Row.id).Nodup := by
  rw [w.map_id_rows]
  exact valid.members_distinct

theorem nodup_rows : w.rows.Nodup :=
  valid.nodup_map_id_rows.of_map Row.id

theorem row_ext {a b : Row} (inA : a ∈ w.rows) (inB : b ∈ w.rows) (same : a.id = b.id) : a = b :=
  List.inj_on_of_nodup_map valid.nodup_map_id_rows inA inB same

theorem paths : ∀ level ∈ w.levels, ∀ m ∈ level.members, m.path = level.site.path.child m.name :=
  fun _ inside => (valid.sound inside).paths

/-- A level with a member belongs to a root or an interior member. -/
theorem owner_eq {level : Level} (inside : level ∈ w.levels) {m : Member}
    (member : m ∈ level.members) : level.owner = .interior := by
  cases owner : level.owner with
  | interior => rfl
  | leaf =>
      rw [(valid.sound inside).childless owner] at member
      exact absurd member List.not_mem_nil

/-- What a search finds is listed in the container that it reports. -/
theorem exists_members_of_holds {found : Located} {level : Level} (holds : w.Holds found level) :
    ∃ ms, w.members? found.container = some ms ∧ ms.map Member.shallow = level.members ∧
      found.member ∈ ms := by
  obtain ⟨ms, members, same⟩ := exists_members_of_level valid.roots_distinct
    valid.members_distinct holds.level_mem (valid.owner_eq holds.level_mem holds.listed)
  rw [holds.container] at members
  refine ⟨ms, members, same, ?_⟩
  have listed := holds.listed
  rw [← same] at listed
  obtain ⟨m, member, fields⟩ := List.mem_map.1 listed
  obtain ⟨site, frame, put, window⟩ := exists_window members
  have id : m.id = found.member.id := Member.id_eq_of_shallow fields
  rwa [← eq_of_id_eq valid.members_distinct (window.listed m member) holds.member id]

end Valid

end Workspace

end Outline
