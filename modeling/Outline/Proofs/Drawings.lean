import Mathlib.Data.List.Forall2
import Outline.Drawing
import Outline.Proofs.Reconciliation

/-!
# What drawings tell

In the drawing of a workspace only the margins tell how deep a member stands and which siblings
come after it.  Still nothing that is drawn is lost, whatever the names of members are, provided
that a root can be told from a member by how its name begins: two workspaces have the same drawing
only if they look alike (`Outline.Workspace.Plain.draw_tells`).
-/

namespace Outline

/-- Lists that agree, agree before a separator and after it. -/
theorem append_cons_inj {α : Type} [DecidableEq α] {a : α} {xs ys us vs : List α} (left : a ∉ xs)
    (right : a ∉ ys) (same : xs ++ a :: us = ys ++ a :: vs) : xs = ys ∧ us = vs := by
  have front : ∀ {zs ws : List α}, a ∉ zs → (zs ++ a :: ws).takeWhile (· ≠ a) = zs := by
    intro zs ws absent
    rw [List.takeWhile_append_of_pos fun z inside => decide_eq_true (ne_of_mem_of_not_mem inside
      absent), List.takeWhile_cons_of_neg (by simp), List.append_nil]
  obtain rfl : xs = ys := (front left).symm.trans (same ▸ front right)
  exact ⟨rfl, (List.cons.inj (List.append_cancel_left same)).2⟩

/-! ### The texts in a line -/

theorem isDigit_of_mem_toString {n : Nat} {c : Char} (inside : c ∈ (toString n).toList) :
    c.isDigit = true := by
  rw [Nat.toString_eq_ofList_toDigits, String.toList_ofList] at inside
  exact Nat.isDigit_of_mem_toDigits (by decide) (by decide) inside

theorem toString_injective {m n : Nat} (same : toString m = toString n) : m = n := by
  rw [Nat.toString_eq_ofList_toDigits, Nat.toString_eq_ofList_toDigits, String.ofList_inj] at same
  rw [← @Nat.ofDigitChars_ten_toDigits m, same, Nat.ofDigitChars_ten_toDigits]

theorem Text.Hex.exists_digit_of_mem_write {width n : Nat} {c : Char}
    (inside : c ∈ write width n) : ∃ d < 16, c = digit d := by
  induction width generalizing n with
  | zero => cases inside
  | succ width ih =>
      rcases List.mem_append.1 inside with before | last
      · exact ih before
      · exact ⟨n % 16, Nat.mod_lt n (by decide), List.mem_singleton.1 last⟩

namespace Id

theorem mem_hyphenate {ns : List Nat} {cs : List Char} {c : Char}
    (inside : c ∈ hyphenate ns cs) : c = '-' ∨ c ∈ cs := by
  fun_induction hyphenate ns cs with
  | case1 | case2 => exact .inr inside
  | case3 n ns cs _ ih =>
      rcases List.mem_append.1 inside with taken | rest
      · exact .inr (List.mem_of_mem_take taken)
      · rcases List.mem_cons.1 rest with rfl | later
        · exact .inl rfl
        · exact (ih later).imp_right List.mem_of_mem_drop

theorem newline_notMem_text (id : Id) : '\n' ∉ id.text.toList := by
  intro inside
  rw [text, String.toList_ofList] at inside
  rcases mem_hyphenate inside with hyphen | inside
  · cases hyphen
  · obtain ⟨d, small, same⟩ := Text.Hex.exists_digit_of_mem_write inside
    have all : ∀ d < 16, '\n' ≠ Text.Hex.digit d := by decide
    exact all d small same

theorem length_text (id : Id) : id.text.toList.length = 36 := by
  rw [text, String.toList_ofList, length_hyphenate _ _ (by simp [groups])]
  simp [groups]

end Id

/-- The end of a line tells the identifier, if one is shown, and leaves what stands before it. -/
theorem append_idSuffix_inj {showIds : Bool} {front front' : String} {id id' : Id}
    (same : front ++ idSuffix showIds id = front' ++ idSuffix showIds id') :
    front = front' ∧ (showIds = true → id = id') := by
  cases showIds with
  | false => exact ⟨(String.append_left_inj "").1 same, fun shown => by cases shown⟩
  | true =>
      have lists := congrArg String.toList same
      rw [String.toList_append, String.toList_append] at lists
      obtain ⟨before, suffix⟩ := List.append_inj' lists (by
        simp [idSuffix, String.toList_append, Id.length_text])
      have texts := (String.append_right_inj _).1 (String.toList_inj.1 suffix)
      exact ⟨String.toList_inj.1 before, fun _ => Id.text_injective texts⟩

theorem Shape.text_injective {shape shape' : Shape} (same : shape.text = shape'.text) :
    shape = shape' := by
  have := congrArg ofText? same
  simpa using this

theorem Kind.mark_injective {kind kind' : Kind} (same : kind.mark = kind'.mark) :
    kind = kind' := by
  cases kind <;> cases kind' <;> first | rfl | exact absurd same (by decide)

theorem toList_branch (last : Bool) :
    (branch last).toList = (if last then '└' else '├') :: ['─', '─', ' '] := by
  cases last <;> rfl

theorem toList_continuation (last : Bool) :
    (continuation last).toList = (if last then ' ' else '│') :: [' ', ' ', ' '] := by
  cases last <;> rfl

/-- The name of a root may hold brackets, but its shape does not. -/
theorem header_inj {name name' : String} {shape shape' : Shape}
    (same : name ++ " [" ++ shape.text ++ "]" = name' ++ " [" ++ shape'.text ++ "]") :
    name = name' ∧ shape = shape' := by
  have bracketless : ∀ shape : Shape, '[' ∉ shape.text.toList.reverse := by
    rintro (_ | _ | _) <;> decide
  have lists := congrArg (fun s : String => s.toList.reverse) ((String.append_left_inj "]").1 same)
  simp only [String.toList_append, List.reverse_append] at lists
  obtain ⟨shapes, names⟩ := append_cons_inj (bracketless shape) (bracketless shape') lists
  constructor
  · exact String.toList_inj.1 (List.reverse_injective (List.cons.inj names).2)
  · exact Shape.text_injective (String.toList_inj.1 (List.reverse_injective shapes))

/-! ### Lines -/

/-- What the line of a member says after the margin and the branch. -/
def Member.label (m : Member) (showIds : Bool) : String :=
  toString m.order ++ " " ++ m.kind.mark ++ " " ++ m.name ++ idSuffix showIds m.id

/-- The line of a root. -/
def Root.line (r : Root) (showIds : Bool) : String :=
  r.name ++ " [" ++ r.shape.text ++ "]" ++ idSuffix showIds r.id

theorem Member.lines_eq (m : Member) (showIds last : Bool) (margin : String) :
    m.lines showIds last margin = (margin ++ branch last ++ m.label showIds) ::
      Forest.lines m.children showIds (margin ++ continuation last) := by
  cases m
  simp only [Member.lines, Member.label, String.append_assoc]

theorem Forest.lines_cons (m : Member) (ms : Forest) (showIds : Bool) (margin : String) :
    lines (m :: ms) showIds margin =
      (margin ++ branch ms.isEmpty ++ m.label showIds) ::
        (lines m.children showIds (margin ++ continuation ms.isEmpty) ++
          lines ms showIds margin) := by
  rw [lines, Member.lines_eq, List.cons_append]

/-- The label of a member tells its fields, for neither a number nor a mark holds a space. -/
theorem Member.label_inj {m n : Member} {showIds : Bool}
    (same : m.label showIds = n.label showIds) :
    m.order = n.order ∧ m.kind = n.kind ∧ m.name = n.name ∧ (showIds = true → m.id = n.id) := by
  obtain ⟨front, ids⟩ := append_idSuffix_inj same
  have spaceless : ∀ n : Nat, ' ' ∉ (toString n).toList := fun n inside =>
    absurd (isDigit_of_mem_toString inside) (by decide)
  have lists := congrArg String.toList front
  simp only [String.append_assoc, String.toList_append] at lists
  obtain ⟨numbers, rest⟩ := append_cons_inj (spaceless _) (spaceless _) lists
  have markless : ∀ kind : Kind, ' ' ∉ kind.mark.toList := by
    rintro (_ | _) <;> decide
  obtain ⟨marks, names⟩ := append_cons_inj (markless _) (markless _) rest
  exact ⟨toString_injective (String.toList_inj.1 numbers),
    Kind.mark_injective (String.toList_inj.1 marks), String.toList_inj.1 names, ids⟩

/-- Lines after one margin tell by their branches whether a sibling comes after them. -/
theorem branch_inj {margin label label' : String} {last last' : Bool}
    (same : margin ++ branch last ++ label = margin ++ branch last' ++ label') :
    last = last' ∧ label = label' := by
  rw [String.append_assoc, String.append_assoc, String.append_right_inj] at same
  have lists := congrArg String.toList same
  rw [String.toList_append, String.toList_append, toList_branch, toList_branch] at lists
  obtain ⟨first, rest⟩ := List.cons.inj lists
  refine ⟨?_, String.toList_inj.1 (List.append_cancel_left rest)⟩
  cases last <;> cases last' <;> first | rfl | exact absurd first (by decide)

/-! ### Looking alike -/

/-- The forests look alike: member by member they have the same numbers, kinds and names, the same
identifiers if these are shown, and children that look alike. -/
inductive Forest.LooksLike (showIds : Bool) : Forest → Forest → Prop where
  | nil : LooksLike showIds [] []
  | cons {m n : Member} {ms ns : Forest} (order : m.order = n.order) (kind : m.kind = n.kind)
      (name : m.name = n.name) (id : showIds = true → m.id = n.id)
      (children : LooksLike showIds m.children n.children) (later : LooksLike showIds ms ns) :
      LooksLike showIds (m :: ms) (n :: ns)

/-- The roots have the same name and shape, the same identifier if it is shown, and forests that
look alike. -/
structure Root.Resembles (showIds : Bool) (r s : Root) : Prop where
  name : r.name = s.name
  shape : r.shape = s.shape
  id : showIds = true → r.id = s.id
  members : Forest.LooksLike showIds r.members s.members

theorem idSuffix_congr {showIds : Bool} {id id' : Id} (same : showIds = true → id = id') :
    idSuffix showIds id = idSuffix showIds id' := by
  unfold idSuffix
  split
  next shown => rw [same shown]
  next => rfl

theorem Forest.LooksLike.lines_eq {showIds : Bool} {ms ns : Forest}
    (alike : LooksLike showIds ms ns) (margin : String) :
    lines ms showIds margin = lines ns showIds margin := by
  induction alike generalizing margin with
  | nil => rfl
  | @cons m n ms ns order kind name id children later below after =>
      have last : ms.isEmpty = ns.isEmpty := by cases later <;> rfl
      have label : m.label showIds = n.label showIds := by
        rw [Member.label, Member.label, order, kind, name, idSuffix_congr id]
      rw [lines_cons, lines_cons, last, label, below, after]

theorem Root.Resembles.lines_eq {showIds : Bool} {r s : Root} (alike : r.Resembles showIds s) :
    r.lines showIds = s.lines showIds := by
  rw [Root.lines, Root.lines, alike.name, alike.shape, idSuffix_congr alike.id,
    alike.members.lines_eq]

theorem flatMap_lines_eq {showIds : Bool} {rs ss : List Root}
    (alike : List.Forall₂ (Root.Resembles showIds) rs ss) :
    rs.flatMap (·.lines showIds) = ss.flatMap (·.lines showIds) := by
  induction alike with
  | nil => rfl
  | cons alike _ ih => rw [List.flatMap_cons, List.flatMap_cons, alike.lines_eq, ih]

/-! ### Telling where a forest ends -/

/-- No member of a forest drawn after the margin, nor of the one below a last member of it, and so
on, can have the first of the lines. -/
def EndsBefore (margin : String) (lines : List String) : Prop :=
  ∀ line ∈ lines.head?, ∀ (deeper : Nat) (last : Bool),
    ¬ margin.toList ++ List.replicate (4 * deeper) ' ' ++ (branch last).toList <+: line.toList

theorem EndsBefore.ne {margin line label : String} {lines : List String} {last : Bool}
    (ends : EndsBefore margin (line :: lines)) : line ≠ margin ++ branch last ++ label := by
  rintro rfl
  refine ends _ rfl 0 last ⟨label.toList, ?_⟩
  simp only [String.toList_append, Nat.mul_zero, List.replicate_zero, List.append_nil]

/-- A forest below a member ends before the next sibling of the member, and if there is none, where
the forest of the member ends. -/
theorem EndsBefore.below {margin : String} {rest : List String} (ends : EndsBefore margin rest)
    (ms : Forest) (showIds : Bool) :
    EndsBefore (margin ++ continuation ms.isEmpty) (Forest.lines ms showIds margin ++ rest) := by
  rintro line first deeper last within
  rw [String.toList_append] at within
  cases ms with
  | nil =>
      refine ends line first (deeper + 1) last ?_
      have spaces : (continuation true).toList ++ List.replicate (4 * deeper) ' ' =
          List.replicate (4 * (deeper + 1)) ' ' := by
        rw [Nat.mul_succ, Nat.add_comm, ← List.replicate_append_replicate]
        rfl
      rwa [List.isEmpty_nil, List.append_assoc margin.toList, spaces] at within
  | cons m ms =>
      rw [Forest.lines_cons] at first
      obtain rfl := Option.some.inj first
      simp only [String.toList_append, List.append_assoc, List.prefix_append_right_inj,
        toList_branch, toList_continuation, List.isEmpty_cons] at within
      exact absurd (List.cons_prefix_cons.1 within).1 (by cases ms.isEmpty <;> decide)

/-- If lines start with the drawings of two forests and neither can go on after, then the forests
look alike and the lines go on alike. -/
theorem Forest.looksLike_of_lines {showIds : Bool} {ms ns : Forest} {margin : String}
    {rest rest' : List String} (ends : EndsBefore margin rest) (ends' : EndsBefore margin rest')
    (same : lines ms showIds margin ++ rest = lines ns showIds margin ++ rest') :
    LooksLike showIds ms ns ∧ rest = rest' := by
  -- Below the first member the margin is longer, and its later siblings belong to the rest.
  induction ms using Forest.induct generalizing ns margin rest rest' with
  | nil =>
      cases ns with
      | nil => exact ⟨.nil, same⟩
      | cons n ns =>
          rw [lines, lines_cons, List.nil_append] at same
          subst same
          exact absurd rfl ends.ne
  | cons m ms inner later =>
      cases ns with
      | nil =>
          rw [lines, lines_cons, List.nil_append] at same
          subst same
          exact absurd rfl ends'.ne
      | cons n ns =>
          rw [lines_cons, lines_cons, List.cons_append, List.cons_append, List.append_assoc,
            List.append_assoc] at same
          obtain ⟨first, below⟩ := List.cons.inj same
          obtain ⟨last, label⟩ := branch_inj first
          obtain ⟨order, kind, name, id⟩ := Member.label_inj label
          rw [← last] at below
          have inside' := ends'.below ns showIds
          rw [← last] at inside'
          obtain ⟨children, after⟩ := inner (ends.below ms showIds) inside' below
          obtain ⟨siblings, same⟩ := later ends ends' after
          exact ⟨.cons order kind name id children siblings, same⟩

/-- The name of a root cannot be taken for a margin or a branch. -/
def Root.Starts (r : Root) : Prop :=
  ∀ c ∈ r.name.toList.head?, c ≠ ' ' ∧ c ≠ '├' ∧ c ≠ '└'

theorem Root.Starts.endsBefore {r : Root} (starts : r.Starts) (showIds : Bool)
    (rest : List String) : EndsBefore "" (r.lines showIds ++ rest) := by
  rintro line first deeper last within
  obtain rfl := Option.some.inj first
  unfold Starts at starts
  simp only [String.toList_append, String.append_assoc] at within
  cases name : r.name.toList with
  | nil =>
      rw [name] at within
      cases deeper with
      | zero =>
          rw [toList_branch] at within
          exact absurd (List.cons_prefix_cons.1 within).1 (by cases last <;> decide)
      | succ deeper =>
          have next := (List.cons_prefix_cons.1 within).2
          exact absurd (List.cons_prefix_cons.1 next).1 (by decide)
  | cons c cs =>
      rw [name] at starts within
      obtain ⟨space, fork, corner⟩ := starts c rfl
      cases deeper with
      | zero =>
          rw [toList_branch] at within
          have first := (List.cons_prefix_cons.1 within).1
          cases last with
          | false => exact fork first.symm
          | true => exact corner first.symm
      | succ deeper => exact space (List.cons_prefix_cons.1 within).1.symm

/-- The roots of lines are told by the lines. -/
theorem resembles_of_lines {showIds : Bool} {rs ss : List Root} (starts : ∀ r ∈ rs, r.Starts)
    (starts' : ∀ s ∈ ss, s.Starts)
    (same : rs.flatMap (·.lines showIds) = ss.flatMap (·.lines showIds)) :
    List.Forall₂ (Root.Resembles showIds) rs ss := by
  have ends : ∀ rs : List Root, (∀ r ∈ rs, r.Starts) →
      EndsBefore "" (rs.flatMap (·.lines showIds)) := by
    rintro (_ | ⟨r, rs⟩) starts
    · rintro line ⟨⟩
    · exact (starts r (.head _)).endsBefore showIds _
  induction rs generalizing ss with
  | nil =>
      cases ss with
      | nil => exact .nil
      | cons s ss => cases same
  | cons r rs ih =>
      cases ss with
      | nil => cases same
      | cons s ss =>
          rw [List.forall_mem_cons] at starts starts'
          obtain ⟨header, below⟩ := List.cons.inj same
          obtain ⟨header, id⟩ := append_idSuffix_inj header
          obtain ⟨name, shape⟩ := header_inj header
          obtain ⟨members, after⟩ :=
            Forest.looksLike_of_lines (ends rs starts.2) (ends ss starts'.2) below
          exact .cons ⟨name, shape, id, members⟩ (ih starts.2 starts'.2 after)

/-! ### Lines in a text -/

theorem toList_unlines_cons (line : String) (lines : List String) :
    (unlines (line :: lines)).toList = line.toList ++ '\n' :: (unlines lines).toList := by
  rw [unlines, List.map_cons, String.join_cons, String.toList_append, String.toList_append,
    List.append_assoc]
  rfl

/-- Lines without newlines are told by the text. -/
theorem unlines_inj {lines lines' : List String} (clean : ∀ line ∈ lines, '\n' ∉ line.toList)
    (clean' : ∀ line ∈ lines', '\n' ∉ line.toList) (same : unlines lines = unlines lines') :
    lines = lines' := by
  induction lines generalizing lines' with
  | nil =>
      cases lines' with
      | nil => rfl
      | cons line' lines' =>
          have lists := congrArg String.toList same
          rw [toList_unlines_cons] at lists
          exact absurd lists.symm (List.append_ne_nil_of_right_ne_nil _ (List.cons_ne_nil _ _))
  | cons line lines ih =>
      have lists := congrArg String.toList same
      rw [toList_unlines_cons] at lists
      cases lines' with
      | nil => exact absurd lists (List.append_ne_nil_of_right_ne_nil _ (List.cons_ne_nil _ _))
      | cons line' lines' =>
          rw [List.forall_mem_cons] at clean clean'
          rw [toList_unlines_cons] at lists
          obtain ⟨first, rest⟩ := append_cons_inj clean.1 clean'.1 lists
          rw [String.toList_inj.1 first, ih clean.2 clean'.2 (String.toList_inj.1 rest)]

theorem newline_notMem_idSuffix (showIds : Bool) (id : Id) :
    '\n' ∉ (idSuffix showIds id).toList := by
  unfold idSuffix
  split
  · rw [String.toList_append, List.mem_append, not_or]
    exact ⟨by decide, id.newline_notMem_text⟩
  · exact List.not_mem_nil

theorem Root.newline_notMem_line {r : Root} (clean : '\n' ∉ r.name.toList) (showIds : Bool) :
    '\n' ∉ (r.line showIds).toList := by
  have shape : '\n' ∉ r.shape.text.toList := by cases r.shape <;> decide
  simp only [line, String.toList_append, List.mem_append, not_or]
  exact ⟨⟨⟨⟨clean, by decide⟩, shape⟩, by decide⟩, newline_notMem_idSuffix showIds r.id⟩

theorem Member.newline_notMem_label {m : Member} (clean : '\n' ∉ m.name.toList)
    (showIds : Bool) : '\n' ∉ (m.label showIds).toList := by
  have order : '\n' ∉ (toString m.order).toList := fun inside =>
    absurd (isDigit_of_mem_toString inside) (by decide)
  have mark : '\n' ∉ m.kind.mark.toList := by cases m.kind <;> decide
  simp only [label, String.toList_append, List.mem_append, not_or]
  exact ⟨⟨⟨⟨⟨order, by decide⟩, mark⟩, by decide⟩, clean⟩, newline_notMem_idSuffix showIds m.id⟩

theorem Forest.newline_notMem_lines {ms : Forest} {showIds : Bool} {margin : String}
    (blank : '\n' ∉ margin.toList) (clean : ∀ m ∈ subtrees ms, '\n' ∉ m.name.toList) :
    ∀ line ∈ lines ms showIds margin, '\n' ∉ line.toList := by
  induction ms using Forest.induct generalizing margin with
  | nil => exact fun line inside => absurd inside List.not_mem_nil
  | cons m ms inner later =>
      rw [subtrees_cons, List.forall_mem_cons, List.forall_mem_append] at clean
      rw [lines_cons, List.forall_mem_cons, List.forall_mem_append]
      have branch : '\n' ∉ (branch ms.isEmpty).toList := by cases ms.isEmpty <;> decide
      have deeper : '\n' ∉ (continuation ms.isEmpty).toList := by cases ms.isEmpty <;> decide
      refine ⟨?_, inner ?_ clean.2.1, later blank clean.2.2⟩
      · simp only [String.toList_append, List.mem_append, not_or]
        exact ⟨⟨blank, branch⟩, Member.newline_notMem_label clean.1 showIds⟩
      · simp only [String.toList_append, List.mem_append, not_or]
        exact ⟨blank, deeper⟩

/-- The line is that of the root or of the member. -/
inductive Drawn (showIds : Bool) : Root ⊕ Member → String → Prop where
  | root (r : Root) : Drawn showIds (.inl r) (r.line showIds)
  | member (m : Member) (margin : String) (last : Bool) :
      Drawn showIds (.inr m) (margin ++ branch last ++ m.label showIds)

theorem Forest.drawn_lines (ms : Forest) (showIds : Bool) (margin : String) :
    List.Forall₂ (fun m line => Drawn showIds (.inr m) line) (subtrees ms)
      (lines ms showIds margin) := by
  induction ms using Forest.induct generalizing margin with
  | nil => exact .nil
  | cons m ms inner later =>
      rw [subtrees_cons, lines_cons]
      exact .cons (.member m margin _) (List.rel_append (inner _) (later _))

namespace Workspace

/-- The roots and members of a workspace, each root before its members and each member before those
below it. -/
def preorder (w : Workspace) : List (Root ⊕ Member) :=
  w.roots.flatMap fun r => .inl r :: (Forest.subtrees r.members).map .inr

theorem length_preorder (w : Workspace) : w.preorder.length = w.roots.length + w.ids.length := by
  obtain ⟨roots⟩ := w
  induction roots with
  | nil => rfl
  | cons r rs ih =>
      simp only [preorder, ids, Forest.ids, List.flatMap_cons, List.length_append,
        List.length_cons, List.length_map] at ih ⊢
      omega

/-- No name holds a newline, and the name of no root begins with a space or a branch. -/
structure Plain (w : Workspace) : Prop where
  roots : ∀ r ∈ w.roots, '\n' ∉ r.name.toList
  members : ∀ m ∈ w.members, '\n' ∉ m.name.toList
  starts : ∀ r ∈ w.roots, r.Starts

variable {w : Workspace}

theorem Plain.newline_notMem (plain : w.Plain) (showIds : Bool) :
    ∀ line ∈ w.roots.flatMap (·.lines showIds), '\n' ∉ line.toList := by
  intro line inside
  obtain ⟨r, listed, inside⟩ := List.mem_flatMap.1 inside
  rcases List.mem_cons.1 inside with rfl | below
  · exact Root.newline_notMem_line (plain.roots r listed) showIds
  · refine Forest.newline_notMem_lines List.not_mem_nil (fun m member => ?_) line below
    exact plain.members m (List.mem_flatMap.2 ⟨r, listed, member⟩)

theorem drawn_lines (w : Workspace) (showIds : Bool) :
    List.Forall₂ (Drawn showIds) w.preorder (w.roots.flatMap (·.lines showIds)) := by
  unfold preorder
  induction w.roots with
  | nil => exact .nil
  | cons r rs ih =>
      rw [List.flatMap_cons, List.flatMap_cons]
      refine List.rel_append (.cons (.root r) ?_) ih
      exact List.forall₂_map_left_iff.2 (Forest.drawn_lines r.members showIds "")

/-- The drawing of a plain workspace has a line for each root and each member, in their order, and
it is the drawing of another only if the two look alike. -/
theorem Plain.draw_tells (plain : w.Plain) (showIds : Bool) :
    (∃ lines, w.draw showIds = unlines lines ∧ (∀ line ∈ lines, '\n' ∉ line.toList) ∧
      List.Forall₂ (Drawn showIds) w.preorder lines ∧
      lines.length = w.roots.length + w.ids.length) ∧
    ∀ w' : Workspace, w'.Plain → (w.draw showIds = w'.draw showIds ↔
      List.Forall₂ (Root.Resembles showIds) w.roots w'.roots) := by
  have drawn := w.drawn_lines showIds
  refine ⟨⟨_, rfl, plain.newline_notMem showIds, drawn, ?_⟩, fun w' plain' => ⟨fun same => ?_,
    fun alike => ?_⟩⟩
  · rw [← drawn.length_eq, length_preorder]
  · exact resembles_of_lines plain.starts plain'.starts
      (unlines_inj (plain.newline_notMem showIds) (plain'.newline_notMem showIds) same)
  · rw [draw, draw, flatMap_lines_eq alike]

open Reconciler in
/-- Without the folder the drawing of `noteTree` is another. -/
theorem noteTree_draw_tells :
    let shorter : Workspace := ⟨noteTree.roots.map fun r => { r with members := r.members.tail }⟩
    noteTree.Plain ∧ shorter.Plain ∧ noteTree.draw true ≠ shorter.draw true := by
  intro shorter
  have starts : ∀ r : Root, r.name = "notes" → r.Starts := by
    rintro r name c first
    rw [name] at first
    obtain rfl : 'n' = c := Option.some.inj first
    decide
  have plain : noteTree.Plain :=
    ⟨by decide +kernel, by decide +kernel, List.forall_mem_singleton.2 (starts _ rfl)⟩
  have plain' : shorter.Plain :=
    ⟨by decide +kernel, by decide +kernel, List.forall_mem_singleton.2 (starts _ rfl)⟩
  refine ⟨plain, plain', fun same => ?_⟩
  have alike := ((plain.draw_tells true).2 shorter plain').1 same
  cases alike with
  | cons roots _ => cases roots.members with
    | cons order => cases order

open Reconciler in
example : noteTree.draw false =
    "notes [tree]\n├── 1 ▸ drafts\n│   └── 1 • plan\n└── 2 • todo\n" := by
  decide +kernel

end Workspace

end Outline
