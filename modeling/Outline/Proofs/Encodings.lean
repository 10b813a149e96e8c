import Mathlib.Data.List.Nodup
import Outline.Encoding.Batch
import Outline.Encoding.Drag
import Outline.Proofs.Forest
import Outline.Settings

/-!
# Values written and read

Reading what was written for a value gives the value, as long as the numbers of siblings in it are
below the limit; and whatever is read has such numbers, so that writing it and reading it again
changes nothing (`Outline.encodings_roundTrip`).  Members are the only recursive type: they are read
with as much depth as the value has, and any greater depth reads the same.
-/

namespace Outline

/-- Every one of the numbers of siblings is below the limit. -/
def Fit (numbers : List Nat) : Prop :=
  ∀ n ∈ numbers, n < orderLimit

instance (numbers : List Nat) : Decidable (Fit numbers) :=
  inferInstanceAs (Decidable (∀ n ∈ numbers, n < orderLimit))

@[simp] theorem fit_nil : Fit [] := by
  simp [Fit]

@[simp] theorem fit_cons {n : Nat} {numbers : List Nat} :
    Fit (n :: numbers) ↔ n < orderLimit ∧ Fit numbers := by
  simp [Fit]

@[simp] theorem fit_append {numbers others : List Nat} :
    Fit (numbers ++ others) ↔ Fit numbers ∧ Fit others := by
  simp only [Fit, List.forall_mem_append]

@[simp] theorem fit_flatMap {α : Type} {xs : List α} {orders : α → List Nat} :
    Fit (xs.flatMap orders) ↔ ∀ x ∈ xs, Fit (orders x) := by
  simp only [Fit, List.mem_flatMap, forall_exists_index, and_imp]
  exact ⟨fun fits x listed n among => fits n x listed among,
    fun fits n x listed among => fits x listed n among⟩

/-- Values are read back as they were written, and so is every value that was itself read: what
was left out, or spelled in another way, is lost only once.  `orders` are the numbers of siblings
in a value. -/
def RoundTrips {α : Type} (write : α → Json) (read : Json → Option α) (orders : α → List Nat) :
    Prop :=
  (∀ x, Fit (orders x) → read (write x) = some x) ∧
    ∀ value x, read value = some x → read (write x) = some x

/-- A reader goes with a writer: it reads what was written, nothing else than values with numbers
below the limit, and never `null`. -/
structure Reads {α : Type} (write : α → Json) (read : Json → Option α) (orders : α → List Nat) :
    Prop where
  read_write : ∀ x, Fit (orders x) → read (write x) = some x
  fit : ∀ value x, read value = some x → Fit (orders x)
  read_null : read .null = none

namespace Reads

variable {α : Type} {write : α → Json} {read : Json → Option α} {orders : α → List Nat}

theorem roundTrips (reads : Reads write read orders) : RoundTrips write read orders :=
  ⟨reads.read_write, fun value x found => reads.read_write x (reads.fit value x found)⟩

/-- Where no siblings are numbered, every value is read back. -/
theorem of_unnumbered (read_write : ∀ x, read (write x) = some x) (read_null : read .null = none) :
    Reads write read fun _ => [] where
  read_write x _ := read_write x
  fit _ _ _ := fit_nil
  read_null := read_null

end Reads

/-! ### Single values -/

theorem reads_text : Reads Json.str Json.text? fun _ => [] :=
  .of_unnumbered (fun _ => rfl) rfl

theorem reads_bool : Reads Json.bool Json.bool? fun _ => [] :=
  .of_unnumbered (fun _ => rfl) rfl

theorem reads_order : Reads Json.ofNat order? fun n => [n] where
  read_write n fits := Json.natBelow?_ofNat (fit_cons.1 fits).1
  fit value n found := by
    cases value with
    | int i =>
        simp only [order?, Json.natBelow?, Option.ite_none_right_eq_some, Option.some.injEq]
          at found
        simp only [fit_cons, fit_nil, and_true]
        omega
    | _ => cases found
  read_null := rfl

/-- A value that is written as its name is read by its name. -/
theorem reads_choice {α : Type} {text : α → String} {ofText? : String → Option α}
    (ofText?_text : ∀ x, ofText? (text x) = some x) :
    Reads (fun x => .str (text x)) (Json.choice? ofText?) fun _ => [] :=
  .of_unnumbered ofText?_text rfl

namespace Id

theorem reads : Reads toJson ofJson? fun _ => [] := by
  refine .of_unnumbered (fun id => ?_) rfl
  simp only [toJson, ofJson?, Json.text?, Option.bind_some, ofText?_text]

end Id

theorem Kind.reads : Reads toJson ofJson? fun _ => [] :=
  reads_choice ofText?_text

theorem Shape.reads : Reads toJson ofJson? fun _ => [] :=
  reads_choice ofText?_text

theorem Action.reads : Reads toJson ofJson? fun _ => [] :=
  reads_choice ofText?_text

theorem Family.choice?_text (family : Family) :
    Json.choice? ofName? (.str family.text) = some (some family) := by
  cases family <;> rfl

/-! ### Lists -/

/-- Whatever list is read, each of its elements was read. -/
theorem Json.read_of_mem_list? {α : Type} {read : Json → Option α} {value : Json} {xs : List α}
    (found : value.list? read = some xs) {x : α} (listed : x ∈ xs) :
    ∃ element, read element = some x := by
  cases value with
  | arr elements =>
      simp only [list?] at found
      induction elements generalizing xs with
      | nil =>
          cases found
          cases listed
      | cons element rest ih =>
          simp only [List.mapM_cons, Option.bind_eq_bind, Option.bind_eq_some_iff,
            Option.pure_def, Option.some.injEq] at found
          obtain ⟨y, head, ys, tail, rfl⟩ := found
          obtain rfl | later := List.mem_cons.1 listed
          · exact ⟨element, head⟩
          · exact ih later tail
  | _ => cases found

namespace Reads

variable {α : Type} {write : α → Json} {read : Json → Option α} {orders : α → List Nat}

/-- A list is read if its elements are. -/
theorem list (reads : Reads write read orders) :
    Reads (Json.ofList write) (Json.list? read) fun xs => xs.flatMap orders where
  read_write xs fits := Json.list?_ofList fun x listed =>
    reads.read_write x (fit_flatMap.1 fits x listed)
  fit value xs found := by
    refine fit_flatMap.2 fun x listed => ?_
    obtain ⟨element, read⟩ := Json.read_of_mem_list? found listed
    exact reads.fit element x read
  read_null := rfl

end Reads

/-! ### Fields -/

namespace Record

/-- An object that repeats no key is read as a record, whatever the fields are. -/
theorem ofJson?_obj {names : List String} {entries : List (String × Json)}
    (distinct : (entries.map Prod.fst).Nodup) :
    ofJson? names (.obj entries) = some { named := true, fields := entries } := by
  have once : ∀ name, (entries.filter (·.1 = name)).length ≤ 1 := by
    intro name
    rw [← List.countP_eq_length_filter]
    calc
      _ = (entries.map Prod.fst).count name := by
        rw [List.count, List.countP_map]
        rfl
      _ ≤ 1 := List.nodup_iff_count_le_one.1 distinct name
  simp [ofJson?, once]

/-- The first entry with a name is the field of that name. -/
@[simp] theorem field?_cons_self (named : Bool) (name : String) (value : Json)
    (rest : List (String × Json)) :
    field? { named, fields := (name, value) :: rest } name = some value := by
  simp [field?]

@[simp] theorem field?_cons_of_ne (named : Bool) {name other : String} (value : Json)
    (rest : List (String × Json)) (differ : name ≠ other) :
    field? { named, fields := (other, value) :: rest } name =
      field? { named, fields := rest } name := by
  have differ : (name == other) = false := beq_false_of_ne differ
  simp only [field?, List.lookup_cons, differ]

@[simp] theorem field?_nil (named : Bool) (name : String) :
    field? { named, fields := [] } name = none :=
  rfl

@[simp] theorem field?_append (named : Bool) (name : String) (fields rest : List (String × Json)) :
    field? { named, fields := fields ++ rest } name =
      (field? { named, fields } name).or (field? { named, fields := rest } name) :=
  List.lookup_append

@[simp] theorem field?_entryOf_self {α : Type} (named : Bool) (name : String) (write : α → Json)
    (value : Option α) :
    field? { named, fields := Json.entryOf name write value } name = value.map write := by
  cases value <;> simp [Json.entryOf]

@[simp] theorem field?_entryOf_of_ne {α : Type} (named : Bool) {name other : String}
    (write : α → Json) (value : Option α) (differ : name ≠ other) :
    field? { named, fields := Json.entryOf other write value } name = none := by
  cases value <;> simp [Json.entryOf, differ]

variable {α : Type} {write : α → Json} {read : Json → Option α} {orders : α → List Nat}
  {record : Record} {named : Bool} {name other : String} {value : Json}
  {rest : List (String × Json)}

theorem required?_of_field (field : record.field? name = some value) :
    record.required? name read = read value := by
  rw [required?, field, Option.bind_some]

theorem withDefault?_of_field {default : α} (field : record.field? name = some value) :
    record.withDefault? name read default = read value := by
  rw [withDefault?, field]

-- Not by unfolding `required?`: an equation by computation would have the readers evaluated.
@[simp] theorem required?_cons_self :
    required? { named, fields := (name, value) :: rest } name read = read value :=
  required?_of_field (field?_cons_self ..)

@[simp] theorem required?_cons_of_ne (differ : name ≠ other) :
    required? { named, fields := (other, value) :: rest } name read =
      required? { named, fields := rest } name read := by
  rw [required?, field?_cons_of_ne named value rest differ, required?]

@[simp] theorem withDefault?_cons_self {default : α} :
    withDefault? { named, fields := (name, value) :: rest } name read default = read value :=
  withDefault?_of_field (field?_cons_self ..)

@[simp] theorem withDefault?_cons_of_ne {default : α} (differ : name ≠ other) :
    withDefault? { named, fields := (other, value) :: rest } name read default =
      withDefault? { named, fields := rest } name read default := by
  rw [withDefault?, field?_cons_of_ne named value rest differ, withDefault?]

/-- What is read from a field has numbers below the limit. -/
theorem fit_of_required? (reads : Reads write read orders) {x : α}
    (found : record.required? name read = some x) : Fit (orders x) := by
  obtain ⟨value, -, found⟩ := Option.bind_eq_some_iff.1 found
  exact reads.fit value x found

theorem fit_of_withDefault? (reads : Reads write read orders) {x default : α}
    (found : record.withDefault? name read default = some x) (usual : Fit (orders default)) :
    Fit (orders x) := by
  unfold withDefault? at found
  split at found
  next value _ => exact reads.fit value x found
  next =>
    cases found
    exact usual

theorem fit_of_optional? (reads : Reads write read orders) {v : Option α}
    (found : record.optional? name read = some v) : ∀ x ∈ v, Fit (orders x) := by
  rintro x rfl
  unfold optional? withDefault? at found
  split at found
  next value _ =>
    unfold Json.nullable? at found
    split at found
    · cases found
    · obtain ⟨y, found, same⟩ := Option.map_eq_some_iff.1 found
      cases same
      exact reads.fit value x found
  next => cases found

end Record

/-- An entry that may be left out has no other key. -/
theorem Json.keys_entryOf_sublist {α : Type} (name : String) (write : α → Json)
    (value : Option α) : ((entryOf name write value).map Prod.fst).Sublist [name] := by
  cases value with
  | none => exact List.nil_sublist _
  | some _ => exact .refl _

/-- A value that may be `null` is read back, whether there is one or not. -/
theorem Reads.nullable?_ofOption {α : Type} {write : α → Json} {read : Json → Option α}
    {orders : α → List Nat} (reads : Reads write read orders) {value : Option α}
    (fits : ∀ x ∈ value, Fit (orders x)) :
    (Json.ofOption write value).nullable? read = some value := by
  cases value with
  | none => rfl
  | some x =>
      have found := reads.read_write x (fits x rfl)
      have present : write x ≠ .null := by
        intro null
        rw [null, reads.read_null] at found
        cases found
      simp only [Json.ofOption]
      unfold Json.nullable?
      split
      next null => exact absurd null present
      next => rw [found, Option.map_some]

/-- A field that is left out when there is no value is read back in both cases. -/
theorem Record.optional?_of_field {α : Type} {write : α → Json} {read : Json → Option α}
    {orders : α → List Nat} {record : Record} {name : String} (reads : Reads write read orders)
    {value : Option α} (fits : ∀ x ∈ value, Fit (orders x))
    (field : record.field? name = value.map write) : record.optional? name read = some value := by
  cases value with
  | none => rw [optional?, withDefault?, field, Option.map_none]
  | some x =>
      rw [optional?, withDefault?_of_field field]
      exact reads.nullable?_ofOption fits

/-! ### Members and workspaces -/

theorem Path.reads : Reads toJson ofJson? fun _ => [] := by
  refine .of_unnumbered (fun path => ?_) rfl
  have segments : Json.list? Json.text? (Json.ofList .str path.segments) = some path.segments :=
    reads_text.list.read_write _ (by simp)
  rw [toJson, ofJson?, segments, Option.map_some]

theorem Container.reads : Reads toJson ofJson? fun _ => [] := by
  refine .of_unnumbered (fun container => ?_) rfl
  rw [toJson, ofJson?, Record.ofJson?_obj (by simp)]
  simp [Record.nullable?, Record.optional?, Id.reads.read_write, Id.reads.nullable?_ofOption]

namespace Member

/-- The numbers of a member and of all members below it. -/
def orders (m : Member) : List Nat :=
  m.subtree.map order

theorem fit_orders {m : Member} :
    Fit m.orders ↔ m.order < orderLimit ∧ Fit (m.children.flatMap orders) := by
  rw [orders, subtree_eq, List.map_cons, fit_cons, Forest.subtrees_eq_flatMap, List.map_flatMap]
  rfl

/-- Every member that is read has numbers below the limit, at whatever depth. -/
theorem fit_of_ofJsonWithin? {depth : Nat} {value : Json} {m : Member}
    (found : ofJsonWithin? depth value = some m) : Fit m.orders := by
  induction depth generalizing value m with
  | zero => cases found
  | succ depth ih =>
      simp only [ofJsonWithin?, Option.bind_eq_bind, Option.bind_eq_some_iff, Option.pure_def,
        Option.some.injEq] at found
      obtain ⟨record, -, id, -, name, -, order, numbered, kind, -, path, -, children, below, rfl⟩ :=
        found
      refine fit_orders.2 ⟨(fit_cons.1 (Record.fit_of_required? reads_order numbered)).1, ?_⟩
      unfold Record.withDefault? at below
      split at below
      next =>
        refine fit_flatMap.2 fun child listed => ?_
        obtain ⟨element, read⟩ := Json.read_of_mem_list? below listed
        exact ih read
      next =>
        cases below
        exact fit_nil

end Member

namespace Forest

theorem toJsons_eq (ms : Forest) : toJsons ms = ms.map Member.toJson := by
  induction ms with
  | nil => rfl
  | cons m ms ih => rw [toJsons, ih, List.map_cons]

/-- A value is deeper than its elements. -/
theorem depth_le_of_mem {ms : Forest} {m : Member} (listed : m ∈ ms) :
    m.toJson.depth ≤ Json.elementDepth (ms.map Member.toJson) := by
  induction ms with
  | nil => cases listed
  | cons first ms ih =>
      rw [List.map_cons, Json.elementDepth]
      obtain rfl | later := List.mem_cons.1 listed
      · exact Nat.le_max_left ..
      · exact Nat.le_trans (ih later) (Nat.le_max_right ..)

end Forest

namespace Member

/-- The entry that holds the children, unless there are none. -/
def childEntry (children : Forest) : List (String × Json) :=
  Json.entryOf "children" Forest.toJson (if children = [] then none else some children)

theorem toJson_eq (m : Member) : m.toJson =
    .obj ([("id", m.id.toJson), ("name", .str m.name), ("order", .ofNat m.order),
      ("kind", m.kind.toJson), ("path", m.path.toJson)] ++ childEntry m.children) := by
  obtain ⟨id, name, order, kind, path, children⟩ := m
  cases children with
  | nil => rw [toJson]; rfl
  | cons child rest => rw [toJson]; rfl

/-- A member's value repeats no key. -/
theorem distinct_keys (m : Member) :
    (([("id", m.id.toJson), ("name", .str m.name), ("order", .ofNat m.order),
      ("kind", m.kind.toJson), ("path", m.path.toJson)] ++ childEntry m.children).map
        Prod.fst).Nodup := by
  have last : ((childEntry m.children).map Prod.fst).Sublist ["children"] :=
    Json.keys_entryOf_sublist ..
  have keys : ["id", "name", "order", "kind", "path", "children"].Nodup := by simp
  rw [List.map_append]
  exact keys.sublist (.append (.refl _) last)

theorem withDefault?_childEntry {read : Json → Option Member} {children : Forest}
    (reads : Json.list? read (Forest.toJson children) = some children) :
    Record.withDefault? { named := true, fields := childEntry children } "children"
      (Json.list? read) [] = some children := by
  by_cases none : children = []
  · rw [childEntry, if_pos none, none]
    rfl
  · rw [childEntry, if_neg none, Json.entryOf, Option.map_some, Option.toList_some,
      Record.withDefault?_cons_self, reads]

/-- The children nest less deeply than the member. -/
theorem depth_child_lt {m child : Member} (listed : child ∈ m.children) :
    child.toJson.depth < m.toJson.depth := by
  have present : m.children ≠ [] := List.ne_nil_of_mem listed
  have below := Forest.depth_le_of_mem listed
  rw [toJson_eq m, childEntry, if_neg present]
  simp only [Json.entryOf, Option.map_some, Option.toList_some, List.cons_append, List.nil_append,
    Json.depth, Json.entryDepth, Forest.toJson, Forest.toJsons_eq]
  omega

theorem depth_pos (m : Member) : 0 < m.toJson.depth := by
  rw [toJson_eq, Json.depth]
  exact Nat.succ_pos _

/-- A member is read back with any depth that its value fits in. -/
theorem ofJsonWithin?_toJson {ms : Forest} : ∀ m ∈ ms, ∀ depth, m.toJson.depth ≤ depth →
    Fit m.orders → ofJsonWithin? depth m.toJson = some m := by
  induction ms using Forest.induct with
  | nil =>
      intro m listed
      cases listed
  | cons first ms children later =>
      intro m listed depth deep fits
      obtain rfl | listed := List.mem_cons.1 listed
      · obtain - | depth := depth
        · exact absurd deep (Nat.not_le.2 m.depth_pos)
        · obtain ⟨numbered, below⟩ := fit_orders.1 fits
          have read : Json.list? (ofJsonWithin? depth) (Forest.toJson m.children) =
              some m.children := by
            rw [Forest.toJson, Forest.toJsons_eq]
            refine Json.list?_ofList fun child listed => ?_
            exact children child listed depth
              (Nat.le_of_lt_succ (Nat.lt_of_lt_of_le (depth_child_lt listed) deep))
              (fit_flatMap.1 below child listed)
          have numbered : order? (.ofNat m.order) = some m.order :=
            reads_order.read_write _ (by simpa using numbered)
          rw [toJson_eq, ofJsonWithin?, Record.ofJson?_obj (distinct_keys m)]
          simp [Id.reads.read_write, Kind.reads.read_write, Path.reads.read_write,
            reads_text.read_write, numbered, withDefault?_childEntry read, mk_eta]
      · exact later m listed depth deep fits

theorem reads : Reads toJson ofJson? orders where
  read_write m fits := ofJsonWithin?_toJson m (List.mem_singleton_self m) _ (Nat.le_refl _) fits
  fit _ _ found := fit_of_ofJsonWithin? found
  read_null := rfl

end Member

theorem Forest.reads : Reads toJson ofJson? fun ms => ms.flatMap Member.orders where
  read_write ms fits := by
    rw [toJson, toJsons_eq]
    exact Member.reads.list.read_write ms fits
  fit := Member.reads.list.fit
  read_null := rfl

namespace Root

/-- The numbers of a root and of all its members. -/
def orders (root : Root) : List Nat :=
  root.order :: root.members.flatMap Member.orders

theorem reads : Reads toJson ofJson? orders where
  read_write root fits := by
    obtain ⟨numbered, below⟩ := fit_cons.1 fits
    rw [toJson, ofJson?, Record.ofJson?_obj (by simp)]
    simp [Id.reads.read_write, Shape.reads.read_write, reads_text.read_write, numbered,
      reads_order.read_write, Forest.reads.read_write _ below]
  fit value root found := by
    simp only [ofJson?, Option.bind_eq_bind, Option.bind_eq_some_iff, Option.pure_def,
      Option.some.injEq] at found
    obtain ⟨record, -, id, -, name, -, shape, -, order, numbered, members, below, rfl⟩ := found
    have numbered := Record.fit_of_required? reads_order numbered
    exact fit_cons.2 ⟨(fit_cons.1 numbered).1, Record.fit_of_required? Forest.reads below⟩
  read_null := rfl

end Root

namespace Workspace

/-- All numbers in a workspace. -/
def orders (w : Workspace) : List Nat :=
  w.roots.flatMap Root.orders

theorem reads : Reads toJson ofJson? orders where
  read_write w fits := by
    rw [toJson, ofJson?, Record.ofJson?_obj (by simp)]
    simp [Root.reads.list.read_write _ fits]
  fit value w found := by
    simp only [ofJson?, Option.bind_eq_bind, Option.bind_eq_some_iff, Option.pure_def,
      Option.some.injEq] at found
    obtain ⟨record, -, roots, below, rfl⟩ := found
    exact Record.fit_of_required? Root.reads.list below
  read_null := rfl

end Workspace

/-! ### Batches -/

theorem Row.reads : Reads toJson ofJson? fun row => [row.order] where
  read_write row fits := by
    have numbered := reads_order.read_write row.order fits
    rw [toJson, ofJson?, Record.ofJson?_obj (by simp)]
    simp [Id.reads.read_write, Container.reads.read_write, Kind.reads.read_write,
      Path.reads.read_write, reads_text.read_write, numbered]
  fit value row found := by
    simp only [ofJson?, Option.bind_eq_bind, Option.bind_eq_some_iff, Option.pure_def,
      Option.some.injEq] at found
    obtain ⟨record, -, id, -, parent, -, name, -, kind, -, order, numbered, path, -, rfl⟩ := found
    exact Record.fit_of_required? reads_order numbered
  read_null := rfl

namespace Update

/-- The number that an update sets, if it sets one. -/
def orders (update : Update) : List Nat :=
  update.order.toList

/-- An update's value repeats no key. -/
theorem distinct_keys (update : Update) :
    ((("id", update.id.toJson) :: (Json.entryOf "order" Json.ofNat update.order ++
      Json.entryOf "parent" Container.toJson update.parent ++
      Json.entryOf "path" Path.toJson update.path ++
      Json.entryOf "name" Json.str update.name)).map Prod.fst).Nodup := by
  have keys : ["id", "order", "parent", "path", "name"].Nodup := by simp
  simp only [List.map_cons, List.map_append]
  refine keys.sublist (.cons_cons _ ?_)
  exact (((Json.keys_entryOf_sublist ..).append (Json.keys_entryOf_sublist ..)).append
    (Json.keys_entryOf_sublist ..)).append (Json.keys_entryOf_sublist ..)

theorem reads : Reads toJson ofJson? orders where
  read_write update fits := by
    have numbered : ∀ n ∈ update.order, Fit [n] := by
      intro n sets
      simpa [orders, Option.mem_def.1 sets] using fits
    rw [toJson, ofJson?, Record.ofJson?_obj (distinct_keys update)]
    generalize made : Record.mk true _ = record
    have id : record.required? "id" Id.ofJson? = some update.id := by
      simp [← made, Id.reads.read_write]
    have order : record.optional? "order" order? = some update.order :=
      Record.optional?_of_field reads_order numbered (by simp [← made])
    have parent : record.optional? "parent" Container.ofJson? = some update.parent :=
      Record.optional?_of_field Container.reads (fun _ _ => fit_nil) (by simp [← made])
    have path : record.optional? "path" Path.ofJson? = some update.path :=
      Record.optional?_of_field Path.reads (fun _ _ => fit_nil) (by simp [← made])
    have name : record.optional? "name" Json.text? = some update.name :=
      Record.optional?_of_field reads_text (fun _ _ => fit_nil) (by simp [← made])
    simp [id, order, parent, path, name]
  fit value update found := by
    simp only [ofJson?, Option.bind_eq_bind, Option.bind_eq_some_iff, Option.pure_def,
      Option.some.injEq] at found
    obtain ⟨record, -, id, -, order, numbered, parent, -, path, -, name, -, rfl⟩ := found
    intro n sets
    have numbered := Record.fit_of_optional? reads_order numbered n (Option.mem_toList.1 sets)
    exact (fit_cons.1 numbered).1
  read_null := rfl

end Update

namespace Batch

/-- The numbers that a batch gives to new rows and sets on others. -/
def orders (batch : Batch) : List Nat :=
  batch.creates.flatMap (fun row => [row.order]) ++ batch.updates.flatMap Update.orders

theorem reads : Reads toJson ofJson? orders where
  read_write batch fits := by
    obtain ⟨created, updated⟩ := fit_append.1 fits
    have deleted : Fit (batch.deletes.flatMap fun _ => []) := by simp
    rw [toJson, ofJson?, Record.ofJson?_obj (by simp)]
    simp [Container.reads.read_write, Row.reads.list.read_write _ created,
      Update.reads.list.read_write _ updated, Id.reads.list.read_write _ deleted]
  fit value batch found := by
    simp only [ofJson?, Option.bind_eq_bind, Option.bind_eq_some_iff, Option.pure_def,
      Option.some.injEq] at found
    obtain ⟨record, -, container, -, creates, created, updates, updated, deletes, -, rfl⟩ := found
    exact fit_append.2 ⟨Record.fit_of_withDefault? Row.reads.list created fit_nil,
      Record.fit_of_withDefault? Update.reads.list updated fit_nil⟩
  read_null := rfl

end Batch

theorem RootUpdate.reads : Reads toJson ofJson? fun update => [update.order] where
  read_write update fits := by
    have numbered := reads_order.read_write update.order fits
    rw [toJson, ofJson?, Record.ofJson?_obj (by simp)]
    simp [Id.reads.read_write, numbered]
  fit value update found := by
    simp only [ofJson?, Option.bind_eq_bind, Option.bind_eq_some_iff, Option.pure_def,
      Option.some.injEq] at found
    obtain ⟨record, -, id, -, order, numbered, rfl⟩ := found
    exact Record.fit_of_required? reads_order numbered
  read_null := rfl

namespace RootBatch

/-- The numbers that a batch sets on roots. -/
def orders (batch : RootBatch) : List Nat :=
  batch.updates.flatMap fun update => [update.order]

theorem reads : Reads toJson ofJson? orders where
  read_write batch fits := by
    rw [toJson, ofJson?, Record.ofJson?_obj (by simp)]
    simp [RootUpdate.reads.list.read_write _ fits]
  fit value batch found := by
    simp only [ofJson?, Option.bind_eq_bind, Option.bind_eq_some_iff, Option.pure_def,
      Option.some.injEq] at found
    obtain ⟨record, -, updates, updated, rfl⟩ := found
    exact Record.fit_of_withDefault? RootUpdate.reads.list updated fit_nil
  read_null := rfl

end RootBatch

/-! ### Drags -/

theorem Instruction.reads : Reads toJson ofJson? fun _ => [] := by
  refine .of_unnumbered (fun instruction => ?_) rfl
  rw [toJson, ofJson?, Record.ofJson?_obj (by simp)]
  simp [Action.reads.read_write, reads_bool.read_write]

theorem Origin.reads : Reads toJson ofJson? fun _ => [] := by
  refine .of_unnumbered (fun origin => ?_) rfl
  rw [toJson, ofJson?, Record.ofJson?_obj (by simp)]
  simp [Container.reads.read_write, Id.reads.read_write]

theorem Payload.reads : Reads toJson ofJson? fun _ => [] := by
  refine .of_unnumbered (fun payload => ?_) rfl
  cases payload with
  | member family origin =>
      rw [toJson, ofJson?, Record.ofJson?_obj (by simp)]
      simp [Family.choice?_text, Origin.reads.read_write]
  | root id =>
      rw [toJson, ofJson?, Record.ofJson?_obj (by simp)]
      simp [Json.choice?, Family.ofName?, Id.reads.read_write]

theorem Target.reads : Reads toJson ofJson? fun _ => [] := by
  refine .of_unnumbered (fun target => ?_) rfl
  cases target with
  | member container id =>
      rw [toJson, ofJson?, memberOfJson?, Record.ofJson?_obj (by simp)]
      simp [reads_text.read_write, Container.reads.read_write, Id.reads.read_write]
  | root id =>
      rw [toJson, ofJson?, memberOfJson?, rootOfJson?, Record.ofJson?_obj (by simp),
        Record.ofJson?_obj (by simp)]
      simp [reads_text.read_write, Id.reads.read_write]

theorem Candidate.reads : Reads toJson ofJson? fun _ => [] := by
  refine .of_unnumbered (fun candidate => ?_) rfl
  rw [toJson, ofJson?, Record.ofJson?_obj (by simp)]
  simp [Record.nullable?, Record.optional?, Target.reads.read_write,
    Instruction.reads.nullable?_ofOption]

theorem Location.reads : Reads toJson ofJson? fun _ => [] := by
  refine .of_unnumbered (fun location => ?_) rfl
  rw [toJson, ofJson?, Record.ofJson?_obj (by simp)]
  simp [Candidate.reads.list.read_write]

/-! ### Settings -/

theorem Settings.reads : Reads toJson ofJson? fun _ => [] := by
  refine .of_unnumbered (fun settings => ?_) rfl
  rw [toJson, ofJson?, Record.ofJson?_obj (by simp)]
  simp [Record.optional?, reads_text.nullable?_ofOption, reads_text.read_write]

/-! ### All of them -/

/-- Every type that is written as JSON is read back as it was written, as long as its numbers of
siblings are below the limit, and whatever was read as such a type is read back as well. -/
theorem encodings_roundTrip :
    RoundTrips Member.toJson Member.ofJson? Member.orders ∧
    RoundTrips Root.toJson Root.ofJson? Root.orders ∧
    RoundTrips Workspace.toJson Workspace.ofJson? Workspace.orders ∧
    RoundTrips Path.toJson Path.ofJson? (fun _ => []) ∧
    RoundTrips Container.toJson Container.ofJson? (fun _ => []) ∧
    RoundTrips Update.toJson Update.ofJson? Update.orders ∧
    RoundTrips Row.toJson Row.ofJson? (fun row => [row.order]) ∧
    RoundTrips Batch.toJson Batch.ofJson? Batch.orders ∧
    RoundTrips RootBatch.toJson RootBatch.ofJson? RootBatch.orders ∧
    RoundTrips Payload.toJson Payload.ofJson? (fun _ => []) ∧
    RoundTrips Target.toJson Target.ofJson? (fun _ => []) ∧
    RoundTrips Candidate.toJson Candidate.ofJson? (fun _ => []) ∧
    RoundTrips Location.toJson Location.ofJson? (fun _ => []) ∧
    RoundTrips Settings.toJson Settings.ofJson? (fun _ => []) :=
  ⟨Member.reads.roundTrips, Root.reads.roundTrips, Workspace.reads.roundTrips,
    Path.reads.roundTrips, Container.reads.roundTrips, Update.reads.roundTrips,
    Row.reads.roundTrips, Batch.reads.roundTrips, RootBatch.reads.roundTrips,
    Payload.reads.roundTrips, Target.reads.roundTrips, Candidate.reads.roundTrips,
    Location.reads.roundTrips, Settings.reads.roundTrips⟩

/-- An interior member and its child, which has no entry for children of its own. -/
def sampleMember : Member where
  id := .ofRandom 1
  name := "chapter"
  order := 1
  kind := .interior
  path := ⟨["chapter"]⟩
  children := [{
    id := .ofRandom 2
    name := "page"
    order := 1
    kind := .leaf
    path := ⟨["chapter", "page"]⟩
    children := [] }]

theorem sampleMember_roundTrips : Fit sampleMember.orders ∧
    Member.ofJson? sampleMember.toJson = some sampleMember := by
  have fits : Fit sampleMember.orders := by decide
  exact ⟨fits, encodings_roundTrip.1.1 sampleMember fits⟩

-- What is left out, `null` or listed without names is read alike.
example : Settings.ofJson? (.obj [("database_path", .null)]) = some {} ∧
    Settings.ofJson? (.obj []) = some {} ∧ Settings.ofJson? (.arr []) = some {} := by
  decide

end Outline
