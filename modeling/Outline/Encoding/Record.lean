import Outline.Json

/-!
# Records in JSON

A record is an object whose entries are its fields, or an array that lists the fields in their fixed
order.  A field that may be left out can only be left out of an array together with all later ones.
-/

namespace Outline

mutual

/-- How deep arrays and objects nest in a value. -/
def Json.depth : Json → Nat
  | .arr elements => Json.elementDepth elements + 1
  | .obj entries => Json.entryDepth entries + 1
  | _ => 0

/-- How deep arrays and objects nest in some element. -/
def Json.elementDepth : List Json → Nat
  | [] => 0
  | value :: rest => max value.depth (Json.elementDepth rest)

/-- How deep arrays and objects nest in some entry. -/
def Json.entryDepth : List (String × Json) → Nat
  | [] => 0
  | (_, value) :: rest => max value.depth (Json.entryDepth rest)

end

/-- Reads one of several alternatives by its name, which may also be the only key of an object
with the value `null`. -/
def Json.choice? {α : Type} (ofName? : String → Option α) : Json → Option α
  | .str name => ofName? name
  | .obj [(name, .null)] => ofName? name
  | _ => none

/-- The fields that a value gives. -/
structure Record where
  /-- Whether the fields were given by name. -/
  named : Bool
  fields : List (String × Json)

namespace Record

/-- Reads a record with fields of the given names, none of which may be repeated.  Other entries
of an object count for nothing. -/
def ofJson? (names : List String) : Json → Option Record
  | .obj entries =>
    if names.all fun name => (entries.filter (·.1 = name)).length ≤ 1 then
      some { named := true, fields := entries }
    else
      none
  | .arr elements =>
    if elements.length ≤ names.length then
      some { named := false, fields := names.zip elements }
    else
      none
  | _ => none

variable {α : Type} (record : Record)

/-- The value of a field. -/
def field? (name : String) : Option Json :=
  record.fields.lookup name

/-- Reads a field that has to be there. -/
def required? (name : String) (read : Json → Option α) : Option α :=
  (record.field? name).bind read

/-- Reads a field that stands for `default` when it is left out. -/
def withDefault? (name : String) (read : Json → Option α) (default : α) : Option α :=
  match record.field? name with
  | some value => read value
  | none => some default

/-- Reads a field that may be `null` or left out. -/
def optional? (name : String) (read : Json → Option α) : Option (Option α) :=
  record.withDefault? name (Json.nullable? read) none

/-- Reads a field that may be `null`, or left out where fields are given by name. -/
def nullable? (name : String) (read : Json → Option α) : Option (Option α) :=
  if record.named then record.optional? name read
  else record.required? name (Json.nullable? read)

end Record

/-- An entry for a field that is left out when there is no value. -/
def Json.entryOf {α : Type} (name : String) (write : α → Json) (value : Option α) :
    List (String × Json) :=
  (value.map fun x => (name, write x)).toList

end Outline
