import Outline.CommandLine.Syntax
import Outline.Drag

/-!
# Commands

What a command line asks for.
-/

namespace Outline.CommandLine

/-- Where a drop is to land. -/
inductive Landing where
  /-- Next to a member or a root. -/
  | beside (side : Side) (id : Id)
  /-- Inside a member or a root, last. -/
  | into (id : Id)
  /-- Directly under a root, last. -/
  | intoRoot (id : Id)
  deriving DecidableEq

/-- What is to be done. -/
inductive Command where
  | createRoot (name : String) (shape : Shape)
  | add (container : Container) (name : String) (kind : Kind)
  | draw (showIds : Bool)
  | drop (source : Id) (landing : Landing)
  | rename (id : Id) (name : String)
  | delete (id : Id)
  | check
  | configure (databasePath logFilter : Option String)
  deriving DecidableEq

/-- A command, and the path of the tables if it is given. -/
structure Invocation where
  databasePath : Option String
  command : Command
  deriving DecidableEq

/-- The shape that an argument names. -/
def shapeOfArgument? : String → Option Shape
  | "tree" => some .tree
  | "flat" => some .flatList
  | "grouped" => some .groupedList
  | _ => none

/-- The option that gives the path of the tables, before or after the name of the command. -/
def databaseSpec : Spec where
  name := "db"

/-- The options that a command takes. -/
def specsOf : String → List Spec
  | "root" => [{ name := "kind", letter := some 'k' }]
  | "add" => [{ name := "root" }, { name := "parent" }, { name := "interior", takesValue := false }]
  | "show" => [{ name := "ids", takesValue := false }]
  | "drop" =>
    [{ name := "before" }, { name := "after" }, { name := "into" }, { name := "into-root" }]
  | "config" => [{ name := "database" }, { name := "log-filter" }]
  | _ => []

namespace Parsed

variable (parsed : Parsed)

/-- Reads the value of an option, if it is given. -/
def read? {α : Type} (name : String) (read : String → Option α) : Option (Option α) :=
  match parsed.value? name with
  | some value => (read value).map some
  | none => some none

/-- Reads the path that an option gives, which may not be empty. -/
def path? (name : String) : Option (Option String) :=
  parsed.read? name fun value => if value.isEmpty then none else some value

/-- Reads the one landing that is given. -/
def landing? : Option Landing := do
  let before ← parsed.read? "before" Id.ofText?
  let after ← parsed.read? "after" Id.ofText?
  let into ← parsed.read? "into" Id.ofText?
  let intoRoot ← parsed.read? "into-root" Id.ofText?
  match before, after, into, intoRoot with
  | some id, none, none, none => some (.beside .before id)
  | none, some id, none, none => some (.beside .after id)
  | none, none, some id, none => some (.into id)
  | none, none, none, some id => some (.intoRoot id)
  | _, _, _, _ => none

end Parsed

/-- Reads the command of the given name from its options and words. -/
def Command.ofParsed? (name : String) (parsed : Parsed) : Option Command :=
  match name, parsed.words with
  | "root", [root] => do
    let shape ← parsed.read? "kind" shapeOfArgument?
    return .createRoot root (shape.getD .tree)
  | "add", [member] => do
    let some root ← parsed.read? "root" Id.ofText? | none
    let node ← parsed.read? "parent" Id.ofText?
    return .add { root, node } member (if parsed.has "interior" then .interior else .leaf)
  | "show", [] => some (.draw (parsed.has "ids"))
  | "drop", [source] => return .drop (← Id.ofText? source) (← parsed.landing?)
  | "rename", [id, name] => return .rename (← Id.ofText? id) name
  | "delete", [id] => return .delete (← Id.ofText? id)
  | "check", [] => some .check
  | "config", [] => return .configure (← parsed.path? "database") (parsed.value? "log-filter")
  | _, _ => none

/-- Reads a command line.  A path of the tables that follows the name of the command wins over one
that comes first. -/
def Invocation.ofArguments? (args : List String) : Option Invocation := do
  let outer ← parse? [databaseSpec] true args
  let name :: rest := outer.words | none
  let inner ← parse? (databaseSpec :: specsOf name) false rest
  let outerPath ← outer.path? "db"
  let innerPath ← inner.path? "db"
  let command ← Command.ofParsed? name inner
  return { databasePath := innerPath.or outerPath, command }

end Outline.CommandLine
