import Outline.Id
import Outline.Text.Quoted

/-!
# Store faults

What can go wrong when tables are read or written.
-/

namespace Outline.Store

/-- A rule of the tables that a statement would break. -/
inductive Constraint where
  /-- A row has the identifier already. -/
  | uniqueId (table : String)
  /-- A row refers to a row that is not there. -/
  | foreignKey
  /-- A column would be left without a value. -/
  | notNull (column : String)
  deriving DecidableEq

/-- The text of a broken rule, with its number. -/
def Constraint.message : Constraint → String
  | .uniqueId table =>
    s!"UNIQUE constraint failed: {table}.id: Error code 1555: A PRIMARY KEY constraint failed"
  | .foreignKey => "FOREIGN KEY constraint failed: Error code 787: Foreign key constraint failed"
  | .notNull column =>
    s!"NOT NULL constraint failed: {column}: Error code 1299: A NOT NULL constraint failed"

/-- Why tables cannot be read, or a statement cannot be carried out. -/
inductive Fault where
  | broken (constraint : Constraint)
  | createFailed (member : Id) (constraint : Constraint)
  | memberNotFound (member : Id)
  | rootNotFound (root : Id)
  /-- A deletion sets off more deletions than may follow from one another. -/
  | tooDeep
  /-- A number that is read from a column is no order number. -/
  | outOfRange (value : Int) (column : Nat)
  | invalidId (text : String)
  | unknownMemberKind (text : String)
  | unknownShape (text : String)
  /-- The path of the row with the given identifier cannot be read. -/
  | invalidPath (id : String)
  deriving DecidableEq

/-- The text of a fault. -/
def Fault.message : Fault → String
  | .broken constraint => constraint.message
  | .createFailed member constraint =>
    s!"Failed to create member {member.text}: {constraint.message}"
  | .memberNotFound member => s!"Member {member.text} not found"
  | .rootNotFound root => s!"Root {root.text} not found"
  | .tooDeep =>
    "too many levels of trigger recursion: Error code 1: SQL error or missing database"
  | .outOfRange value column => s!"Integer {value} out of range at index {column}"
  | .invalidId text => "Invalid id " ++ Text.quoted text
  | .unknownMemberKind text => "Unknown member kind " ++ Text.quoted text
  | .unknownShape text => "Unknown collection kind " ++ Text.quoted text
  | .invalidPath id => s!"Invalid path for member {id}"

end Outline.Store
