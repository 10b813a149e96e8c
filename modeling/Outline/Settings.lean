import Outline.Encoding.Record
import Outline.Json.Reader
import Outline.Json.Writer

/-!
# Settings

The settings that a user keeps in a file, as indented JSON.
-/

namespace Outline

/-- The settings of a user. -/
structure Settings where
  /-- Where the tables are kept, if not in the usual place. -/
  databasePath : Option String := none
  /-- Which diagnostics are shown. -/
  logFilter : String := "arrange=info"
  deriving DecidableEq, Inhabited

namespace Settings

/-- Settings as a value. -/
def toJson (settings : Settings) : Json :=
  .obj [("database_path", .ofOption Json.str settings.databasePath),
    ("log_filter", .str settings.logFilter)]

/-- Reads settings.  Whatever is left out stands as usual. -/
def ofJson? (value : Json) : Option Settings := do
  let record ← Record.ofJson? ["database_path", "log_filter"] value
  let databasePath ← record.optional? "database_path" Json.text?
  let logFilter ← record.withDefault? "log_filter" Json.text? ({} : Settings).logFilter
  return { databasePath, logFilter }

/-- The text of a settings file. -/
def text (settings : Settings) : String :=
  settings.toJson.indentedText

/-- The settings that a file holds; without a file, the usual ones. -/
def ofFile? : Option String → Option Settings
  | none => some {}
  | some content => (Json.ofText? content).bind ofJson?

/-- What is said about a file that cannot be read. -/
def unreadable : String :=
  "Failed to parse config file"

end Settings

end Outline
