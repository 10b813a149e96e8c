import Outline.CommandLine.Command
import Outline.Drawing
import Outline.Defect
import Outline.Settings
import Outline.Store.Commit
import Outline.Store.Migration

/-!
# Running commands

One run of the program: from the files that it finds to what it prints and the files that it leaves.
-/

namespace Outline.CommandLine

open Store (Database)

/-- The files that a run may find and leave. -/
structure Host where
  settingsPath : String
  /-- The settings file, if there is one. -/
  settings : Option String := none
  /-- Where the tables are kept unless another path is given. -/
  defaultDatabase : String
  databases : List (String × Database) := []

/-- What a run brings with it: an identifier that is not in use, and a time stamp. -/
structure Supply where
  fresh : Id
  stamp : String

/-- What a run prints, and how it ends. -/
structure Outcome where
  code : Nat := 0
  stdout : String := ""
  stderr : String := ""
  /-- The root or member that was created. -/
  created : Option Id := none
  deriving DecidableEq

namespace Outcome

/-- The run ends after printing a line. -/
def line (text : String) : Outcome where
  stdout := text ++ "\n"

/-- The run ends with an error. -/
def error (message : String) (cause : Option String := none) : Outcome where
  code := 1
  stderr := "Error: " ++ message ++ "\n" ++
    cause.elim "" fun cause => "\nCaused by:\n    " ++ cause ++ "\n"

/-- The arguments cannot be read. -/
def misused : Outcome where
  code := 2

/-- The run ends with a fault of the tables. -/
def ofFault (fault : Store.Fault) : Outcome :=
  .error fault.message

/-- The run ends with a drop or an edit that came to nothing. -/
def ofFailure (failure : Failure) : Outcome :=
  .error failure.message failure.cause?

/-- The run ends with a report of what was committed. -/
def ofReport (report : Report) : Outcome :=
  if report.isNoop then .line "No change"
  else .line s!"Committed {report.commands} commands in {report.size} batches"

end Outcome

/-- What a drag of a root or a member of the workspace carries; `none` if there is no such thing. -/
def payloadFor? (w : Workspace) (id : Id) : Option Payload :=
  if (w.root? id).isSome then
    some (.root id)
  else do
    let found ← w.locate? id
    let shape ← w.shape? found.container
    let family : Family := match shape, found.member.kind with
      | .tree, _ => .treeNode
      | .groupedList, .interior => .group
      | _, _ => .listItem
    return .member family { container := found.container, member := id }

/-- The target that a root or a member of the workspace is; `none` if there is no such thing. -/
def targetFor? (w : Workspace) (id : Id) : Option Target :=
  if (w.root? id).isSome then
    some (.root id)
  else
    (w.locate? id).map fun found => .member found.container id

namespace Landing

/-- What the landing asks for. -/
def action : Landing → Action
  | .beside side _ => .beside side
  | .into _ | .intoRoot _ => .combine

/-- What the landing names. -/
def id : Landing → Id
  | .beside _ id | .into id | .intoRoot id => id

/-- The target of a landing; `none` if what it names is not there. -/
def target? (w : Workspace) : Landing → Option Target
  | .beside _ id | .into id => targetFor? w id
  | .intoRoot id => some (.root id)

end Landing

/-- What is said when there is no member of that name. -/
def notFound (id : Id) : Outcome :=
  .error s!"Member {id.text} not found"

/-- Carries out a drop. -/
def runDrop (db : Database) (w : Workspace) (source : Id) (landing : Landing) (stamp : String) :
    Outcome × Database :=
  match payloadFor? w source, landing.target? w with
  | none, _ => (notFound source, db)
  | some _, none => (notFound landing.id, db)
  | some payload, some target =>
    match (Database.reconciler stamp).drop (.start payload) (.single target landing.action)
      { store := db, cache := w } with
    | (.ok report, _, state) => (.ofReport report, state.store)
    | (.error failure, _, state) => (.ofFailure failure, state.store)

/-- Carries out an edit and reports it by `report`. -/
def runEdit (db : Database) (w : Workspace) (edit : Edit) (supply : Supply)
    (report : Report → Outcome) : Outcome × Database :=
  match (Database.reconciler supply.stamp).edit edit supply.fresh { store := db, cache := w } with
  | (.ok done, state) => (report done, state.store)
  | (.error failure, state) => (.ofFailure failure, state.store)

/-- Reports the member that an edit added. -/
def createdLine (report : Report) : Outcome :=
  match report.created with
  | some id => { Outcome.line id.text with created := some id }
  | none => {}

/-- Lists what is wrong with a workspace, if anything is. -/
def runCheck (w : Workspace) : Outcome :=
  match w.defects with
  | [] => .line "OK"
  | defects =>
    { Outcome.error s!"{defects.length} invariant violations" with
      stdout := unlines (defects.map Defect.message) }

/-- Carries out a command that works on a loaded workspace. -/
def runLoaded (db : Database) (w : Workspace) (supply : Supply) : Command → Outcome × Database
  | .add container name kind => runEdit db w (.add container name kind) supply createdLine
  | .rename id name => runEdit db w (.rename id name) supply .ofReport
  | .delete id => runEdit db w (.delete id) supply .ofReport
  | .drop source landing => runDrop db w source landing supply.stamp
  | .draw showIds => ({ stdout := w.draw showIds }, db)
  | .check => (runCheck w, db)
  | .createRoot .. | .configure .. => ({}, db)

/-- Carries out a command on the tables. -/
def runOn (db : Database) (supply : Supply) (command : Command) : Outcome × Database :=
  match command with
  | .createRoot name shape =>
    match db.createRoot supply.fresh name shape supply.stamp with
    | .ok (root, db) => ({ Outcome.line root.id.text with created := some root.id }, db)
    | .error fault => (.ofFault fault, db)
  | command =>
    match db.load with
    | .ok w => runLoaded db w supply command
    | .error fault => (.ofFault fault, db)

namespace Host

variable (host : Host)

/-- The present settings; the usual ones if the file cannot be read. -/
def currentSettings : Settings :=
  (Settings.ofFile? host.settings).getD {}

/-- The tables at a path, brought to the present layout.  New tables are empty. -/
def database (path : String) : Database :=
  ((host.databases.lookup path).getD {}).migrate

/-- The files after tables have been written to a path. -/
def withDatabase (path : String) (db : Database) : Host :=
  { host with databases := (path, db) :: host.databases.filter (·.1 ≠ path) }

/-- Changes the settings and saves them. -/
def configure (databasePath logFilter : Option String) : Outcome × Host :=
  let old := host.currentSettings
  let settings : Settings :=
    { databasePath := databasePath.or old.databasePath
      logFilter := logFilter.getD old.logFilter }
  (.line host.settingsPath, { host with settings := some settings.text })

/-- The path of the tables that an invocation works on. -/
def databasePath (invocation : Invocation) : String :=
  (invocation.databasePath.or host.currentSettings.databasePath).getD host.defaultDatabase

/-- Whether a path names something inside a directory. -/
def hasDirectory (path : String) : Bool :=
  path.toList.any (· ≠ '/')

/-- Carries out an invocation. -/
def runInvocation (supply : Supply) (invocation : Invocation) : Outcome × Host :=
  match invocation.command with
  | .configure databasePath logFilter => host.configure databasePath logFilter
  | command =>
    let path := host.databasePath invocation
    if hasDirectory path then
      let (outcome, db) := runOn (host.database path) supply command
      (outcome, host.withDatabase path db)
    else
      (.error "Database path has no parent directory", host)

/-- One run of the program. -/
def run (supply : Supply) (args : List String) : Outcome × Host :=
  match Invocation.ofArguments? args with
  | some invocation => host.runInvocation supply invocation
  | none => (.misused, host)

end Host

end Outline.CommandLine
