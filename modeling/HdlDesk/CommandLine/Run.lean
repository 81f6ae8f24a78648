import HdlDesk.CommandLine.Arguments
import HdlDesk.Places
import HdlDesk.Storage.StateFile
import HdlDesk.Text.Lines
import HdlDesk.Work.Session

/-!
# One run of the program

A run takes up the session, carries out one command, settles, and says where things stand. What it
prints, the code it ends with and the disk it leaves behind are all computed here; nothing is read
from the world but the disk, the arguments and the environment.
-/
namespace HdlDesk

namespace CommandLine

/-- What a run prints and the code it ends with. -/
structure Exit where
  code : Nat
  out : String := ""
  err : String := ""
  deriving DecidableEq, Repr

def lines (texts : List String) : String :=
  String.join (texts.map fun text => text ++ "\n")

/-- The line on standard output that something shown asks for. -/
def outLine? : Shown → Option String
  | .effect (.clipboard text) => some text
  | _ => none

/-- The line on standard error that something shown asks for. -/
def errLine? : Shown → Option String
  | .misuse error => some ("error: " ++ error.message)
  | .effect (.notice level message) => some (level.name ++ ": " ++ message)
  | _ => none

/-- A project's files, the active one marked. -/
def projectLines (project : Project) : List String :=
  project.files.mapIdx fun index file =>
    let mark := if index = project.active then "*" else " "
    " " ++ mark ++ " [" ++ Text.decimal index ++ "] " ++ file.path

def documentLines : Document → List String
  | .empty => ["workspace: empty"]
  | .single name _ => ["file: " ++ if name = "" then "<unnamed>" else name]
  | .project project =>
    ("project: " ++ Text.decimal project.files.length ++ " file(s)") :: projectLines project

/-- Where a desk stands. -/
def statusLines {σ : Type} [KeyValueStore σ] (desk : Desk σ) : List String :=
  let document := desk.state.document
  let entry := desk.entry desk.activeKey
  documentLines document ++
  ["key: " ++ desk.activeKey,
    "lines: " ++ Text.decimal (Text.countLines document.content),
    "view: " ++ entry.view.name] ++
  (if entry.explanation = "" then []
    else ["explanation: " ++ Text.decimal entry.explanation.length ++ " char(s)"]) ++
  (if entry.testbenchEnabled then
    ["testbench: " ++ Text.decimal (Text.countLines entry.testbench) ++ " line(s)"] else []) ++
  ["recent: " ++ Text.decimal desk.state.recent.files.length]

def recentLines (recent : RecentFiles) : List String :=
  if recent.files = [] then ["no recent files"] else recent.files.map RecentFile.name

end CommandLine

namespace Session

open CommandLine

variable {σ : Type} [KeyValueStore σ]

/-- Carries out a command in a session that has settled. What was shown before is forgotten. -/
def execute (session : Session σ) (work : Task → Answer) : Command → Exit × Session σ
  | .status =>
    let session := { session with desk := session.desk.load session.desk.activeKey }
    ({ code := 0, out := lines (statusLines session.desk) }, session)
  | .listRecent => ({ code := 0, out := lines (recentLines session.desk.state.recent) }, session)
  | .act action =>
    let settled := ({ session with failed := false, shown := [] }.apply action).settle work
    let exit : Exit := {
      code := if settled.failed then 1 else 0
      out := lines (settled.shown.filterMap outLine? ++ statusLines settled.desk)
      err := lines (settled.shown.filterMap errLine?) }
    (exit, { settled with desk := settled.desk.load settled.desk.activeKey })

end Session

namespace CommandLine

/-- Makes sure of a folder for the log: the usual one, or else one for temporary files. -/
def prepareLog (disk : Disk) (environment : Environment) : Disk :=
  match disk.ensureLog environment with
  | (.ok _, disk) => disk
  | (.error _, disk) => (disk.makeFolders environment.spareLogFolder).2

/-- The path of the session's file, whose folder is made unless the path was given. -/
def findState (disk : Disk) (environment : Environment) (given : Option String) :
    Except DiskError String × Disk :=
  match given with
  | some path => (.ok path, disk)
  | none =>
    match disk.ensureData environment with
    | (.error refused, disk) => (.error refused, disk)
    | (.ok folder, disk) => (.ok (environment.stateFile.getD folder), disk)

def stopped (message : String) : Exit := { code := 1, err := lines ["error: " ++ message] }

def invoke (disk : Disk) (environment : Environment) (invocation : Invocation) : Exit × Disk :=
  let disk := (prepareLog disk environment)
  let disk := (disk.ensureSettings environment).2
  let settings := (disk.settings? environment).getD {}
  let config := settings.config
  -- Tasks see the disk as it is when the command starts.
  let work (disk : Disk) : Task → Answer := Task.answer .offline disk config.extensions
  if invocation.inMemory ∨ settings.storage = .memory then
    let session := Session.start config (SortedMap.empty : Entries)
    ((session.execute (work disk) invocation.command).1, disk)
  else
    match findState disk environment invocation.statePath with
    | (.error refused, disk) => (stopped refused.message, disk)
    | (.ok path, disk) =>
      match StateFile.openAt disk path with
      | .error refused => (stopped refused.message, disk)
      | .ok storage =>
        let (exit, session) :=
          (Session.start config storage).execute (work disk) invocation.command
        (exit, session.desk.storage.files)

/-- One run of the program: what it prints, its code, and the disk afterwards. -/
def run (disk : Disk) (environment : Environment) (arguments : List String) : Exit × Disk :=
  if arguments.any asksHelp then ({ code := 0, out := lines [usage] }, disk)
  else
    match readArguments disk.readText arguments with
    | .error refused => ({ code := 2, err := lines [refused.message, "", usage] }, disk)
    | .ok invocation => invoke disk environment invocation

end CommandLine

end HdlDesk
