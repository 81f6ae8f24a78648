import HdlDesk.Disk.Basic
import HdlDesk.Error
import HdlDesk.Settings

/-!
# Where files are kept

Each user has a folder for data and one for what can be computed again. They are given by two
variables of the environment, or else lie at fixed places below the home folder; a variable that is
set to nothing counts as absent. The session is kept below the first, the settings below the
second.
-/
namespace HdlDesk

/-- The variables of the environment that matter. -/
structure Environment where
  home : Option String := none
  dataHome : Option String := none
  cacheHome : Option String := none
  temporary : Option String := none
  deriving DecidableEq, Repr

namespace Environment

/-- The value of a variable that is set to something. -/
def given (value : Option String) : Option String := value.filter (· ≠ "")

def belowHome (environment : Environment) (path : String) : Option String :=
  (given environment.home).map fun home => Path.join home path

def dataFolder (environment : Environment) : Option String :=
  (given environment.dataHome <|> environment.belowHome ".local/share").map fun base =>
    Path.join base "veriwork"

def logFolder (environment : Environment) : Option String :=
  environment.dataFolder.map fun folder => Path.join folder "logs"

def stateFile (environment : Environment) : Option String :=
  environment.dataFolder.map fun folder => Path.join folder "state.json"

def settingsFile (environment : Environment) : Option String :=
  (given environment.cacheHome <|> environment.belowHome ".cache").map fun base =>
    Path.join (Path.join base ".veriwork") "setting.json"

/-- The folder for the log when the data folder cannot hold it. -/
def spareLogFolder (environment : Environment) : String :=
  let base := environment.temporary.getD "/tmp"
  if base = "" then "veriwork/logs" else Path.join base "veriwork/logs"

end Environment

namespace Disk

/-- Makes sure of a folder of the environment; `what` it is for is said if there is none. -/
def ensureFolder (disk : Disk) (folder : Option String) (what : String) :
    Except DiskError String × Disk :=
  match folder with
  | none => (.error (.refused ("Cannot determine " ++ what ++ " directory")), disk)
  | some path =>
    let (answer, disk) := disk.makeFolders path
    (answer.map fun _ => path, disk)

def ensureData (disk : Disk) (environment : Environment) : Except DiskError String × Disk :=
  disk.ensureFolder environment.dataFolder "data"

def ensureLog (disk : Disk) (environment : Environment) : Except DiskError String × Disk :=
  disk.ensureFolder environment.logFolder "log"

/-- Writes the default settings, folder and all, unless something is at their path. -/
def writeDefaultSettings (disk : Disk) (path : String) : Except DiskError Unit × Disk :=
  if disk.isPresent path then (.ok (), disk)
  else
    match disk.makeFolders ((Path.parent? path).getD "") with
    | (.error refused, disk) => (.error refused, disk)
    | (.ok (), disk) => disk.writeText path (Stored.printSpread ({} : Settings))

/-- Makes sure of a settings file; one that is there is left as it is. -/
def ensureSettings (disk : Disk) (environment : Environment) : Except DiskError String × Disk :=
  match environment.settingsFile with
  | none => (.error (.refused "Cannot determine settings directory"), disk)
  | some path =>
    let (answer, disk) := disk.writeDefaultSettings path
    (answer.map fun _ => path, disk)

/-- The settings in a file; none when it cannot be read as settings. -/
def settingsAt? (disk : Disk) (path : String) : Option Settings :=
  (disk.readText path).toOption.bind Stored.read?

def settings? (disk : Disk) (environment : Environment) : Option Settings :=
  environment.settingsFile.bind disk.settingsAt?

end Disk

end HdlDesk
