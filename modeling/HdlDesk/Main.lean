import HdlDesk.CommandLine.Reach
import HdlDesk.CommandLine.Run
import HdlDesk.Disk.Changes

/-!
# The program

What a run does is computed by `CommandLine.run` on a disk. Here that disk is filled from the
machine with all that the run can reach, the changes made to it are made on the machine, and what
the run prints is printed. Nothing is decided here.
-/
namespace HdlDesk.Machine

def pathOf (place : Place) : String := Path.ofNames true place

/-- A path that leads nowhere on any machine, for no name holds a zero character. -/
def nowhere : String := "/\x00/\x00"

/-- Where a link leads when it is followed to its end. Of one that leads nowhere all that counts is
whether it is part of a circle. -/
def lookThrough (path : String) : IO String := do
  try return (← IO.FS.realPath path).toString
  catch _ =>
    try
      discard (IO.FS.readBinFile path)
      return nowhere
    catch
      | .invalidArgument .. => return path
      | _ => return nowhere

/-- What the machine has in a folder under a name, without what is below. What is neither a folder
nor a file nor a link is not seen. The folder's place is led to by folders alone. -/
def look (folder : Place) (name : String) : IO (Option Node) := do
  try
    let path := (← IO.FS.realPath (pathOf folder)) / name
    match (← path.symlinkMetadata).type with
    | .dir => return some (.folder [])
    | .file => return some (.file (← IO.FS.readBinFile path))
    | .symlink => return some (.link (← lookThrough path.toString))
    | .other => return none
  catch _ => return none

/-- Fills in what lies along some steps. -/
partial def fillAlong (disk : Disk) (here : Place) : List Path.Step → IO Disk
  | [] => return disk
  | .stay :: rest => fillAlong disk here rest
  | .close :: rest => fillAlong disk here rest
  | .up :: rest => fillAlong disk here.dropLast rest
  | .enter name :: rest => do
    let place := here ++ [name]
    let held := disk.root.at? place
    match ← if held.isSome then pure held else look here name with
    | none => return disk
    | some node =>
      let disk := if held.isSome then disk else disk.put place node
      match node with
      | .link target =>
        -- A link that is part of a circle leads no further.
        if target = pathOf place then return disk
        else fillAlong disk [] (Path.steps target ++ rest)
      | _ => fillAlong disk place rest

/-- What the machine has in a folder, with all that is below, as far as it can be read. -/
partial def lookBelow (folder : Place) : IO (List (String × Node)) := do
  let mut entries := []
  for entry in ← (← IO.FS.realPath (pathOf folder)).readDir do
    let name := entry.fileName
    match ← look folder name with
    | some (.folder _) =>
      let below ← try lookBelow (folder ++ [name]) catch _ => pure []
      entries := Node.putChild name (.folder below) entries
    | some node => entries := Node.putChild name node entries
    | none => pure ()
  return entries

def fillFolder (disk : Disk) (path : String) : IO Disk :=
  match disk.node? path with
  | .ok (place, .folder _) => return disk.put place (.folder (← lookBelow place))
  | _ => return disk

/-- The machine's disk, as far as a run reaches it. -/
def fill (environment : Environment) (arguments : List String) : IO Disk := do
  let current := (← IO.currentDir).toString
  let workingFolder := Path.names current
  let mut disk : Disk := { root := .folder [], workingFolder := workingFolder }
  disk ← fillAlong disk [] (Path.steps current)
  for path in CommandLine.reach environment arguments do
    let here := if Path.isAbsolute path then [] else workingFolder
    disk ← fillAlong disk here (Path.steps path)
  match CommandLine.openedFolder? arguments with
  | some path => fillFolder disk path
  | none => return disk

/-- Makes a change. A file is written beside its place first and then moved there. -/
def make : Change → IO Unit
  | .removeFile place => IO.FS.removeFile (pathOf place)
  | .makeFolder place => IO.FS.createDirAll (pathOf place)
  | .writeFile place bytes => do
    let draft := StateFile.draftPath (pathOf place)
    IO.FS.writeBinFile draft bytes
    IO.FS.rename draft (pathOf place)

def environment : IO Environment := do
  return {
    home := ← IO.getEnv "HOME"
    dataHome := ← IO.getEnv "XDG_DATA_HOME"
    cacheHome := ← IO.getEnv "XDG_CACHE_HOME"
    temporary := ← IO.getEnv "TMPDIR" }

def run (arguments : List String) : IO UInt32 := do
  let environment ← environment
  let before ← fill environment arguments
  let (exit, after) := CommandLine.run before environment arguments
  for change in before.changes after do
    -- As in the desk, a refused write is no reason to stop.
    try make change catch _ => pure ()
  (← IO.getStdout).putStr exit.out
  (← IO.getStderr).putStr exit.err
  return exit.code.toUInt32

end HdlDesk.Machine

def main (arguments : List String) : IO UInt32 := HdlDesk.Machine.run arguments
