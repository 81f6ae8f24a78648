import HdlDesk.Disk.Medium
import HdlDesk.Source.Extensions

/-!
# Loading sources

A file is picked alone, or a folder is picked with everything below it. From a folder come the
accepted files that a walk comes past, which follows no link inside it. The walk starts from the
folder's canonical path, whatever path the folder was picked by, and each file is read by its own
path from the root. What the walk may not see and what cannot be read is left out. The path that a
file gets begins with the folder's own name.
-/
namespace HdlDesk

/-- The text of the name that a path ends in; empty when it ends in none. -/
def RawPath.pickedName (path : RawPath) : String :=
  ((RawPath.fileName? path).map Text.decode).getD ""

namespace Medium

def readRaw (medium : Medium) (path : RawPath) : Except DiskError RawSource :=
  (medium.read path).map fun bytes => ⟨RawPath.pickedName path, RawPath.pickedName path, bytes⟩

/-- What is picked of a visit below a folder: a file, if it is accepted and can be read. -/
def collect? (medium : Medium) (extensions : Extensions) (folder : RawPlace) :
    Visit → Option RawSource
  | .ok (names, .file _) =>
    let place := folder ++ names
    let name := RawPath.pickedName (RawPath.ofPlace place)
    if extensions.accepts name then
      (medium.read (RawPath.ofPlace place)).toOption.map fun bytes =>
        -- The folder's own name is kept; the root has none.
        ⟨name, "/".intercalate ((place.drop folder.dropLast.length).map Text.decode), bytes⟩
    else none
  | _ => none

def collectFolder (medium : Medium) (path : RawPath) (extensions : Extensions) :
    Except DiskError (List RawSource) :=
  if medium.isFolder path then
    match medium.canonical path with
    | .ok folder => .ok ((medium.visits folder).filterMap (medium.collect? extensions folder))
    | .error refused => .error refused
  else .error (.refused ("not a directory: " ++ Text.decode path))

/-- Opens a file alone. Its name is looked at before the medium is. -/
def loadSingle (medium : Medium) (path : RawPath) (extensions : Extensions) :
    Except DeskError SourceFile :=
  let name := RawPath.pickedName path
  if extensions.accepts name then
    match medium.readRaw path with
    | .ok raw => extensions.readSingle raw
    | .error refused => .error (.ofDisk refused)
  else .error (.invalidExtension name)

def loadFolder (medium : Medium) (path : RawPath) (extensions : Extensions) :
    Except DeskError (List SourceFile) :=
  match medium.collectFolder path extensions with
  | .ok raws => extensions.readFolder raws
  | .error refused => .error (.ofDisk refused)

end Medium

namespace Disk

def readRaw (disk : Disk) (path : String) : Except DiskError RawSource :=
  disk.medium.readRaw (Text.encode path)

def collectFolder (disk : Disk) (path : String) (extensions : Extensions) :
    Except DiskError (List RawSource) :=
  disk.medium.collectFolder (Text.encode path) extensions

def loadSingle (disk : Disk) (path : String) (extensions : Extensions) :
    Except DeskError SourceFile :=
  disk.medium.loadSingle (Text.encode path) extensions

def loadFolder (disk : Disk) (path : String) (extensions : Extensions) :
    Except DeskError (List SourceFile) :=
  disk.medium.loadFolder (Text.encode path) extensions

end Disk

end HdlDesk
