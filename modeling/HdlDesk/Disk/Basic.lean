import HdlDesk.Disk.Error
import HdlDesk.Disk.Path

/-!
# Disks

A disk is a tree of folders, files and symbolic links, seen from a working folder. A path is walked
step by step: a link met on the way is replaced by the steps of its target, at most forty times in
one walk, and only a folder can be stepped through. A place is the list of names that lead to a
node from the root without passing a link.
-/
namespace HdlDesk

inductive Node where
  | file (bytes : ByteArray)
  | link (target : String)
  | folder (entries : List (String × Node))

/-- The names that lead to a node from the root. -/
abbrev Place := List String

namespace Node

def child? : List (String × Node) → String → Option Node
  | [], _ => none
  | (name, node) :: rest, wanted => if name = wanted then some node else child? rest wanted

def at? : Node → Place → Option Node
  | node, [] => some node
  | .folder entries, name :: rest =>
    match child? entries name with
    | some node => at? node rest
    | none => none
  | _, _ :: _ => none

/-- Replaces the entry with a name, or adds one, keeping the entries in order of their names. -/
def putChild (name : String) (node : Node) : List (String × Node) → List (String × Node)
  | [] => [(name, node)]
  | (other, held) :: rest =>
    if name < other then (name, node) :: (other, held) :: rest
    else if other = name then (name, node) :: rest
    else (other, held) :: putChild name node rest

/-- Changes the entry at a place, or removes it when the change answers `none`. A place that leads
through anything but folders is left alone. -/
def alter (change : Option Node → Option Node) : Place → Node → Node
  | [], node => (change (some node)).getD node
  | [name], .folder entries =>
    match change (child? entries name) with
    | some node => .folder (putChild name node entries)
    | none => .folder (entries.filter fun entry => entry.1 ≠ name)
  | name :: next :: rest, .folder entries =>
    match child? entries name with
    | some node => .folder (putChild name (alter change (next :: rest) node) entries)
    | none => .folder entries
  | _ :: _, node => node

def isFolder : Node → Bool
  | .folder _ => true
  | _ => false

end Node

structure Position where
  node : Node
  /-- The names from the root, the last first, each with the folder that it was entered from. -/
  way : List (String × Node) := []

namespace Position

def place (position : Position) : Place := (position.way.map Prod.fst).reverse

def enter (position : Position) (name : String) (child : Node) : Position :=
  ⟨child, (name, position.node) :: position.way⟩

/-- In the folder around; nothing is around the root. -/
def up (position : Position) : Position :=
  match position.way with
  | [] => position
  | (_, around) :: rest => ⟨around, rest⟩

/-- At a place below, which is led to by folders alone. -/
def below? : Position → Place → Option Position
  | position, [] => some position
  | position, name :: rest =>
    match position.node with
    | .folder entries => (Node.child? entries name).bind fun child =>
        below? (position.enter name child) rest
    | _ => none

end Position

structure Disk where
  root : Node
  /-- The place that relative paths start from. -/
  workingFolder : Place

inductive Found where
  | node (place : Place) (node : Node)
  /-- In a folder that has no entry with the last name. -/
  | missing (folder : Place) (name : String)

/-- What a walk is for, which decides what becomes of its last step. -/
inductive Purpose where
  /-- To use what is there: a link at the end is followed. -/
  | reach
  /-- To have a file there: a link at the end is followed, and no closing slash may stand behind the
  last name, neither in the path nor in the target of such a link. -/
  | fill
  /-- To handle the entry itself: a link at the end is not followed, and a closing slash is left to
  those who asked. -/
  | handle
  deriving DecidableEq, Repr

namespace Disk

def empty : Disk := ⟨.folder [], []⟩

def linkLimit : Nat := 40

/-- Where the steps of a path start from, for a walk that stands at `here`. -/
def start (root : Node) (path : String) (here : Position) : Position :=
  if Path.isAbsolute path then ⟨root, []⟩ else here

/-- Follows steps from a position. `jump` goes on after a link. -/
def walkWith (root : Node) (purpose : Purpose)
    (jump : Position → List Path.Step → Except DiskError Found) :
    Position → List Path.Step → Except DiskError Found
  | here, [] => .ok (.node here.place here.node)
  | here, step :: rest =>
    match here.node, step with
    | .folder _, .stay => walkWith root purpose jump here rest
    | .folder _, .close => walkWith root purpose jump here rest
    | .folder _, .up => walkWith root purpose jump here.up rest
    | .folder entries, .enter name =>
      -- What is to be a file is refused as a folder before its name is looked at.
      if purpose = .fill ∧ rest = [.close] then .error .isADirectory
      else if Path.Step.nameBound < name.utf8ByteSize then .error .nameTooLong
      else match Node.child? entries name with
        | none => if rest = [] then .ok (.missing here.place name) else .error .notFound
        | some (.link target) =>
          -- Only the last step can be looked at as a link; one on the way has to lead on.
          if rest = [] ∧ purpose = .handle then .ok (.node (here.place ++ [name]) (.link target))
          else jump (start root target here) (Path.steps target ++ rest)
        | some child => walkWith root purpose jump (here.enter name child) rest
    | _, _ => .error .notADirectory

/-- Follows steps from a position and at most so many links. -/
def walk (root : Node) (purpose : Purpose) :
    Nat → Position → List Path.Step → Except DiskError Found
  | 0 => walkWith root purpose fun _ _ => .error .tooManyLinks
  | links + 1 => walkWith root purpose (walk root purpose links)

def find (disk : Disk) (path : String) (purpose : Purpose) : Except DiskError Found :=
  if path.toList.contains '\x00' then .error .zeroInPath
  else if Path.lengthBound ≤ path.utf8ByteSize then .error .nameTooLong
  else if path = "" then .error .notFound
  else
    let root : Position := ⟨disk.root, []⟩
    let steps := if purpose = .handle then Path.openSteps path else Path.steps path
    match if Path.isAbsolute path then some root else root.below? disk.workingFolder with
    | some here => walk disk.root purpose linkLimit here steps
    | none => .error .notFound

/-- The node that a path leads to, through links. -/
def node? (disk : Disk) (path : String) : Except DiskError (Place × Node) :=
  match disk.find path .reach with
  | .ok (.node place node) => .ok (place, node)
  | .ok (.missing _ _) => .error .notFound
  | .error refused => .error refused

/-! ### Looking -/

def readBytes (disk : Disk) (path : String) : Except DiskError ByteArray :=
  match disk.node? path with
  | .ok (_, .file bytes) => .ok bytes
  | .ok (_, .folder _) => .error .isADirectory
  | .ok (_, .link _) => .error .tooManyLinks
  | .error refused => .error refused

/-- The text of a file, whose bytes must be UTF-8. -/
def readText (disk : Disk) (path : String) : Except DiskError String :=
  match disk.readBytes path with
  | .ok bytes =>
    match String.fromUTF8? bytes with
    | some text => .ok text
    | none => .error .notText
  | .error refused => .error refused

def isPresent (disk : Disk) (path : String) : Bool :=
  (disk.node? path).toOption.isSome

def isFolder (disk : Disk) (path : String) : Bool :=
  match disk.node? path with
  | .ok (_, node) => node.isFolder
  | .error _ => false

/-! ### Changing -/

def put (disk : Disk) (place : Place) (node : Node) : Disk :=
  { disk with root := disk.root.alter (fun _ => some node) place }

def remove (disk : Disk) (place : Place) : Disk :=
  { disk with root := disk.root.alter (fun _ => none) place }

def makeFolder (disk : Disk) (path : String) : Except DiskError Unit × Disk :=
  match disk.find path .handle with
  | .ok (.missing folder name) => (.ok (), disk.put (folder ++ [name]) (.folder []))
  | .ok (.node _ _) => (.error .alreadyExists, disk)
  | .error refused => (.error refused, disk)

/-- Makes a folder again if the refusal shows that the folder it belongs into had to be made. -/
def makeFoldersWithin : Nat → Disk → String → Except DiskError Unit × Disk
  | 0, disk, _ => (.error .notFound, disk)
  | depth + 1, disk, path =>
    match disk.makeFolder path with
    | (.ok (), disk) => (.ok (), disk)
    | (.error .notFound, disk) =>
      -- The folder it belongs into is missing: make that one first and then try again.
      match Path.parent? path with
      | none => (.error .notFound, disk)
      | some parent =>
        match if parent = "" then (.ok (), disk) else makeFoldersWithin depth disk parent with
        | (.error refused, disk) => (.error refused, disk)
        | (.ok (), disk) =>
          match disk.makeFolder path with
          | (.ok (), disk) => (.ok (), disk)
          | (.error refused, disk) =>
            if disk.isFolder path then (.ok (), disk) else (.error refused, disk)
    | (.error refused, disk) =>
      if disk.isFolder path then (.ok (), disk) else (.error refused, disk)

/-- Makes a folder and those it belongs into, as far as they are missing. -/
def makeFolders (disk : Disk) (path : String) : Except DiskError Unit × Disk :=
  if path = "" then (.ok (), disk) else makeFoldersWithin (path.length + 1) disk path

/-- Writes a file, in the stead of one that is there; through a link, to where it leads. -/
def writeBytes (disk : Disk) (path : String) (bytes : ByteArray) :
    Except DiskError Unit × Disk :=
  match disk.find path .fill with
  | .ok (.missing folder name) => (.ok (), disk.put (folder ++ [name]) (.file bytes))
  | .ok (.node place (.file _)) => (.ok (), disk.put place (.file bytes))
  | .ok (.node _ _) => (.error .isADirectory, disk)
  | .error refused => (.error refused, disk)

def writeText (disk : Disk) (path text : String) : Except DiskError Unit × Disk :=
  disk.writeBytes path text.toUTF8

def makeLink (disk : Disk) (path target : String) : Except DiskError Unit × Disk :=
  match disk.find path .handle with
  | .ok (.missing folder name) => (.ok (), disk.put (folder ++ [name]) (.link target))
  | .ok (.node _ _) => (.error .alreadyExists, disk)
  | .error refused => (.error refused, disk)

/-- Removes what is at a path, a folder with all that is in it. A link is removed, not followed. -/
def removeAll (disk : Disk) (path : String) : Except DiskError Unit × Disk :=
  match disk.find path .handle with
  | .ok (.node place _) => (.ok (), disk.remove place)
  | .ok (.missing _ _) => (.error .notFound, disk)
  | .error refused => (.error refused, disk)

/-- Gives a file another place, in the stead of a file or link that is there. Links are moved, not
followed. A place that is named like a folder, with a slash behind it, is refused once the folder
that it would be in has been found. -/
def moveFile (disk : Disk) (path target : String) : Except DiskError Unit × Disk :=
  match disk.find path .handle with
  | .error refused => (.error refused, disk)
  | .ok (.missing _ _) => (.error .notFound, disk)
  | .ok (.node place moved) =>
    match disk.find target .handle with
    | .error refused => (.error refused, disk)
    | .ok found =>
      if !Path.endsInName target then (.error .busy, disk)
      else if Path.endsInSlash target then (.error .notADirectory, disk)
      else match found with
        -- Nothing is at the target, or what is there gives way, unless it is a folder.
        | .missing folder name => (.ok (), (disk.remove place).put (folder ++ [name]) moved)
        | .node held there =>
          if there.isFolder then (.error .isADirectory, disk)
          else if held = place then (.ok (), disk)
          else (.ok (), (disk.remove place).put held moved)

end Disk

end HdlDesk
