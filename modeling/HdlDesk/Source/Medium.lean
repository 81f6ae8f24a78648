import HdlDesk.Disk.Error
import HdlDesk.Text.Utf8

/-!
# Media

A medium is a file system as it shows itself to those who load sources from it. The names in it are
bytes that need not be any text. There may be files that cannot be read and folders that cannot be
listed, and where a path leads to is up to the medium. A folder is walked through depth first,
siblings in the order of their bytes; where the walk may not look it comes past a refusal and goes
on behind it.
-/
namespace HdlDesk

/-- The name of an entry, as the medium has it. -/
abbrev RawName := List UInt8

/-- The names that lead to an item from the root without passing a link. -/
abbrev RawPlace := List RawName

abbrev RawPath := List UInt8

namespace RawPath

def slash : UInt8 := 0x2F

def dot : UInt8 := 0x2E

/-- The path of a place, from the root. -/
def ofPlace (place : RawPlace) : RawPath := slash :: [slash].intercalate place

/-- The name that a path ends in. Dots are passed over, and there is none behind two dots or at the
root. -/
def fileName? (path : RawPath) : Option RawName :=
  ((path.splitOn slash).filter fun part => part ≠ [] ∧ part ≠ [dot]).getLast?.filter
    (· ≠ [dot, dot])

end RawPath

/-- What lies at a place. -/
inductive Item where
  /-- A regular file with what comes of reading it. -/
  | file (reading : Except DiskError ByteArray)
  /-- A link or a device. To a walk it is no file, though there may be bytes to read. -/
  | other (reading : Except DiskError ByteArray)
  | folder (entries : List (RawName × Item))

/-- What a walk comes past: an item with the names that lead to it, or a refusal in its stead. -/
abbrev Visit := Except DiskError (RawPlace × Item)

/-- A visit below an entry, as one below the folder that the entry is in. -/
def Visit.within (name : RawName) (visit : Visit) : Visit :=
  visit.map fun (names, item) => (name :: names, item)

namespace Item

def at? : Item → RawPlace → Option Item
  | item, [] => some item
  | .folder entries, name :: rest =>
    match entries.lookup name with
    | some item => at? item rest
    | none => none
  | _, _ :: _ => none

def inOrder {α : Type} (siblings : List (RawName × α)) : List (RawName × α) :=
  siblings.mergeSort fun a b => decide (a.1 ≤ b.1)

/-- The visit to an item and those below it, unless the walk may not look there. -/
def look (refusal : RawPlace → Option DiskError) (item : Item) (below : List Visit) : List Visit :=
  match refusal [] with
  | some refused => [.error refused]
  | none => .ok ([], item) :: below

mutual
/-- What a walk that starts at an item comes past. What is refused is given by the names from
there. -/
def visits (refusal : RawPlace → Option DiskError) : Item → List Visit
  | .file reading => look refusal (.file reading) []
  | .other reading => look refusal (.other reading) []
  | .folder entries =>
    look refusal (.folder entries) ((inOrder (visitsAmong refusal entries)).flatMap
      fun (name, below) => below.map (Visit.within name))

/-- The entries of a folder with the visits below each. -/
def visitsAmong (refusal : RawPlace → Option DiskError) :
    List (RawName × Item) → List (RawName × List Visit)
  | [] => []
  | (name, item) :: rest =>
    (name, visits (fun names => refusal (name :: names)) item) :: visitsAmong refusal rest
end

end Item

structure Medium where
  root : Item
  /-- The place where what is opened by a path is found. -/
  resolve : RawPath → Except DiskError RawPlace
  /-- The place that the medium names when it is asked for the path without links and dots. It
  looks up each name on the way, so it may refuse where opening succeeds. -/
  canonical : RawPath → Except DiskError RawPlace
  /-- Why a walk may not look at a place, or may not list the folder there. -/
  refusal : RawPlace → Option DiskError

namespace Medium

def item? (medium : Medium) (path : RawPath) : Except DiskError Item :=
  match medium.resolve path with
  | .ok place => (medium.root.at? place).elim (.error .notFound) .ok
  | .error refused => .error refused

def isFolder (medium : Medium) (path : RawPath) : Bool :=
  match medium.item? path with
  | .ok (.folder _) => true
  | _ => false

def read (medium : Medium) (path : RawPath) : Except DiskError ByteArray :=
  match medium.item? path with
  | .ok (.file reading) => reading
  | .ok (.other reading) => reading
  | .ok (.folder _) => .error .isADirectory
  | .error refused => .error refused

/-- What a walk through the folder at a place comes past, by the names from there. -/
def visits (medium : Medium) (folder : RawPlace) : List Visit :=
  match medium.root.at? folder with
  | some item => item.visits fun names => medium.refusal (folder ++ names)
  | none => [.error .notFound]

end Medium

end HdlDesk
