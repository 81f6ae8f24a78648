import HdlDesk.Disk.Basic
import HdlDesk.Json.Stored
import HdlDesk.Storage.Basic

/-!
# Storage in a file

The entries of a session in one file, as a JSON object of strings in order of their names. Every
call that changes an entry writes the file anew: the new text goes to a second file beside it, which
is then moved over the first, so that the file always holds one text or the other. When a step of
this fails, the entries in memory have changed already and stay so; the next save that succeeds
takes them along.

Only five operations of a disk are needed, and they are the class `FileSystem`.
-/
namespace HdlDesk

class FileSystem (φ : Type) where
  readText : φ → String → Except DiskError String
  isPresent : φ → String → Bool
  makeFolders : φ → String → Except DiskError Unit × φ
  writeText : φ → String → String → Except DiskError Unit × φ
  moveFile : φ → String → String → Except DiskError Unit × φ

instance : FileSystem Disk where
  readText := Disk.readText
  isPresent := Disk.isPresent
  makeFolders := Disk.makeFolders
  writeText := Disk.writeText
  moveFile := Disk.moveFile

namespace Entries

/-- Entries as an object; of members with one name the last counts. -/
instance : Stored Entries where
  toJson entries := .object (entries.pairs.map fun (key, value) => (some key, .text value))
  ofJson?
    | .object members => do
      let named ← Json.namedMembers? members
      let pairs ← named.mapM fun (name, value) => value.asText?.map fun text => (name, text)
      return SortedMap.ofList pairs
    | _ => none

end Entries

structure StateFile (φ : Type) where
  path : String
  entries : Entries
  files : φ

namespace StateFile

variable {φ : Type} [FileSystem φ]

/-- The entries in the file at a path. A file that is not there, or whose text is no object of
strings, holds none. -/
def entriesAt (files : φ) (path : String) : Except StorageError Entries :=
  match FileSystem.readText files path with
  | .ok text => .ok ((Stored.read? text).getD SortedMap.empty)
  | .error .notFound => .ok SortedMap.empty
  | .error refused => .error ⟨refused⟩

/-- Takes up the storage in the file at a path. -/
def openAt (files : φ) (path : String) : Except StorageError (StateFile φ) :=
  (entriesAt files path).map fun entries => ⟨path, entries, files⟩

/-- The file that a new text is written to first. -/
def draftPath (path : String) : String := Path.withExtension path "json.tmp"

/-- Makes the folder that a file belongs into if there is nothing at its path. -/
def makeRoom (files : φ) (path : String) : Except DiskError Unit × φ :=
  match Path.parent? path with
  | none => (.ok (), files)
  | some parent =>
    if parent = "" ∨ FileSystem.isPresent files parent then (.ok (), files)
    else FileSystem.makeFolders files parent

/-- Puts a text in the place of a file, by way of the draft. -/
def replace (files : φ) (path text : String) : Except DiskError Unit × φ :=
  match makeRoom files path with
  | (.error refused, files) => (.error refused, files)
  | (.ok (), files) =>
    -- The file itself is not touched before the draft is complete.
    match FileSystem.writeText files (draftPath path) text with
    | (.error refused, files) => (.error refused, files)
    | (.ok (), files) => FileSystem.moveFile files (draftPath path) path

def save (storage : StateFile φ) (entries : Entries) :
    Except StorageError Unit × StateFile φ :=
  let (answer, files) := replace storage.files storage.path (Stored.printSpread entries)
  (answer.mapError StorageError.mk, { storage with entries := entries, files := files })

/-- Setting a key to the value it has, and removing one that is not there, leave the file alone. -/
def apply (storage : StateFile φ) (call : Write) : Except StorageError Unit × StateFile φ :=
  match call with
  | .set key value =>
    if storage.entries.get? key = some value then (.ok (), storage)
    else storage.save (storage.entries.apply call)
  | .remove key =>
    if storage.entries.get? key = none then (.ok (), storage)
    else storage.save (storage.entries.apply call)
  | .clear => storage.save (storage.entries.apply call)

instance : KeyValueStore (StateFile φ) where
  get? storage key := storage.entries.get? key
  write := apply

end StateFile

end HdlDesk
