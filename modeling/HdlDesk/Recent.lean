import HdlDesk.Storage.Records

/-!
# Recent files

The files that were opened last, the newest first, each name once and no more than a fixed number
of them. Opening a file that is on the list moves it to the front with its new text.
-/
namespace HdlDesk

structure RecentFile where
  name : String
  content : String
  deriving DecidableEq, Repr

/-- The text may be left out of the record. -/
instance : Stored RecentFile where
  toJson file := .object [(some "name", .text file.name), (some "content", .text file.content)]
  ofJson? json :=
    match json.fields? ["name", "content"] with
    | some [name, content] => do
      return ⟨← Json.required? name, ← Json.optional? "" content⟩
    | _ => none

structure RecentFiles where
  capacity : Nat
  files : List RecentFile
  deriving DecidableEq, Repr

namespace RecentFiles

/-- The number of files that are kept when nothing else is configured. -/
def defaultCapacity : Nat := 15

/-- The empty list that keeps so many files, but at least one. -/
def ofCapacity (capacity : Nat) : RecentFiles := ⟨max capacity 1, []⟩

/-- The first file of each name, in order, until `room` of them are taken; `kept` holds those
already taken, last first. -/
def takeDistinct : Nat → List RecentFile → List RecentFile → List RecentFile
  | _, kept, [] => kept.reverse
  | 0, kept, _ :: _ => kept.reverse
  | room + 1, kept, file :: rest =>
    if kept.any fun other => other.name = file.name then takeDistinct (room + 1) kept rest
    else takeDistinct room (file :: kept) rest

/-- The list that a storage holds; a record that cannot be read counts as absent. -/
def restore {σ : Type} [KeyValueStore σ] (storage : σ) (capacity : Nat) : RecentFiles :=
  let recent := ofCapacity capacity
  match readRecord? storage RecordKey.recentFiles with
  | .ok (some files) => { recent with files := takeDistinct recent.capacity [] files }
  | _ => recent

def get? (recent : RecentFiles) (name : String) : Option RecentFile :=
  recent.files.find? fun file => file.name = name

/-- Puts a file at the front, and tells whether the list has changed by it. -/
def touch (recent : RecentFiles) (name content : String) : Bool × RecentFiles :=
  let file : RecentFile := ⟨name, content⟩
  if recent.files.head? = some file then (false, recent)
  else
    let others := recent.files.filter fun other => other.name ≠ name
    (true, { recent with files := (file :: others).take recent.capacity })

def clear (recent : RecentFiles) : RecentFiles := { recent with files := [] }

def writes (recent : RecentFiles) : List Write :=
  [.record RecordKey.recentFiles recent.files]

end RecentFiles

end HdlDesk
