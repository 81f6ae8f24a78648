import HdlDesk.Error
import HdlDesk.Json.Stored
import HdlDesk.Storage.Basic

/-!
# Records in a storage

The names under which the parts of the desk keep their records, and reading a record as a value.
The names are all different, and those of artifact records share a beginning that no other has.
-/
namespace HdlDesk

namespace RecordKey

def editorContent : String := "editorContent"
def fileName : String := "fileName"
def projectFiles : String := "projectFiles"
def activeFile : String := "activeFile"
def recentFiles : String := "recentFiles"

/-- The record of the artifacts of the file with a display key. -/
def artifact (displayKey : String) : String := "artifact-" ++ displayKey

end RecordKey

/-- The value of a record: `none` when there is no such record. -/
def readRecord? {σ α : Type} [KeyValueStore σ] [Stored α] (storage : σ) (key : String) :
    Except DeskError (Option α) :=
  match KeyValueStore.get? storage key with
  | none => .ok none
  | some text =>
    match Stored.read? text with
    | some value => .ok (some value)
    | none => .error (.malformedRecord key "not a record of this kind")

def Write.record {α : Type} [Stored α] (key : String) (value : α) : Write :=
  .set key (Stored.print value)

end HdlDesk
