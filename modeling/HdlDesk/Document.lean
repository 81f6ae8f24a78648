import HdlDesk.Error
import HdlDesk.Source.File
import HdlDesk.Storage.Records
import HdlDesk.Artifact.Basic
import HdlDesk.Text.Blank

/-!
# The open document

What is open right now: nothing, one file, or a project of several files of which one is active.
The editor works on a copy of the active file's text; the files of a project stay as they were
loaded, so switching to a file, even to the active one, drops the edits of the copy.
-/
namespace HdlDesk

structure Project where
  files : List SourceFile
  active : Nat
  /-- The text in the editor. -/
  content : String
  active_lt : active < files.length
  deriving DecidableEq, Repr

namespace Project

/-- The active file as it was loaded. -/
def selected (project : Project) : SourceFile :=
  project.files.get ⟨project.active, project.active_lt⟩

/-- Makes the file at an index active and takes its text into the editor. -/
def select (project : Project) (index : Nat) (inside : index < project.files.length) : Project :=
  { project with active := index, content := project.files[index].content, active_lt := inside }

def ofFiles? : List SourceFile → Option Project
  | [] => none
  | first :: rest => some ⟨first :: rest, 0, first.content, Nat.zero_lt_succ _⟩

end Project

inductive Document where
  | empty
  | single (name content : String)
  | project (project : Project)
  deriving DecidableEq, Repr

namespace Document

instance : Inhabited Document := ⟨.empty⟩

/-- The name of a file that is made rather than opened. -/
def untitledName : String := "untitled.sv"

/-- The text in the editor. -/
def content : Document → String
  | .empty => ""
  | .single _ content => content
  | .project opened => opened.content

/-- The name of the active file; empty when nothing is open. -/
def fileName : Document → String
  | .empty => ""
  | .single name _ => name
  | .project opened => opened.selected.name

def project? : Document → Option Project
  | .project opened => some opened
  | _ => none

def key (document : Document) : String := displayKey document.fileName

/-- Opens a project of the given files, of which there must be one. -/
def openProject (files : List SourceFile) : Except DeskError Project :=
  match Project.ofFiles? files with
  | some opened => .ok opened
  | none => .error .noMatchingFiles

def switch (document : Document) (index : UInt64) : Except DeskError Project :=
  match document with
  | .project opened =>
    if inside : index.toNat < opened.files.length then .ok (opened.select index.toNat inside)
    else .error (.indexOutOfRange index.toNat opened.files.length)
  | _ => .error (.indexOutOfRange index.toNat 0)

/-- Replaces the text in the editor; `none` if that changes nothing. Text that is typed while
nothing is open makes a file without a name. -/
def edit (document : Document) (text : String) : Option Document :=
  if document.content = text then none
  else match document with
    | .empty => some (.single "" text)
    | .single name _ => some (.single name text)
    | .project opened => some (.project { opened with content := text })

/-! ### Records

The text in the editor and the name of the active file are kept as they are; a project adds its
files and the active index. -/

def writes (document : Document) : List Write :=
  [.set RecordKey.editorContent document.content, .set RecordKey.fileName document.fileName] ++
  match document with
  | .project opened =>
    [.record RecordKey.projectFiles opened.files,
      .set RecordKey.activeFile (Text.decimal opened.active)]
  | _ => [.remove RecordKey.projectFiles, .remove RecordKey.activeFile]

/-- The active index that a stored text means in a project of `count` files: the first file when
there is no text, or one that is no index of the project. -/
def storedIndex (stored : Option String) (count : Nat) : Nat :=
  match stored.bind fun text => Text.parseIndex? (Text.trim text) with
  | some index => if index < count then index else 0
  | none => 0

theorem storedIndex_lt (stored : Option String) {count : Nat} (positive : 0 < count) :
    storedIndex stored count < count := by
  unfold storedIndex
  split
  · split
    · assumption
    · exact positive
  · exact positive

/-- The document that a storage holds. Records that cannot be read count as absent. Stored editor
text is taken for a project only if it was stored for a file of the active file's name. -/
def restore {σ : Type} [KeyValueStore σ] (storage : σ) : Document :=
  let content := KeyValueStore.get? storage RecordKey.editorContent
  let name := (KeyValueStore.get? storage RecordKey.fileName).getD ""
  let files : List SourceFile := match readRecord? storage RecordKey.projectFiles with
    | .ok (some files) => files
    | _ => []
  if nonempty : 0 < files.length then
    let active := storedIndex (KeyValueStore.get? storage RecordKey.activeFile) files.length
    have inside : active < files.length := storedIndex_lt _ nonempty
    let loaded := files[active]
    -- The stored text may belong to another file when a write was refused on the way.
    let text := match content with
      | some text => if loaded.name = name then text else loaded.content
      | none => loaded.content
    .project ⟨files, active, text, inside⟩
  else
    let text := content.getD ""
    if text = "" ∧ name = "" then .empty else .single name text

end Document

end HdlDesk
