import HdlDesk.Desk.Action
import HdlDesk.Source.Loading
import HdlDesk.Work.Backend

/-!
# Carrying out tasks

An effect that asks for work starts a task; every other effect is handed back to be shown. Each task
is answered once. An artifact that was computed goes to the switchboard; everything else is a
report, and some reports are actions for the desk. A failed explanation is not reported: its error
becomes the text of the explanation. A failed testbench is.
-/
namespace HdlDesk

inductive Task where
  | loadFile (path : String)
  | loadFolder (path : String)
  | uploadFile (name content : String)
  | uploadFolder (files : List SourceFile)
  | request (kind : ArtifactKind) (key source : String)
  | clearBackend
  deriving DecidableEq, Repr

/-- What becomes of an effect with those who carry out tasks. -/
inductive Reception where
  | started (task : Task)
  | handedBack (effect : Effect)
  deriving DecidableEq, Repr

/-- Starts the work that an effect asks for; whatever asks for none is handed back. -/
def Effect.receive : Effect → Reception
  | .loadFile path => .started (.loadFile path)
  | .loadFolder path => .started (.loadFolder path)
  | .uploadFile name content => .started (.uploadFile name content)
  | .uploadFolder files => .started (.uploadFolder files)
  | .requestExplanation key source => .started (.request .explanation key source)
  | .requestTestbench key source => .started (.request .testbench key source)
  | .clearBackend => .started .clearBackend
  | other => .handedBack other

/-- The calls of a backend whose failure is reported as such. -/
inductive BackendCall where
  | uploadFile
  | uploadFolder
  | clear
  deriving DecidableEq, Repr

def BackendCall.name : BackendCall → String
  | .uploadFile => "upload_file"
  | .uploadFolder => "upload_folder"
  | .clear => "clear_session"

/-- What has become of a task. -/
inductive Report where
  | fileLoaded (path : String) (file : SourceFile)
  | folderLoaded (path : String) (files : List SourceFile)
  | loadFailed (path : String) (error : DeskError)
  | uploaded (preview : Option UploadPreview)
  | artifactFailed (kind : ArtifactKind) (key : String) (error : DeskError)
  | backendFailed (call : BackendCall) (error : DeskError)
  | backendCleared
  deriving DecidableEq, Repr

/-- What the desk is to do about a report. -/
def Report.action? : Report → Option Action
  | .fileLoaded _ file => some (.openSingle file.name file.content)
  | .folderLoaded _ files => some (.openProject files)
  | .loadFailed path error => some (.loadFailed path error)
  | .artifactFailed kind key error => some (.artifactFailed kind key error)
  | .uploaded _ => none
  | .backendFailed _ _ => none
  | .backendCleared => none

inductive Answer where
  | report (report : Report)
  | artifact (message : ArtifactMessage)
  deriving DecidableEq, Repr

namespace Task

/-- Carries out a task with a backend, a disk and the extensions that are accepted. -/
def answer (backend : Backend) (disk : Disk) (extensions : Extensions) : Task → Answer
  | .loadFile path =>
    match disk.loadSingle path extensions with
    | .ok file => .report (.fileLoaded path file)
    | .error refused => .report (.loadFailed path refused)
  | .loadFolder path =>
    match disk.loadFolder path extensions with
    | .ok files => .report (.folderLoaded path files)
    | .error refused => .report (.loadFailed path refused)
  | .uploadFile name content =>
    match backend.uploadFile name content with
    | .ok preview => .report (.uploaded (some preview))
    | .error failed => .report (.backendFailed .uploadFile failed.toDeskError)
  | .uploadFolder files =>
    match backend.uploadFolder files with
    | .ok () => .report (.uploaded none)
    | .error failed => .report (.backendFailed .uploadFolder failed.toDeskError)
  | .request kind key source =>
    match backend.artifact kind source, kind with
    | .ok payload, _ => .artifact ⟨kind, key, payload⟩
    | .error failed, .explanation => .artifact ⟨.explanation, key, "Error: " ++ failed.message⟩
    | .error failed, .testbench => .report (.artifactFailed .testbench key failed.toDeskError)
  | .clearBackend =>
    match backend.clear with
    | .ok () => .report .backendCleared
    | .error failed => .report (.backendFailed .clear failed.toDeskError)

end Task

end HdlDesk
