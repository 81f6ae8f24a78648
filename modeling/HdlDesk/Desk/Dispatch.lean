import HdlDesk.Desk.Basic

/-!
# Dispatching actions

One action at a time, each to its end: the state changes first, then the records that the change
concerns are written, then the outcome says what has to happen outside. A refused write changes
neither the state nor the outcome. A refused action changes nothing at all, with one exception: the
failure of an artifact ends its request.
-/
namespace HdlDesk.Desk

variable {σ : Type} [KeyValueStore σ]

def putDocument (desk : Desk σ) (document : Document) : Desk σ :=
  { desk with state.document := document }.persist document.writes

/-- Puts a file at the front of the recent files, stores the list and has it displayed. -/
def touchRecent (desk : Desk σ) (name content : String) : Effect × Desk σ :=
  let recent := (desk.state.recent.touch name content).2
  (.recentFiles recent.files,
    { desk with state.recent := recent }.persist recent.writes)

def openSingle (desk : Desk σ) (name content : String) : Effect × Desk σ :=
  (desk.putDocument (.single name content)).touchRecent name content

def openProject (desk : Desk σ) (files : List SourceFile) : Outcome × Desk σ :=
  match Document.openProject files with
  | .error refused => (.refusedAloud refused, desk)
  | .ok project =>
    let first := project.selected
    let (shown, desk) := (desk.putDocument (.project project)).touchRecent first.name first.content
    (.updated [.uploadFolder files, shown], desk)

def openRecent (desk : Desk σ) (name : String) : Outcome × Desk σ :=
  match desk.state.recent.get? name with
  | none => (.refusedAloud (.unknownRecentFile name), desk)
  | some file =>
    let (shown, desk) := desk.openSingle file.name file.content
    (.updated [shown], desk)

/-- The new active file's artifacts are loaded between storing the document and the list. -/
def switch (desk : Desk σ) (index : UInt64) : Outcome × Desk σ :=
  match desk.state.document.switch index with
  | .error refused => (.refused refused [], desk)
  | .ok project =>
    let file := project.selected
    let desk := (desk.putDocument (.project project)).load (displayKey file.name)
    let (shown, desk) := desk.touchRecent file.name file.content
    (.updated [shown], desk)

def edit (desk : Desk σ) (text : String) : Outcome × Desk σ :=
  match desk.state.document.edit text with
  | none => (.unchanged [], desk)
  | some document => (.updated [], desk.putDocument document)

def setView (desk : Desk σ) (view : View) : Outcome × Desk σ :=
  let (answer, artifacts, storage) :=
    desk.state.artifacts.setView desk.storage desk.activeKey view
  let desk := { desk with state.artifacts := artifacts, storage := storage }
  match answer with
  | .error refused => (.refused refused [], desk)
  | .ok changed => ({ changed := changed }, desk)

/-- Asks for an artifact of the active file, unless its editor shows nothing but blanks. -/
def request (desk : Desk σ) (kind : ArtifactKind) : Outcome × Desk σ :=
  let source := desk.state.document.content
  if Text.isAllBlank source then
    (.unchanged [.notice .warning "Editor is empty"], desk)
  else
    let key := desk.activeKey
    (.updated [.request kind key source],
      { desk with state.inFlight := desk.state.inFlight.insert kind key })

def resetTestbench (desk : Desk σ) : Outcome × Desk σ :=
  let (artifacts, storage) := desk.state.artifacts.resetTestbench desk.storage desk.activeKey
  (.updated [], { desk with state.artifacts := artifacts, storage := storage })

def copyExplanation (desk : Desk σ) : Outcome × Desk σ :=
  let explanation := (desk.entry desk.activeKey).explanation
  let shown : Effect :=
    if explanation = "" then .notice .info "No explanation to copy" else .clipboard explanation
  (.unchanged [shown], desk.load desk.activeKey)

/-- The display key under which a message is taken in. -/
def target (desk : Desk σ) (message : ArtifactMessage) : String :=
  match desk.config.responseBinding with
  | .originating => message.key
  | .activeAtArrival => desk.activeKey

/-- Ends the request that a message answers and takes its payload in. -/
def artifactArrived (desk : Desk σ) (message : ArtifactMessage) : Outcome × Desk σ :=
  let awaited := desk.state.inFlight.contains message.kind message.key
  -- The request is the one of the message's own key, wherever its payload goes.
  let key := desk.target message
  let (stored, artifacts, storage) := desk.state.artifacts.receive desk.storage
    { message with key := key } (key = desk.activeKey)
  let inFlight := desk.state.inFlight.erase message.kind message.key
  ({ changed := awaited || stored },
    { desk with state.inFlight := inFlight, state.artifacts := artifacts, storage := storage })

def artifactFailed (desk : Desk σ) (kind : ArtifactKind) (key : String) (error : DeskError) :
    Outcome × Desk σ :=
  let message := "Failed to generate " ++ kind.name ++ ": " ++ error.message
  ({ effects := [.notice .error message], changed := true, error := some error },
    { desk with state.inFlight := desk.state.inFlight.erase kind key })

def clearAll (desk : Desk σ) : Outcome × Desk σ :=
  (.updated [.clearBackend, .recentFiles []],
    { desk with
      state := {
        document := .empty
        recent := desk.state.recent.clear
        artifacts := .empty
        inFlight := .empty } }.persist [.clear])

/-- The desk's answer to an action, and the desk after it. -/
def dispatch (desk : Desk σ) : Action → Outcome × Desk σ
  | .openPath path => (.unchanged [.loadFile path], desk)
  | .openFolder path => (.unchanged [.loadFolder path], desk)
  | .openSingle name content =>
    let (shown, desk) := desk.openSingle name content
    (.updated [.uploadFile name content, shown], desk)
  | .openProject files => desk.openProject files
  | .newFile =>
    let (shown, desk) := desk.openSingle Document.untitledName ""
    (.updated [shown], desk)
  | .openRecent name => desk.openRecent name
  | .switch index => desk.switch index
  | .edit text => desk.edit text
  | .setView view => desk.setView view
  | .request kind => desk.request kind
  | .resetTestbench => desk.resetTestbench
  | .copyExplanation => desk.copyExplanation
  | .artifactArrived message => desk.artifactArrived message
  | .artifactFailed kind key error => desk.artifactFailed kind key error
  | .loadFailed _ error => (.refusedAloud error, desk)
  | .clearAll => desk.clearAll

end HdlDesk.Desk
