import HdlDesk.Proofs.Desk.Moves

/-!
# Which deeds an action comes down to

An action is decided by little: the settings, the document and the recent files say which deeds it
consists of, and the entry of one file and one request in flight are all that its outcome looks at
besides. The deeds are carried out one after the other, so what holds of each deed holds of every
action, and two desks that agree on what decides an action do and answer the same.
-/
namespace HdlDesk

/-- One thing that is done at a desk in the course of an action. -/
inductive Deed where
  | putDocument (document : Document)
  | touchRecent (name content : String)
  | load (key : String)
  | change (key : String) (how : ArtifactEntry → Option ArtifactEntry)
  | await (kind : ArtifactKind) (key : String)
  | settle (kind : ArtifactKind) (key : String)
  | clear

/-- A file is opened as the document and goes to the front of the recent files. -/
def Deed.opening (document : Document) (name content : String) : List Deed :=
  [.putDocument document, .touchRecent name content]

namespace Desk

variable {σ τ : Type} [KeyValueStore σ] [KeyValueStore τ]

def carryOut (desk : Desk σ) : Deed → Desk σ
  | .putDocument document => desk.putDocument document
  | .touchRecent name content => (desk.touchRecent name content).2
  | .load key => desk.load key
  | .change key how => desk.change key how
  | .await kind key => desk.putInFlight (desk.state.inFlight.insert kind key)
  | .settle kind key => desk.putInFlight (desk.state.inFlight.erase kind key)
  | .clear => desk.clearAll.2

def deeds (desk : Desk σ) : Action → List Deed
  | .openPath _ | .openFolder _ | .loadFailed _ _ => []
  | .openSingle name content => Deed.opening (.single name content) name content
  | .openProject files =>
    match Document.openProject files with
    | .ok project =>
      Deed.opening (.project project) project.selected.name project.selected.content
    | .error _ => []
  | .newFile => Deed.opening (.single Document.untitledName "") Document.untitledName ""
  | .openRecent name =>
    match desk.state.recent.get? name with
    | some file => Deed.opening (.single file.name file.content) file.name file.content
    | none => []
  | .switch index =>
    match desk.state.document.switch index with
    | .ok project =>
      [.putDocument (.project project), .load (displayKey project.selected.name),
        .touchRecent project.selected.name project.selected.content]
    | .error _ => []
  | .edit text =>
    match desk.state.document.edit text with
    | some document => [.putDocument document]
    | none => []
  | .setView view =>
    [.change desk.activeKey fun entry => (entry.withView view).toOption.join]
  | .request kind =>
    if Text.isAllBlank desk.state.document.content then [] else [.await kind desk.activeKey]
  | .resetTestbench => [.change desk.activeKey fun entry => some entry.withoutTestbench]
  | .copyExplanation => [.load desk.activeKey]
  | .artifactArrived message =>
    [.change (desk.target message) fun entry =>
        entry.withArtifact message.kind message.payload (desk.target message = desk.activeKey),
      .settle message.kind message.key]
  | .artifactFailed kind key _ => [.settle kind key]
  | .clearAll => [.clear]

theorem dispatch_eq_deeds (desk : Desk σ) (action : Action) :
    (desk.dispatch action).2 = (desk.deeds action).foldl carryOut desk := by
  cases action with
  | openProject files =>
    simp only [dispatch, openProject, deeds]
    cases Document.openProject files <;> rfl
  | openRecent name =>
    simp only [dispatch, openRecent, deeds]
    cases desk.state.recent.get? name <;> rfl
  | switch index =>
    simp only [dispatch, switch, deeds]
    cases desk.state.document.switch index <;> rfl
  | edit text =>
    simp only [dispatch, edit, deeds]
    cases desk.state.document.edit text <;> rfl
  | setView view => exact setView_eq_change desk view
  | request kind =>
    simp only [dispatch, request, deeds]
    by_cases blank : Text.isAllBlank desk.state.document.content = true
    · rw [if_pos blank, if_pos blank]
      rfl
    · rw [if_neg blank, if_neg blank]
      rfl
  | _ => rfl

/-- What each of its deeds keeps is kept by an action. -/
theorem dispatch_induct (kept : Desk σ → Prop) {desk : Desk σ} {action : Action}
    (step : ∀ reached, ∀ deed ∈ desk.deeds action, kept reached → kept (reached.carryOut deed))
    (start : kept desk) : kept (desk.dispatch action).2 := by
  rw [dispatch_eq_deeds]
  generalize desk.deeds action = deeds at step
  induction deeds generalizing desk with
  | nil => exact start
  | cons deed deeds ih =>
    have first := step desk deed List.mem_cons_self start
    exact ih first fun reached other member => step reached other (List.mem_cons_of_mem _ member)

/-! ### What decides an action -/

/-- Two desks agree on what decides the deeds of an action. -/
structure SameOutlook (left : Desk σ) (right : Desk τ) : Prop where
  config : left.config = right.config
  document : left.state.document = right.state.document
  recent : left.state.recent = right.state.recent

omit [KeyValueStore σ] [KeyValueStore τ] in
theorem deeds_congr {left : Desk σ} {right : Desk τ} (same : SameOutlook left right)
    (action : Action) : left.deeds action = right.deeds action := by
  obtain ⟨config, ⟨document, recent, artifacts, inFlight⟩, storage⟩ := left
  obtain ⟨_, ⟨_, _, _, _⟩, _⟩ := right
  obtain ⟨rfl, rfl, rfl⟩ := same
  cases action <;> rfl

theorem setView_outcome (desk : Desk σ) (view : View) :
    (desk.setView view).1 =
      match (desk.entry desk.activeKey).withView view with
      | .error refused => .refused refused []
      | .ok next => { changed := next.isSome } := by
  unfold setView ArtifactCache.setView ArtifactCache.update entry
  cases (desk.state.artifacts.entry desk.storage desk.activeKey).withView view with
  | error refused => rfl
  | ok next => cases next <;> rfl

theorem artifactArrived_outcome (desk : Desk σ) (message : ArtifactMessage) :
    (desk.artifactArrived message).1 =
      { changed := desk.state.inFlight.contains message.kind message.key ||
          ((desk.entry (desk.target message)).withArtifact message.kind message.payload
            (desk.target message = desk.activeKey)).isSome } := by
  unfold artifactArrived ArtifactCache.receive ArtifactCache.update entry
  dsimp only
  cases (desk.state.artifacts.entry desk.storage (desk.target message)).withArtifact message.kind
    message.payload (desk.target message = desk.activeKey) <;> rfl

/-- The display key of the artifacts that an action is about. -/
def subject (desk : Desk σ) : Action → String
  | .artifactArrived message => desk.target message
  | _ => desk.activeKey

theorem outcome_congr {left : Desk σ} {right : Desk τ} (same : SameOutlook left right)
    {action : Action} (entry : left.entry (left.subject action) = right.entry (left.subject action))
    (awaited : ∀ message, action = .artifactArrived message →
      left.state.inFlight.contains message.kind message.key =
        right.state.inFlight.contains message.kind message.key) :
    (left.dispatch action).1 = (right.dispatch action).1 := by
  have active : left.activeKey = right.activeKey := congrArg Document.key same.document
  -- What is open and the recent list decide every outcome, except where an action looks at an entry;
  -- an arrival also asks what is in flight.
  cases action with
  | openPath path => rfl
  | openFolder path => rfl
  | openSingle name content =>
    simp only [dispatch, openSingle, touchRecent, putDocument, persist, same.recent]
  | openProject files =>
    simp only [dispatch, openProject]
    cases Document.openProject files with
    | error refused => rfl
    | ok project => simp only [touchRecent, putDocument, persist, same.recent]
  | newFile =>
    simp only [dispatch, openSingle, touchRecent, putDocument, persist, same.recent]
  | openRecent name =>
    simp only [dispatch, openRecent, same.recent]
    cases right.state.recent.get? name with
    | none => rfl
    | some file => simp only [openSingle, touchRecent, putDocument, persist, same.recent]
  | switch index =>
    simp only [dispatch, switch, same.document]
    cases right.state.document.switch index with
    | error refused => rfl
    | ok project => simp only [touchRecent, load, putDocument, persist, same.recent]
  | edit text =>
    simp only [dispatch, edit, same.document]
    cases right.state.document.edit text <;> rfl
  | setView view =>
    show (left.setView view).1 = (right.setView view).1
    have held : left.entry left.activeKey = right.entry left.activeKey := entry
    rw [setView_outcome, setView_outcome, held, active]
  | request kind =>
    simp only [dispatch, request, same.document, active]
    split <;> rfl
  | resetTestbench => rfl
  | copyExplanation =>
    have held : left.entry left.activeKey = right.entry left.activeKey := entry
    simp only [dispatch, copyExplanation]
    rw [held, active]
  | artifactArrived message =>
    show (left.artifactArrived message).1 = (right.artifactArrived message).1
    have target : left.target message = right.target message := by
      unfold Desk.target
      rw [same.config, active]
    have held : left.entry (left.target message) = right.entry (left.target message) := entry
    rw [artifactArrived_outcome, artifactArrived_outcome, held, target, active,
      awaited message rfl]
  | artifactFailed kind key error => rfl
  | loadFailed path error => rfl
  | clearAll => rfl

end Desk

end HdlDesk
