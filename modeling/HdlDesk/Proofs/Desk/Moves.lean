import Mathlib.Logic.Relation
import HdlDesk.Desk.Dispatch
import HdlDesk.Proofs.Artifact.Coherent
import HdlDesk.Proofs.Document.Restored

/-!
# What a step at the desk can do

Every action comes down to a few elementary moves. It may begin by putting another document in place
or by forgetting everything; after that a file is put at the front of the recent files, an entry is
loaded or changed, or the requests in flight change. The moves say all that a step does to the state
and to the storage, so a property that each move keeps holds after every run. What a step answers is
not part of them.
-/
namespace HdlDesk

/-- The change turns coherent entries into coherent entries. -/
def ArtifactEntry.KeepsCoherent (change : ArtifactEntry → Option ArtifactEntry) : Prop :=
  ∀ entry next : ArtifactEntry, entry.Coherent → change entry = some next → next.Coherent

namespace Desk

variable {σ : Type} [KeyValueStore σ]

/-- What is done at a desk: an action is dispatched, or the entry of a file is looked at, which
brings it into memory. -/
inductive Step where
  | act (action : Action)
  | look (key : String)
  deriving DecidableEq, Repr

def after (desk : Desk σ) : Step → Desk σ
  | .act action => (desk.dispatch action).2
  | .look key => desk.load key

def run (desk : Desk σ) (steps : List Step) : Desk σ := steps.foldl after desk

/-- Changes the entry of a file. -/
def change (desk : Desk σ) (key : String) (how : ArtifactEntry → Option ArtifactEntry) : Desk σ :=
  let changed := (desk.state.artifacts.update desk.storage key how).2
  { desk with state.artifacts := changed.1, storage := changed.2 }

def putInFlight (desk : Desk σ) (inFlight : InFlight) : Desk σ :=
  { desk with state.inFlight := inFlight }

/-- Loading holds the entry that would be seen anyway. -/
theorem load_eq (desk : Desk σ) (key : String) :
    desk.load key =
      { desk with state.artifacts := desk.state.artifacts.insert key (desk.entry key) } := by
  have same : desk.state.artifacts.load desk.storage key =
      desk.state.artifacts.insert key (desk.entry key) := by
    unfold ArtifactCache.load entry ArtifactCache.entry
    cases held : desk.state.artifacts.get? key with
    | none => rfl
    | some entry => exact (SortedMap.insert_eq_self held).symm
  unfold load
  rw [same]

/-- A change holds the entry as it is then, and writes its record if there was something to do. -/
theorem change_eq (desk : Desk σ) (key : String) (how : ArtifactEntry → Option ArtifactEntry) :
    desk.change key how =
      { desk with
        state.artifacts := desk.state.artifacts.insert key
          ((how (desk.entry key)).getD (desk.entry key)) }.persist
        ((how (desk.entry key)).toList.map (.record (RecordKey.artifact key))) := by
  have loaded := load_eq desk key
  unfold change ArtifactCache.update entry at *
  cases how (desk.state.artifacts.entry desk.storage key) with
  | none => exact loaded
  | some next =>
    simp only [persist, Option.toList_some, List.map_cons, List.map_nil,
      KeyValueStore.writeAll_singleton]
    rfl

theorem change_of_none {desk : Desk σ} {key : String} {how : ArtifactEntry → Option ArtifactEntry}
    (idle : how (desk.entry key) = none) : desk.change key how = desk.load key := by
  rw [change_eq, idle, load_eq]
  rfl

theorem change_cases (desk : Desk σ) (key : String) (how : ArtifactEntry → Option ArtifactEntry) :
    desk.change key how = desk.load key ∨
    ∃ next, how (desk.entry key) = some next ∧
      desk.change key how =
        { desk with state.artifacts := desk.state.artifacts.insert key next }.persist
          [.record (RecordKey.artifact key) next] := by
  cases changed : how (desk.entry key) with
  | none => exact .inl (change_of_none changed)
  | some next =>
    refine .inr ⟨next, rfl, ?_⟩
    rw [change_eq, changed]
    rfl

/-- How an action begins: the document stays, another one is put in its place, or everything is
forgotten. -/
inductive Begins (desk : Desk σ) : Desk σ → Prop
  | same : Begins desk desk
  | putDocument (document : Document)
      (fits : desk.state.document.IndexFits → document.IndexFits) :
      Begins desk (desk.putDocument document)
  | clearAll : Begins desk desk.clearAll.2

/-- A change that leaves the document alone. -/
inductive Follows : Desk σ → Desk σ → Prop
  | touchRecent (desk : Desk σ) (name content : String) :
      Follows desk (desk.touchRecent name content).2
  | load (desk : Desk σ) (key : String) : Follows desk (desk.load key)
  | change (desk : Desk σ) (key : String) (how : ArtifactEntry → Option ArtifactEntry)
      (keeps : ArtifactEntry.KeepsCoherent how) : Follows desk (desk.change key how)
  | putInFlight (desk : Desk σ) (inFlight : InFlight) : Follows desk (desk.putInFlight inFlight)

/-- One elementary change of the desk. -/
inductive Move (before after : Desk σ) : Prop
  | begins (first : Begins before after)
  | follows (change : Follows before after)

/-- An action begins once, and what follows leaves the document alone. -/
def Does (before after : Desk σ) : Prop :=
  ∃ begun, Begins before begun ∧ Relation.ReflTransGen Follows begun after

/-! ### What every action does -/

theorem does_nothing (desk : Desk σ) : Does desk desk := ⟨desk, .same, .refl⟩

theorem does_change {before after : Desk σ} (change : Follows before after) : Does before after :=
  ⟨before, .same, .single change⟩

private theorem does_openSingle (desk : Desk σ) (name content : String) :
    Does desk (desk.openSingle name content).2 :=
  ⟨_, .putDocument (.single name content) fun _ => Document.indexFits_of_not_project rfl,
    .single (.touchRecent _ name content)⟩

private theorem does_openProject (desk : Desk σ) (files : List SourceFile) :
    Does desk (desk.openProject files).2 := by
  unfold openProject
  split
  · exact does_nothing desk
  next opened returned =>
    exact ⟨_, .putDocument (.project opened) fun _ => Document.indexFits_openProject returned,
      .single (.touchRecent _ opened.selected.name opened.selected.content)⟩

private theorem does_openRecent (desk : Desk σ) (name : String) :
    Does desk (desk.openRecent name).2 := by
  unfold openRecent
  split
  · exact does_nothing desk
  next file _ => exact does_openSingle desk file.name file.content

private theorem does_switch (desk : Desk σ) (index : UInt64) : Does desk (desk.switch index).2 := by
  unfold switch
  split
  · exact does_nothing desk
  next opened returned =>
    have loaded : Follows (desk.putDocument (.project opened)) _ :=
      .load _ (displayKey opened.selected.name)
    exact ⟨_, .putDocument (.project opened) fun _ => Document.indexFits_switch returned,
      .tail (.single loaded) (.touchRecent _ opened.selected.name opened.selected.content)⟩

private theorem does_edit (desk : Desk σ) (text : String) : Does desk (desk.edit text).2 := by
  unfold edit
  split
  · exact does_nothing desk
  next next edited => exact ⟨_, .putDocument next (Document.indexFits_edit edited), .refl⟩

/-- Asking for a view changes the entry, or only loads it when the view is refused. -/
theorem setView_eq_change (desk : Desk σ) (view : View) :
    (desk.setView view).2 =
      desk.change desk.activeKey fun entry => (entry.withView view).toOption.join := by
  unfold setView change ArtifactCache.setView ArtifactCache.update
  cases asked : (desk.state.artifacts.entry desk.storage desk.activeKey).withView view with
  | error refused => simp [asked, Except.toOption]
  | ok next => cases next <;> simp [asked, Except.toOption]

private theorem keepsCoherent_withView (view : View) :
    ArtifactEntry.KeepsCoherent fun entry => (entry.withView view).toOption.join := by
  intro entry next coherent shown
  have answered : entry.withView view = .ok (some next) := by
    cases asked : entry.withView view with
    | error refused => simp [asked, Except.toOption] at shown
    | ok answer => simpa [asked, Except.toOption] using shown
  exact ArtifactEntry.coherent_withView coherent answered

private theorem does_request (desk : Desk σ) (kind : ArtifactKind) :
    Does desk (desk.request kind).2 := by
  unfold request
  dsimp only
  split
  · exact does_nothing desk
  · exact does_change (.putInFlight desk _)

/-- An artifact that arrives changes one entry and ends one request. -/
theorem artifactArrived_eq_change (desk : Desk σ) (message : ArtifactMessage) :
    (desk.artifactArrived message).2 =
      (desk.change (desk.target message) fun entry =>
        entry.withArtifact message.kind message.payload
          (desk.target message = desk.activeKey)).putInFlight
        (desk.state.inFlight.erase message.kind message.key) := rfl

private theorem does_artifactArrived (desk : Desk σ) (message : ArtifactMessage) :
    Does desk (desk.artifactArrived message).2 := by
  rw [artifactArrived_eq_change]
  refine ⟨desk, .same, .tail (.single (.change desk (desk.target message) _ ?_))
    (.putInFlight _ (desk.state.inFlight.erase message.kind message.key))⟩
  exact fun _ _ coherent => ArtifactEntry.coherent_withArtifact coherent

theorem dispatch_does (desk : Desk σ) (action : Action) : Does desk (desk.dispatch action).2 := by
  cases action with
  | openPath path => exact does_nothing desk
  | openFolder path => exact does_nothing desk
  | openSingle name content => exact does_openSingle desk name content
  | openProject files => exact does_openProject desk files
  | newFile => exact does_openSingle desk Document.untitledName ""
  | openRecent name => exact does_openRecent desk name
  | switch index => exact does_switch desk index
  | edit text => exact does_edit desk text
  | setView view =>
    show Does desk (desk.setView view).2
    rw [setView_eq_change]
    exact does_change (.change desk desk.activeKey _ (keepsCoherent_withView view))
  | request kind => exact does_request desk kind
  | resetTestbench =>
    refine does_change (.change desk desk.activeKey (fun entry => some entry.withoutTestbench) ?_)
    rintro entry _ _ ⟨⟩
    exact ArtifactEntry.coherent_withoutTestbench entry
  | copyExplanation => exact does_change (.load desk desk.activeKey)
  | artifactArrived message => exact does_artifactArrived desk message
  | artifactFailed kind key error => exact does_change (.putInFlight desk _)
  | loadFailed path error => exact does_nothing desk
  | clearAll => exact ⟨_, .clearAll, .refl⟩

theorem after_does (desk : Desk σ) (step : Step) : Does desk (desk.after step) := by
  cases step with
  | act action => exact dispatch_does desk action
  | look key => exact does_change (.load desk key)

/-! ### Whole runs -/

theorem does_invariant {kept : Desk σ → Prop}
    (move : ∀ before after : Desk σ, Move before after → kept before → kept after)
    {before after : Desk σ} (does : Does before after) (start : kept before) : kept after := by
  obtain ⟨begun, begins, follows⟩ := does
  -- The beginning is one move, and each change that follows is another.
  have first := move before begun (.begins begins) start
  induction follows with
  | refl => exact first
  | tail _ change ih => exact move _ _ (.follows change) ih

/-- A property that every move keeps holds after a run if it held before. -/
theorem run_invariant {kept : Desk σ → Prop}
    (move : ∀ before after : Desk σ, Move before after → kept before → kept after)
    (desk : Desk σ) (start : kept desk) (steps : List Step) : kept (desk.run steps) := by
  induction steps generalizing desk with
  | nil => exact start
  | cons step steps ih =>
    have next := does_invariant move (after_does desk step) start
    exact ih (desk.after step) next

end Desk

end HdlDesk
