import HdlDesk.Proofs.Desk.Deeds
import HdlDesk.Proofs.Storage.Watched

/-!
# An outcome without a change tells the truth

Whoever displays a desk looks only at whether an outcome says that something changed. An action
that says it did not has done no more than bring an entry into memory, which shows nowhere: it made
no write call, not even one that was refused. Refusing an action is one way of saying so; the
failure of an artifact is an error as well, but it ends a request and says that too.
-/
namespace HdlDesk.Desk

section
variable {σ : Type} [KeyValueStore σ]

/-- The later desk differs from the earlier one at most by entries that were brought into memory.
Over a storage under watch no call was made: it would have been put down. -/
structure OnlyLoads (before after : Desk σ) : Prop where
  config : after.config = before.config
  storage : after.storage = before.storage
  document : after.state.document = before.state.document
  recent : after.state.recent = before.state.recent
  inFlight : after.state.inFlight = before.state.inFlight
  entry : ∀ key, after.entry key = before.entry key
  held : ∀ key entry, before.state.artifacts.get? key = some entry →
    after.state.artifacts.get? key = some entry

variable (desk : Desk σ)

theorem onlyLoads_self : OnlyLoads desk desk :=
  ⟨rfl, rfl, rfl, rfl, rfl, fun _ => rfl, fun _ _ held => held⟩

theorem onlyLoads_load (key : String) : OnlyLoads desk (desk.load key) := by
  refine ⟨rfl, rfl, rfl, rfl, rfl, ?_, fun wanted entry held => ?_⟩
  · exact ArtifactCache.entry_load desk.state.artifacts desk.storage key
  · show (desk.state.artifacts.load desk.storage key).get? wanted = some entry
    unfold ArtifactCache.load
    split
    · exact held
    next absent =>
      have other : wanted ≠ key := by
        rintro rfl
        rw [held] at absent
        cases absent
      rw [SortedMap.get?_insert, if_neg other]
      exact held

/-- A change that finds nothing to do only loads the entry. -/
theorem onlyLoads_change {key : String} {how : ArtifactEntry → Option ArtifactEntry}
    (idle : how (desk.entry key) = none) : OnlyLoads desk (desk.change key how) := by
  rw [change_of_none idle]
  exact onlyLoads_load desk key

variable {desk} in
theorem OnlyLoads.trans {between after : Desk σ} (first : OnlyLoads desk between)
    (second : OnlyLoads between after) : OnlyLoads desk after where
  config := second.config.trans first.config
  storage := second.storage.trans first.storage
  document := second.document.trans first.document
  recent := second.recent.trans first.recent
  inFlight := second.inFlight.trans first.inFlight
  entry key := (second.entry key).trans (first.entry key)
  held key entry found := second.held key entry (first.held key entry found)

theorem onlyLoads_looks (keys : List String) : OnlyLoads desk (desk.run (keys.map .look)) := by
  induction keys generalizing desk with
  | nil => exact onlyLoads_self desk
  | cons key keys ih => exact (onlyLoads_load desk key).trans (ih (desk.load key))

/-! ### What the outcome of each action says -/

/-- An answer either tells of a change, and then of no error, or nothing has happened. -/
def Truthful (answered : Outcome × Desk σ) : Prop :=
  answered.1.changed = true ∧ answered.1.error = none ∨
  answered.1.changed = false ∧ OnlyLoads desk answered.2

/-- The action does nothing. -/
theorem truthful_idle {outcome : Outcome} (unchanged : outcome.changed = false) :
    Truthful desk (outcome, desk) :=
  .inr ⟨unchanged, onlyLoads_self desk⟩

theorem truthful_updated (effects : List Effect) (after : Desk σ) :
    Truthful desk (.updated effects, after) :=
  .inl ⟨rfl, rfl⟩

private theorem truthful_openProject (files : List SourceFile) :
    Truthful desk (desk.openProject files) := by
  unfold openProject
  split
  · exact truthful_idle desk rfl
  · exact truthful_updated desk _ _

private theorem truthful_openRecent (name : String) : Truthful desk (desk.openRecent name) := by
  unfold openRecent
  split
  · exact truthful_idle desk rfl
  · exact truthful_updated desk _ _

private theorem truthful_switch (index : UInt64) : Truthful desk (desk.switch index) := by
  unfold switch
  split
  · exact truthful_idle desk rfl
  · exact truthful_updated desk _ _

private theorem truthful_edit (text : String) : Truthful desk (desk.edit text) := by
  unfold edit
  split
  · exact truthful_idle desk rfl
  · exact truthful_updated desk _ _

private theorem truthful_setView (view : View) : Truthful desk (desk.setView view) := by
  unfold Truthful
  rw [setView_eq_change, setView_outcome]
  -- The answer and the change are decided by the same question to the entry.
  cases shown : (desk.entry desk.activeKey).withView view with
  | error refused => exact .inr ⟨rfl, onlyLoads_change desk (by rw [shown]; rfl)⟩
  | ok next =>
    cases next with
    | none => exact .inr ⟨rfl, onlyLoads_change desk (by rw [shown]; rfl)⟩
    | some entry => exact .inl ⟨rfl, rfl⟩

private theorem truthful_request (kind : ArtifactKind) : Truthful desk (desk.request kind) := by
  unfold request
  dsimp only
  split
  · exact truthful_idle desk rfl
  · exact truthful_updated desk _ _

/-- An artifact that nobody waits for and that the entry has already is passed over. -/
theorem artifactArrived_of_idle {message : ArtifactMessage}
    (awaited : desk.state.inFlight.contains message.kind message.key = false)
    (idle : (desk.entry (desk.target message)).withArtifact message.kind message.payload
      (desk.target message = desk.activeKey) = none) :
    desk.artifactArrived message = ({}, desk.load (desk.target message)) := by
  have outcome : (desk.artifactArrived message).1 = {} := by
    rw [artifactArrived_outcome, awaited, idle]
    rfl
  have after : (desk.artifactArrived message).2 = desk.load (desk.target message) := by
    rw [artifactArrived_eq_change, change_of_none idle, InFlight.erase_eq_self awaited]
    rfl
  exact Prod.ext outcome after

private theorem truthful_artifactArrived (message : ArtifactMessage) :
    Truthful desk (desk.artifactArrived message) := by
  unfold Truthful
  rw [artifactArrived_outcome]
  cases awaited : desk.state.inFlight.contains message.kind message.key with
  | true => exact .inl ⟨rfl, rfl⟩
  | false =>
    cases taken : (desk.entry (desk.target message)).withArtifact message.kind message.payload
        (desk.target message = desk.activeKey) with
    | some next => exact .inl ⟨rfl, rfl⟩
    | none =>
      rw [artifactArrived_of_idle desk awaited taken]
      exact .inr ⟨rfl, onlyLoads_load desk _⟩

theorem truthful_dispatch {action : Action}
    (other : ∀ kind key error, action ≠ .artifactFailed kind key error) :
    Truthful desk (desk.dispatch action) := by
  cases action with
  | openPath path => exact truthful_idle desk rfl
  | openFolder path => exact truthful_idle desk rfl
  | openSingle name content => exact truthful_updated desk _ _
  | openProject files => exact truthful_openProject desk files
  | newFile => exact truthful_updated desk _ _
  | openRecent name => exact truthful_openRecent desk name
  | switch index => exact truthful_switch desk index
  | edit text => exact truthful_edit desk text
  | setView view => exact truthful_setView desk view
  | request kind => exact truthful_request desk kind
  | resetTestbench => exact truthful_updated desk _ _
  | copyExplanation => exact .inr ⟨rfl, onlyLoads_load desk desk.activeKey⟩
  | artifactArrived message => exact truthful_artifactArrived desk message
  | artifactFailed kind key error => exact absurd rfl (other kind key error)
  | loadFailed path error => exact truthful_idle desk rfl
  | clearAll => exact truthful_updated desk _ _

end

/-- An outcome without a change means that no call was made and that nothing differs which can be
seen. An error comes without a change, unless it is the failure of an artifact, and that does no
more than end its request. -/
theorem dispatch_says_what_changed {σ : Type} [KeyValueStore σ] (desk : Desk (Watched σ))
    (action : Action) :
    let outcome := (desk.dispatch action).1
    let after := (desk.dispatch action).2
    (outcome.changed = false →
      after.storage.journal = desk.storage.journal ∧ OnlyLoads desk after) ∧
    (outcome.error ≠ none →
      outcome.changed = false ∨ ∃ kind key error, action = .artifactFailed kind key error) ∧
    ∀ kind key error, action = .artifactFailed kind key error →
      after = desk.putInFlight (desk.state.inFlight.erase kind key) ∧
      ∀ other name, after.state.inFlight.contains other name =
        (decide ((other, name) ≠ (kind, key)) && desk.state.inFlight.contains other name) := by
  intro outcome after
  by_cases failure : ∃ kind key error, action = .artifactFailed kind key error
  · obtain ⟨kind, key, error, rfl⟩ := failure
    refine ⟨(nomatch ·), fun _ => .inr ⟨kind, key, error, rfl⟩, ?_⟩
    rintro _ _ _ ⟨⟩
    exact ⟨rfl, fun other name => desk.state.inFlight.contains_erase kind other key name⟩
  · have other : ∀ kind key error, action ≠ .artifactFailed kind key error :=
      fun kind key error same => failure ⟨kind, key, error, same⟩
    have truthful : Truthful desk (outcome, after) := truthful_dispatch desk other
    refine ⟨fun unchanged => ?_, fun failed => .inl ?_, fun kind key error same =>
      absurd same (other kind key error)⟩
    · rcases truthful with ⟨changed, _⟩ | ⟨_, loads⟩
      · cases changed.symm.trans unchanged
      · exact ⟨congrArg Watched.journal loads.storage, loads⟩
    · rcases truthful with ⟨_, accepted⟩ | ⟨unchanged, _⟩
      · exact absurd accepted failed
      · exact unchanged

/-- The testbench view is refused while there is no testbench, and nothing is written. -/
theorem refused_view_writes_nothing :
    let desk := (restore {} ({ inner := .empty } : Watched Entries)).run
      [.act (.openSingle "a.v" "module a;")]
    let answered := desk.dispatch (.setView .testbench)
    answered.1.error = some .invalidView ∧ answered.1.changed = false ∧
    answered.2.storage.journal = desk.storage.journal := by
  intro desk answered
  have refused : answered.1 = .refused .invalidView [] := by decide +kernel
  have unchanged : answered.1.changed = false := by rw [refused]; rfl
  have told := dispatch_says_what_changed desk (.setView .testbench)
  exact ⟨by rw [refused]; rfl, unchanged, (told.1 unchanged).1⟩

end HdlDesk.Desk
