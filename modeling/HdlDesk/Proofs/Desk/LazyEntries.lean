import HdlDesk.Proofs.Desk.Faults
import HdlDesk.Proofs.Desk.Ownership

/-!
# Reading entries late does not show

The desk reads the entry of a file from the storage when it first needs it, so what it holds in
memory depends on everything that was ever asked for. A ledger has an entry for every file from the
start and knows of no storage. A desk does what its ledger does: an entry that is not in memory has
not been written since the desk was restored or cleared, so it is in the storage as it was, whichever
writes were refused meanwhile. Looking at entries leaves the ledger and the storage alone, and so it
changes nothing that comes later.
-/
namespace HdlDesk

/-- A session in which every file has an entry from the start. -/
@[ext] structure Ledger where
  config : DeskConfig
  document : Document
  recent : RecentFiles
  inFlight : InFlight
  entries : String → ArtifactEntry

namespace Ledger

/-- The session that a storage holds, with the entries of all files put right. -/
def ofStorage {σ : Type} [KeyValueStore σ] (config : DeskConfig) (storage : σ) : Ledger where
  config := config
  document := .restore storage
  recent := .restore storage config.recentCapacity
  inFlight := .empty
  entries := ArtifactCache.storedEntry storage

def activeKey (ledger : Ledger) : String := ledger.document.key

def enter (ledger : Ledger) (key : String) (entry : ArtifactEntry) : Ledger :=
  { ledger with entries := fun other => if other = key then entry else ledger.entries other }

/-- A document is opened, and its active file goes to the front of the recent files. -/
def opens (ledger : Ledger) (document : Document) (name content : String) : Effect × Ledger :=
  let recent := (ledger.recent.touch name content).2
  (.recentFiles recent.files, { ledger with document := document, recent := recent })

def openProject (ledger : Ledger) (files : List SourceFile) : Outcome × Ledger :=
  match Document.openProject files with
  | .error refused => (.refusedAloud refused, ledger)
  | .ok project =>
    let (shown, ledger) :=
      ledger.opens (.project project) project.selected.name project.selected.content
    (.updated [.uploadFolder files, shown], ledger)

def openRecent (ledger : Ledger) (name : String) : Outcome × Ledger :=
  match ledger.recent.get? name with
  | none => (.refusedAloud (.unknownRecentFile name), ledger)
  | some file =>
    let (shown, ledger) := ledger.opens (.single file.name file.content) file.name file.content
    (.updated [shown], ledger)

def switch (ledger : Ledger) (index : UInt64) : Outcome × Ledger :=
  match ledger.document.switch index with
  | .error refused => (.refused refused [], ledger)
  | .ok project =>
    let (shown, ledger) :=
      ledger.opens (.project project) project.selected.name project.selected.content
    (.updated [shown], ledger)

def edit (ledger : Ledger) (text : String) : Outcome × Ledger :=
  match ledger.document.edit text with
  | none => (.unchanged [], ledger)
  | some document => (.updated [], { ledger with document := document })

def setView (ledger : Ledger) (view : View) : Outcome × Ledger :=
  match (ledger.entries ledger.activeKey).withView view with
  | .error refused => (.refused refused [], ledger)
  | .ok none => ({ changed := false }, ledger)
  | .ok (some entry) => ({ changed := true }, ledger.enter ledger.activeKey entry)

def request (ledger : Ledger) (kind : ArtifactKind) : Outcome × Ledger :=
  if Text.isAllBlank ledger.document.content then
    (.unchanged [.notice .warning "Editor is empty"], ledger)
  else
    (.updated [.request kind ledger.activeKey ledger.document.content],
      { ledger with inFlight := ledger.inFlight.insert kind ledger.activeKey })

def copyExplanation (ledger : Ledger) : Outcome × Ledger :=
  let explanation := (ledger.entries ledger.activeKey).explanation
  if explanation = "" then
    (.unchanged [.notice .info "No explanation to copy"], ledger)
  else (.unchanged [.clipboard explanation], ledger)

/-- The display key under which a message is taken in. -/
def target (ledger : Ledger) (message : ArtifactMessage) : String :=
  match ledger.config.responseBinding with
  | .originating => message.key
  | .activeAtArrival => ledger.activeKey

def artifactArrived (ledger : Ledger) (message : ArtifactMessage) : Outcome × Ledger :=
  let key := ledger.target message
  let settled := { ledger with inFlight := ledger.inFlight.erase message.kind message.key }
  match (ledger.entries key).withArtifact message.kind message.payload
      (key = ledger.activeKey) with
  | none => ({ changed := ledger.inFlight.contains message.kind message.key }, settled)
  | some entry => ({ changed := true }, settled.enter key entry)

def artifactFailed (ledger : Ledger) (kind : ArtifactKind) (key : String) (error : DeskError) :
    Outcome × Ledger :=
  let message := "Failed to generate " ++ kind.name ++ ": " ++ error.message
  ({ effects := [.notice .error message], changed := true, error := some error },
    { ledger with inFlight := ledger.inFlight.erase kind key })

def clearAll (ledger : Ledger) : Outcome × Ledger :=
  (.updated [.clearBackend, .recentFiles []],
    { ledger with
      document := .empty
      recent := ledger.recent.clear
      inFlight := .empty
      entries := fun _ => .blank })

def dispatch (ledger : Ledger) : Action → Outcome × Ledger
  | .openPath path => (.unchanged [.loadFile path], ledger)
  | .openFolder path => (.unchanged [.loadFolder path], ledger)
  | .openSingle name content =>
    let (shown, ledger) := ledger.opens (.single name content) name content
    (.updated [.uploadFile name content, shown], ledger)
  | .openProject files => ledger.openProject files
  | .newFile =>
    let (shown, ledger) :=
      ledger.opens (.single Document.untitledName "") Document.untitledName ""
    (.updated [shown], ledger)
  | .openRecent name => ledger.openRecent name
  | .switch index => ledger.switch index
  | .edit text => ledger.edit text
  | .setView view => ledger.setView view
  | .request kind => ledger.request kind
  | .resetTestbench =>
    (.updated [],
      ledger.enter ledger.activeKey (ledger.entries ledger.activeKey).withoutTestbench)
  | .copyExplanation => ledger.copyExplanation
  | .artifactArrived message => ledger.artifactArrived message
  | .artifactFailed kind key error => ledger.artifactFailed kind key error
  | .loadFailed _ error => (.refusedAloud error, ledger)
  | .clearAll => ledger.clearAll

/-- What is answered to a step, and the ledger after it. Looking at an entry changes nothing. -/
def take (ledger : Ledger) : Desk.Step → (Outcome ⊕ ArtifactEntry) × Ledger
  | .act action => (.inl (ledger.dispatch action).1, (ledger.dispatch action).2)
  | .look key => (.inr (ledger.entries key), ledger)

def answers (ledger : Ledger) : List Desk.Step → List (Outcome ⊕ ArtifactEntry)
  | [] => []
  | step :: steps => (ledger.take step).1 :: (ledger.take step).2.answers steps

def run (ledger : Ledger) (steps : List Desk.Step) : Ledger :=
  steps.foldl (fun reached step => (reached.take step).2) ledger

end Ledger

namespace Desk

section
variable {σ : Type} [KeyValueStore σ]

/-- All that is seen of a desk, wherever its entries are. -/
def ledger (desk : Desk σ) : Ledger where
  config := desk.config
  document := desk.state.document
  recent := desk.state.recent
  inFlight := desk.state.inFlight
  entries := desk.entry

def answers (desk : Desk σ) : List Step → List (Outcome ⊕ ArtifactEntry)
  | [] => []
  | step :: steps => desk.answer step :: (desk.after step).answers steps

/-- An entry is read, or the one of the active file, or the active file's explanation is copied. -/
inductive Glance where
  | entry (key : String)
  | activeEntry
  | copyExplanation
  deriving DecidableEq, Repr

def Glance.step (desk : Desk σ) : Glance → Step
  | .entry key => .look key
  | .activeEntry => .look desk.activeKey
  | .copyExplanation => .act .copyExplanation

def glance (desk : Desk σ) (glances : List Glance) : Desk σ :=
  glances.foldl (fun reached glance => reached.after (glance.step reached)) desk

/-- The answers to the steps when some entries are read before each of them. -/
def answersAmid (desk : Desk σ) : List (List Glance × Step) → List (Outcome ⊕ ArtifactEntry)
  | [] => []
  | (glances, step) :: rest =>
    (desk.glance glances).answer step :: ((desk.glance glances).after step).answersAmid rest

def runAmid (desk : Desk σ) (rounds : List (List Glance × Step)) : Desk σ :=
  rounds.foldl (fun reached round => (reached.glance round.1).after round.2) desk

end

variable {σ : Type} [KeyValueStore σ]

/-! ### The ledger after each deed -/

@[simp] theorem ledger_load (desk : Desk σ) (key : String) :
    (desk.load key).ledger = desk.ledger := by
  have seen : (desk.load key).entry = desk.entry :=
    funext (ArtifactCache.entry_load desk.state.artifacts desk.storage key)
  exact congrArg
    (Ledger.mk desk.config desk.state.document desk.state.recent desk.state.inFlight) seen

theorem ledger_putInFlight (desk : Desk σ) (inFlight : InFlight) :
    (desk.putInFlight inFlight).ledger = { desk.ledger with inFlight := inFlight } := rfl

/-- Nothing is left in memory after clearing, so every entry is read from what is then stored. -/
theorem ledger_cleared (desk : Desk σ) :
    desk.clearAll.2.ledger =
      { desk.ledger.clearAll.2 with
        entries := ArtifactCache.storedEntry desk.clearAll.2.storage } := rfl

theorem ledger_clearAll (desk : Desk σ) (clears : KeyValueStore.AlwaysClears desk.storage) :
    desk.clearAll.2.ledger = desk.ledger.clearAll.2 := by
  have blank : ArtifactCache.storedEntry desk.clearAll.2.storage = fun _ => .blank :=
    funext (storedEntry_cleared desk clears)
  rw [ledger_cleared, blank]
  rfl

variable [AtomicStore σ]

@[simp] theorem ledger_putDocument (desk : Desk σ) (document : Document) :
    (desk.putDocument document).ledger = { desk.ledger with document := document } := by
  -- The records of the document are no entry's, whichever of the calls were refused.
  have within : (Deed.putDocument document).Within [.document] [] := List.mem_cons_self
  have kept := KeptTo.carryOut desk within
  have seen : (desk.putDocument document).entry = desk.entry :=
    funext fun key => kept.entries key (by simp)
  exact congrArg (Ledger.mk desk.config document desk.state.recent desk.state.inFlight) seen

@[simp] theorem ledger_touchRecent (desk : Desk σ) (name content : String) :
    (desk.touchRecent name content).2.ledger =
      { desk.ledger with recent := (desk.state.recent.touch name content).2 } := by
  have within : (Deed.touchRecent name content).Within [.recent] [] := List.mem_cons_self
  have kept := KeptTo.carryOut desk within
  have seen : (desk.touchRecent name content).2.entry = desk.entry :=
    funext fun key => kept.entries key (by simp)
  exact congrArg (Ledger.mk desk.config desk.state.document
    (desk.state.recent.touch name content).2 desk.state.inFlight) seen

theorem ledger_change (desk : Desk σ) (key : String)
    (how : ArtifactEntry → Option ArtifactEntry) :
    (desk.change key how).ledger =
      desk.ledger.enter key ((how (desk.entry key)).getD (desk.entry key)) := by
  have seen : (desk.change key how).entry = fun other =>
      if other = key then (how (desk.entry key)).getD (desk.entry key) else desk.entry other := by
    funext other
    by_cases same : other = key
    · rw [if_pos same, same, entry_change_self]
    · rw [if_neg same, entry_change_of_ne desk same]
  rw [change_eq] at seen ⊢
  exact congrArg
    (Ledger.mk desk.config desk.state.document desk.state.recent desk.state.inFlight) seen

omit [AtomicStore σ] in
theorem ledger_change_of_none {desk : Desk σ} {key : String}
    {how : ArtifactEntry → Option ArtifactEntry} (idle : how (desk.entry key) = none) :
    (desk.change key how).ledger = desk.ledger := by
  rw [change_of_none idle, ledger_load]

theorem ledger_change_of_some {desk : Desk σ} {key : String}
    {how : ArtifactEntry → Option ArtifactEntry} {next : ArtifactEntry}
    (changed : how (desk.entry key) = some next) :
    (desk.change key how).ledger = desk.ledger.enter key next := by
  rw [ledger_change, changed]
  rfl

/-- Once the document is in place, the rest of opening it is putting its file at the front. -/
theorem ledger_opens {desk reached : Desk σ} {document : Document}
    (put : reached.ledger = { desk.ledger with document := document }) (name content : String) :
    ((reached.touchRecent name content).1, (reached.touchRecent name content).2.ledger) =
      desk.ledger.opens document name content := by
  have recent : reached.state.recent = desk.state.recent := congrArg Ledger.recent put
  rw [ledger_touchRecent, put]
  simp only [touchRecent, recent]
  rfl

/-! ### The ledger after each action -/

/-- What is answered, and the ledger of the desk after it. -/
private def seen (answered : Outcome × Desk σ) : Outcome × Ledger :=
  (answered.1, answered.2.ledger)

private theorem seen_openSingle (desk : Desk σ) (name content : String) :
    ((desk.openSingle name content).1, (desk.openSingle name content).2.ledger) =
      desk.ledger.opens (.single name content) name content :=
  ledger_opens (ledger_putDocument desk _) name content

private theorem seen_openProject (desk : Desk σ) (files : List SourceFile) :
    seen (desk.openProject files) = desk.ledger.openProject files := by
  unfold openProject Ledger.openProject
  cases Document.openProject files with
  | error refused => rfl
  | ok project =>
    simp only [← ledger_opens (ledger_putDocument desk (.project project))]
    rfl

private theorem seen_openRecent (desk : Desk σ) (name : String) :
    seen (desk.openRecent name) = desk.ledger.openRecent name := by
  have recent : desk.ledger.recent = desk.state.recent := rfl
  unfold openRecent Ledger.openRecent
  rw [recent]
  cases desk.state.recent.get? name with
  | none => rfl
  | some file =>
    simp only [← seen_openSingle]
    rfl

private theorem seen_switch (desk : Desk σ) (index : UInt64) :
    seen (desk.switch index) = desk.ledger.switch index := by
  have document : desk.ledger.document = desk.state.document := rfl
  unfold switch Ledger.switch
  rw [document]
  cases desk.state.document.switch index with
  | error refused => rfl
  | ok project =>
    have put := (ledger_load _ (displayKey project.selected.name)).trans
      (ledger_putDocument desk (.project project))
    simp only [← ledger_opens put]
    rfl

private theorem seen_edit (desk : Desk σ) (text : String) :
    seen (desk.edit text) = desk.ledger.edit text := by
  have document : desk.ledger.document = desk.state.document := rfl
  unfold edit Ledger.edit
  rw [document]
  cases desk.state.document.edit text with
  | none => rfl
  | some next => exact congrArg (Prod.mk _) (ledger_putDocument desk next)

private theorem seen_setView (desk : Desk σ) (view : View) :
    seen (desk.setView view) = desk.ledger.setView view := by
  have entry : desk.ledger.entries desk.ledger.activeKey = desk.entry desk.activeKey := rfl
  unfold seen Ledger.setView
  rw [setView_outcome, setView_eq_change, entry]
  cases shown : (desk.entry desk.activeKey).withView view with
  | error refused => rw [ledger_change_of_none (by rw [shown]; rfl)]
  | ok next =>
    cases next with
    | none =>
      rw [ledger_change_of_none (by rw [shown]; rfl)]
      rfl
    | some entry =>
      rw [ledger_change_of_some (by rw [shown]; rfl)]
      rfl

omit [AtomicStore σ] in
private theorem seen_request (desk : Desk σ) (kind : ArtifactKind) :
    seen (desk.request kind) = desk.ledger.request kind := by
  have document : desk.ledger.document = desk.state.document := rfl
  simp only [request, Ledger.request, document]
  split <;> rfl

omit [AtomicStore σ] in
private theorem seen_copyExplanation (desk : Desk σ) :
    seen desk.copyExplanation = desk.ledger.copyExplanation := by
  have entry : desk.ledger.entries desk.ledger.activeKey = desk.entry desk.activeKey := rfl
  simp only [seen, copyExplanation, Ledger.copyExplanation, ledger_load, entry]
  split <;> rfl

private theorem seen_artifactArrived (desk : Desk σ) (message : ArtifactMessage) :
    seen (desk.artifactArrived message) = desk.ledger.artifactArrived message := by
  have target : desk.ledger.target message = desk.target message := rfl
  have entry : desk.ledger.entries (desk.target message) = desk.entry (desk.target message) := rfl
  -- The entry changes as the message says; what is awaited is no part of it.
  have after : (desk.artifactArrived message).2.ledger =
      { (desk.change (desk.target message) fun entry =>
          entry.withArtifact message.kind message.payload
            (desk.target message = desk.activeKey)).ledger with
        inFlight := desk.state.inFlight.erase message.kind message.key } := rfl
  unfold seen
  rw [artifactArrived_outcome, after]
  simp only [Ledger.artifactArrived, target, entry]
  have active : desk.ledger.activeKey = desk.activeKey := rfl
  rw [active]
  cases changed : (desk.entry (desk.target message)).withArtifact message.kind message.payload
      (desk.target message = desk.activeKey) with
  | none =>
    rw [ledger_change_of_none changed]
    simp [ledger]
  | some next =>
    rw [ledger_change_of_some changed]
    simp [Ledger.enter, ledger]

private theorem seen_dispatch (desk : Desk σ) (clears : KeyValueStore.AlwaysClears desk.storage)
    (action : Action) : seen (desk.dispatch action) = desk.ledger.dispatch action := by
  cases action with
  | openPath path => rfl
  | openFolder path => rfl
  | openSingle name content =>
    simp only [Ledger.dispatch, ← seen_openSingle]
    rfl
  | openProject files => exact seen_openProject desk files
  | newFile =>
    simp only [Ledger.dispatch, ← seen_openSingle]
    rfl
  | openRecent name => exact seen_openRecent desk name
  | switch index => exact seen_switch desk index
  | edit text => exact seen_edit desk text
  | setView view => exact seen_setView desk view
  | request kind => exact seen_request desk kind
  | resetTestbench =>
    exact congrArg (Prod.mk _)
      (ledger_change desk desk.activeKey fun entry => some entry.withoutTestbench)
  | copyExplanation => exact seen_copyExplanation desk
  | artifactArrived message => exact seen_artifactArrived desk message
  | artifactFailed kind key error => rfl
  | loadFailed path error => rfl
  | clearAll => exact congrArg (Prod.mk _) (ledger_clearAll desk clears)

theorem take_ledger (desk : Desk σ) (clears : KeyValueStore.AlwaysClears desk.storage)
    (step : Step) : desk.ledger.take step = (desk.answer step, (desk.after step).ledger) := by
  cases step with
  | act action =>
    rw [Ledger.take, ← seen_dispatch desk clears action]
    rfl
  | look key => exact congrArg (Prod.mk _) (ledger_load desk key).symm

theorem alwaysClears_after (desk : Desk σ) (clears : KeyValueStore.AlwaysClears desk.storage)
    (step : Step) : KeyValueStore.AlwaysClears (desk.after step).storage := by
  have alone : InStep desk desk := ⟨rfl, rfl, fun _ _ => rfl, clears, clears⟩
  exact (alone.after step).leftClears

theorem answers_ledger (desk : Desk σ) (clears : KeyValueStore.AlwaysClears desk.storage)
    (steps : List Step) :
    desk.answers steps = desk.ledger.answers steps ∧
    (desk.run steps).ledger = desk.ledger.run steps := by
  induction steps generalizing desk with
  | nil => exact ⟨rfl, rfl⟩
  | cons step steps ih =>
    -- Clearing is still accepted after the step, so the ledger stands for the rest of the steps.
    obtain ⟨answers, reached⟩ := ih (desk.after step) (alwaysClears_after desk clears step)
    have taken := take_ledger desk clears step
    constructor
    · rw [Desk.answers, Ledger.answers, answers, taken]
    · rw [Ledger.run, List.foldl_cons, taken]
      exact reached

/-! ### What is only read -/

/-- Two desks differ at most in which entries are in memory. -/
structure UpToLoading (left right : Desk σ) : Prop where
  ledger : left.ledger = right.ledger
  storage : left.storage = right.storage

namespace UpToLoading

variable {left right : Desk σ}

omit [AtomicStore σ] in
theorem outlook (alike : UpToLoading left right) : SameOutlook left right where
  config := congrArg Ledger.config alike.ledger
  document := congrArg Ledger.document alike.ledger
  recent := congrArg Ledger.recent alike.ledger

omit [AtomicStore σ] in
theorem entry (alike : UpToLoading left right) (key : String) : left.entry key = right.entry key :=
  congrFun (congrArg Ledger.entries alike.ledger) key

omit [AtomicStore σ] in
theorem inFlight (alike : UpToLoading left right) : left.state.inFlight = right.state.inFlight :=
  congrArg Ledger.inFlight alike.ledger

omit [AtomicStore σ] in
theorem load (alike : UpToLoading left right) (key : String) :
    UpToLoading (left.load key) right :=
  ⟨(ledger_load left key).trans alike.ledger, alike.storage⟩

omit [AtomicStore σ] in
theorem symm (alike : UpToLoading left right) : UpToLoading right left :=
  ⟨alike.ledger.symm, alike.storage.symm⟩

omit [AtomicStore σ] in
/-- The same calls are made at both desks. -/
theorem persist (alike : UpToLoading left right) (state other : DeskState) (calls : List Write) :
    ({ left with state := state }.persist calls).storage =
      ({ right with state := other }.persist calls).storage :=
  congrArg (fun storage => (KeyValueStore.writeAll storage calls).2) alike.storage

theorem carryOut (alike : UpToLoading left right) (deed : Deed) :
    UpToLoading (left.carryOut deed) (right.carryOut deed) := by
  cases deed with
  | putDocument document =>
    refine ⟨?_, alike.persist _ _ document.writes⟩
    simp only [Desk.carryOut, ledger_putDocument, alike.ledger]
  | touchRecent name content =>
    have recent := alike.outlook.recent
    constructor
    · simp only [Desk.carryOut, ledger_touchRecent, alike.ledger, recent]
    · simp only [Desk.carryOut, touchRecent, recent]
      exact alike.persist _ _ _
  | load key => exact ((alike.load key).symm.load key).symm
  | change key how =>
    -- Loaded or not, both have the same entry, so they change it alike and write the same.
    constructor
    · simp only [Desk.carryOut, ledger_change, alike.ledger, alike.entry key]
    · simp only [Desk.carryOut, change_eq, alike.entry key]
      exact alike.persist _ _ _
  | await kind key =>
    refine ⟨?_, alike.storage⟩
    simp only [Desk.carryOut, ledger_putInFlight, alike.ledger, alike.inFlight]
  | settle kind key =>
    refine ⟨?_, alike.storage⟩
    simp only [Desk.carryOut, ledger_putInFlight, alike.ledger, alike.inFlight]
  | clear =>
    have storage : left.clearAll.2.storage = right.clearAll.2.storage := alike.persist _ _ [.clear]
    refine ⟨?_, storage⟩
    simp only [Desk.carryOut, ledger_cleared, alike.ledger, storage]

theorem after (alike : UpToLoading left right) (step : Step) :
    UpToLoading (left.after step) (right.after step) := by
  cases step with
  | act action =>
    simp only [Desk.after, dispatch_eq_deeds, deeds_congr alike.outlook action]
    -- Both carry out the same deeds, one after the other.
    generalize right.deeds action = deeds
    induction deeds generalizing left right with
    | nil => exact alike
    | cons deed deeds ih => exact ih (alike.carryOut deed)
  | look key => exact ((alike.load key).symm.load key).symm

omit [AtomicStore σ] in
theorem answer (alike : UpToLoading left right) (step : Step) :
    left.answer step = right.answer step := by
  cases step with
  | act action =>
    refine congrArg Sum.inl (outcome_congr alike.outlook (alike.entry _) ?_)
    intro message _
    rw [alike.inFlight]
  | look key => exact congrArg Sum.inr (alike.entry key)

omit [AtomicStore σ] in
theorem glance (alike : UpToLoading left right) (glances : List Glance) :
    UpToLoading (left.glance glances) right := by
  induction glances generalizing left with
  | nil => exact alike
  | cons first glances ih => cases first <;> exact ih (alike.load _)

theorem rounds (alike : UpToLoading left right) (rounds : List (List Glance × Step)) :
    left.answersAmid rounds = right.answers (rounds.map Prod.snd) ∧
    UpToLoading (left.runAmid rounds) (right.run (rounds.map Prod.snd)) := by
  induction rounds generalizing left right with
  | nil => exact ⟨rfl, alike⟩
  | cons round rounds ih =>
    have ready := alike.glance round.1
    obtain ⟨answers, reached⟩ := ih (ready.after round.2)
    refine ⟨?_, reached⟩
    simp only [answersAmid, List.map_cons, Desk.answers, ready.answer round.2, answers]

end UpToLoading

/-- A desk whose storage refuses any calls but clearing does what its ledger does: it answers every
step alike, and the entry of each file is the ledger's, whether it is in memory or not. So entries
can be read at any time, any number of times: that changes no answer, nothing that is seen of the
desk and nothing in the storage. -/
theorem lazy_entries_do_not_show (config : DeskConfig) {storage : σ}
    (clears : KeyValueStore.AlwaysClears storage) (steps : List Step)
    (rounds : List (List Glance × Step)) (glances : List Glance) :
    let desk := restore config storage
    let ledger := Ledger.ofStorage config storage
    (desk.answers steps = ledger.answers steps ∧
      (desk.run steps).ledger = ledger.run steps ∧
      ∀ key, (desk.run steps).entry key = (ledger.run steps).entries key) ∧
    let plain := desk.run (rounds.map Prod.snd)
    let amid := (desk.runAmid rounds).glance glances
    desk.answersAmid rounds = desk.answers (rounds.map Prod.snd) ∧
    amid.ledger = plain.ledger ∧ amid.storage = plain.storage := by
  intro desk ledger
  obtain ⟨answers, reached⟩ := answers_ledger desk clears steps
  have alike : UpToLoading desk desk := ⟨rfl, rfl⟩
  obtain ⟨answersAmid, upToLoading⟩ := alike.rounds rounds
  have last := upToLoading.glance glances
  refine ⟨⟨answers, reached, fun key => ?_⟩, answersAmid, last.ledger, last.storage⟩
  exact congrFun (congrArg Ledger.entries reached) key

/-- Nothing but clearing is accepted. The record of a file that is not open has a view of a
testbench that it does not have, and is read before or after a testbench has arrived for it. -/
theorem entry_read_early_or_late :
    let refuses : List Write → Write → Bool := fun _ call => call ≠ .clear
    let held : ArtifactEntry := { explanation := "Old.", testbench := "lost", view := .testbench }
    let storage : Watched Entries :=
      { inner := .ofList [("artifact-b.v", Stored.print held)], refuses := refuses }
    let opening : Step := .act (.openSingle "a.v" "module a;")
    let arrival : Step := .act (.artifactArrived ⟨.testbench, "b.v", "module t;"⟩)
    let desk := restore {} storage
    desk.answersAmid [([.entry "b.v", .copyExplanation], opening), ([], arrival),
      ([.activeEntry], .look "b.v")] = desk.answers [opening, arrival, .look "b.v"] ∧
    (desk.run [opening, arrival]).entry "b.v" =
      { explanation := "Old.", testbench := "module t;", testbenchEnabled := true } ∧
    (desk.run [opening, arrival]).storage.inner = storage.inner := by
  intro refuses held storage opening arrival desk
  have clears : KeyValueStore.AlwaysClears storage := Watched.alwaysClears fun _ => rfl
  obtain ⟨⟨_, _, entries⟩, answers, _⟩ := lazy_entries_do_not_show {} clears [opening, arrival]
    [([.entry "b.v", .copyExplanation], opening), ([], arrival), ([.activeEntry], .look "b.v")] []
  refine ⟨answers, ?_, by decide +kernel⟩
  rw [entries "b.v"]
  decide +kernel

end Desk

end HdlDesk
