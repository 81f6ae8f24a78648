import HdlDesk.Proofs.Desk.Deeds
import HdlDesk.Proofs.Recent
import HdlDesk.Proofs.Storage.Watched

/-!
# Storage faults do not show in a session

A desk reads its storage when it is restored, and after that only for entries that it does not hold
in memory. The record of such an entry has not been written since the desk was restored or cleared,
so no failing write can have made it stale. Two desks that started from the same records therefore
go on in step: they answer every step alike and hold the same in memory, whichever calls fail on
either side, as long as clearing takes effect.
-/
namespace HdlDesk

/-- What is seen of a step: the outcome of an action or the entry that was looked at, and all that
the desk then holds in memory. -/
structure Sight where
  answer : Outcome ⊕ ArtifactEntry
  config : DeskConfig
  state : DeskState

namespace Desk

section
variable {σ : Type} [KeyValueStore σ]

def answer (desk : Desk σ) : Step → Outcome ⊕ ArtifactEntry
  | .act action => .inl (desk.dispatch action).1
  | .look key => .inr (desk.entry key)

/-- All that is seen of the steps of a run. -/
def transcript (desk : Desk σ) : List Step → List Sight
  | [] => []
  | step :: steps =>
    let next := desk.after step
    ⟨desk.answer step, next.config, next.state⟩ :: next.transcript steps

end

variable {σ τ : Type} [KeyValueStore σ] [KeyValueStore τ]

/-- Two desks hold the same in memory, and neither can come to read a record that the other would
read differently. -/
structure InStep (left : Desk σ) (right : Desk τ) : Prop where
  config : left.config = right.config
  state : left.state = right.state
  unread : ∀ key, left.state.artifacts.get? key = none →
    ArtifactCache.storedEntry left.storage key = ArtifactCache.storedEntry right.storage key
  leftClears : KeyValueStore.AlwaysClears left.storage
  rightClears : KeyValueStore.AlwaysClears right.storage

theorem storedEntry_cleared (desk : Desk σ) (clears : KeyValueStore.AlwaysClears desk.storage)
    (key : String) : ArtifactCache.storedEntry desk.clearAll.2.storage key = .blank := by
  refine ArtifactCache.storedEntry_of_absent ?_
  show KeyValueStore.get? (KeyValueStore.writeAll desk.storage [.clear]).2 _ = none
  rw [KeyValueStore.writeAll_singleton]
  exact clears [] _

theorem alwaysClears_persist (desk : Desk σ) (calls : List Write)
    (clears : KeyValueStore.AlwaysClears desk.storage) :
    KeyValueStore.AlwaysClears (desk.persist calls).storage :=
  KeyValueStore.writeAll_induct KeyValueStore.AlwaysClears calls
    (fun _ call _ kept => kept.write call) desk.storage clears

variable {left : Desk σ} {right : Desk τ}

namespace InStep

theorem entry (together : InStep left right) (key : String) : left.entry key = right.entry key := by
  -- Either both hold the entry or both would read it, and then they read the same.
  unfold Desk.entry ArtifactCache.entry
  rw [← together.state]
  cases held : left.state.artifacts.get? key with
  | some entry => rfl
  | none => exact together.unread key held

theorem outlook (together : InStep left right) : SameOutlook left right where
  config := together.config
  document := by rw [together.state]
  recent := by rw [together.state]

theorem answer (together : InStep left right) (step : Step) :
    left.answer step = right.answer step := by
  cases step with
  | act action =>
    refine congrArg Sum.inl (outcome_congr together.outlook (together.entry _) ?_)
    intro message _
    rw [together.state]
  | look key => exact congrArg Sum.inr (together.entry key)

theorem restore (config : DeskConfig) {storage : σ} {other : τ}
    (clears : KeyValueStore.AlwaysClears storage)
    (otherClears : KeyValueStore.AlwaysClears other)
    (same : KeyValueStore.get? storage = KeyValueStore.get? other) :
    InStep (Desk.restore config storage) (Desk.restore config other) where
  config := rfl
  state := by
    unfold Desk.restore
    rw [Document.restore_congr fun key _ => congrFun same key,
      RecentFiles.restore_congr fun key _ => congrFun same key]
  unread key _ := ArtifactCache.storedEntry_congr fun name _ => congrFun same name
  leftClears := clears
  rightClears := otherClears

/-! ### Each deed keeps the desks in step -/

/-- What is held in memory changes alike, and no entry is forgotten. -/
theorem remember (together : InStep left right) (update : DeskState → DeskState)
    (held : ∀ key, (update left.state).artifacts.get? key = none →
      left.state.artifacts.get? key = none) :
    InStep { left with state := update left.state }
      { right with state := update right.state } where
  config := together.config
  state := congrArg update together.state
  unread key absent := together.unread key (held key absent)
  leftClears := together.leftClears
  rightClears := together.rightClears

/-- The same calls are made, and none is about the record of an entry that may have to be read. -/
theorem persist [AtomicStore σ] [AtomicStore τ] (together : InStep left right) {part : Component}
    {calls : List Write} (owns : part.Owns calls)
    (apart : ∀ key, left.state.artifacts.get? key = none → part ≠ .artifacts key) :
    InStep (left.persist calls) (right.persist calls) where
  config := together.config
  state := together.state
  unread key absent := by
    have onLeft := KeyValueStore.sameRecords_writeAll left.storage owns (apart key absent)
    have onRight := KeyValueStore.sameRecords_writeAll right.storage owns (apart key absent)
    show ArtifactCache.storedEntry (KeyValueStore.writeAll left.storage calls).2 key =
      ArtifactCache.storedEntry (KeyValueStore.writeAll right.storage calls).2 key
    -- On neither side is it of any importance which of the calls failed.
    rw [ArtifactCache.storedEntry_congr onLeft, ArtifactCache.storedEntry_congr onRight]
    exact together.unread key absent
  leftClears := alwaysClears_persist left calls together.leftClears
  rightClears := alwaysClears_persist right calls together.rightClears

/-- An entry is held from now on. -/
theorem hold (together : InStep left right) (key : String) (entry : ArtifactEntry) :
    InStep { left with state.artifacts := left.state.artifacts.insert key entry }
      { right with state.artifacts := right.state.artifacts.insert key entry } := by
  refine together.remember
    (fun state => { state with artifacts := state.artifacts.insert key entry }) fun wanted absent => ?_
  exact (SortedMap.get?_insert_eq_none.mp absent).2

theorem load (together : InStep left right) (key : String) :
    InStep (left.load key) (right.load key) := by
  rw [load_eq, load_eq, ← together.entry key]
  exact together.hold key (left.entry key)

theorem clearAll (together : InStep left right) : InStep left.clearAll.2 right.clearAll.2 where
  config := together.config
  state := by
    show DeskState.mk _ _ _ _ = DeskState.mk _ _ _ _
    rw [together.state]
  unread key _ := by
    -- Every entry is forgotten, also those whose records missed a write; the records are gone too.
    rw [storedEntry_cleared left together.leftClears, storedEntry_cleared right together.rightClears]
  leftClears := alwaysClears_persist _ _ together.leftClears
  rightClears := alwaysClears_persist _ _ together.rightClears

variable [AtomicStore σ] [AtomicStore τ]

theorem change (together : InStep left right) (key : String)
    (how : ArtifactEntry → Option ArtifactEntry) :
    InStep (left.change key how) (right.change key how) := by
  rw [change_eq, change_eq, ← together.entry key]
  have held := together.hold key ((how (left.entry key)).getD (left.entry key))
  refine held.persist (Component.owns_entryWrites key _) fun wanted absent same => ?_
  -- No record is written but that of the entry that is held from now on.
  exact (SortedMap.get?_insert_eq_none.mp absent).1 (Component.artifacts.inj same).symm

theorem carryOut (together : InStep left right) (deed : Deed) :
    InStep (left.carryOut deed) (right.carryOut deed) := by
  cases deed with
  | putDocument document =>
    have remembered := together.remember (fun state => { state with document := document })
      fun _ absent => absent
    exact remembered.persist (Component.owns_documentWrites document) fun _ _ => nofun
  | touchRecent name content =>
    have remembered := together.remember
      (fun state => { state with recent := (state.recent.touch name content).2 })
      fun _ absent => absent
    have written := remembered.persist
      (Component.owns_recentWrites (left.state.recent.touch name content).2) fun _ _ => nofun
    -- The list that is written comes from memory, where both have the same.
    unfold Desk.carryOut touchRecent
    rw [← together.state]
    rw [← together.state] at written
    exact written
  | load key => exact together.load key
  | change key how => exact together.change key how
  | await kind key =>
    exact together.remember (fun state => { state with inFlight := state.inFlight.insert kind key })
      fun _ absent => absent
  | settle kind key =>
    exact together.remember (fun state => { state with inFlight := state.inFlight.erase kind key })
      fun _ absent => absent
  | clear => exact together.clearAll

/-! ### Actions and runs -/

theorem dispatch (together : InStep left right) (action : Action) :
    InStep (left.dispatch action).2 (right.dispatch action).2 := by
  rw [dispatch_eq_deeds, dispatch_eq_deeds, ← deeds_congr together.outlook action]
  -- Both carry out the same deeds, and are in step after each.
  generalize left.deeds action = deeds
  induction deeds generalizing left right with
  | nil => exact together
  | cons deed deeds ih => exact ih (together.carryOut deed)

theorem after (together : InStep left right) (step : Step) :
    InStep (left.after step) (right.after step) := by
  cases step with
  | act action => exact together.dispatch action
  | look key => exact together.load key

theorem transcript (together : InStep left right) (steps : List Step) :
    left.transcript steps = right.transcript steps := by
  induction steps generalizing left right with
  | nil => rfl
  | cons step steps ih =>
    have next := together.after step
    simp only [Desk.transcript, together.answer step, next.config, next.state, ih next]

end InStep

/-- What is seen of a run over entries in memory is seen as well over a storage on which any calls
but clearing fail, and over a file whose folders, drafts and moves fail at any time. -/
theorem transcript_despite_faults (config : DeskConfig) (start : Entries)
    (refuses : List Write → Write → Bool) (reason : DiskError)
    (clears : ∀ before, refuses before .clear = false)
    {φ : Type} [FileSystem φ] (path : String) (files : φ) (steps : List Step) :
    let seen := (restore config start).transcript steps
    (restore config
      ({ inner := start, refuses := refuses, reason := reason } : Watched Entries)).transcript
        steps = seen ∧
    (restore config ({ path := path, entries := start, files := files } : StateFile φ)).transcript
        steps = seen := by
  intro seen
  have plain := KeyValueStore.alwaysClears_entries start
  constructor
  · have watched : KeyValueStore.AlwaysClears
        ({ inner := start, refuses := refuses, reason := reason } : Watched Entries) :=
      Watched.alwaysClears clears
    exact (InStep.restore config watched plain rfl).transcript steps
  · have filed := KeyValueStore.alwaysClears_stateFile
      ({ path := path, entries := start, files := files } : StateFile φ)
    exact (InStep.restore config filed plain rfl).transcript steps

/-- Nothing but clearing is accepted, and there is no folder for the file either: the artifact that
has arrived is still seen, though it is stored nowhere. -/
theorem transcript_while_nothing_is_stored :
    let refuses : List Write → Write → Bool := fun _ call => call ≠ .clear
    let steps : List Step := [.act (.openSingle "a.v" "module a;"),
      .act (.artifactArrived ⟨.explanation, "a.v", "A module."⟩), .look "a.v"]
    let refusing := restore {} ({ inner := .empty, refuses := refuses } : Watched Entries)
    let filed := restore {}
      ({ path := "state.json", entries := .empty, files := ⟨.file .empty, []⟩ } : StateFile Disk)
    let seen := (restore {} (SortedMap.empty : Entries)).transcript steps
    refusing.transcript steps = seen ∧ filed.transcript steps = seen ∧
    seen.map Sight.answer = [
      .inl (.updated [.uploadFile "a.v" "module a;",
        .recentFiles [⟨"a.v", "module a;"⟩]]),
      .inl { changed := true },
      .inr { explanation := "A module.", view := .explanation }] ∧
    (refusing.run steps).storage.inner = .empty := by
  intro refuses steps refusing filed seen
  have clears : ∀ before, refuses before .clear = false := fun _ => rfl
  obtain ⟨watched, inFile⟩ := transcript_despite_faults {} .empty refuses (.refused "injected")
    clears "state.json" (⟨.file .empty, []⟩ : Disk) steps
  refine ⟨watched, inFile, ?_, ?_⟩
  · decide +kernel
  · decide +kernel

end Desk

end HdlDesk
