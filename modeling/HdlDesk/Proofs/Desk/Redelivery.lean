import HdlDesk.Proofs.Artifact.Arrivals
import HdlDesk.Proofs.Desk.Unchanged

/-!
# Artifacts that are delivered again

An artifact that nobody waits for and that the entry has already changes nothing: no call is made,
and the view stays the one that the user has chosen since. Whatever a message finds, it ends the
request that it answers and leaves its artifact in an entry in memory, under whichever binding. So
when the same message comes again right away there is nothing left to do, not even an entry to load.
-/
namespace HdlDesk.Desk

section
variable {σ : Type} [KeyValueStore σ] (desk : Desk σ)

/-- An entry that is in memory need not be loaded. -/
theorem load_of_held {key : String} {entry : ArtifactEntry}
    (held : desk.state.artifacts.get? key = some entry) : desk.load key = desk := by
  unfold load ArtifactCache.load
  rw [held]

theorem entry_of_held {key : String} {entry : ArtifactEntry}
    (held : desk.state.artifacts.get? key = some entry) : desk.entry key = entry := by
  unfold Desk.entry ArtifactCache.entry
  rw [held]
  rfl

/-- A message that brings nothing new to an entry, and that answers no request, is passed over. -/
theorem dispatch_artifact_of_has {message : ArtifactMessage}
    (awaited : desk.state.inFlight.contains message.kind message.key = false)
    (has : (desk.entry (desk.target message)).Has message.kind message.payload) :
    desk.dispatch (.artifactArrived message) = ({}, desk.load (desk.target message)) :=
  artifactArrived_of_idle desk awaited
    (((desk.entry _).withArtifact_eq_none_iff message.kind message.payload _).mpr has)

/-- What a message leaves behind: its entry is in memory and has the artifact. -/
theorem held_after_arrival (message : ArtifactMessage) :
    ∃ entry, (desk.artifactArrived message).2.state.artifacts.get? (desk.target message) =
        some entry ∧ entry.Has message.kind message.payload := by
  refine ⟨_, ?_, (desk.entry (desk.target message)).has_withArtifact message.kind message.payload
    (desk.target message = desk.activeKey)⟩
  rw [artifactArrived_eq_change, change_eq]
  exact (SortedMap.get?_insert _ _ _ _).trans (if_pos rfl)

theorem dispatch_artifact_again (message : ArtifactMessage) :
    let once := (desk.dispatch (.artifactArrived message)).2
    once.dispatch (.artifactArrived message) = ({}, once) := by
  intro once
  obtain ⟨entry, held, has⟩ : ∃ entry,
      once.state.artifacts.get? (once.target message) = some entry ∧
      entry.Has message.kind message.payload := desk.held_after_arrival message
  have settled : once.state.inFlight.contains message.kind message.key = false := by
    show (desk.state.inFlight.erase message.kind message.key).contains _ _ = false
    rw [InFlight.contains_erase]
    simp
  have seen := once.entry_of_held held
  rw [once.dispatch_artifact_of_has settled (seen ▸ has), once.load_of_held held]

end

/-- Let a message come that answers no request in flight, for an entry that has its artifact. Then
nothing has changed, nothing is to be done, no call is made, and nothing differs that can be seen.
Any message that comes twice in a row leaves the desk as it left it the first time. -/
theorem redelivery_changes_nothing {σ : Type} [KeyValueStore σ] (desk : Desk (Watched σ))
    (message : ArtifactMessage) :
    let delivered := desk.dispatch (.artifactArrived message)
    (desk.state.inFlight.contains message.kind message.key = false →
      (desk.entry (desk.target message)).Has message.kind message.payload →
      delivered.1 = { effects := [], changed := false, error := none } ∧
      delivered.2.storage.journal = desk.storage.journal ∧ OnlyLoads desk delivered.2) ∧
    delivered.2.dispatch (.artifactArrived message) =
      ({ effects := [], changed := false, error := none }, delivered.2) := by
  intro delivered
  refine ⟨fun awaited has => ?_, desk.dispatch_artifact_again message⟩
  have passed : delivered = ({}, desk.load (desk.target message)) :=
    desk.dispatch_artifact_of_has awaited has
  rw [passed]
  exact ⟨rfl, rfl, onlyLoads_load desk _⟩

/-- The user has gone back to the code when the explanation comes a second time. -/
theorem explanation_comes_again :
    let desk := (restore {} ({ inner := .empty } : Watched Entries)).run
      [.act (.openSingle "a.v" "module a;"),
        .act (.artifactArrived ⟨.explanation, "a.v", "A module."⟩), .act (.setView .code)]
    let delivered := desk.dispatch (.artifactArrived ⟨.explanation, "a.v", "A module."⟩)
    delivered.1.changed = false ∧ delivered.2.storage.journal = desk.storage.journal ∧
    delivered.2.entry "a.v" = { explanation := "A module.", view := .code } := by
  intro desk delivered
  obtain ⟨silent, _⟩ := redelivery_changes_nothing desk ⟨.explanation, "a.v", "A module."⟩
  obtain ⟨outcome, journal, loads⟩ := silent (by decide +kernel) (by
    show (desk.entry _).explanation = _
    decide +kernel)
  refine ⟨congrArg Outcome.changed outcome, journal, ?_⟩
  rw [loads.entry]
  decide +kernel

end HdlDesk.Desk
