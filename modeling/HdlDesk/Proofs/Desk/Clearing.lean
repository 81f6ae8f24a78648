import HdlDesk.Proofs.Desk.Unchanged

/-!
# What is left after clearing

Clearing empties the desk at once, whatever becomes of the call that empties the storage. But the
desk reads an entry again when it is asked for it, and then shows what is stored. So the entries
that are seen after clearing are those of the records that are left: none if clearing took effect,
also where a failure was answered; and all that were stored before if it did not.
-/
namespace HdlDesk.Desk

/-- After clearing, and after any number of entries have been looked at, nothing is open, no file is
remembered and nothing is awaited; the outcome asks for the backend to be cleared, has the empty
list displayed and tells of no error. The entry of each file is the one that is stored then: blank
if clearing the storage took effect, and otherwise the one that was stored before. -/
theorem clearing_shows_what_is_stored {σ : Type} [KeyValueStore σ] (desk : Desk σ)
    (keys : List String) :
    let cleared := desk.dispatch .clearAll
    let seen := cleared.2.run (keys.map .look)
    cleared.1 = {
      effects := [.clearBackend, .recentFiles []]
      changed := true
      error := none } ∧
    seen.state.document = .empty ∧ seen.state.recent.files = [] ∧ seen.state.inFlight = .empty ∧
    (∀ key, seen.entry key = ArtifactCache.storedEntry cleared.2.storage key) ∧
    ((∀ key, KeyValueStore.get? cleared.2.storage key = none) →
      ∀ key, seen.entry key = .blank) ∧
    (KeyValueStore.get? cleared.2.storage = KeyValueStore.get? desk.storage →
      ∀ key, seen.entry key = ArtifactCache.storedEntry desk.storage key) := by
  intro cleared seen
  have loads : OnlyLoads cleared.2 seen := onlyLoads_looks cleared.2 keys
  -- No entry is in memory right after clearing, so each is read from the storage.
  have stored (key : String) : seen.entry key = ArtifactCache.storedEntry cleared.2.storage key :=
    loads.entry key
  refine ⟨rfl, loads.document, ?_, loads.inFlight, stored, fun emptied key => ?_,
    fun kept key => ?_⟩
  · rw [loads.recent]
    rfl
  · rw [stored, ArtifactCache.storedEntry_of_absent (emptied _)]
  · rw [stored, ArtifactCache.storedEntry_congr fun name _ => congrFun kept name]

/-- The storage refuses to be cleared: the explanation that was stored for a file is back as soon as
its entry is looked at. -/
theorem explanation_survives_refused_clearing :
    let refuses : List Write → Write → Bool := fun _ call => call = .clear
    let desk := (restore {} ({ inner := .empty, refuses := refuses } : Watched Entries)).run
      [.act (.openSingle "a.v" "module a;"),
        .act (.artifactArrived ⟨.explanation, "a.v", "A module."⟩)]
    let seen := (desk.dispatch .clearAll).2.run [.look "a.v"]
    seen.entry "a.v" = { explanation := "A module.", view := .explanation } ∧
    seen.entry "a.v" ≠ .blank := by
  intro refuses desk seen
  have kept : KeyValueStore.get? (desk.dispatch .clearAll).2.storage =
      KeyValueStore.get? desk.storage := rfl
  obtain ⟨_, _, _, _, _, _, unchanged⟩ := clearing_shows_what_is_stored desk ["a.v"]
  have back : seen.entry "a.v" = ArtifactCache.storedEntry desk.storage "a.v" :=
    unchanged kept "a.v"
  rw [back]
  constructor
  · decide +kernel
  · decide +kernel

end HdlDesk.Desk
