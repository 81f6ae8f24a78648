import HdlDesk.Artifact.Cache

/-!
# Coherent entries

An entry is coherent when a file without a testbench has no text for one and is not shown in the
view of one. Putting an entry right makes it coherent and leaves a coherent entry alone; whatever
arrives, is given up or is asked for keeps it so.
-/
namespace HdlDesk

namespace ArtifactEntry

structure Coherent (entry : ArtifactEntry) : Prop where
  noText : entry.testbenchEnabled = false → entry.testbench = ""
  enabled : entry.view = .testbench → entry.testbenchEnabled = true

theorem coherent_blank : blank.Coherent :=
  ⟨fun _ => rfl, fun shown => nomatch shown⟩

theorem coherent_sanitized (entry : ArtifactEntry) : entry.sanitized.Coherent := by
  unfold sanitized
  split
  next on => exact ⟨fun off => by simp [on] at off, fun _ => on⟩
  next off =>
    refine ⟨fun _ => rfl, fun shown => ?_⟩
    by_cases view : entry.view = .testbench
    · simp [view] at shown
    · simp [view] at shown

theorem sanitized_eq (entry : ArtifactEntry) (coherent : entry.Coherent) :
    entry.sanitized = entry := by
  unfold sanitized
  split
  · rfl
  next off =>
    have text := coherent.noText (by simpa using off)
    have view : entry.view ≠ .testbench := fun shown => off (coherent.enabled shown)
    rw [if_neg view, ← text]

theorem coherent_withArtifact {entry next : ArtifactEntry} {kind : ArtifactKind}
    {payload : String} {isActive : Bool} (coherent : entry.Coherent)
    (arrived : entry.withArtifact kind payload isActive = some next) : next.Coherent := by
  cases kind with
  | explanation =>
    simp only [withArtifact, withExplanation] at arrived
    split at arrived
    · cases arrived
    · cases arrived
      refine ⟨coherent.noText, fun shown => coherent.enabled ?_⟩
      -- Only an entry that was shown in the testbench view before can be so now.
      by_cases taken : isActive = true ∧ payload ≠ ""
      · simp [taken] at shown
      · simpa [taken] using shown
  | testbench =>
    simp only [withArtifact, withTestbench] at arrived
    split at arrived
    · cases arrived
    · cases arrived
      exact ⟨fun off => (nomatch off), fun _ => rfl⟩

theorem coherent_withoutTestbench (entry : ArtifactEntry) : entry.withoutTestbench.Coherent :=
  ⟨fun _ => rfl, fun shown => nomatch shown⟩

theorem coherent_withView {entry next : ArtifactEntry} {view : View} (coherent : entry.Coherent)
    (shown : entry.withView view = .ok (some next)) : next.Coherent := by
  unfold withView at shown
  split at shown
  · cases shown
  next allowed =>
    split at shown
    · cases shown
    · cases shown
      exact ⟨coherent.noText, fun asked =>
        Decidable.byContradiction fun off => allowed ⟨asked, off⟩⟩

end ArtifactEntry

/-- Whatever the storage holds, the entry that is read from it is coherent. -/
theorem ArtifactCache.coherent_storedEntry {σ : Type} [KeyValueStore σ] (storage : σ)
    (key : String) : (storedEntry storage key).Coherent := by
  unfold storedEntry
  split
  · exact ArtifactEntry.coherent_sanitized _
  · exact ArtifactEntry.coherent_blank

end HdlDesk
