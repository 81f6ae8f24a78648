import HdlDesk.Artifact.Basic

/-!
# Artifacts that arrive for one entry

An explanation and a testbench set different fields of an entry, and only what is shown on arrival
changes the view. So while the file is not the active one, the two kinds do not get in the way of
each other: whether the one has something to do does not depend on the other, and after both of them
the entry is the same in either order.
-/
namespace HdlDesk.ArtifactEntry

/-- One change after another: the second finds what the first has left. -/
def inTurn (how other : ArtifactEntry → Option ArtifactEntry) (entry : ArtifactEntry) :
    Option ArtifactEntry :=
  match how entry with
  | none => other entry
  | some next => some ((other next).getD next)

variable (entry : ArtifactEntry)

/-- The entry has an artifact: this explanation, or a testbench with this text. -/
def Has (entry : ArtifactEntry) : ArtifactKind → String → Prop
  | .explanation, payload => entry.explanation = payload
  | .testbench, payload => entry.testbenchEnabled = true ∧ entry.testbench = payload

/-- An artifact is passed over exactly when the entry has it. -/
theorem withArtifact_eq_none_iff (kind : ArtifactKind) (payload : String) (isActive : Bool) :
    entry.withArtifact kind payload isActive = none ↔ entry.Has kind payload := by
  cases kind with
  | explanation => simp [withArtifact, withExplanation, Has]
  | testbench => simp [withArtifact, withTestbench, Has]

theorem has_withArtifact (kind : ArtifactKind) (payload : String) (isActive : Bool) :
    ((entry.withArtifact kind payload isActive).getD entry).Has kind payload := by
  cases arrived : entry.withArtifact kind payload isActive with
  | none => exact (entry.withArtifact_eq_none_iff kind payload isActive).mp arrived
  | some next =>
    cases kind with
    | explanation =>
      simp only [withArtifact, withExplanation] at arrived
      split at arrived
      · cases arrived
      · cases arrived
        rfl
    | testbench =>
      simp only [withArtifact, withTestbench] at arrived
      split at arrived
      · cases arrived
      · cases arrived
        exact ⟨rfl, rfl⟩

/-- Only an artifact of the active file changes the view. -/
theorem view_withArtifact_inactive (kind : ArtifactKind) (payload : String) :
    ((entry.withArtifact kind payload false).getD entry).view = entry.view := by
  cases kind with
  | explanation =>
    by_cases same : entry.explanation = payload <;> simp [withArtifact, withExplanation, same]
  | testbench =>
    simp only [withArtifact, withTestbench]
    split <;> rfl

theorem isSome_withExplanation (text : String) (isActive : Bool) :
    (entry.withExplanation text isActive).isSome = decide (entry.explanation ≠ text) := by
  by_cases same : entry.explanation = text <;> simp [withExplanation, same]

theorem isSome_withTestbench (code : String) (isActive : Bool) :
    (entry.withTestbench code isActive).isSome =
      decide ¬(entry.testbenchEnabled ∧ entry.testbench = code) := by
  by_cases same : entry.testbenchEnabled ∧ entry.testbench = code
  · rw [withTestbench, if_pos same, decide_eq_false (not_not_intro same)]
    rfl
  · rw [withTestbench, if_neg same, decide_eq_true same]
    rfl

theorem explanation_withTestbench (code : String) (isActive : Bool) :
    ((entry.withTestbench code isActive).getD entry).explanation = entry.explanation := by
  unfold withTestbench
  split <;> rfl

theorem testbench_withExplanation (text : String) (isActive : Bool) :
    let next := (entry.withExplanation text isActive).getD entry
    next.testbenchEnabled = entry.testbenchEnabled ∧ next.testbench = entry.testbench := by
  unfold withExplanation
  split <;> exact ⟨rfl, rfl⟩

/-- Whether an artifact is new to an entry does not depend on one of the other kind. -/
theorem isSome_withArtifact_after {kind other : ArtifactKind} (different : kind ≠ other)
    (payload text : String) (isActive shown : Bool) :
    (((entry.withArtifact other text shown).getD entry).withArtifact kind payload isActive).isSome =
      (entry.withArtifact kind payload isActive).isSome := by
  match kind, other with
  | .explanation, .testbench =>
    simp only [withArtifact, isSome_withExplanation, explanation_withTestbench]
  | .testbench, .explanation =>
    obtain ⟨enabled, held⟩ := entry.testbench_withExplanation text shown
    simp only [withArtifact, isSome_withTestbench, enabled, held]
  | .explanation, .explanation | .testbench, .testbench => exact absurd rfl different

theorem inTurn_withExplanation_withTestbench (text code : String) :
    inTurn (fun entry => entry.withExplanation text false)
        (fun entry => entry.withTestbench code false) =
      inTurn (fun entry => entry.withTestbench code false)
        fun entry => entry.withExplanation text false := by
  funext entry
  by_cases known : entry.explanation = text
  · by_cases held : entry.testbenchEnabled ∧ entry.testbench = code <;>
      simp [inTurn, withTestbench, withExplanation, known, held]
  · by_cases held : entry.testbenchEnabled ∧ entry.testbench = code <;>
      simp [inTurn, withTestbench, withExplanation, known, held]

theorem inTurn_withArtifact {kind other : ArtifactKind} (different : kind ≠ other)
    (payload text : String) :
    inTurn (fun entry => entry.withArtifact kind payload false)
        (fun entry => entry.withArtifact other text false) =
      inTurn (fun entry => entry.withArtifact other text false)
        fun entry => entry.withArtifact kind payload false := by
  match kind, other with
  | .explanation, .testbench => exact inTurn_withExplanation_withTestbench payload text
  | .testbench, .explanation => exact (inTurn_withExplanation_withTestbench text payload).symm
  | .explanation, .explanation | .testbench, .testbench => exact absurd rfl different

end HdlDesk.ArtifactEntry
