import HdlDesk.Proofs.Desk.Deeds
import HdlDesk.Proofs.Desk.Openings

/-!
# A panel of recent files

A panel begins with the files that were restored. After that it is told of nothing but effects, and
shows the list that was displayed last. It never falls behind the desk: an action that opens a file
or clears everything displays the list as it is then, and any other one leaves the list alone.
-/
namespace HdlDesk

/-- The list of recent files that an effect displays. -/
def Effect.recentFiles? : Effect → Option (List RecentFile)
  | .recentFiles files => some files
  | _ => none

/-- The lists of recent files that are displayed, in order. -/
def Outcome.recentLists (outcome : Outcome) : List (List RecentFile) :=
  outcome.effects.filterMap Effect.recentFiles?

theorem Outcome.mem_recentLists {outcome : Outcome} {files : List RecentFile} :
    files ∈ outcome.recentLists ↔ .recentFiles files ∈ outcome.effects := by
  unfold recentLists
  rw [List.mem_filterMap]
  constructor
  · rintro ⟨effect, told, shows⟩
    unfold Effect.recentFiles? at shows
    split at shows
    · cases shows
      exact told
    · cases shows
  · intro told
    exact ⟨_, told, rfl⟩

/-- What a panel shows once it has been told of an effect. -/
def panelAfter (shown : List RecentFile) (effect : Effect) : List RecentFile :=
  effect.recentFiles?.getD shown

/-- Of all that a panel is told, only the lists matter. -/
theorem foldl_panelAfter (outcome : Outcome) (shown : List RecentFile) :
    outcome.effects.foldl panelAfter shown =
      outcome.recentLists.foldl (fun _ files => files) shown := by
  unfold Outcome.recentLists
  rw [List.foldl_filterMap]
  rfl

namespace Desk

variable {σ : Type} [KeyValueStore σ]

/-- The effects of all that is done at a desk, in order. -/
def effects (desk : Desk σ) : List Step → List Effect
  | [] => []
  | .act action :: steps =>
    (desk.dispatch action).1.effects ++ (desk.dispatch action).2.effects steps
  | .look key :: steps => (desk.load key).effects steps

/-- Opening a file and clearing everything display the list as it is then, once. No other action
displays a list. -/
theorem recentLists_dispatch (desk : Desk σ) (action : Action) :
    (desk.dispatch action).1.recentLists =
      if action = .clearAll then [[]]
      else (desk.opened? (.act action)).toList.map fun _ =>
        (desk.dispatch action).2.state.recent.files := by
  cases action with
  | openProject files => cases files <;> rfl
  | openRecent name =>
    simp only [dispatch, openRecent, opened?]
    cases desk.state.recent.get? name <;> rfl
  | switch index =>
    simp only [dispatch, switch, opened?]
    rw [← Document.selected_switch]
    cases desk.state.document.switch index <;> rfl
  | edit text =>
    simp only [dispatch, edit]
    split <;> rfl
  | setView view =>
    show (desk.setView view).1.recentLists = []
    rw [setView_outcome]
    split <;> rfl
  | request kind =>
    simp only [dispatch, request]
    cases kind <;> split <;> rfl
  | copyExplanation =>
    simp only [dispatch, copyExplanation]
    split <;> rfl
  | _ => rfl

/-- An action displays the list as it is then, or leaves it alone. -/
theorem recentLists_cases (desk : Desk σ) (action : Action) :
    (desk.dispatch action).1.recentLists = [(desk.dispatch action).2.state.recent.files] ∨
    (desk.dispatch action).1.recentLists = [] ∧
      (desk.dispatch action).2.state.recent = desk.state.recent := by
  rw [recentLists_dispatch]
  by_cases clears : action = .clearAll
  · subst clears
    exact .inl rfl
  · have keeps : Step.act action ≠ .act .clearAll := fun same => clears (Step.act.inj same)
    have moved := recent_after desk keeps
    rw [if_neg clears]
    cases opened : desk.opened? (.act action) with
    | some file => exact .inl rfl
    | none =>
      rw [opened] at moved
      exact .inr ⟨rfl, moved⟩

/-- A panel that shows the list of the desk before an action does so after it. -/
theorem panel_dispatch (desk : Desk σ) (action : Action) :
    (desk.dispatch action).1.effects.foldl panelAfter desk.state.recent.files =
      (desk.dispatch action).2.state.recent.files := by
  rw [foldl_panelAfter]
  rcases recentLists_cases desk action with displayed | ⟨silent, same⟩
  · rw [displayed]
    rfl
  · rw [silent, same]
    rfl

theorem panel_run (desk : Desk σ) (steps : List Step) :
    (desk.effects steps).foldl panelAfter desk.state.recent.files =
      (desk.run steps).state.recent.files := by
  induction steps generalizing desk with
  | nil => rfl
  | cons step steps ih =>
    cases step with
    | look key => exact ih (desk.load key)
    | act action =>
      rw [effects, List.foldl_append, panel_dispatch]
      exact ih (desk.dispatch action).2

/-- After a run over any storage, a panel that began with the restored list, and was told of nothing
but effects, shows the recent files of the desk; and each action that changes them displays them as
they are then. -/
theorem panel_shows_recent_files (config : DeskConfig) (storage : σ) (steps : List Step) :
    let desk := restore config storage
    let now := desk.run steps
    (desk.effects steps).foldl panelAfter desk.state.recent.files = now.state.recent.files ∧
    ∀ action, (now.dispatch action).2.state.recent ≠ now.state.recent →
      .recentFiles (now.dispatch action).2.state.recent.files ∈
        (now.dispatch action).1.effects := by
  intro desk now
  refine ⟨desk.panel_run steps, fun action changed => ?_⟩
  rcases recentLists_cases now action with displayed | ⟨_, same⟩
  · rw [← Outcome.mem_recentLists, displayed]
    exact List.mem_singleton_self _
  · exact absurd same changed

/-- Nothing is stored, and opening a file again brings it to the front. -/
theorem panel_while_nothing_is_stored :
    let refuses : List Write → Write → Bool := fun _ _ => true
    let desk := restore {} ({ inner := .empty, refuses := refuses } : Watched Entries)
    let steps : List Step := [.act (.openSingle "a.v" "A"), .act (.openSingle "b.v" "B")]
    let reopened := (desk.run steps).dispatch (.openRecent "a.v")
    (desk.effects steps).foldl panelAfter [] = [⟨"b.v", "B"⟩, ⟨"a.v", "A"⟩] ∧
    .recentFiles [⟨"a.v", "A"⟩, ⟨"b.v", "B"⟩] ∈ reopened.1.effects := by
  intro refuses desk steps reopened
  obtain ⟨shown, displays⟩ := panel_shows_recent_files {}
    ({ inner := .empty, refuses := refuses } : Watched Entries) steps
  have files : reopened.2.state.recent.files = [⟨"a.v", "A"⟩, ⟨"b.v", "B"⟩] := by decide +kernel
  have changed : reopened.2.state.recent ≠ (desk.run steps).state.recent := by decide +kernel
  refine ⟨shown.trans (by decide +kernel), ?_⟩
  rw [← files]
  exact displays (.openRecent "a.v") changed

end Desk

end HdlDesk
