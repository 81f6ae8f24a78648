import HdlDesk.Proofs.Desk.History
import HdlDesk.Proofs.Recent.Newest

/-!
# The recent files are the newest openings

Five actions open a file: two bring its text along, one makes an empty file, and two take the text
from what the desk already holds. After any run the recent files are the newest of all files opened
since everything was last cleared, before those that the storage held at the start. The invariant is
that the list is the listing of that log; every step keeps it, because it either opens one file, or
clears, or leaves the list alone.
-/
namespace HdlDesk

/-- A file as it is put down when it is opened. -/
def SourceFile.remembered (file : SourceFile) : RecentFile := ⟨file.name, file.content⟩

/-- Switching selects the file at the index, if there is one. -/
theorem Document.selected_switch (document : Document) (index : UInt64) :
    (document.switch index).toOption.map Project.selected = document.files[index.toNat]? := by
  cases document with
  | empty => rfl
  | single name content => rfl
  | project project =>
    simp only [Document.switch, Document.files]
    by_cases inside : index.toNat < project.files.length
    · rw [dif_pos inside, List.getElem?_eq_getElem inside]
      rfl
    · rw [dif_neg inside, List.getElem?_eq_none (Nat.le_of_not_lt inside)]
      rfl

namespace Desk

variable {σ : Type} [KeyValueStore σ]

/-- The file that a step opens, with the text that it is opened with. -/
def opened? (desk : Desk σ) : Step → Option RecentFile
  | .act (.openSingle name content) => some ⟨name, content⟩
  | .act .newFile => some ⟨"untitled.sv", ""⟩
  | .act (.openRecent name) => desk.state.recent.get? name
  | .act (.openProject files) => files.head?.map SourceFile.remembered
  | .act (.switch index) => desk.state.document.files[index.toNat]?.map SourceFile.remembered
  | _ => none

/-- The files that steps open, newest first. Those before the last clearing are forgotten. -/
def openings (desk : Desk σ) : List Step → List RecentFile
  | [] => []
  | step :: steps =>
    (desk.after step).openings steps ++
      if .act .clearAll ∈ steps then [] else (desk.opened? step).toList

/-! ### One step -/

private theorem recent_openRecent (desk : Desk σ) (name : String) :
    (desk.openRecent name).2.state.recent =
      (desk.state.recent.get? name).elim desk.state.recent fun file =>
        (desk.state.recent.touch file.name file.content).2 := by
  unfold openRecent
  cases desk.state.recent.get? name <;> rfl

private theorem recent_switch (desk : Desk σ) (index : UInt64) :
    (desk.switch index).2.state.recent =
      (desk.state.document.files[index.toNat]?).elim desk.state.recent fun file =>
        (desk.state.recent.touch file.name file.content).2 := by
  rw [← Document.selected_switch]
  unfold switch
  cases desk.state.document.switch index <;> rfl

/-- A step that clears nothing puts the file that it opens at the front of the list. -/
theorem recent_after (desk : Desk σ) {step : Step} (keeps : step ≠ .act .clearAll) :
    (desk.after step).state.recent =
      (desk.opened? step).elim desk.state.recent fun file =>
        (desk.state.recent.touch file.name file.content).2 := by
  have told : (desk.after step).state.recent = (desk.account.after step).recent :=
    congrArg Account.recent (account_after desk step)
  cases step with
  | look key => exact told
  | act action =>
    cases action with
    | switch index =>
      refine (recent_switch desk index).trans ?_
      simp only [opened?]
      cases desk.state.document.files[index.toNat]? <;> rfl
    | openProject files =>
      refine told.trans ?_
      cases files <;> rfl
    | openRecent name => exact recent_openRecent desk name
    | clearAll => exact absurd rfl keeps
    | _ => exact told

/-- The recent files of a desk are the listing of a log. -/
structure Lists (desk : Desk σ) (capacity : Nat) (log : List RecentFile) : Prop where
  room : desk.state.recent.capacity = max capacity 1
  listed : desk.state.recent.files = RecentFiles.newest capacity log

variable {desk : Desk σ} {capacity : Nat} {log : List RecentFile}

theorem lists_restore (config : DeskConfig) (storage : σ) :
    (restore config storage).Lists config.recentCapacity (RecentFiles.storedList storage) where
  room := (RecentFiles.wellFormed_restore storage config.recentCapacity).capacity_eq
  listed := RecentFiles.files_restore storage config.recentCapacity

theorem Lists.clearAll (lists : desk.Lists capacity log) :
    (desk.after (.act .clearAll)).Lists capacity [] where
  room := lists.room
  listed := by
    show [] = _
    simp [RecentFiles.newest, RecentFiles.firstOfEachName]

theorem Lists.after (lists : desk.Lists capacity log) {step : Step}
    (keeps : step ≠ .act .clearAll) :
    (desk.after step).Lists capacity ((desk.opened? step).toList ++ log) := by
  have grown := recent_after desk keeps
  cases opened : desk.opened? step with
  | none =>
    rw [opened] at grown
    refine ⟨?_, ?_⟩
    · rw [grown]
      exact lists.room
    · rw [grown]
      exact lists.listed
  | some file =>
    rw [opened, Option.elim_some] at grown
    have wellFormed := RecentFiles.wellFormed_of_listed lists.room lists.listed
    refine ⟨?_, ?_⟩
    · rw [grown]
      exact (RecentFiles.wellFormed_touch wellFormed _ _).capacity_eq
    · rw [grown]
      exact RecentFiles.files_touch_newest lists.room lists.listed file

/-! ### Runs -/

theorem Lists.run (lists : desk.Lists capacity log) (steps : List Step) :
    (desk.run steps).Lists capacity
      (desk.openings steps ++ if .act .clearAll ∈ steps then [] else log) := by
  induction steps generalizing desk log with
  | nil => exact lists
  | cons step steps ih =>
    show ((desk.after step).run steps).Lists capacity _
    by_cases cleared : step = .act .clearAll
    · -- Nothing that came before this step counts.
      subst cleared
      have forgotten := ih lists.clearAll
      simpa [openings, opened?] using forgotten
    · have grown := ih (lists.after cleared)
      by_cases later : .act .clearAll ∈ steps
      · simpa [openings, later] using grown
      · simpa [openings, later, Ne.symm cleared] using grown

/-- After a run over any storage, the recent files are the first of each name, as far as there is
room, among the files opened since the last clearing, newest first, and those stored at the start if
nothing was cleared. So no name is listed twice and there are never too many files; and a file is
lost only when files of as many other names as there is room for were opened after it. -/
theorem run_lists_newest_openings (config : DeskConfig) (storage : σ) (steps : List Step) :
    let room := max config.recentCapacity 1
    let log := (restore config storage).openings steps ++
      if .act .clearAll ∈ steps then [] else RecentFiles.storedList storage
    let files := ((restore config storage).run steps).state.recent.files
    files = (log.eraseDupsBy fun file other => file.name = other.name).take room ∧
    (files.map RecentFile.name).Nodup ∧ files.length ≤ room ∧
    ∀ later file earlier, log = later ++ file :: earlier →
      (∀ other ∈ later, other.name ≠ file.name) →
      (later.eraseDupsBy fun file other => file.name = other.name).length < room →
      file ∈ files := by
  intro room log files
  have listed : files = RecentFiles.newest config.recentCapacity log :=
    ((lists_restore config storage).run steps).listed
  refine ⟨listed, ?_, ?_, ?_⟩
  · rw [listed]
    exact (RecentFiles.nodup_firstOfEachName log).sublist
      ((List.take_sublist _ _).map RecentFile.name)
  · rw [listed]
    exact List.length_take_le _ _
  · intro later file earlier shape last few
    rw [listed, shape]
    exact RecentFiles.mem_newest last few

/-- Two files fit. The project's second file pushes out `b.v`, which reopening `c.v` then does not
bring back. -/
example :
    let desk := restore { recentCapacity := 2 } (SortedMap.empty : Entries)
    let steps : List Step := [.act (.openSingle "a.v" "A"), .act .clearAll,
      .act (.openSingle "b.v" "B"), .act (.openProject [⟨"c.v", "", "C"⟩, ⟨"d.v", "", "D"⟩]),
      .act (.switch 1), .act (.openRecent "c.v"), .act (.openRecent "b.v")]
    desk.openings steps = [⟨"c.v", "C"⟩, ⟨"d.v", "D"⟩, ⟨"c.v", "C"⟩, ⟨"b.v", "B"⟩] ∧
    (desk.run steps).state.recent.files = [⟨"c.v", "C"⟩, ⟨"d.v", "D"⟩] := by decide +kernel

end Desk

end HdlDesk
