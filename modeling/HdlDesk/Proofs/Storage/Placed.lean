import HdlDesk.Proofs.Disk.MissingFolders
import HdlDesk.Proofs.Storage.Drafts

/-!
# A state file whose folder has to be made

The first save of a state file makes the folders that are missing on the way to it. If they are
names below a folder that is there, nothing is found at the path until they are made, and nothing
after that before the file is written. So the disk is dependable at such a path as well.
-/
namespace HdlDesk.Disk

open StateFile (draftPath)

variable {disk : Disk} {path : String} {front names : List String} {last : String} {place : Place}
  {entries : List (String × Node)}

/-- The folder that the path of a state file belongs into has to be made, below one that is there. -/
structure Unmade (path : String) (disk : Disk) (front names : List String) (last : String)
    (place : Place) (entries : List (String × Node)) : Prop where
  named : Path.Names path (front ++ names) last
  nonempty : names ≠ []
  lacks : disk.Lacks front names place entries

namespace Unmade

theorem find_file (unmade : Unmade path disk front names last place entries) (purpose : Purpose) :
    disk.find path purpose = .error .notFound := by
  have named := unmade.named
  rw [named.shape]
  exact unmade.lacks.find unmade.nonempty named.isName.component named.isName.ofComponent?
    (named.shape ▸ named.taken) purpose

theorem readText_file (unmade : Unmade path disk front names last place entries) :
    disk.readText path = .error .notFound := by
  rw [readText, readBytes, node?, unmade.find_file]

theorem bars_draft (unmade : Unmade path disk front names last place entries) :
    disk.Bars (draftPath path) := by
  -- Whatever the draft is called, it is looked up below the names that are missing.
  have below : ∀ {draft step}, Path.IsComponent draft →
      Path.Step.ofComponent? draft = some step → disk.Bars (Path.behind (front ++ names) draft) := by
    intro draft step component isStep purpose _
    cases taken : refusal? (Path.behind (front ++ names) draft) with
    | some refused => exact .inl ⟨refused, find_of_refusal taken purpose⟩
    | none => exact .inl ⟨.notFound, unmade.lacks.find unmade.nonempty component isStep taken purpose⟩
  rcases draftPath_shape unmade.named with around | ⟨draft, component, isStep, _, beside⟩
  · rw [around]
    exact below (by decide) rfl
  · rw [beside]
    exact below component isStep

/-- In folders that were just made nothing stands at the two names. -/
theorem seat (unmade : Unmade path disk front names last place entries) {next : Disk}
    (lays : disk.Lays next place names) :
    Seat path next (front ++ names) last (place ++ names) [] where
  names := unmade.named
  opens := unmade.lacks.opens.below lays unmade.lacks.areNames
  file := by simp [Node.child?]
  draft := by simp [Node.child?]

end Unmade

/-- The folder of a state file is there, with no link at the name of the file or of its draft, or it
has to be made by names alone. A path with two dots behind a missing name is neither: once that name
is made it may lead to a file that was there all along. -/
def Placed (path : String) (disk : Disk) : Prop :=
  Seated path disk ∨ ∃ front names last place entries,
    Unmade path disk front names last place entries

/-- Making the folder leaves the path placed, and what is found at it. -/
theorem placed_makeFolders (placed : Placed path disk) {folder : String}
    (around : Path.parent? path = some folder) :
    let made := disk.makeFolders folder
    Placed path made.2 ∧ made.2.readText path = disk.readText path := by
  intro made
  rcases placed with ⟨front, last, place, entries, seat⟩ |
    ⟨front, names, last, place, entries, unmade⟩
  · -- There is nothing to make, even if making it is refused.
    have same : made.2 = disk := makeFolders_parent seat.opens seat.names around
    rw [same]
    exact ⟨.inl ⟨_, _, _, _, seat⟩, rfl⟩
  · rw [unmade.named.shape] at around
    rcases makeFolders_lacks unmade.lacks unmade.nonempty unmade.named.isName around with
      ⟨refused, nothing⟩ | ⟨next, all, lays⟩
    · rw [show made = _ from nothing]
      exact ⟨.inr ⟨_, _, _, _, _, unmade⟩, rfl⟩
    · -- The file was missing with its folder, and it is missing in the folder that was made.
      have seat := unmade.seat lays
      rw [show made = _ from all, unmade.readText_file, readText_of_found (seat.find_file .reach)]
      exact ⟨.inl ⟨_, _, _, _, seat⟩, rfl⟩

/-- The disk is dependable wherever the path leads, even if folders have to be made first. -/
theorem dependable_placed (path : String) : Dependable Disk path (Placed path) where
  makes disk folder placed around := (placed_makeFolders placed around).1
  stays disk folder placed around := (placed_makeFolders placed around).2
  writes disk text placed := by
    rcases placed with seated | ⟨front, names, last, place, entries, unmade⟩
    · obtain ⟨stays, kept, holds⟩ := (dependable path).writes disk text seated
      exact ⟨.inl stays, kept, holds⟩
    · obtain ⟨refused, written⟩ := unmade.bars_draft.writeText text
      intro answer
      rw [show answer = (.error refused, disk) from written]
      exact ⟨.inr ⟨_, _, _, _, _, unmade⟩, rfl, nofun⟩
  moves disk text placed holds := by
    rcases placed with seated | ⟨front, names, last, place, entries, unmade⟩
    · obtain ⟨stays, done, kept⟩ := (dependable path).moves disk text seated holds
      exact ⟨.inl stays, done, kept⟩
    · exact absurd holds (unmade.bars_draft.readText text)

end HdlDesk.Disk
