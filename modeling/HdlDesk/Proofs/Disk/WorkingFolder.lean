import HdlDesk.Proofs.Storage.Drafts

/-!
# A state file in the working folder

A state file that is named by a plain name stands in the working folder, and so does its draft: no
step is walked before the last one. As long as neither name is that of a link, the disk is
dependable. It stays dependable when some of the changes asked for are refused on the way, even if a
refused draft has been written in part.
-/
namespace HdlDesk

/-! ### Plain names -/

/-- A path that is one name, which a disk can take. -/
structure Path.IsPlain (path : String) : Prop where
  one_step : Path.openSteps path = [.enter path]
  not_absolute : Path.isAbsolute path = false
  not_closed : Path.endsInSlash path = false
  no_zero : path.toList.contains '\x00' = false
  fits : path.utf8ByteSize ≤ Path.Step.nameBound

namespace Path.IsPlain

variable {path : String}

theorem endsInName (plain : IsPlain path) : Path.endsInName path = true := by
  simp [Path.endsInName, plain.one_step]

theorem isName (plain : IsPlain path) : IsName path := by
  have step : .enter path ∈ openSteps path := by simp [plain.one_step]
  obtain ⟨component, member, isStep⟩ := List.mem_filterMap.mp step
  obtain ⟨rfl, not_empty, not_here, not_around⟩ := of_ofComponent?_eq_enter isStep
  obtain ⟨front, last, shape, parts, ends⟩ := exists_behind component
  have isComponent : IsComponent component := by
    rw [shape, components_behind parts ends, ← shape] at member
    rcases List.mem_append.mp member with before | final
    · exact parts component before
    · exact List.mem_singleton.mp final ▸ ends
  exact ⟨not_empty, not_here, not_around, isComponent, by simpa using plain.no_zero, plain.fits⟩

theorem names (plain : IsPlain path) : Names path [] path where
  shape := by simp [behind]
  parts := nofun
  isName := plain.isName
  taken := by
    have fits := plain.fits
    refine Disk.refusal?_eq_none_iff.mpr ⟨plain.isName.no_zero, ?_, plain.isName.not_empty⟩
    simp only [lengthBound, Step.nameBound] at fits ⊢
    omega

/-- A plain name has no other parts. -/
theorem names_eq (plain : IsPlain path) {front : List String} {last : String}
    (names : Names path front last) : front = [] ∧ last = path := by
  have whole := components_behind names.parts names.isName.component
  have alone := components_behind plain.names.parts plain.isName.component
  rw [← names.shape] at whole
  rw [← plain.names.shape] at alone
  obtain ⟨nothing, same⟩ := List.append_inj' (whole.symm.trans alone) rfl
  exact ⟨nothing, (List.cons.inj same).1⟩

end Path.IsPlain

namespace Disk

variable {disk : Disk} {entries : List (String × Node)} {name : String}

theorem opens_workingFolder (working : disk.root.at? disk.workingFolder = some (.folder entries)) :
    disk.Opens [] disk.workingFolder entries :=
  ⟨⟨_, .done _ _⟩, working⟩

/-- A walk to a plain name ends at its entry, which the walk must not follow as a link. -/
theorem find_of_isPlain (working : disk.root.at? disk.workingFolder = some (.folder entries))
    (plain : Path.IsPlain name) (noLink : ∀ target, Node.child? entries name ≠ some (.link target))
    (purpose : Purpose) :
    disk.find name purpose = .ok (foundAmong disk.workingFolder entries name) :=
  find_of_names (opens_workingFolder working) plain.names noLink purpose

/-! ### The disk is dependable -/

section Dependable

open StateFile (draftPath)

variable {path : String}

/-- The working folder has these entries, with no link at the name of a state file or its draft. -/
structure Shows (path : String) (disk : Disk) (entries : List (String × Node)) : Prop where
  working : disk.root.at? disk.workingFolder = some (.folder entries)
  file : ∀ target, Node.child? entries path ≠ some (.link target)
  draft : ∀ target, Node.child? entries (draftPath path) ≠ some (.link target)

/-- A state file and its draft are two plain names in the working folder. -/
structure InWorkingFolder (path : String) : Prop where
  plain : Path.IsPlain path
  draft_plain : Path.IsPlain (draftPath path)
  apart : draftPath path ≠ path
  parent : Path.parent? path = some ""

theorem inWorkingFolder_stateFile : InWorkingFolder "state.json" where
  plain := ⟨by decide +kernel, by decide, by decide, by decide, by decide⟩
  draft_plain := ⟨by decide +kernel, by decide +kernel, by decide +kernel, by decide +kernel,
    by decide +kernel⟩
  apart := by decide +kernel
  parent := by decide +kernel

namespace Shows

theorem readText_draft (shows : Shows path disk entries) (names : InWorkingFolder path) :
    disk.readText (draftPath path) = textOf (Node.child? entries (draftPath path)) :=
  readText_of_found (find_of_isPlain shows.working names.draft_plain shows.draft .reach)

end Shows

/-- A plain name is looked up in the working folder. -/
theorem seated_iff (names : InWorkingFolder path) :
    Seated path disk ↔ ∃ entries, Shows path disk entries := by
  constructor
  · rintro ⟨front, last, place, entries, seat⟩
    obtain ⟨rfl, rfl⟩ := names.plain.names_eq seat.names
    obtain ⟨left, approach⟩ := seat.opens.approach
    cases approach
    exact ⟨entries, seat.opens.folder, seat.file, seat.draft _ names.draft_plain.names⟩
  · rintro ⟨entries, shows⟩
    refine ⟨[], path, disk.workingFolder, entries, names.plain.names,
      opens_workingFolder shows.working, shows.file, fun draft draftNames => ?_⟩
    obtain ⟨_, rfl⟩ := names.draft_plain.names_eq draftNames
    exact shows.draft

theorem dependable_of_inWorkingFolder (names : InWorkingFolder path) :
    Dependable Disk path fun disk => ∃ entries, Shows path disk entries := by
  have same : (fun disk => ∃ entries, Shows path disk entries) = Seated path :=
    funext fun _ => propext (seated_iff names).symm
  rw [same]
  exact dependable path

end Dependable

end Disk

end HdlDesk
