import HdlDesk.Proofs.Disk.WorkingFolder

/-!
# Damaged state files

A state file is damaged if its bytes are no text, or if the text is no object of strings. Of the
second kind of damage nothing is left once the file is opened: the storage is empty, and the first
entry that is set and saved is all that is found afterwards. The first kind is not recovered from,
since a file that cannot be read as text is refused before anyone looks for entries in it.
-/
namespace HdlDesk

namespace Disk

open StateFile (draftPath)

variable {disk : Disk} {path : String} {place : Place} {bytes : ByteArray}

/-- What stands at the path itself is a link. -/
def IsLink (disk : Disk) (path : String) : Prop :=
  ∃ place target, disk.find path .handle = .ok (.node place (.link target))

theorem seated_of_file (leads : disk.node? path = .ok (place, .file bytes))
    (noLink : ¬disk.IsLink path) (noDraftLink : ¬disk.IsLink (draftPath path)) :
    Seated path disk := by
  obtain ⟨front, last, folder, entries, names, opens⟩ := names_of_node? leads
  refine ⟨front, last, folder, entries, names, opens, ?_, ?_⟩
  · exact fun target link => noLink ⟨_, _, find_handle_link opens names link⟩
  · exact fun draft draftNames target link =>
      noDraftLink ⟨_, _, find_handle_link opens draftNames link⟩

end Disk

namespace StateFile

open Disk (IsLink)

variable {files : Faulty Disk} {path : String} {place : Place} {bytes : ByteArray}

private theorem entriesAt_file (leads : files.inner.node? path = .ok (place, .file bytes)) :
    entriesAt files path = match String.fromUTF8? bytes with
      | some text => .ok ((Stored.read? text).getD .empty)
      | none => .error ⟨.notText⟩ := by
  have read : FileSystem.readText files path = Disk.textOf (some (.file bytes)) := by
    show files.inner.readText path = _
    rw [Disk.readText, Disk.readBytes, leads]
    rfl
  rw [entriesAt, read, Disk.textOf]
  cases String.fromUTF8? bytes <;> rfl

/-- A file whose bytes are text is always opened, with its entries or with none; one whose bytes are
no text never is. A call that sets an entry and is saved leaves a file that opens to the storage as
it is. After the damage that is this entry alone, unless calls before it were not saved. -/
theorem openAt_file (leads : files.inner.node? path = .ok (place, .file bytes)) :
    (String.fromUTF8? bytes = none → openAt files path = .error ⟨.notText⟩) ∧
    ∀ text, String.fromUTF8? bytes = some text →
      let held : Entries := (Stored.read? text).getD .empty
      let opened : StateFile (Faulty Disk) := ⟨path, held, files⟩
      openAt files path = .ok opened ∧
      (¬IsLink files.inner path → ¬IsLink files.inner (draftPath path) →
        ∀ calls key value,
          let live := KeyValueStore.attempt opened calls
          let next := KeyValueStore.write live (.set key value)
          next.1 = .ok () → live.entries.get? key ≠ some value →
            openAt next.2.files path = .ok next.2 ∧
            next.2.entries = (KeyValueStore.attempt held calls).insert key value ∧
            ((Stored.read? text : Option Entries) = none → calls = [] →
              next.2.entries.pairs = [(key, value)])) := by
  have entries := entriesAt_file leads
  refine ⟨fun noText => ?_, fun text isText => ?_⟩
  · rw [noText] at entries
    rw [openAt, entries]
    rfl
  · rw [isText] at entries
    intro held opened
    have opens : openAt files path = .ok opened := openAt_eq_ok.mpr ⟨rfl, rfl, entries⟩
    refine ⟨opens, fun noLink noDraftLink calls key value => ?_⟩
    intro live next saved changes
    have atomic := Faulty.atomic (Disk.dependable path).toAtomic
    have seated := Disk.seated_of_file leads noLink noDraftLink
    have begins : opened.Serves path fun files => Disk.Seated path files.inner := ⟨rfl, seated⟩
    have serves := serves_attempt atomic begins calls
    have rewrites : Rewrites live.entries (.set key value) :=
      .inr fun same => changes (apply_set_eq_self_iff.mp same)
    have current := upToDate_write atomic serves saved rewrites
    have samePath : next.2.path = path := (write_spec atomic serves _).1.path_eq
    have inserted : next.2.entries = (KeyValueStore.attempt held calls).insert key value := by
      refine (entries_eq_apply live (.set key value)).trans ?_
      rw [entries_attempt opened calls]
      rfl
    -- The saved file reads back as the storage is, with what was set before and not saved as well.
    refine ⟨?_, inserted, ?_⟩
    · rwa [UpToDate, samePath] at current
    · rintro damaged rfl
      rw [inserted]
      show ((Option.getD (Stored.read? text) SortedMap.empty).insert key value).pairs = _
      rw [damaged]
      rfl

/-- A working folder with nothing in it but a state file of these bytes. -/
def loneFile (bytes : ByteArray) : Faulty Disk where
  inner := ⟨.folder [("state.json", .file bytes)], []⟩

/-- Text that is no object of strings gives way to the first entry that is saved. A byte that is no
text keeps the file from being opened at all. -/
theorem openAt_loneFile :
    openAt (loneFile ⟨#[0xFF]⟩) "state.json" = .error ⟨.notText⟩ ∧
    ∃ opened, openAt (loneFile "[1]".toUTF8) "state.json" = .ok opened ∧
      let next := KeyValueStore.write opened (.set "k" "v")
      openAt next.2.files "state.json" = .ok next.2 ∧ next.2.entries.pairs = [("k", "v")] := by
  have leads : ∀ bytes, (loneFile bytes).inner.node? "state.json" =
      .ok (["state.json"], .file bytes) := fun bytes => rfl
  have noLink : ∀ bytes, ¬IsLink (loneFile bytes).inner "state.json" := by
    rintro bytes ⟨place, target, found⟩
    have file : (loneFile bytes).inner.find "state.json" .handle =
        .ok (.node ["state.json"] (.file bytes)) := rfl
    rw [file] at found
    cases found
  have noDraftLink : ∀ bytes, ¬IsLink (loneFile bytes).inner (draftPath "state.json") := by
    rintro bytes ⟨place, target, found⟩
    have absent : (loneFile bytes).inner.find (draftPath "state.json") .handle =
        .ok (.missing [] "state.json.tmp") := rfl
    rw [absent] at found
    cases found
  obtain ⟨refused, _⟩ := openAt_file (leads ⟨#[0xFF]⟩)
  obtain ⟨_, recovers⟩ := openAt_file (leads "[1]".toUTF8)
  obtain ⟨opens, saves⟩ := recovers "[1]" (by decide +kernel)
  have damaged : (Stored.read? "[1]" : Option Entries) = none := by decide +kernel
  have found := saves (noLink _) (noDraftLink _) [] "k" "v"
  refine ⟨refused (by decide +kernel), _, opens, ?_⟩
  obtain ⟨current, _, alone⟩ := found (by decide +kernel) (by decide +kernel)
  exact ⟨current, alone damaged rfl⟩

end StateFile

end HdlDesk
