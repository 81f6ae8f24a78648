import HdlDesk.Proofs.Json.Entries
import HdlDesk.Proofs.Storage.Laws

/-!
# What saving a state file does

A call either finds nothing to do, and then the file system is not even asked, or it replaces the
file. Replacing takes three steps, any of which may fail, and of the file system it is only taken
that a draft is a file of its own and that moving a file is done wholly or not at all. So the file
holds the new text if all three steps succeed, and the text that was found once its folder was there
if one of them fails.
-/
namespace HdlDesk

/-- What is taken of a file system at the path of a state file, as long as its state is `sound`, which
it stays when the folder around the file is made. Writing the draft leaves the text of the file as it
is, even if it fails, and a draft that was written holds its text. To move it over the file puts its
text in the place of the old one and leaves no draft, or fails and leaves the file as it is. -/
structure Atomic (φ : Type) [FileSystem φ] (path : String) (sound : φ → Prop) : Prop where
  makes : ∀ files folder, sound files → Path.parent? path = some folder →
    sound (FileSystem.makeFolders files folder).2
  writes : ∀ files text, sound files →
    let written := FileSystem.writeText files (StateFile.draftPath path) text
    sound written.2 ∧ FileSystem.readText written.2 path = FileSystem.readText files path ∧
    (written.1 = .ok () →
      FileSystem.readText written.2 (StateFile.draftPath path) = .ok text)
  moves : ∀ files text, sound files →
    FileSystem.readText files (StateFile.draftPath path) = .ok text →
    let moved := FileSystem.moveFile files (StateFile.draftPath path) path
    sound moved.2 ∧
    (moved.1 = .ok () → FileSystem.readText moved.2 path = .ok text ∧
      FileSystem.isPresent moved.2 (StateFile.draftPath path) = false) ∧
    (moved.1 ≠ .ok () → FileSystem.readText moved.2 path = FileSystem.readText files path)

/-- The path leads to the same text before the folder around the file is made and after it, even if
that fails. This cannot be taken of every path: behind a folder that is missing, two dots lead nowhere
until the folder is made, and to whatever stands beside it from then on. -/
structure Dependable (φ : Type) [FileSystem φ] (path : String) (sound : φ → Prop) : Prop
    extends Atomic φ path sound where
  stays : ∀ files folder, sound files → Path.parent? path = some folder →
    FileSystem.readText (FileSystem.makeFolders files folder).2 path =
      FileSystem.readText files path

namespace StateFile

variable {φ : Type} [FileSystem φ] {path : String} {sound : φ → Prop}

/-! ### Replacing the file -/

theorem makeRoom_sound (atomic : Atomic φ path sound) {files : φ} (start : sound files) :
    sound (makeRoom files path).2 := by
  unfold makeRoom
  cases around : Path.parent? path with
  | none => exact start
  | some folder =>
    dsimp only
    split
    · exact start
    · exact atomic.makes files folder start around

theorem readText_makeRoom (dependable : Dependable φ path sound) {files : φ}
    (start : sound files) :
    FileSystem.readText (makeRoom files path).2 path = FileSystem.readText files path := by
  unfold makeRoom
  cases around : Path.parent? path with
  | none => rfl
  | some folder =>
    dsimp only
    split
    · rfl
    · exact dependable.stays files folder start around

/-- The file that is found once there is room for it is replaced wholly or not at all. -/
theorem replace_spec (atomic : Atomic φ path sound) {files : φ} (start : sound files)
    (text : String) :
    let replaced := replace files path text
    sound replaced.2 ∧
    (replaced.1 = .ok () → FileSystem.readText replaced.2 path = .ok text ∧
      FileSystem.isPresent replaced.2 (draftPath path) = false) ∧
    (replaced.1 ≠ .ok () →
      FileSystem.readText replaced.2 path = FileSystem.readText (makeRoom files path).2 path) := by
  have roomySound := makeRoom_sound atomic start
  unfold replace
  rcases made : makeRoom files path with ⟨refused | ⟨⟨⟩⟩, roomy⟩
  · rw [made] at roomySound
    exact ⟨roomySound, nofun, fun _ => rfl⟩
  rw [made] at roomySound
  -- What is read at the path by now stays until the move, which replaces it or fails.
  obtain ⟨draftedSound, draftedText, holds⟩ := atomic.writes roomy text roomySound
  dsimp only
  rcases written : FileSystem.writeText roomy (draftPath path) text with ⟨refused | ⟨⟨⟩⟩, drafted⟩
  · rw [written] at draftedSound draftedText
    exact ⟨draftedSound, nofun, fun _ => draftedText⟩
  rw [written] at draftedSound draftedText holds
  obtain ⟨movedSound, done, kept⟩ := atomic.moves drafted text draftedSound (holds rfl)
  exact ⟨movedSound, done, fun failed => (kept failed).trans draftedText⟩

/-! ### Calls that rewrite the file -/

/-- The call changes an entry, or clears; every other call finds nothing to do. -/
def Rewrites (entries : Entries) (call : Write) : Prop :=
  call = .clear ∨ entries.apply call ≠ entries

instance (entries : Entries) (call : Write) : Decidable (Rewrites entries call) :=
  inferInstanceAs (Decidable (_ ∨ _))

theorem apply_set_eq_self_iff {entries : Entries} {key value : String} :
    entries.apply (.set key value) = entries ↔ entries.get? key = some value := by
  constructor
  · intro same
    rw [← same]
    simp [Entries.apply]
  · exact SortedMap.insert_eq_self

private theorem apply_remove_eq_self_iff {entries : Entries} {key : String} :
    entries.apply (.remove key) = entries ↔ entries.get? key = none := by
  constructor
  · intro same
    rw [← same]
    simp [Entries.apply]
  · intro absent
    refine SortedMap.ext_get? fun wanted => ?_
    by_cases here : wanted = key <;> simp [Entries.apply, here, absent]

theorem write_of_idle {storage : StateFile φ} {call : Write}
    (idle : ¬Rewrites storage.entries call) :
    KeyValueStore.write storage call = (.ok (), storage) := by
  simp only [Rewrites, not_or, ne_eq, not_not] at idle
  cases call with
  | set key value => exact if_pos (apply_set_eq_self_iff.mp idle.2)
  | remove key => exact if_pos (apply_remove_eq_self_iff.mp idle.2)
  | clear => exact absurd rfl idle.1

theorem write_of_rewrites {storage : StateFile φ} {call : Write}
    (rewrites : Rewrites storage.entries call) :
    KeyValueStore.write storage call = storage.save (storage.entries.apply call) := by
  cases call with
  | set key value =>
    have changes := rewrites.resolve_left nofun
    exact if_neg fun held => changes (apply_set_eq_self_iff.mpr held)
  | remove key =>
    have changes := rewrites.resolve_left nofun
    exact if_neg fun absent => changes (apply_remove_eq_self_iff.mpr absent)
  | clear => rfl

/-- The entries in memory follow the calls, whatever becomes of the file. -/
theorem entries_eq_apply (storage : StateFile φ) (call : Write) :
    (KeyValueStore.write storage call).2.entries = storage.entries.apply call := by
  by_cases rewrites : Rewrites storage.entries call
  · rw [write_of_rewrites rewrites]
    rfl
  · rw [write_of_idle rewrites]
    simp only [Rewrites, not_or, ne_eq, not_not] at rewrites
    exact rewrites.2.symm

theorem entries_attempt (storage : StateFile φ) (calls : List Write) :
    (KeyValueStore.attempt storage calls).entries =
      KeyValueStore.attempt storage.entries calls := by
  induction calls generalizing storage with
  | nil => rfl
  | cons call calls ih =>
    have next := ih (KeyValueStore.write storage call).2
    rw [entries_eq_apply] at next
    exact next

/-! ### A state file in use -/

private theorem mapError_eq_ok {answer : Except DiskError Unit} :
    answer.mapError StorageError.mk = .ok () ↔ answer = .ok () := by
  cases answer <;> simp [Except.mapError]

/-- The state file at a path whose file system is sound. -/
structure Serves (storage : StateFile φ) (path : String) (sound : φ → Prop) : Prop where
  path_eq : storage.path = path
  files_sound : sound storage.files

theorem write_spec (atomic : Atomic φ path sound) {storage : StateFile φ}
    (serves : storage.Serves path sound) (call : Write) :
    let written := KeyValueStore.write storage call
    written.2.Serves path sound ∧
    (written.1 = .ok () → Rewrites storage.entries call →
      FileSystem.readText written.2.files path = .ok (Stored.printSpread written.2.entries) ∧
      FileSystem.isPresent written.2.files (draftPath path) = false) ∧
    (written.1 ≠ .ok () → FileSystem.readText written.2.files path =
      FileSystem.readText (makeRoom storage.files path).2 path) := by
  intro written
  by_cases rewrites : Rewrites storage.entries call
  · have saved : written = storage.save (storage.entries.apply call) := write_of_rewrites rewrites
    obtain ⟨rfl, filesSound⟩ := serves
    obtain ⟨afterSound, done, kept⟩ := replace_spec atomic filesSound
      (Stored.printSpread (storage.entries.apply call))
    rw [saved]
    refine ⟨⟨rfl, afterSound⟩, fun accepted _ => done ?_, fun failed => kept fun replaced => ?_⟩
    · exact mapError_eq_ok.mp accepted
    · exact failed (mapError_eq_ok.mpr replaced)
  · have idle : written = (.ok (), storage) := write_of_idle rewrites
    rw [idle]
    exact ⟨serves, fun _ does => absurd does rewrites, fun failed => absurd rfl failed⟩

/-- A refused call leaves the text of the file. -/
theorem readText_write_of_refused (dependable : Dependable φ path sound) {storage : StateFile φ}
    (serves : storage.Serves path sound) (call : Write)
    (refused : (KeyValueStore.write storage call).1 ≠ .ok ()) :
    FileSystem.readText (KeyValueStore.write storage call).2.files path =
      FileSystem.readText storage.files path :=
  ((write_spec dependable.toAtomic serves call).2.2 refused).trans
    (readText_makeRoom dependable serves.files_sound)

theorem serves_attempt (atomic : Atomic φ path sound) {storage : StateFile φ}
    (serves : storage.Serves path sound) (calls : List Write) :
    (KeyValueStore.attempt storage calls).Serves path sound := by
  induction calls generalizing storage with
  | nil => exact serves
  | cons call calls ih => exact ih (write_spec atomic serves call).1

/-! ### Opening the file again -/

theorem openAt_eq_ok {files : φ} {storage : StateFile φ} :
    openAt files path = .ok storage ↔
      storage.path = path ∧ storage.files = files ∧ entriesAt files path = .ok storage.entries := by
  unfold openAt
  constructor
  · intro opened
    cases read : entriesAt files path with
    | error refused => simp [read, Except.map] at opened
    | ok entries =>
      rw [read] at opened
      cases opened
      exact ⟨rfl, rfl, rfl⟩
  · rintro ⟨rfl, rfl, read⟩
    rw [read]
    rfl

theorem serves_openAt {files : φ} (start : sound files) {storage : StateFile φ}
    (opened : openAt files path = .ok storage) : storage.Serves path sound := by
  obtain ⟨samePath, rfl, _⟩ := openAt_eq_ok.mp opened
  exact ⟨samePath, start⟩

/-- Whoever opens the file now finds the storage as it is. -/
def UpToDate (storage : StateFile φ) : Prop :=
  openAt storage.files storage.path = .ok storage

theorem upToDate_openAt {files : φ} {storage : StateFile φ}
    (opened : openAt files path = .ok storage) : storage.UpToDate := by
  obtain ⟨rfl, rfl, _⟩ := openAt_eq_ok.mp opened
  exact opened

/-- A file that holds some entries as they are written shows them. -/
theorem entriesAt_of_readText {files : φ} {entries : Entries}
    (holds : FileSystem.readText files path = .ok (Stored.printSpread entries)) :
    entriesAt files path = .ok entries := by
  rw [entriesAt, holds]
  simp only [Stored.read?_printSpread]
  rfl

/-- A call that was accepted after it rewrote the file has brought the file up to date. -/
theorem upToDate_write (atomic : Atomic φ path sound) {storage : StateFile φ}
    (serves : storage.Serves path sound) {call : Write}
    (accepted : (KeyValueStore.write storage call).1 = .ok ())
    (rewrites : Rewrites storage.entries call) :
    (KeyValueStore.write storage call).2.UpToDate := by
  obtain ⟨after, written, _⟩ := write_spec atomic serves call
  refine openAt_eq_ok.mpr ⟨rfl, rfl, ?_⟩
  rw [after.path_eq]
  exact entriesAt_of_readText (written accepted rewrites).1

end StateFile

/-! ### Faults -/

/-- A change that is refused. Of a text that was to be written, a part may be left. -/
structure Fault where
  reason : DiskError
  left : Option String := none

/-- A file system with faults in store: each change that is asked for takes the next of them, or is
carried out if that is none. -/
structure Faulty (φ : Type) where
  inner : φ
  faults : List (Option Fault) := []

namespace Faulty

variable {φ : Type}

def ask (files : Faulty φ) (change : φ → Except DiskError Unit × φ) (partly : Fault → φ → φ) :
    Except DiskError Unit × Faulty φ :=
  match files.faults with
  | some fault :: later => (.error fault.reason, ⟨partly fault files.inner, later⟩)
  | faults => ((change files.inner).1, ⟨(change files.inner).2, faults.tail⟩)

private theorem ask_cases (files : Faulty φ) (change : φ → Except DiskError Unit × φ)
    (partly : Fault → φ → φ) :
    (∃ fault later,
      files.ask change partly = (.error fault.reason, ⟨partly fault files.inner, later⟩)) ∨
    ∃ later,
      files.ask change partly = ((change files.inner).1, ⟨(change files.inner).2, later⟩) := by
  unfold ask
  split
  · exact .inl ⟨_, _, rfl⟩
  · exact .inr ⟨_, rfl⟩

variable [FileSystem φ]

/-- What becomes of a text when writing it is refused. -/
def leavePart (path : String) (fault : Fault) (inner : φ) : φ :=
  match fault.left with
  | some part => (FileSystem.writeText inner path part).2
  | none => inner

instance : FileSystem (Faulty φ) where
  readText files path := FileSystem.readText files.inner path
  isPresent files path := FileSystem.isPresent files.inner path
  makeFolders files path := files.ask (FileSystem.makeFolders · path) fun _ inner => inner
  writeText files path text := files.ask (FileSystem.writeText · path text) (leavePart path)
  moveFile files path target := files.ask (FileSystem.moveFile · path target) fun _ inner => inner

/-- Faults take nothing from what a file system does in one step. -/
theorem atomic {path : String} {sound : φ → Prop} (inner : Atomic φ path sound) :
    Atomic (Faulty φ) path fun files => sound files.inner where
  makes files folder start around := by
    rcases ask_cases files (FileSystem.makeFolders · folder) fun _ inner => inner with
      ⟨fault, later, asked⟩ | ⟨later, asked⟩
    · rw [show FileSystem.makeFolders files folder = _ from asked]
      exact start
    · rw [show FileSystem.makeFolders files folder = _ from asked]
      exact inner.makes files.inner folder start around
  writes files text start := by
    intro written
    rcases ask_cases files (FileSystem.writeText · (StateFile.draftPath path) text)
      (leavePart (StateFile.draftPath path)) with ⟨⟨reason, left⟩, later, asked⟩ | ⟨later, asked⟩
    · rw [show written = _ from asked]
      cases left with
      | none => exact ⟨start, rfl, nofun⟩
      | some part =>
        -- A write that is cut off leaves what writing its part would have left.
        obtain ⟨stillSound, kept, _⟩ := inner.writes files.inner part start
        exact ⟨stillSound, kept, nofun⟩
    · rw [show written = _ from asked]
      exact inner.writes files.inner text start
  moves files text start holds := by
    intro moved
    rcases ask_cases files (FileSystem.moveFile · (StateFile.draftPath path) path)
      fun _ inner => inner with ⟨fault, later, asked⟩ | ⟨later, asked⟩
    · rw [show moved = _ from asked]
      exact ⟨start, nofun, fun _ => rfl⟩
    · rw [show moved = _ from asked]
      exact inner.moves files.inner text start holds

/-- Nor from where a path leads while folders are made. -/
theorem dependable {path : String} {sound : φ → Prop} (inner : Dependable φ path sound) :
    Dependable (Faulty φ) path fun files => sound files.inner where
  toAtomic := atomic inner.toAtomic
  stays files folder start around := by
    rcases ask_cases files (FileSystem.makeFolders · folder) fun _ inner => inner with
      ⟨fault, later, asked⟩ | ⟨later, asked⟩
    · rw [show FileSystem.makeFolders files folder = _ from asked]
      rfl
    · rw [show FileSystem.makeFolders files folder = _ from asked]
      exact inner.stays files.inner folder start around

end Faulty

end HdlDesk
