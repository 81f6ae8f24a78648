import HdlDesk.Proofs.Disk.WorkingFolder

/-!
# A state file that is never refused

Where replacing the file always succeeds, no call on a state file fails, and the file always says
what is in memory. A working folder in which nothing but files stands at the names of the state file
and of its draft is such a place.
-/
namespace HdlDesk

/-- A dependable file system on which the file is replaced whenever that is asked for. -/
structure Unfailing (φ : Type) [FileSystem φ] (path : String) (sound : φ → Prop) : Prop
    extends Dependable φ path sound where
  replaces : ∀ files text, sound files → (StateFile.replace files path text).1 = .ok ()

namespace StateFile

variable {φ : Type} [FileSystem φ] {path : String} {sound : φ → Prop}

theorem write_accepted (unfailing : Unfailing φ path sound) {storage : StateFile φ}
    (serves : storage.Serves path sound) (call : Write) :
    (KeyValueStore.write storage call).1 = .ok () := by
  by_cases rewrites : Rewrites storage.entries call
  · have replaced := unfailing.replaces storage.files
      (Stored.printSpread (storage.entries.apply call)) serves.files_sound
    rw [write_of_rewrites rewrites, save, serves.path_eq]
    exact congrArg (Except.mapError StorageError.mk) replaced
  · rw [write_of_idle rewrites]

theorem neverFails_of_unfailing (unfailing : Unfailing φ path sound) {storage : StateFile φ}
    (serves : storage.Serves path sound) : KeyValueStore.NeverFails storage := by
  intro calls call
  have reached := serves_attempt unfailing.toAtomic serves calls
  exact ⟨write_accepted unfailing reached call, entries_write _ call⟩

/-- The storage serves the path, and whoever opens the file finds the storage. -/
structure InUse (storage : StateFile φ) (path : String) (sound : φ → Prop) : Prop
    extends storage.Serves path sound where
  current : storage.UpToDate

theorem InUse.write (unfailing : Unfailing φ path sound) {storage : StateFile φ}
    (used : storage.InUse path sound) (call : Write) :
    (KeyValueStore.write storage call).2.InUse path sound where
  toServes := (write_spec unfailing.toAtomic used.toServes call).1
  current := by
    by_cases rewrites : Rewrites storage.entries call
    · exact upToDate_write unfailing.toAtomic used.toServes
        (write_accepted unfailing used.toServes call) rewrites
    · rw [write_of_idle rewrites]
      exact used.current

theorem InUse.openAt_eq {storage : StateFile φ} (used : storage.InUse path sound) :
    openAt storage.files path = .ok storage := by
  have current := used.current
  rwa [UpToDate, used.path_eq] at current

theorem inUse_openAt {files : φ} (start : sound files) {storage : StateFile φ}
    (opened : openAt files path = .ok storage) : storage.InUse path sound where
  toServes := serves_openAt start opened
  current := upToDate_openAt opened

end StateFile

/-! ### A working folder that never refuses -/

namespace Disk

open StateFile (draftPath)

variable {disk : Disk} {entries : List (String × Node)} {path : String}

/-- Nothing is there, or a file. -/
def IsFree (held : Option Node) : Prop := held = none ∨ ∃ bytes, held = some (.file bytes)

/-- The working folder has these entries, and nothing but files at the names of a state file and its
draft. -/
structure Clear (path : String) (disk : Disk) (entries : List (String × Node)) : Prop where
  working : disk.root.at? disk.workingFolder = some (.folder entries)
  file : IsFree (Node.child? entries path)
  draft : IsFree (Node.child? entries (draftPath path))

namespace Clear

theorem shows (clear : Clear path disk entries) : Shows path disk entries where
  working := clear.working
  file target := by rcases clear.file with absent | ⟨bytes, held⟩ <;> simp [*]
  draft target := by rcases clear.draft with absent | ⟨bytes, held⟩ <;> simp [*]

private theorem isFree_alterChild {change : Option Node → Option Node} {name wanted : String}
    (free : ∀ held, IsFree (change held)) (before : IsFree (Node.child? entries wanted)) :
    IsFree (Node.child? (Node.alterChild change name entries) wanted) := by
  by_cases same : wanted = name
  · rw [same, Node.child?_alterChild_self]
    exact free _
  · rw [Node.child?_alterChild_of_ne same]
    exact before

theorem alter (clear : Clear path disk entries) (name : String)
    (change : Option Node → Option Node) (free : ∀ held, IsFree (change held)) :
    Clear path { disk with root := disk.root.alter change (disk.workingFolder ++ [name]) }
      (Node.alterChild change name entries) where
  working := Node.at?_alter clear.working
  file := isFree_alterChild free clear.file
  draft := isFree_alterChild free clear.draft

/-- The draft is always written. -/
theorem write_draft (clear : Clear path disk entries) (names : InWorkingFolder path)
    (text : String) :
    (disk.writeText (draftPath path) text).1 = .ok () ∧
    ∃ entries, Clear path (disk.writeText (draftPath path) text).2 entries := by
  have put := clear.alter (draftPath path) (fun _ => some (.file text.toUTF8))
    fun _ => .inr ⟨_, rfl⟩
  unfold writeText writeBytes
  rw [find_of_isPlain clear.working names.draft_plain clear.shows.draft, foundAmong]
  -- A draft that was left behind is written over.
  rcases clear.draft with absent | ⟨bytes, held⟩
  · rw [absent]
    exact ⟨rfl, _, put⟩
  · rw [held]
    exact ⟨rfl, _, put⟩

/-- A draft that is there is always moved over the file. -/
theorem move_draft (clear : Clear path disk entries) (names : InWorkingFolder path)
    {text : String} (holds : disk.readText (draftPath path) = .ok text) :
    (disk.moveFile (draftPath path) path).1 = .ok () ∧
    ∃ entries, Clear path (disk.moveFile (draftPath path) path).2 entries := by
  rw [clear.shows.readText_draft names] at holds
  rcases clear.draft with absent | ⟨bytes, draft⟩
  · rw [absent] at holds
    cases holds
  have gone := clear.alter (draftPath path) (fun _ => none) fun _ => .inl rfl
  have put := gone.alter path (fun _ => some (.file bytes)) fun _ => .inr ⟨bytes, rfl⟩
  have apart : disk.workingFolder ++ [path] ≠ disk.workingFolder ++ [draftPath path] := by
    simpa using names.apart.symm
  unfold moveFile
  rw [find_of_isPlain clear.working names.draft_plain clear.shows.draft,
    find_of_isPlain clear.working names.plain clear.shows.file, foundAmong, foundAmong, draft]
  simp only [names.plain.endsInName, names.plain.not_closed, Bool.not_true, Bool.false_eq_true,
    if_false]
  -- The file that was there is replaced; only a folder would be in the way.
  rcases clear.file with absent | ⟨old, held⟩
  · rw [absent]
    exact ⟨rfl, _, put⟩
  · rw [held]
    simp only [Node.isFolder, apart, Bool.false_eq_true, if_false]
    exact ⟨trivial, _, put⟩

end Clear

theorem unfailing_of_inWorkingFolder (names : InWorkingFolder path) :
    Unfailing Disk path fun disk => ∃ entries, Clear path disk entries where
  makes disk folder sound around := by
    obtain rfl : folder = "" := (Option.some.inj (names.parent.symm.trans around)).symm
    exact sound
  stays disk folder sound around := by
    obtain rfl : folder = "" := (Option.some.inj (names.parent.symm.trans around)).symm
    rfl
  writes disk text sound := by
    obtain ⟨entries, clear⟩ := sound
    have depends := (dependable_of_inWorkingFolder names).writes disk text ⟨_, clear.shows⟩
    exact ⟨(clear.write_draft names text).2, depends.2⟩
  moves disk text sound holds := by
    obtain ⟨entries, clear⟩ := sound
    have depends := (dependable_of_inWorkingFolder names).moves disk text ⟨_, clear.shows⟩ holds
    exact ⟨(clear.move_draft names holds).2, depends.2⟩
  replaces disk text sound := by
    obtain ⟨entries, clear⟩ := sound
    have room : StateFile.makeRoom disk path = (.ok (), disk) := by
      simp [StateFile.makeRoom, names.parent]
    obtain ⟨accepted, _, drafted⟩ := clear.write_draft names text
    have depends := (dependable_of_inWorkingFolder names).writes disk text ⟨_, clear.shows⟩
    have holds := depends.2.2 accepted
    have moved := (drafted.move_draft names holds).1
    have written : FileSystem.writeText disk (draftPath path) text =
        (.ok (), (disk.writeText (draftPath path) text).2) := Prod.ext accepted rfl
    simp only [StateFile.replace, room, written]
    exact moved

end Disk

end HdlDesk
