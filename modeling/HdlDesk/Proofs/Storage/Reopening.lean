import HdlDesk.Proofs.Disk.WorkingFolder
import HdlDesk.Proofs.Storage.Placed

/-!
# A state file that is opened again

A state file starts from whatever text is at its path, or from none, and from there on its entries
are those of a storage in memory. Until a call is refused the file says the same, so whoever opens
it finds the storage as it is. The text from the start may be no object at all; it stays until the
first call that changes an entry. A refused call leaves the text of the file, but it may have made
the folder that the file belongs into.
-/
namespace HdlDesk.StateFile

variable {φ : Type} [FileSystem φ] {path : String} {sound : φ → Prop}

/-- A file that is missing or holds a text can be opened, whatever the text. -/
theorem openAt_of_readable {files : φ}
    (readable : FileSystem.readText files path = .error .notFound ∨
      ∃ text, FileSystem.readText files path = .ok text) :
    ∃ storage, openAt files path = .ok storage ∧ storage.entries =
      ((FileSystem.readText files path).toOption.bind Stored.read?).getD .empty := by
  unfold openAt entriesAt
  rcases readable with missing | ⟨text, holds⟩
  · rw [missing]
    exact ⟨⟨path, .empty, files⟩, rfl, rfl⟩
  · rw [holds]
    exact ⟨⟨path, (Stored.read? text).getD .empty, files⟩, rfl, rfl⟩

private theorem upToDate_writeAll (atomic : Atomic φ path sound) (calls : List Write)
    {storage : StateFile φ} (serves : storage.Serves path sound) (current : storage.UpToDate)
    (accepted : (KeyValueStore.writeAll storage calls).1 = .ok ()) :
    (KeyValueStore.attempt storage calls).UpToDate := by
  induction calls generalizing storage with
  | nil => exact current
  | cons call calls ih =>
    have first : (KeyValueStore.write storage call).1 = .ok () := by
      rcases written : KeyValueStore.write storage call with ⟨refused | ⟨⟨⟩⟩, reached⟩
      · simp [KeyValueStore.writeAll, written] at accepted
      · rfl
    rw [KeyValueStore.writeAll_cons first] at accepted
    refine ih (write_spec atomic serves call).1 ?_ accepted
    by_cases rewrites : Rewrites storage.entries call
    · exact upToDate_write atomic serves first rewrites
    · have idle := write_of_idle rewrites
      show (KeyValueStore.write storage call).2.UpToDate
      rwa [idle]

/-- The entries follow the calls as those of a storage in memory do. As long as no call has been
refused, opening the file again gives the storage as it is. A call that rewrote the file has left no
draft, and one that finds nothing to do touches nothing. A refused one leaves the text that is at the
path once the folder around it is there. That is the text from before the call, unless making folders
changes where the path leads. -/
theorem openAt_attempt (atomic : Atomic φ path sound) {files : φ} (start : sound files)
    (readable : FileSystem.readText files path = .error .notFound ∨
      ∃ text, FileSystem.readText files path = .ok text) :
    ∃ storage, openAt files path = .ok storage ∧
      storage.entries =
        ((FileSystem.readText files path).toOption.bind Stored.read?).getD .empty ∧
      ∀ calls,
        let live := KeyValueStore.attempt storage calls
        live.entries = KeyValueStore.attempt storage.entries calls ∧
        ((KeyValueStore.writeAll storage calls).1 = .ok () →
          openAt live.files path = .ok live) ∧
        ∀ call,
          let next := KeyValueStore.write live call
          (next.1 = .ok () → Rewrites live.entries call →
            FileSystem.isPresent next.2.files (draftPath path) = false) ∧
          (next.1 ≠ .ok () →
            FileSystem.readText next.2.files path =
              FileSystem.readText (makeRoom live.files path).2 path ∧
            (Dependable φ path sound → FileSystem.readText next.2.files path =
              FileSystem.readText live.files path)) ∧
          (¬Rewrites live.entries call → next = (.ok (), live)) := by
  obtain ⟨storage, opened, entries⟩ := openAt_of_readable readable
  refine ⟨storage, opened, entries, fun calls => ?_⟩
  have serves := serves_openAt start opened
  have live := serves_attempt atomic serves calls
  refine ⟨entries_attempt storage calls, fun accepted => ?_, fun call => ?_⟩
  · have current := upToDate_writeAll atomic calls serves (upToDate_openAt opened) accepted
    rwa [UpToDate, live.path_eq] at current
  · obtain ⟨_, replaced, kept⟩ := write_spec atomic live call
    refine ⟨fun accepted rewrites => (replaced accepted rewrites).2, fun refused => ?_,
      write_of_idle⟩
    exact ⟨kept refused, fun dependable => readText_write_of_refused dependable live call refused⟩

/-- Nothing is on the disk, and it is full by the time of its fifth change. -/
def bareDisk : Faulty Disk where
  inner := .empty
  faults := [none, none, none, none,
    some ⟨.refused "No space left on device (os error 28)", none⟩]

/-- The first call makes the folder of the state file, and the file is found again. The second is
refused when its draft is to be moved, so the file still holds what the first has written. -/
theorem openAt_attempt_bareDisk :
    ∃ storage, openAt bareDisk "state/state.json" = .ok storage ∧ storage.entries = .empty ∧
      let live := KeyValueStore.attempt storage [.set "k" "v"]
      let next := KeyValueStore.write live (.set "k" "w")
      openAt live.files "state/state.json" = .ok live ∧
      FileSystem.isPresent live.files (draftPath "state/state.json") = false ∧
      next.1 ≠ .ok () ∧ FileSystem.readText next.2.files "state/state.json" =
        FileSystem.readText live.files "state/state.json" := by
  -- The path starts in the root, where its first name is missing.
  have named : Path.Names "state/state.json" ([] ++ ["state"]) "state.json" :=
    ⟨by decide +kernel, by decide, by decide, by decide +kernel⟩
  have unmade : Disk.Unmade "state/state.json" bareDisk.inner [] ["state"] "state.json" [] [] :=
    ⟨named, nofun, Disk.opens_workingFolder rfl, nofun, by decide, fun _ _ => rfl⟩
  have placed : Disk.Placed "state/state.json" bareDisk.inner := .inr ⟨_, _, _, _, _, unmade⟩
  have dependable := Faulty.dependable (Disk.dependable_placed "state/state.json")
  obtain ⟨storage, opened, entries, follows⟩ :=
    openAt_attempt dependable.toAtomic placed (.inl (by decide +kernel))
  have empty : storage.entries = .empty := entries.trans (by decide +kernel)
  obtain rfl : storage = ⟨"state/state.json", .empty, bareDisk⟩ := by
    have same : openAt bareDisk "state/state.json" =
        .ok ⟨"state/state.json", .empty, bareDisk⟩ := rfl
    exact Except.ok.inj (opened.symm.trans same)
  obtain ⟨_, _, first⟩ := follows []
  obtain ⟨noDraft, _⟩ := first (.set "k" "v")
  obtain ⟨_, current, second⟩ := follows [.set "k" "v"]
  obtain ⟨_, kept, _⟩ := second (.set "k" "w")
  have refused : (KeyValueStore.write (KeyValueStore.attempt
      (⟨"state/state.json", .empty, bareDisk⟩ : StateFile (Faulty Disk)) [.set "k" "v"])
      (.set "k" "w")).1 ≠ .ok () := by decide +kernel
  exact ⟨_, opened, empty, current (by decide +kernel), noDraft (by decide +kernel) (by decide),
    refused, (kept refused).2 dependable⟩

/-! ### A folder that changes where the path leads -/

/-- As long as there is no folder `a`, nothing is at this path. -/
def detour : String := "a/../state.json"

/-- A state file that holds an entry, and a folder where its draft would have to be. -/
def detourDisk : Disk :=
  ⟨.folder [("state.json", .file "\x7b\"old\":\"1\"\x7d".toUTF8), ("state.json.tmp", .folder [])], []⟩

private theorem bars_detour :
    detourDisk.Bars (draftPath detour) ∧
    (detourDisk.put ["a"] (.folder [])).Bars (draftPath detour) := by
  constructor <;> intro purpose handles
  · exact .inl ⟨.notFound, by cases purpose <;> rfl⟩
  · -- Once the folder is there, the path of the draft leads to the folder beside it.
    refine .inr ⟨["state.json.tmp"], [], ?_⟩
    cases purpose with
    | handle => exact absurd rfl handles
    | reach | fill => rfl

/-- No draft is ever written there, so every step is wholly done or not at all. -/
private theorem atomic_detour : Atomic Disk detour fun disk =>
    disk = detourDisk ∨ disk = detourDisk.put ["a"] (.folder []) where
  makes disk folder reached around := by
    obtain rfl : "a/.." = folder :=
      Option.some.inj ((by decide +kernel : Path.parent? detour = some "a/..").symm.trans around)
    rcases reached with rfl | rfl <;> exact .inr rfl
  writes disk text reached := by
    have bars : disk.Bars (draftPath detour) := by
      rcases reached with rfl | rfl
      · exact bars_detour.1
      · exact bars_detour.2
    obtain ⟨refused, written⟩ := bars.writeText text
    intro answer
    rw [show answer = (.error refused, disk) from written]
    exact ⟨reached, rfl, nofun⟩
  moves disk text reached holds := by
    rcases reached with rfl | rfl
    · exact absurd holds (bars_detour.1.readText text)
    · exact absurd holds (bars_detour.2.readText text)

/-- The storage opens without entries. Setting one makes the folder `a` before it is refused, and
from then on the path leads to the file that was there all along. -/
theorem refused_call_shows_other_file :
    let storage : StateFile Disk := ⟨detour, .empty, detourDisk⟩
    let next := KeyValueStore.write storage (.set "k" "v")
    (∃ sound, sound detourDisk ∧ Atomic Disk detour sound) ∧
    openAt detourDisk detour = .ok storage ∧ next.1 = .error ⟨.isADirectory⟩ ∧
    FileSystem.readText detourDisk detour = .error .notFound ∧
    FileSystem.readText next.2.files detour = .ok "\x7b\"old\":\"1\"\x7d" := by
  refine ⟨⟨_, .inl rfl, atomic_detour⟩, rfl, ?_, ?_, ?_⟩ <;> decide +kernel

end HdlDesk.StateFile
