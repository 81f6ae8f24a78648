import HdlDesk.Proofs.Disk.WorkingFolder

/-!
# What a state file holds after refused calls

A refused save leaves the file with the entries of the last one that was accepted, while those in
memory have moved on. The next call is compared with the entries in memory. If it finds nothing to
do there, it is accepted and the file still lacks what the refused call was to write; only a call
that does change an entry takes the rest along.
-/
namespace HdlDesk.StateFile

variable {φ : Type} [FileSystem φ] {path : String} {sound : φ → Prop}

/-- The entries as the last save that was accepted has written them, from those `saved` at first. -/
def lastSaved (storage : StateFile φ) (saved : Entries) : List Write → Entries
  | [] => saved
  | call :: rest =>
    let written := KeyValueStore.write storage call
    if Rewrites storage.entries call ∧ written.1.isOk then
      lastSaved written.2 written.2.entries rest
    else lastSaved written.2 saved rest

/-- What a reader finds after a call: the entries of the storage if the call saved them, and what
there was before if not. -/
private theorem entriesAt_write (dependable : Dependable φ path sound) {storage : StateFile φ}
    (serves : storage.Serves path sound) (call : Write) :
    let written := KeyValueStore.write storage call
    entriesAt written.2.files path =
      if Rewrites storage.entries call ∧ written.1.isOk then .ok written.2.entries
      else entriesAt storage.files path := by
  intro written
  obtain ⟨_, replaced, _⟩ := write_spec dependable.toAtomic serves call
  by_cases rewrites : Rewrites storage.entries call
  · rcases answer : written.1 with refused | ⟨⟨⟩⟩
    · have same := readText_write_of_refused dependable serves call
        (by rw [show (KeyValueStore.write storage call).1 = _ from answer]; nofun)
      simp only [Except.isOk, Except.toBool, Bool.false_eq_true, and_false, if_false]
      rw [entriesAt, entriesAt, same]
    · rw [if_pos ⟨rewrites, rfl⟩]
      exact entriesAt_of_readText (replaced answer rewrites).1
  · have idle : written = (.ok (), storage) := write_of_idle rewrites
    rw [if_neg fun saves => rewrites saves.1, idle]

private theorem entriesAt_attempt (dependable : Dependable φ path sound) (calls : List Write)
    {storage : StateFile φ} (serves : storage.Serves path sound) {saved : Entries}
    (holds : entriesAt storage.files path = .ok saved) :
    entriesAt (KeyValueStore.attempt storage calls).files path =
      .ok (lastSaved storage saved calls) := by
  induction calls generalizing storage saved with
  | nil => exact holds
  | cons call calls ih =>
    have after := entriesAt_write dependable serves call
    have next := (write_spec dependable.toAtomic serves call).1
    rw [lastSaved]
    split
    next saves => exact ih next (after.trans (if_pos saves))
    next not => exact ih next ((after.trans (if_neg not)).trans holds)

/-- Whoever opens the file after some calls finds the entries of the last save that was accepted.
So a call that is accepted is found there only if it rewrote the file, or if the last save has
brought the file up to date already. -/
theorem accepted_found_iff (dependable : Dependable φ path sound) {files : φ} (start : sound files)
    {storage : StateFile φ} (opened : openAt files path = .ok storage) (calls : List Write) :
    let live := KeyValueStore.attempt storage calls
    let saved := lastSaved storage storage.entries calls
    openAt live.files path = .ok { live with entries := saved } ∧
    ∀ call,
      let next := KeyValueStore.write live call
      next.1 = .ok () →
        (openAt next.2.files path = .ok next.2 ↔
          Rewrites live.entries call ∨ saved = live.entries) := by
  intro live saved
  have serves : live.Serves path sound :=
    serves_attempt dependable.toAtomic (serves_openAt start opened) calls
  have found : entriesAt live.files path = .ok saved := by
    obtain ⟨_, sameFiles, holds⟩ := openAt_eq_ok.mp opened
    exact entriesAt_attempt dependable calls (serves_openAt start opened) (sameFiles ▸ holds)
  refine ⟨openAt_eq_ok.mpr ⟨serves.path_eq, rfl, found⟩, fun call => ?_⟩
  intro next accepted
  by_cases rewrites : Rewrites live.entries call
  · have current : next.2.UpToDate := upToDate_write dependable.toAtomic serves accepted rewrites
    have samePath : next.2.path = path := (write_spec dependable.toAtomic serves call).1.path_eq
    rw [UpToDate, samePath] at current
    exact ⟨fun _ => .inl rewrites, fun _ => current⟩
  · -- The call has touched nothing, so the file still shows the last save.
    have idle : KeyValueStore.write live call = (.ok (), live) := write_of_idle rewrites
    have untouched : next.2 = live := congrArg Prod.snd idle
    rw [untouched, openAt_eq_ok, found, Except.ok.injEq]
    simp [serves.path_eq, rewrites]

/-- A state file with a folder where its draft would have to be. -/
def blockedDisk : Disk := ⟨.folder [("state.json.tmp", .folder [])], []⟩

/-- Setting a key is refused. Setting it once more is accepted, since the entry is there already,
and yet the file does not have it. -/
theorem retry_accepted_not_found :
    ∃ storage, openAt blockedDisk "state.json" = .ok storage ∧
      let tried := KeyValueStore.write storage (.set "k" "v")
      let retried := KeyValueStore.write tried.2 (.set "k" "v")
      tried.1 = .error ⟨.isADirectory⟩ ∧ retried.1 = .ok () ∧
      openAt retried.2.files "state.json" ≠ .ok retried.2 ∧
      ∃ found, openAt tried.2.files "state.json" = .ok found ∧ found.entries.get? "k" = none := by
  have noLink : ∀ name target,
      Node.child? [("state.json.tmp", .folder [])] name ≠ some (.link target) := by
    intro name target
    by_cases same : "state.json.tmp" = name <;> simp [Node.child?, same]
  have sound : ∃ entries, Disk.Shows "state.json" blockedDisk entries :=
    ⟨_, rfl, noLink _, noLink _⟩
  have opened : openAt blockedDisk "state.json" = .ok ⟨"state.json", .empty, blockedDisk⟩ := rfl
  obtain ⟨found, durable⟩ := accepted_found_iff
    (Disk.dependable_of_inWorkingFolder Disk.inWorkingFolder_stateFile) sound opened [.set "k" "v"]
  have accepted := durable (.set "k" "v") (by decide +kernel)
  refine ⟨_, opened, by decide +kernel, by decide +kernel, ?_, _, found, by decide +kernel⟩
  exact mt accepted.mp (by decide +kernel)

end HdlDesk.StateFile
