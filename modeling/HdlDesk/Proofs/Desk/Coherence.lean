import HdlDesk.Proofs.Desk.Moves
import HdlDesk.Proofs.Storage.Watched

/-!
# Entries stay coherent

Stored records are not trusted, calls may fail, and five kinds of step change an entry. Still the
entry of every file is coherent at every point of every run, and so is each record of an entry that
the desk tries to write. The invariant is on the entries in memory: those that are not there are put
right whenever they are read.
-/
namespace HdlDesk

theorem ArtifactCache.get?_load {σ : Type} [KeyValueStore σ] {cache : ArtifactCache} {storage : σ}
    {key wanted : String} {entry : ArtifactEntry}
    (found : (cache.load storage key).get? wanted = some entry) :
    cache.get? wanted = some entry ∨ entry = storedEntry storage key := by
  unfold load at found
  split at found
  · exact .inl found
  · rw [SortedMap.get?_insert] at found
    split at found
    · exact .inr (Option.some.inj found).symm
    · exact .inl found

namespace Desk

variable {σ : Type} [KeyValueStore σ]

/-- The entries in memory are coherent. -/
def CacheCoherent (desk : Desk σ) : Prop :=
  ∀ key entry, desk.state.artifacts.get? key = some entry → entry.Coherent

theorem CacheCoherent.entry {desk : Desk σ} (coherent : desk.CacheCoherent) (key : String) :
    (desk.entry key).Coherent := by
  unfold Desk.entry ArtifactCache.entry
  cases held : desk.state.artifacts.get? key with
  | none => exact ArtifactCache.coherent_storedEntry desk.storage key
  | some entry => exact coherent key entry held

theorem cacheCoherent_load {desk : Desk σ} (coherent : desk.CacheCoherent) (key : String) :
    (desk.load key).CacheCoherent := by
  intro wanted entry found
  rcases ArtifactCache.get?_load found with before | rfl
  · exact coherent wanted entry before
  · exact ArtifactCache.coherent_storedEntry desk.storage key

theorem cacheCoherent_change {desk : Desk σ} (coherent : desk.CacheCoherent) (key : String)
    {how : ArtifactEntry → Option ArtifactEntry} (keeps : ArtifactEntry.KeepsCoherent how) :
    (desk.change key how).CacheCoherent := by
  rcases change_cases desk key how with loaded | ⟨next, changed, written⟩
  · rw [loaded]
    exact cacheCoherent_load coherent key
  · rw [written]
    intro wanted entry found
    have held : (desk.state.artifacts.insert key next).get? wanted = some entry := found
    rw [SortedMap.get?_insert] at held
    split at held
    · cases held
      exact keeps _ next (coherent.entry key) changed
    · exact coherent wanted entry held

theorem cacheCoherent_move {before after : Desk σ} (move : Move before after)
    (coherent : before.CacheCoherent) : after.CacheCoherent := by
  cases move with
  | begins first =>
    cases first with
    | same => exact coherent
    | putDocument document _ => exact coherent
    | clearAll =>
      intro key entry found
      cases found
  | follows change =>
    cases change with
    | touchRecent name content => exact coherent
    | load key => exact cacheCoherent_load coherent key
    | change key how keeps => exact cacheCoherent_change coherent key keeps
    | putInFlight inFlight => exact coherent

theorem cacheCoherent_restore (config : DeskConfig) (storage : σ) :
    (restore config storage).CacheCoherent := by
  intro key entry found
  cases found

/-! ### The records that are written -/

/-- Every record of an entry that was written, or would have been but for a failure, is read as a
coherent entry. -/
def JournalCoherent (desk : Desk (Watched σ)) : Prop :=
  ∀ key text, Write.set (RecordKey.artifact key) text ∈ desk.storage.journal →
    ∃ entry : ArtifactEntry, Stored.read? text = some entry ∧ entry.Coherent

private theorem journalCoherent_persist {desk : Desk (Watched σ)}
    (coherent : desk.JournalCoherent) (calls : List Write)
    (good : ∀ key text, Write.set (RecordKey.artifact key) text ∈ calls →
      ∃ entry : ArtifactEntry, Stored.read? text = some entry ∧ entry.Coherent) :
    (desk.persist calls).JournalCoherent := by
  intro key text noted
  rcases Watched.mem_journal_writeAll desk.storage calls noted with before | made
  · exact coherent key text before
  · exact good key text made

/-- The record of an entry is written by no call for another part. -/
private theorem not_entryRecord {calls : List Write} {component : Component}
    (owns : component.Owns calls) (key text : String)
    (made : Write.set (RecordKey.artifact key) text ∈ calls) : component = .artifacts key := by
  obtain ⟨name, mine, about⟩ := owns _ made
  cases about
  exact Component.eq_of_mem_records mine List.mem_cons_self

theorem journalCoherent_move {before after : Desk (Watched σ)} (move : Move before after)
    (cache : before.CacheCoherent) (coherent : before.JournalCoherent) :
    after.JournalCoherent := by
  cases move with
  | begins first =>
    cases first with
    | same => exact coherent
    | putDocument document _ =>
      refine journalCoherent_persist coherent document.writes fun key text made => ?_
      cases not_entryRecord (Component.owns_documentWrites document) key text made
    | clearAll =>
      refine journalCoherent_persist coherent [.clear] fun key text made => ?_
      cases List.mem_singleton.mp made
  | follows change =>
    cases change with
    | touchRecent name content =>
      refine journalCoherent_persist coherent _ fun key text made => ?_
      cases not_entryRecord (Component.owns_recentWrites _) key text made
    | load key => exact coherent
    | change key how keeps =>
      rcases change_cases before key how with loaded | ⟨next, changed, written⟩
      · rw [loaded]
        exact coherent
      · -- The only record written is that of the entry, printed from a coherent one.
        rw [written]
        refine journalCoherent_persist coherent _ fun other text made => ?_
        have same := List.mem_singleton.mp made
        simp only [Write.record, Write.set.injEq] at same
        rw [same.2]
        exact ⟨next, Stored.read?_print next, keeps _ next (cache.entry key) changed⟩
    | putInFlight inFlight => exact coherent

/-- Entries are coherent after every run, over any storage, whatever it held at the start and
whichever of its write calls fail; so is every record of an entry that the run tried to write. -/
theorem run_entries_coherent (config : DeskConfig) (storage : σ)
    (refuses : List Write → Write → Bool) (reason : DiskError) (steps : List Step) :
    let desk := (restore config
      ({ inner := storage, refuses := refuses, reason := reason } : Watched σ)).run steps
    (∀ key, (desk.entry key).Coherent) ∧
    ∀ key text, Write.set (RecordKey.artifact key) text ∈ desk.storage.journal →
      ∃ entry : ArtifactEntry, Stored.read? text = some entry ∧ entry.Coherent := by
  intro desk
  have step : ∀ before after : Desk (Watched σ), Move before after →
      before.CacheCoherent ∧ before.JournalCoherent →
      after.CacheCoherent ∧ after.JournalCoherent := by
    rintro before after move ⟨cache, journal⟩
    exact ⟨cacheCoherent_move move cache, journalCoherent_move move cache journal⟩
  have start := cacheCoherent_restore config
    ({ inner := storage, refuses := refuses, reason := reason } : Watched σ)
  have unwritten : (restore config
      ({ inner := storage, refuses := refuses, reason := reason } : Watched σ)).JournalCoherent := by
    intro key text noted
    cases noted
  have kept := run_invariant step _ ⟨start, unwritten⟩ steps
  exact ⟨kept.1.entry, kept.2⟩

end Desk

end HdlDesk
