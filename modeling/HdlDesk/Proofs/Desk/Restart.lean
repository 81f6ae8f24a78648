import HdlDesk.Proofs.Desk.Coherence
import HdlDesk.Proofs.Recent

/-!
# A restart shows what was stored

A desk that is restored from the storage of a live one shows each part of the session as the live
one does, provided that the last attempt to write that part did not fail. The invariant says so of
every part; a move either leaves a part and its records alone or writes the part anew, and a part
that was written completely is read back as it was.
-/
namespace HdlDesk

theorem ArtifactCache.storedEntry_insert (entries : Entries) (key : String) (entry : ArtifactEntry) :
    storedEntry (entries.apply (.record (RecordKey.artifact key) entry)) key = entry.sanitized := by
  have held : KeyValueStore.get? (entries.apply (.record (RecordKey.artifact key) entry))
      (RecordKey.artifact key) = some (Stored.print entry) := by
    show ((entries.insert _ _).get? _) = _
    simp
  unfold storedEntry readRecord?
  rw [held]
  simp only [Stored.read?_print]

namespace Component

variable {σ : Type} [KeyValueStore σ]

/-- A desk restored from the storage would show the part as this one does. -/
def Shown : Component → Desk σ → Prop
  | .document, desk => Document.restore desk.storage = desk.state.document.reopened
  | .recent, desk =>
    RecentFiles.restore desk.storage desk.config.recentCapacity = desk.state.recent
  | .artifacts key, desk => ArtifactCache.storedEntry desk.storage key = desk.entry key

/-- Two states hold the same of a part. -/
def SameMemory : Component → DeskState → DeskState → Prop
  | .document, state, other => state.document = other.document
  | .recent, state, other => state.recent = other.recent
  | .artifacts key, state, other => state.artifacts.get? key = other.artifacts.get? key

/-- A part stays shown when neither its records nor what is in memory of it change. -/
theorem Shown.frame {component : Component} {before after : Desk σ} (shown : component.Shown before)
    (config : after.config = before.config)
    (memory : component.SameMemory after.state before.state)
    (records : component.SameRecords after.storage before.storage) : component.Shown after := by
  cases component with
  | document =>
    have document : after.state.document = before.state.document := memory
    show Document.restore after.storage = after.state.document.reopened
    rw [Document.restore_congr records, document]
    exact shown
  | recent =>
    have recent : after.state.recent = before.state.recent := memory
    show RecentFiles.restore after.storage after.config.recentCapacity = after.state.recent
    rw [RecentFiles.restore_congr records, recent, config]
    exact shown
  | artifacts key =>
    have entry : after.entry key = before.entry key := ArtifactCache.entry_congr memory records
    show ArtifactCache.storedEntry after.storage key = after.entry key
    rw [ArtifactCache.storedEntry_congr records, entry]
    exact shown

end Component

namespace Desk

/-- What every desk of a run has: each settled part would be shown by a restart. The other fields
are what reading the records back depends on. -/
structure Faithful (config : DeskConfig) (desk : Desk (Watched Entries)) : Prop where
  config_eq : desk.config = config
  fits : desk.state.document.IndexFits
  wellFormed : desk.state.recent.WellFormed config.recentCapacity
  coherent : desk.CacheCoherent
  shown : ∀ component : Component, desk.storage.Settled component → component.Shown desk

variable {config : DeskConfig} {desk : Desk (Watched Entries)}

/-- Calls for one part, made after the part has changed in memory, keep the others shown; the part
itself has to be shown once all of the calls have taken effect. -/
theorem shown_persist (component : Component)
    (shown : ∀ part : Component, desk.storage.Settled part → part.Shown desk)
    {state : DeskState} {calls : List Write}
    (memory : ∀ part : Component, part ≠ component → part.SameMemory state desk.state)
    (owns : component.Owns calls)
    (written : component.Shown
      { desk with state := state, storage := desk.storage.accept calls }) (part : Component)
    (settled : ({ desk with state := state }.persist calls).storage.Settled part) :
    part.Shown ({ desk with state := state }.persist calls) := by
  by_cases own : part = component
  · -- The calls are the last ones for the part, so being settled means that none was refused.
    subst own
    have all := Watched.writeAll_settled desk.storage calls
      (fun call made => (owns.concerns_iff made part).mpr rfl) settled
    unfold persist
    rw [all]
    exact written
  · -- Whether the calls were refused does not matter: they leave the part's records alone.
    have records : part.SameRecords (KeyValueStore.writeAll desk.storage calls).2 desk.storage :=
      KeyValueStore.sameRecords_writeAll desk.storage owns (Ne.symm own)
    have before : desk.storage.Settled part := Watched.Settled.of_writeAll owns own settled
    exact (shown part before).frame rfl (memory part own) records

private theorem faithful_putDocument (faithful : desk.Faithful config) (document : Document)
    (fits : document.IndexFits) : (desk.putDocument document).Faithful config := by
  refine ⟨faithful.config_eq, fits, faithful.wellFormed, faithful.coherent, ?_⟩
  refine shown_persist .document faithful.shown ?memory
    (Component.owns_documentWrites document) ?written
  case memory =>
    intro part other
    cases part with
    | document => exact absurd rfl other
    | recent => rfl
    | artifacts key => rfl
  case written => exact Document.restore_writes document fits desk.storage.inner

private theorem faithful_touchRecent (faithful : desk.Faithful config) (name content : String) :
    (desk.touchRecent name content).2.Faithful config := by
  have wellFormed := RecentFiles.wellFormed_touch faithful.wellFormed name content
  refine ⟨faithful.config_eq, faithful.fits, wellFormed, faithful.coherent, ?_⟩
  refine shown_persist .recent faithful.shown ?memory
    (Component.owns_recentWrites _) ?written
  case memory =>
    intro part other
    cases part with
    | document => rfl
    | recent => exact absurd rfl other
    | artifacts key => rfl
  case written =>
    obtain ⟨rfl, _⟩ := faithful
    exact RecentFiles.restore_writes wellFormed desk.storage.inner

private theorem faithful_load (faithful : desk.Faithful config) (key : String) :
    (desk.load key).Faithful config := by
  refine ⟨faithful.config_eq, faithful.fits, faithful.wellFormed,
    cacheCoherent_load faithful.coherent key, ?_⟩
  intro part settled
  have shown := faithful.shown part settled
  cases part with
  | document => exact shown
  | recent => exact shown
  | artifacts wanted =>
    have same : (desk.load key).entry wanted = desk.entry wanted :=
      ArtifactCache.entry_load desk.state.artifacts desk.storage key wanted
    show ArtifactCache.storedEntry desk.storage wanted = (desk.load key).entry wanted
    rw [same]
    exact shown

private theorem faithful_change (faithful : desk.Faithful config) (key : String)
    {how : ArtifactEntry → Option ArtifactEntry} (keeps : ArtifactEntry.KeepsCoherent how) :
    (desk.change key how).Faithful config := by
  have coherent := cacheCoherent_change faithful.coherent key keeps
  rcases change_cases desk key how with loaded | ⟨next, changed, written⟩
  · rw [loaded]
    exact faithful_load faithful key
  rw [written] at coherent ⊢
  refine ⟨faithful.config_eq, faithful.fits, faithful.wellFormed, coherent, ?_⟩
  refine shown_persist (.artifacts key) faithful.shown ?memory
    (Component.owns_entryWrites key [next]) ?written
  case memory =>
    intro part other
    cases part with
    | document => rfl
    | recent => rfl
    | artifacts wanted =>
      have apart : wanted ≠ key := fun same => other (congrArg Component.artifacts same)
      show (desk.state.artifacts.insert key next).get? wanted = _
      rw [SortedMap.get?_insert, if_neg apart]
  case written =>
    -- Reading the record puts it right, which changes nothing in an entry that is coherent.
    have held : ({ desk with
        state.artifacts := desk.state.artifacts.insert key next
        storage := desk.storage.accept [.record (RecordKey.artifact key) next] } : Desk _).entry
        key = next := by
      simp [entry, ArtifactCache.entry]
    have read := ArtifactCache.storedEntry_insert desk.storage.inner key next
    rw [ArtifactEntry.sanitized_eq next
      (keeps _ next (faithful.coherent.entry key) changed)] at read
    exact read.trans held.symm

private theorem faithful_clearAll (faithful : desk.Faithful config) :
    desk.clearAll.2.Faithful config := by
  refine ⟨faithful.config_eq, Document.indexFits_of_not_project rfl,
    RecentFiles.wellFormed_clear faithful.wellFormed, cacheCoherent_move (.begins .clearAll)
      faithful.coherent, ?_⟩
  intro part settled
  -- Clearing concerns every part, so it took effect and nothing is stored any more.
  have all := Watched.writeAll_settled desk.storage [.clear]
    (fun call made => by rw [List.mem_singleton.mp made]; rfl) settled
  have emptied : desk.clearAll.2.storage = desk.storage.accept [.clear] := all
  cases part with
  | document =>
    show Document.restore desk.clearAll.2.storage = .empty
    rw [emptied]
    rfl
  | recent =>
    obtain ⟨rfl, _, wellFormed⟩ := faithful
    show RecentFiles.restore desk.clearAll.2.storage desk.config.recentCapacity =
      desk.state.recent.clear
    rw [emptied]
    show RecentFiles.ofCapacity desk.config.recentCapacity = desk.state.recent.clear
    unfold RecentFiles.clear RecentFiles.ofCapacity
    rw [wellFormed.capacity_eq]
  | artifacts key => rfl

/-- Each move keeps the desk such that its settled parts would be shown by a restart. -/
theorem faithful_move {before after : Desk (Watched Entries)} (move : Move before after)
    (faithful : before.Faithful config) : after.Faithful config := by
  cases move with
  | begins first =>
    cases first with
    | same => exact faithful
    | putDocument document fits =>
      exact faithful_putDocument faithful document (fits faithful.fits)
    | clearAll => exact faithful_clearAll faithful
  | follows change =>
    cases change with
    | touchRecent name content => exact faithful_touchRecent faithful name content
    | load key => exact faithful_load faithful key
    | change key how keeps => exact faithful_change faithful key keeps
    | putInFlight inFlight =>
      obtain ⟨config_eq, fits, wellFormed, coherent, shown⟩ := faithful
      refine ⟨config_eq, fits, wellFormed, coherent, fun part settled => ?_⟩
      have before := shown part settled
      cases part <;> exact before

theorem faithful_restore (config : DeskConfig) (storage : Watched Entries) :
    (restore config storage).Faithful config := by
  refine ⟨rfl, Document.indexFits_restore storage, RecentFiles.wellFormed_restore storage _,
    cacheCoherent_restore config storage, ?_⟩
  intro part _
  cases part with
  | document => exact (Document.reopened_restore storage).symm
  | recent => rfl
  | artifacts key => rfl

theorem faithful_run (config : DeskConfig) (storage : Watched Entries) (steps : List Step) :
    ((restore config storage).run steps).Faithful config :=
  run_invariant (fun _ _ => faithful_move) _ (faithful_restore config storage) steps

/-- Whatever the storage held at the start, and whichever calls failed since, a restart shows each
part as the live desk does, unless the last attempt to write that part failed. Only a file without
name and text is lost. -/
theorem restart_shows_settled_parts (config : DeskConfig) (start : Entries)
    (refuses : List Write → Write → Bool) (reason : DiskError) (steps : List Step) :
    let live := (restore config
      ({ inner := start, refuses := refuses, reason := reason } : Watched Entries)).run steps
    let again := restore config live.storage
    (live.storage.Settled .document → again.state.document = live.state.document.reopened) ∧
    (live.storage.Settled .recent → again.state.recent = live.state.recent) ∧
    ∀ key, live.storage.Settled (.artifacts key) → again.entry key = live.entry key := by
  intro live again
  have faithful : live.Faithful config := faithful_run config _ steps
  refine ⟨fun settled => faithful.shown .document settled, fun settled => ?_,
    fun key settled => faithful.shown (.artifacts key) settled⟩
  have shown := faithful.shown .recent settled
  rw [← shown]
  show RecentFiles.restore live.storage config.recentCapacity = _
  rw [faithful.config_eq]

/-- A file is opened while the list of recent files cannot be written: the document is settled, and
a restart shows the file. -/
theorem restart_shows_opened_file :
    let refuses : List Write → Write → Bool := fun _ call => call.key? = some RecordKey.recentFiles
    let live := (restore {} ({ inner := .empty, refuses := refuses } : Watched Entries)).run
      [.act (.openSingle "a.v" "module a;")]
    live.storage.Settled .document ∧
      (restore {} live.storage).state.document = .single "a.v" "module a;" := by
  intro refuses live
  have settled : live.storage.Settled .document := by
    intro before call _ _ concerned _
    rw [Bool.eq_false_iff]
    intro refused
    have about : call.key? = some RecordKey.recentFiles := of_decide_eq_true refused
    unfold Component.concerns at concerned
    rw [about] at concerned
    exact absurd concerned (by decide)
  exact ⟨settled, (restart_shows_settled_parts {} .empty refuses (.refused "injected")
    [.act (.openSingle "a.v" "module a;")]).1 settled⟩

end Desk

end HdlDesk
