import HdlDesk.Proofs.Desk.Contents
import HdlDesk.Proofs.Desk.LazyEntries
import HdlDesk.Proofs.Desk.Restart

/-!
# A live desk and a reopened one

A desk that is restored from the storage of a live one is not the same desk: it has no entries in
memory, and where the live one has a file without name and text it has nothing open. Neither makes a
difference to what the two do. They answer each action alike, make the same write calls, and are the
same again but for this, so they stay alike for as long as they are used.
-/
namespace HdlDesk

namespace Desk

variable {σ : Type} [KeyValueStore σ]

/-! ### A file without name and text -/

/-- The desk with a file without name and text in the place of its document. -/
def unnamed (desk : Desk σ) : Desk σ := { desk with state.document := .single "" "" }

/-- Whether nothing is open or a file without name and text makes no difference to an action. It
stays as it was unless the action puts another document in its place. -/
theorem dispatch_unnamed {desk : Desk σ} (nothing : desk.state.document = .empty)
    (action : Action) :
    (desk.unnamed.dispatch action).1 = (desk.dispatch action).1 ∧
    ((desk.unnamed.dispatch action).2 = (desk.dispatch action).2 ∨
      (desk.dispatch action).2.state.document = .empty ∧
      (desk.unnamed.dispatch action).2 = (desk.dispatch action).2.unnamed) := by
  obtain ⟨config, ⟨document, recent, artifacts, inFlight⟩, storage⟩ := desk
  obtain rfl : document = .empty := nothing
  cases action with
  | openSingle name content => exact ⟨rfl, .inl rfl⟩
  | newFile => exact ⟨rfl, .inl rfl⟩
  | clearAll => exact ⟨rfl, .inl rfl⟩
  | openProject files =>
    -- A project is opened from its files alone; if it is refused the document stays.
    simp only [dispatch, openProject]
    cases Document.openProject files with
    | error refused => exact ⟨rfl, .inr ⟨rfl, rfl⟩⟩
    | ok project => exact ⟨rfl, .inl rfl⟩
  | openRecent name =>
    simp only [dispatch, openRecent, unnamed]
    cases recent.get? name with
    | none => exact ⟨rfl, .inr ⟨rfl, rfl⟩⟩
    | some file => exact ⟨rfl, .inl rfl⟩
  | edit text =>
    -- No text is no change for either, and any other makes the same file of both.
    by_cases blank : text = ""
    · subst blank
      exact ⟨rfl, .inr ⟨rfl, rfl⟩⟩
    · have typed : Document.empty.edit text = some (.single "" text) := by
        simp [Document.edit, Document.content, Ne.symm blank]
      have retyped : (Document.single "" "").edit text = some (.single "" text) := by
        simp [Document.edit, Document.content, Ne.symm blank]
      simp only [dispatch, edit, unnamed, typed, retyped]
      exact ⟨trivial, .inl rfl⟩
  | setView view =>
    simp only [dispatch]
    rw [setView_outcome, setView_outcome, setView_eq_change, setView_eq_change]
    exact ⟨rfl, .inr ⟨rfl, rfl⟩⟩
  | request kind =>
    -- There is nothing in the editor either way.
    exact ⟨rfl, .inr ⟨rfl, rfl⟩⟩
  | _ => exact ⟨rfl, .inr ⟨rfl, rfl⟩⟩

/-! ### Desks that are alike -/

/-- A reopened desk and a live one differ at most in which entries are in memory, and where the live
one has a file without name and text the other may have nothing open. -/
def Resembles (own live : Desk σ) : Prop :=
  UpToLoading own live ∨ own.state.document = .empty ∧ UpToLoading own.unnamed live

namespace Resembles

variable {own live : Desk σ}

theorem storage (alike : own.Resembles live) : own.storage = live.storage := by
  rcases alike with alike | ⟨_, alike⟩ <;> exact alike.storage

theorem recent (alike : own.Resembles live) : own.state.recent = live.state.recent := by
  rcases alike with alike | ⟨_, alike⟩ <;> exact alike.outlook.recent

theorem inFlight (alike : own.Resembles live) : own.state.inFlight = live.state.inFlight := by
  rcases alike with alike | ⟨_, alike⟩ <;> exact alike.inFlight

theorem entry (alike : own.Resembles live) (key : String) : own.entry key = live.entry key := by
  rcases alike with alike | ⟨_, alike⟩ <;> exact alike.entry key

theorem activeKey (alike : own.Resembles live) : own.activeKey = live.activeKey := by
  rcases alike with alike | ⟨nothing, alike⟩
  · exact congrArg Document.key alike.outlook.document
  · -- Without a name a file has the display key that stands for no file.
    have same : Document.single "" "" = live.state.document := alike.outlook.document
    rw [Desk.activeKey, Desk.activeKey, nothing, ← same]
    rfl

theorem load (alike : own.Resembles live) (key : String) :
    (own.load key).Resembles (live.load key) := by
  rcases alike with alike | ⟨nothing, alike⟩
  · exact .inl ((alike.load key).symm.load key).symm
  · exact .inr ⟨nothing, ((alike.load key).symm.load key).symm⟩

theorem dispatch [AtomicStore σ] (alike : own.Resembles live) (action : Action) :
    (own.dispatch action).1 = (live.dispatch action).1 ∧
    (own.dispatch action).2.Resembles (live.dispatch action).2 := by
  rcases alike with alike | ⟨nothing, alike⟩
  · have answer := alike.answer (.act action)
    exact ⟨Sum.inl.inj answer, .inl (alike.after (.act action))⟩
  · obtain ⟨outcome, after⟩ := dispatch_unnamed nothing action
    have answer : (own.unnamed.dispatch action).1 = (live.dispatch action).1 :=
      Sum.inl.inj (alike.answer (.act action))
    have next : UpToLoading (own.unnamed.dispatch action).2 (live.dispatch action).2 :=
      alike.after (.act action)
    refine ⟨outcome.symm.trans answer, ?_⟩
    rcases after with same | ⟨still, same⟩
    · exact .inl (same ▸ next)
    · exact .inr ⟨still, same ▸ next⟩

end Resembles

/-! ### What runs keep of a storage -/

/-- Some steps lead from one desk to the other. -/
def LeadsTo (first reached : Desk σ) : Prop := ∃ steps, first.run steps = reached

theorem LeadsTo.after {first reached : Desk σ} (leads : first.LeadsTo reached) (step : Step) :
    first.LeadsTo (reached.after step) := by
  obtain ⟨steps, rfl⟩ := leads
  exact ⟨steps ++ [step], List.foldl_append⟩

/-- What each call keeps of the storage is kept by a run. -/
theorem run_storage_induct (kept : σ → Prop)
    (write : ∀ storage call, kept storage → kept (KeyValueStore.write storage call).2)
    (desk : Desk σ) (start : kept desk.storage) (steps : List Step) :
    kept (desk.run steps).storage := by
  have persist (desk : Desk σ) (calls : List Write) (before : kept desk.storage) :
      kept (desk.persist calls).storage :=
    KeyValueStore.writeAll_induct kept calls (fun storage call _ => write storage call)
      desk.storage before
  refine @run_invariant _ _ (fun reached => kept reached.storage) ?_ desk start steps
  rintro before after (begins | follows) held
  · cases begins with
    | same => exact held
    | putDocument document _ => exact persist _ document.writes held
    | clearAll => exact persist _ [.clear] held
  · cases follows with
    | touchRecent name content => exact persist _ _ held
    | load key => exact held
    | change key how _ =>
      rw [change_eq]
      exact persist _ _ held
    | putInFlight inFlight => exact held

theorem contents_run {desk : Desk σ} (obeys : KeyValueStore.NeverFails desk.storage)
    (steps : List Step) : (desk.run steps).contents = desk.contents.run steps := by
  induction steps generalizing desk with
  | nil => rfl
  | cons step steps ih =>
    cases step with
    | act action =>
      have next := ih (neverFails_dispatch obeys action)
      rw [contents_dispatch obeys] at next
      exact next
    | look key =>
      have next := ih (neverFails_carryOut obeys (.load key))
      rw [contents_carryOut obeys (.load key)] at next
      exact next

theorem contents_restore {τ : Type} [KeyValueStore τ] (config : DeskConfig) {storage : σ}
    {other : τ} (same : KeyValueStore.get? storage = KeyValueStore.get? other) :
    (restore config storage).contents = (restore config other).contents := by
  have document : Document.restore storage = Document.restore other :=
    Document.restore_congr fun key _ => congrFun same key
  have recent : RecentFiles.restore storage config.recentCapacity =
      RecentFiles.restore other config.recentCapacity :=
    RecentFiles.restore_congr (fun key _ => congrFun same key) config.recentCapacity
  simp only [contents, restore, document, recent, KeyValueStore.contents, same]

/-! ### Restarting -/

/-- Whether a part would be shown depends on what the storage answers alone. -/
theorem shown_contents (component : Component) (desk : Desk σ) :
    component.Shown desk.contents ↔ component.Shown desk := by
  cases component with
  | document => exact Iff.of_eq (congrArg (· = _) (Document.restore_congr fun _ _ => rfl))
  | recent =>
    exact Iff.of_eq (congrArg (· = _) (RecentFiles.restore_congr (fun _ _ => rfl) _))
  | artifacts key =>
    have stored : ArtifactCache.storedEntry desk.contents.storage key =
        ArtifactCache.storedEntry desk.storage key := ArtifactCache.storedEntry_congr fun _ _ => rfl
    simp only [Component.Shown, stored, entry_contents]

/-- Over a storage that never fails, a restart shows every part as it is. -/
theorem shown_run (config : DeskConfig) {storage : σ} (obeys : KeyValueStore.NeverFails storage)
    {start : Entries} (same : KeyValueStore.get? storage = KeyValueStore.get? start)
    (steps : List Step) :
    ((restore config storage).run steps).config = config ∧
    ∀ component : Component, component.Shown ((restore config storage).run steps) := by
  -- Entries under watch that accept every call answer alike all along.
  let watched : Watched Entries := { inner := start }
  have accepts : ∀ before call, watched.refuses before call = false := fun _ _ => rfl
  have ownObeys : KeyValueStore.NeverFails (restore config storage).storage := obeys
  have twinObeys : KeyValueStore.NeverFails (restore config watched).storage :=
    Watched.neverFails accepts
  have alike : (restore config storage).contents = (restore config watched).contents :=
    contents_restore config same
  have twin : ((restore config storage).run steps).contents =
      ((restore config watched).run steps).contents := by
    rw [contents_run ownObeys, contents_run twinObeys, alike]
  have faithful := faithful_run config watched steps
  have refuses : ((restore config watched).run steps).storage.refuses = watched.refuses :=
    run_storage_induct (fun reached : Watched Entries => reached.refuses = watched.refuses)
      (fun reached call held => (Watched.refuses_write reached call).trans held)
      (restore config watched) rfl steps
  refine ⟨(congrArg Desk.config twin).trans faithful.config_eq, fun component => ?_⟩
  have settled : ((restore config watched).run steps).storage.Settled component := by
    intro before call _ _ _ _
    rw [refuses, accepts]
  have shown := faithful.shown component settled
  rw [← shown_contents, twin, shown_contents]
  exact shown

/-- A desk that is restored from the storage of one that has no request in flight resembles it. -/
theorem resembles_restore {desk : Desk σ} (shown : ∀ component : Component, component.Shown desk)
    (idle : desk.state.inFlight = .empty) : (restore desk.config desk.storage).Resembles desk := by
  have document : (restore desk.config desk.storage).state.document =
      desk.state.document.reopened := shown .document
  have recent : (restore desk.config desk.storage).state.recent = desk.state.recent :=
    shown .recent
  have entries : (restore desk.config desk.storage).entry = desk.entry :=
    funext fun key => shown (.artifacts key)
  -- The document is the only part that a restart need not bring back as it was.
  by_cases blank : desk.state.document = .single "" ""
  · rw [blank] at document
    refine .inr ⟨document, ?_, rfl⟩
    exact Ledger.ext rfl blank.symm recent idle.symm entries
  · have kept := Document.reopened_eq_self blank
    exact .inl ⟨Ledger.ext rfl (document.trans kept) recent idle.symm entries, rfl⟩

end Desk

end HdlDesk
