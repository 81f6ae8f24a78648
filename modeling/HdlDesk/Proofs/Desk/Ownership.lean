import HdlDesk.Proofs.Artifact.Arrivals
import HdlDesk.Proofs.Desk.Deeds
import HdlDesk.Proofs.Storage.Laws
import HdlDesk.Proofs.Storage.Watched

/-!
# Whose records an action writes

Names of files and keys of messages are arbitrary texts, and all records share one storage. Still
every action but clearing keeps to a few records that can be told beforehand: each deed writes the
records of one part at most, the parts are known from the action and the active file, and no record
belongs to two parts. What is not written keeps its value, so the artifacts of other files stay as
they are.
-/
namespace HdlDesk

/-- The deed writes records of these parts only, and asks for artifacts under these keys only.
Clearing keeps within no bounds. -/
def Deed.Within (parts : List Component) (keys : List String) : Deed → Prop
  | .putDocument _ => .document ∈ parts
  | .touchRecent _ _ => .recent ∈ parts
  | .change key _ => .artifacts key ∈ parts
  | .load key | .await _ key | .settle _ key => key ∈ keys
  | .clear => False

namespace Desk

variable {σ : Type} [KeyValueStore σ]

/-- The names of the records that an action may write. -/
def ownRecords (desk : Desk σ) : Action → List String
  | .openSingle _ _ | .openProject _ | .newFile | .openRecent _ | .switch _ =>
    ["editorContent", "fileName", "projectFiles", "activeFile", "recentFiles"]
  | .edit _ => ["editorContent", "fileName", "projectFiles", "activeFile"]
  | .setView _ | .resetTestbench => ["artifact-" ++ desk.activeKey]
  | .artifactArrived message =>
    match desk.config.responseBinding with
    | .originating => ["artifact-" ++ message.key]
    | .activeAtArrival => ["artifact-" ++ desk.activeKey]
  | .openPath _ | .openFolder _ | .request _ | .copyExplanation | .artifactFailed _ _ _
  | .loadFailed _ _ | .clearAll => []

def ownParts (desk : Desk σ) : Action → List Component
  | .openSingle _ _ | .openProject _ | .newFile | .openRecent _ | .switch _ => [.document, .recent]
  | .edit _ => [.document]
  | .setView _ | .resetTestbench => [.artifacts desk.activeKey]
  | .artifactArrived message => [.artifacts (desk.target message)]
  | .openPath _ | .openFolder _ | .request _ | .copyExplanation | .artifactFailed _ _ _
  | .loadFailed _ _ | .clearAll => []

/-- The keys under which artifacts are loaded, awaited or no longer awaited. -/
def askedKeys (desk : Desk σ) : Action → List String
  | .switch index => [(desk.dispatch (.switch index)).2.activeKey]
  | .request _ | .copyExplanation => [desk.activeKey]
  | .artifactArrived message => [message.key]
  | .artifactFailed _ key _ => [key]
  | .openPath _ | .openFolder _ | .openSingle _ _ | .openProject _ | .newFile | .openRecent _
  | .edit _ | .setView _ | .resetTestbench | .loadFailed _ _ | .clearAll => []

omit [KeyValueStore σ] in
theorem ownRecords_eq (desk : Desk σ) (action : Action) :
    desk.ownRecords action = (desk.ownParts action).flatMap Component.records := by
  cases action with
  | artifactArrived message =>
    unfold ownRecords ownParts Desk.target
    cases desk.config.responseBinding <;> rfl
  | _ => rfl

private theorem opening_within (document : Document) (name content : String) :
    ∀ deed ∈ Deed.opening document name content, deed.Within [.document, .recent] [] := by
  simp [Deed.opening, Deed.Within]

theorem deeds_within (desk : Desk σ) {action : Action} (kept : action ≠ .clearAll) :
    ∀ deed ∈ desk.deeds action, deed.Within (desk.ownParts action) (desk.askedKeys action) := by
  cases action with
  | openSingle name content => exact opening_within _ _ _
  | openProject files =>
    simp only [deeds]
    cases Document.openProject files with
    | error refused => simp
    | ok project => exact opening_within _ _ _
  | newFile => exact opening_within _ _ _
  | openRecent name =>
    simp only [deeds]
    cases desk.state.recent.get? name with
    | none => simp
    | some file => exact opening_within _ _ _
  | switch index =>
    simp only [deeds]
    cases switched : desk.state.document.switch index with
    | error refused => simp
    | ok project =>
      -- The entry that is looked up is that of the file which is active afterwards.
      have active : (desk.dispatch (.switch index)).2.activeKey =
          displayKey project.selected.name := by
        simp only [dispatch, switch, switched]
        rfl
      simp [Deed.Within, ownParts, askedKeys, active]
  | edit text =>
    simp only [deeds]
    cases desk.state.document.edit text with
    | none => simp
    | some document => simp [Deed.Within, ownParts]
  | request kind =>
    simp only [deeds]
    split <;> simp [Deed.Within, askedKeys]
  | clearAll => exact absurd rfl kept
  | _ => simp [deeds, Deed.Within, ownParts, askedKeys]

/-! ### What keeping to some records leaves alone -/

/-- From the one desk to the other, all records but those of the parts keep their values, and all
entries stay but theirs. -/
structure KeptTo (parts : List Component) (before after : Desk σ) : Prop where
  records : ∀ name, (∀ part ∈ parts, name ∉ part.records) →
    KeyValueStore.get? after.storage name = KeyValueStore.get? before.storage name
  entries : ∀ key, .artifacts key ∉ parts → after.entry key = before.entry key

namespace KeptTo

variable {parts : List Component} {before middle after : Desk σ}

theorem refl (desk : Desk σ) : KeptTo parts desk desk := ⟨fun _ _ => rfl, fun _ _ => rfl⟩

theorem trans (first : KeptTo parts before middle) (second : KeptTo parts middle after) :
    KeptTo parts before after where
  records name foreign := (second.records name foreign).trans (first.records name foreign)
  entries key other := (second.entries key other).trans (first.entries key other)

/-- A part changes in memory, and calls about its records are made. -/
theorem persist [AtomicStore σ] (desk : Desk σ) {part : Component} (mine : part ∈ parts)
    {calls : List Write} (owns : part.Owns calls) {state : DeskState}
    (others : ∀ key, part ≠ .artifacts key →
      state.artifacts.get? key = desk.state.artifacts.get? key) :
    KeptTo parts desk ({ desk with state := state }.persist calls) where
  records name foreign := by
    -- Every call is about a record of the part, so none is about this one.
    refine KeyValueStore.get?_writeAll_of_ne desk.storage fun call made => ?_
    obtain ⟨own, inside, about⟩ := owns call made
    refine ⟨own, about, ?_⟩
    rintro rfl
    exact foreign part mine inside
  entries key other := by
    have apart : part ≠ .artifacts key := by
      rintro rfl
      exact other mine
    exact ArtifactCache.entry_congr (others key apart)
      (KeyValueStore.sameRecords_writeAll desk.storage owns apart)

theorem carryOut [AtomicStore σ] (desk : Desk σ) {deed : Deed} {keys : List String}
    (within : deed.Within parts keys) : KeptTo parts desk (desk.carryOut deed) := by
  cases deed with
  | putDocument document =>
    exact persist desk within (Component.owns_documentWrites document) fun _ _ => rfl
  | touchRecent name content =>
    exact persist desk within (Component.owns_recentWrites _) fun _ _ => rfl
  | load key =>
    exact ⟨fun _ _ => rfl,
      fun wanted _ => ArtifactCache.entry_load desk.state.artifacts desk.storage key wanted⟩
  | change key how =>
    show KeptTo parts desk (desk.change key how)
    rw [change_eq]
    refine persist desk within (Component.owns_entryWrites key _) fun wanted apart => ?_
    have other : wanted ≠ key := fun same => apart (congrArg Component.artifacts same.symm)
    exact (SortedMap.get?_insert _ key wanted _).trans (if_neg other)
  | await kind key => exact ⟨fun _ _ => rfl, fun _ _ => rfl⟩
  | settle kind key => exact ⟨fun _ _ => rfl, fun _ _ => rfl⟩
  | clear => exact absurd within id

theorem dispatch [AtomicStore σ] (desk : Desk σ) {action : Action} (kept : action ≠ .clearAll) :
    KeptTo (desk.ownParts action) desk (desk.dispatch action).2 :=
  dispatch_induct (KeptTo _ desk) (fun reached deed member sofar =>
    sofar.trans (carryOut reached (desk.deeds_within kept deed member))) (refl desk)

end KeptTo

/-- The calls that were put down since are about records of the parts. -/
def CallsKeepTo (parts : List Component) (before after : Desk (Watched σ)) : Prop :=
  ∃ made, after.storage.journal = before.storage.journal ++ made ∧
    ∀ call ∈ made, ∃ part ∈ parts, ∃ name ∈ part.records, call.key? = some name

namespace CallsKeepTo

variable {parts : List Component} {before middle after : Desk (Watched σ)}

omit [KeyValueStore σ] in
theorem refl (desk : Desk (Watched σ)) : CallsKeepTo parts desk desk :=
  ⟨[], (List.append_nil _).symm, fun _ made => nomatch made⟩

omit [KeyValueStore σ] in
theorem trans (first : CallsKeepTo parts before middle) (second : CallsKeepTo parts middle after) :
    CallsKeepTo parts before after := by
  obtain ⟨made, noted, own⟩ := first
  obtain ⟨more, notedAfter, ownAfter⟩ := second
  refine ⟨made ++ more, by rw [notedAfter, noted, List.append_assoc], fun call member => ?_⟩
  rcases List.mem_append.mp member with early | late
  · exact own call early
  · exact ownAfter call late

theorem persist (desk : Desk (Watched σ)) {part : Component} (mine : part ∈ parts)
    {calls : List Write} (owns : part.Owns calls) (state : DeskState) :
    CallsKeepTo parts desk ({ desk with state := state }.persist calls) := by
  obtain ⟨made, front, noted⟩ := Watched.journal_writeAll desk.storage calls
  exact ⟨made, noted, fun call member => ⟨part, mine, owns call (front.subset member)⟩⟩

theorem carryOut (desk : Desk (Watched σ)) {deed : Deed} {keys : List String}
    (within : deed.Within parts keys) : CallsKeepTo parts desk (desk.carryOut deed) := by
  cases deed with
  | putDocument document => exact persist desk within (Component.owns_documentWrites document) _
  | touchRecent name content => exact persist desk within (Component.owns_recentWrites _) _
  | load key => exact refl desk
  | change key how =>
    show CallsKeepTo parts desk (desk.change key how)
    rw [change_eq]
    exact persist desk within (Component.owns_entryWrites key _) _
  | await kind key => exact refl desk
  | settle kind key => exact refl desk
  | clear => exact absurd within id

theorem dispatch (desk : Desk (Watched σ)) {action : Action} (kept : action ≠ .clearAll) :
    CallsKeepTo (desk.ownParts action) desk (desk.dispatch action).2 :=
  dispatch_induct (CallsKeepTo _ desk) (fun reached deed member sofar =>
    sofar.trans (carryOut reached (desk.deeds_within kept deed member))) (refl desk)

end CallsKeepTo

theorem entry_change_self (desk : Desk σ) (key : String)
    (how : ArtifactEntry → Option ArtifactEntry) :
    (desk.change key how).entry key = (how (desk.entry key)).getD (desk.entry key) := by
  rw [change_eq]
  exact (ArtifactCache.entry_insert desk.state.artifacts _ key key _).trans (if_pos rfl)

theorem entry_change_of_ne [AtomicStore σ] (desk : Desk σ) {key other : String}
    (different : other ≠ key) (how : ArtifactEntry → Option ArtifactEntry) :
    (desk.change key how).entry other = desk.entry other := by
  have within : (Deed.change key how).Within [.artifacts key] [] := List.mem_cons_self
  exact (KeptTo.carryOut desk within).entries other (by simpa using different)

/-- The entry that an artifact arrives for is changed by it and by nothing else. -/
theorem entry_artifactArrived (desk : Desk σ) (message : ArtifactMessage) :
    (desk.dispatch (.artifactArrived message)).2.entry (desk.target message) =
      ((desk.entry (desk.target message)).withArtifact message.kind message.payload
        (desk.target message = desk.activeKey)).getD (desk.entry (desk.target message)) :=
  entry_change_self desk (desk.target message) fun entry =>
    entry.withArtifact message.kind message.payload (desk.target message = desk.activeKey)

/-- An artifact that arrives while its file is not active does not change the view of the file. -/
theorem view_artifactArrived [AtomicStore σ] (desk : Desk σ) {message : ArtifactMessage}
    (late : desk.target message ≠ desk.activeKey) (key : String) :
    ((desk.dispatch (.artifactArrived message)).2.entry key).view = (desk.entry key).view := by
  by_cases own : key = desk.target message
  · subst own
    rw [entry_artifactArrived, decide_eq_false late]
    exact ArtifactEntry.view_withArtifact_inactive _ message.kind message.payload
  · have kept : KeptTo _ desk (desk.dispatch (.artifactArrived message)).2 :=
      .dispatch desk (by simp)
    rw [kept.entries key (by simpa [ownParts] using own)]

/-- Whatever the names of the files and the keys of the messages, every action but clearing tries to
write no records but its own, all others keep their values, and so do the entries of other files. An
artifact that arrives concerns neither the document nor the recent files, and one for a file that is
not active changes no view. -/
theorem dispatch_keeps_to_own_records [AtomicStore σ] (desk : Desk (Watched σ)) (action : Action)
    (kept : action ≠ .clearAll) :
    let after := (desk.dispatch action).2
    let own := desk.ownRecords action
    (∃ made, after.storage.journal = desk.storage.journal ++ made ∧
      ∀ call ∈ made, ∃ name ∈ own, call.key? = some name) ∧
    (∀ name, name ∉ own →
      KeyValueStore.get? after.storage name = KeyValueStore.get? desk.storage name) ∧
    (∀ key, "artifact-" ++ key ∉ own → after.entry key = desk.entry key) ∧
    ∀ message, action = .artifactArrived message →
      after.state.document = desk.state.document ∧ after.state.recent = desk.state.recent ∧
      (desk.config.responseBinding = .originating → message.key ≠ desk.activeKey →
        ∀ key, (after.entry key).view = (desk.entry key).view) := by
  intro after own
  have keptTo : KeptTo (desk.ownParts action) desk after := .dispatch desk kept
  -- The records told by name are those of the parts.
  have belongs (name : String) :
      name ∈ own ↔ ∃ part ∈ desk.ownParts action, name ∈ part.records := by
    rw [show own = _ from desk.ownRecords_eq action, List.mem_flatMap]
  refine ⟨?calls, fun name foreign => ?records, fun key foreign => ?entries, ?arrival⟩
  case calls =>
    obtain ⟨made, noted, within⟩ := CallsKeepTo.dispatch desk kept
    refine ⟨made, noted, fun call member => ?_⟩
    obtain ⟨part, mine, name, inside, about⟩ := within call member
    exact ⟨name, (belongs name).mpr ⟨part, mine, inside⟩, about⟩
  case records =>
    exact keptTo.records name fun part mine inside =>
      foreign ((belongs name).mpr ⟨part, mine, inside⟩)
  case entries =>
    exact keptTo.entries key fun mine =>
      foreign ((belongs _).mpr ⟨.artifacts key, mine, List.mem_cons_self⟩)
  case arrival =>
    rintro message rfl
    refine ⟨rfl, rfl, fun originating late => view_artifactArrived desk ?_⟩
    unfold target
    rw [originating]
    exact late

/-- The explanation of a file arrives while another is active, from a desk that holds a record of
somebody else. -/
theorem late_arrival_keeps_to_its_file :
    let start : Entries := SortedMap.ofList [("artifact", "of others")]
    let desk := (restore {} ({ inner := start } : Watched Entries)).run
      [.act (.openSingle "a.v" "module a;"), .act (.openSingle "recentFiles" "module b;")]
    let message : ArtifactMessage := ⟨.explanation, "a.v", "A module."⟩
    let after := (desk.dispatch (.artifactArrived message)).2
    KeyValueStore.get? after.storage "artifact" = some "of others" ∧
    after.entry "recentFiles" = desk.entry "recentFiles" ∧
    after.state.recent = desk.state.recent ∧
    (after.entry "a.v").view = .code ∧ (after.entry "a.v").explanation = "A module." := by
  intro start desk message after
  obtain ⟨_, records, entries, arrival⟩ :=
    dispatch_keeps_to_own_records desk (.artifactArrived message) (by simp)
  have own : desk.ownRecords (.artifactArrived message) = ["artifact-a.v"] := by decide +kernel
  rw [own] at records entries
  obtain ⟨_, recent, views⟩ := arrival message rfl
  refine ⟨?_, entries "recentFiles" (by decide), recent, ?_, by decide +kernel⟩
  · rw [records "artifact" (by decide)]
    decide +kernel
  · rw [views rfl (by decide +kernel) "a.v"]
    decide +kernel

end Desk

end HdlDesk
