import HdlDesk.Proofs.Desk.Restart
import HdlDesk.Proofs.Document.Interrupted

/-!
# Actions whose document is stored in part

An action stores the document by one sequence of calls, if at all. Whichever of the calls fail, the
storage restores as if the sequence had ended at some point, so what an interruption can do wrong is
known for every action.
-/
namespace HdlDesk.Desk

variable {desk : Desk (Watched Entries)}

/-- Calls for other parts do not show in the restored document. -/
private theorem restore_persist_apart {state : DeskState} {calls : List Write} {part : Component}
    (owns : part.Owns calls) (apart : part ≠ .document) :
    Document.restore ({ desk with state := state }.persist calls).storage =
      Document.restore desk.storage :=
  Document.restore_congr (KeyValueStore.sameRecords_writeAll desk.storage owns apart)

/-- What follows the beginning of an action changes neither the document nor what a restart would
make of it. -/
private theorem Follows.document_eq {before after : Desk (Watched Entries)}
    (follows : Follows before after) :
    after.state.document = before.state.document ∧
    Document.restore after.storage = Document.restore before.storage := by
  cases follows with
  | touchRecent name content =>
    exact ⟨rfl, restore_persist_apart (Component.owns_recentWrites _) (by simp)⟩
  | load key => exact ⟨rfl, rfl⟩
  | change key how _ =>
    rw [change_eq]
    exact ⟨rfl, restore_persist_apart (Component.owns_entryWrites key _) (by simp)⟩
  | putInFlight inFlight => exact ⟨rfl, rfl⟩

/-- The storage restores as if the document had been stored in part. -/
def StoresInPart (before after : Desk (Watched Entries)) : Prop :=
  ∃ count, Document.restore after.storage =
    Document.restore (after.state.document.storedInPart before.storage.inner count)

private theorem storesInPart_putDocument (desk : Desk (Watched Entries)) (document : Document) :
    desk.StoresInPart (desk.putDocument document) := by
  have kept : (desk.putDocument document).state.document = document := rfl
  have shown : (desk.putDocument document).storage =
      (KeyValueStore.writeAll desk.storage document.writes).2 := rfl
  rcases Watched.writeAll_cases desk.storage document.writes with
    all | ⟨made, refused, rest, calls, _, stopped⟩
  · refine ⟨document.writes.length, ?_⟩
    rw [shown, all, kept, Document.storedInPart, List.take_length]
    rfl
  · -- The calls before the refused one took effect, and no other was made.
    refine ⟨made.length, ?_⟩
    have front : document.writes.take made.length = made := by
      rw [calls]
      exact List.take_left
    rw [shown, stopped, kept, Document.storedInPart, front]
    rfl

private theorem storesInPart_clearAll (desk : Desk (Watched Entries)) :
    desk.StoresInPart desk.clearAll.2 := by
  have shown : desk.clearAll.2.storage = (KeyValueStore.writeAll desk.storage [.clear]).2 := rfl
  rcases Watched.writeAll_cases desk.storage [.clear] with
    all | ⟨made, refused, rest, calls, _, stopped⟩
  · -- An empty storage restores as one to which an empty document was written.
    have whole := Document.restore_writes .empty (Document.indexFits_of_not_project rfl)
      desk.storage.inner
    refine ⟨4, ?_⟩
    rw [shown, all]
    exact whole.symm
  · have none : made = [] := by
      cases made with
      | nil => rfl
      | cons first made => simp at calls
    refine ⟨0, ?_⟩
    rw [shown, stopped, none]
    rfl

theorem dispatch_storesInPart (desk : Desk (Watched Entries)) (action : Action) :
    desk.StoresInPart (desk.dispatch action).2 := by
  obtain ⟨begun, begins, follows⟩ := dispatch_does desk action
  have first : desk.StoresInPart begun := by
    cases begins with
    | same => exact ⟨0, rfl⟩
    | putDocument document _ => exact storesInPart_putDocument desk document
    | clearAll => exact storesInPart_clearAll desk
  generalize (desk.dispatch action).2 = last at follows
  -- Along what follows, both the document and what a restart makes of the storage stay.
  induction follows with
  | refl => exact first
  | tail _ change ih =>
    obtain ⟨count, held⟩ := ih
    obtain ⟨document, restored⟩ := change.document_eq
    refine ⟨count, ?_⟩
    rw [restored, document]
    exact held

/-- Let the storage hold the document of the desk, and let the storing of an action's document end
at any point. The text that is restored then belongs to a file of the restored name, before or after
the action, unless the new text was stored and the name was not, the stored name was that of the
document before, and no file of that name has the new text. Whichever calls fail, the action leaves
such an end behind. -/
theorem interrupted_action_attributes (desk : Desk (Watched Entries)) (action : Action)
    (faithful : Document.restore desk.storage = desk.state.document.reopened) :
    let before := desk.state.document
    let after := (desk.dispatch action).2.state.document
    let name := (KeyValueStore.get? desk.storage RecordKey.fileName).getD ""
    (∀ count, (Document.restore (after.storedInPart desk.storage.inner count)).Attributes
        before after ↔
      ¬(count = 1 ∧ name = before.fileName ∧ ¬before.Holds before.fileName after.content ∧
        ¬after.Holds before.fileName after.content)) ∧
    ∃ count, Document.restore (desk.dispatch action).2.storage =
      Document.restore (after.storedInPart desk.storage.inner count) := by
  intro before after name
  refine ⟨fun count => ?_, dispatch_storesInPart desk action⟩
  exact Document.attributes_storedInPart before after desk.storage.inner count faithful

/-- A project is open and stored, and the storing of a switch to its second file ends after the
first call: the first file comes back with the text of the second. -/
theorem interrupted_switch_misattributes :
    let desk := (restore {} ({ inner := .empty } : Watched Entries)).run
      [.act (.openProject [⟨"a.v", "a.v", "A"⟩, ⟨"b.v", "b.v", "B"⟩])]
    let after := (desk.dispatch (.switch 1)).2.state.document
    let restored := Document.restore (after.storedInPart desk.storage.inner 1)
    Document.restore desk.storage = desk.state.document.reopened ∧
    restored.fileName = "a.v" ∧ restored.content = "B" ∧
    ¬restored.Attributes desk.state.document after := by
  intro desk after restored
  have faithful : Document.restore desk.storage = desk.state.document.reopened :=
    (faithful_run {} { inner := .empty } _).shown .document fun _ _ _ _ _ _ => rfl
  have attributed := (interrupted_action_attributes desk (.switch 1) faithful).1 1
  refine ⟨faithful, ?_, ?_, fun right => attributed.mp right ⟨rfl, ?_, ?_, ?_⟩⟩
  · decide +kernel
  · decide +kernel
  · decide +kernel
  · decide +kernel
  · decide +kernel

end HdlDesk.Desk
