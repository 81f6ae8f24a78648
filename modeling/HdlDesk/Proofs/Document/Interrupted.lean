import HdlDesk.Proofs.Document.Restored

/-!
# A document that was stored in part

Storing a document takes four calls, and any number of them may be made before the storing ends.
What is restored then mixes old texts with new ones. Text and name are compared only for a project,
and against a stored name that may itself be the old one, so the text of one file can come back
under the name of another: exactly when the new text stands beside the old name.
-/
namespace HdlDesk.Document

/-- The document has a file of this name with this text, in the editor or as it was loaded. -/
def Holds (document : Document) (name text : String) : Prop :=
  (document.fileName = name ∧ document.content = text) ∨
  ∃ file ∈ document.files, file.name = name ∧ file.content = text

instance (document : Document) (name text : String) : Decidable (document.Holds name text) :=
  inferInstanceAs (Decidable (_ ∨ _))

/-- The restored text belongs, in one of the two documents, to a file of the restored name. -/
def Attributes (restored before after : Document) : Prop :=
  before.Holds restored.fileName restored.content ∨ after.Holds restored.fileName restored.content

instance (restored before after : Document) : Decidable (restored.Attributes before after) :=
  inferInstanceAs (Decidable (_ ∨ _))

/-- The entries when no more than the first `count` calls that store the document were made. -/
def storedInPart (document : Document) (entries : Entries) (count : Nat) : Entries :=
  (document.writes.take count).foldl Entries.apply entries

/-! ### Names and texts of a restored document -/

theorem files_ofTexts (content name : Option String) (listed : List SourceFile)
    (index : Option String) : (ofTexts content name listed index).files = listed := by
  unfold ofTexts
  split
  · rfl
  next empty =>
    have none : listed = [] := List.eq_nil_of_length_eq_zero (Nat.eq_zero_of_not_pos empty)
    rw [none]
    split <;> rfl

/-- The stored text has no say in the name. -/
theorem fileName_ofTexts (content other name : Option String) (listed : List SourceFile)
    (index : Option String) :
    (ofTexts content name listed index).fileName = (ofTexts other name listed index).fileName := by
  have unlisted (text : Option String) :
      (if text.getD "" = "" ∧ name.getD "" = "" then empty
        else single (name.getD "") (text.getD "")).fileName = name.getD "" := by
    split
    next blank => exact blank.2.symm
    · rfl
  unfold ofTexts
  split
  · rfl
  · rw [unlisted, unlisted]

/-- A document shows the stored text under the stored name, or a listed file as it was loaded. -/
theorem shown_ofTexts (text : String) (name : Option String) (listed : List SourceFile)
    (index : Option String) :
    let shown := ofTexts (some text) name listed index
    (shown.fileName = name.getD "" ∧ shown.content = text) ∨
    (shown.fileName ≠ name.getD "" ∧
      ∃ file ∈ listed, file.name = shown.fileName ∧ file.content = shown.content) := by
  intro shown
  unfold shown
  unfold ofTexts
  split
  next nonempty =>
    have inside := storedIndex_lt index nonempty
    by_cases same : listed[storedIndex index listed.length].name = name.getD ""
    · exact .inl ⟨same, if_pos same⟩
    · exact .inr ⟨same, _, List.getElem_mem inside, rfl, (if_neg same).symm⟩
  · left
    split
    next blank => exact ⟨blank.2.symm, blank.1.symm⟩
    · exact ⟨rfl, rfl⟩

theorem reopened_shows (document : Document) :
    document.reopened.fileName = document.fileName ∧
    document.reopened.content = document.content ∧
    document.reopened.files = document.files := by
  cases document with
  | empty => exact ⟨rfl, rfl, rfl⟩
  | project opened => exact ⟨rfl, rfl, rfl⟩
  | single name content =>
    by_cases blank : content = "" ∧ name = ""
    · obtain ⟨rfl, rfl⟩ := blank
      exact ⟨rfl, rfl, rfl⟩
    · rw [reopened, if_neg blank]
      exact ⟨rfl, rfl, rfl⟩

/-! ### Which interruptions attribute a text wrongly -/

private theorem storedFiles_of_restore {before : Document} {entries : Entries}
    (held : restore entries = before.reopened) :
    storedFiles (entries.get? RecordKey.projectFiles) = before.files := by
  rw [restore_eq] at held
  have files := congrArg Document.files held
  rw [files_ofTexts, before.reopened_shows.2.2] at files
  exact files

/-- Once the new name stands beside the new text, every text is attributed rightly. -/
private theorem attributes_of_renamed {before after : Document} {listed : List SourceFile}
    (known : listed = before.files ∨ listed = after.files) (index : Option String) :
    (ofTexts (some after.content) (some after.fileName) listed index).Attributes before after := by
  rcases shown_ofTexts after.content (some after.fileName) listed index with
    ⟨named, shown⟩ | ⟨_, file, member, named, shown⟩
  · exact .inr (.inl ⟨named.symm, shown.symm⟩)
  · rcases known with rfl | rfl
    · exact .inl (.inr ⟨file, member, named, shown⟩)
    · exact .inr (.inr ⟨file, member, named, shown⟩)

private theorem attributes_of_kept {before after restored : Document}
    (held : restored = before.reopened) : restored.Attributes before after := by
  obtain ⟨named, shown, _⟩ := before.reopened_shows
  rw [held]
  exact .inl (.inl ⟨named.symm, shown.symm⟩)

/-- With the new text beside the old name, all depends on whether they belong together. -/
private theorem attributes_of_torn {before after : Document} {entries : Entries}
    (held : restore entries = before.reopened) :
    (ofTexts (some after.content) (entries.get? RecordKey.fileName)
      (storedFiles (entries.get? RecordKey.projectFiles))
      (entries.get? RecordKey.activeFile)).Attributes before after ↔
    ((entries.get? RecordKey.fileName).getD "" = before.fileName →
      before.Holds before.fileName after.content ∨
      after.Holds before.fileName after.content) := by
  have listed := storedFiles_of_restore held
  have name : (ofTexts (some after.content) (entries.get? RecordKey.fileName)
      (storedFiles (entries.get? RecordKey.projectFiles))
      (entries.get? RecordKey.activeFile)).fileName = before.fileName := by
    rw [fileName_ofTexts _ (entries.get? RecordKey.editorContent), ← before.reopened_shows.1, ← held,
      restore_eq]
    rfl
  unfold Attributes
  -- Either the stored text is shown under the stored name, or a file of the old list as it was.
  rcases shown_ofTexts after.content (entries.get? RecordKey.fileName)
    (storedFiles (entries.get? RecordKey.projectFiles)) (entries.get? RecordKey.activeFile) with
    ⟨named, shown⟩ | ⟨other, file, member, named, shown⟩
  · rw [shown, name]
    rw [name] at named
    exact ⟨fun right _ => right, fun right => right named.symm⟩
  · rw [listed] at member
    rw [name] at other
    exact ⟨fun _ same => absurd same.symm other, fun _ => .inl (.inr ⟨file, member, named, shown⟩)⟩

/-- When the storing of a document ends early, the restored text is attributed wrongly in one case
only: the text was stored, the name was not, and no file of the old name ever had that text. -/
theorem attributes_storedInPart (before after : Document) (entries : Entries) (count : Nat)
    (held : restore entries = before.reopened) :
    (restore (after.storedInPart entries count)).Attributes before after ↔
      ¬(count = 1 ∧ (entries.get? RecordKey.fileName).getD "" = before.fileName ∧
        ¬before.Holds before.fileName after.content ∧
        ¬after.Holds before.fileName after.content) := by
  rw [storedInPart, restore_take_writes]
  have listed := storedFiles_of_restore held
  -- The name is stored by the second call, so only the cut before it can mix old and new.
  match count with
  | 0 =>
    have kept : ofTexts (entries.get? RecordKey.editorContent) (entries.get? RecordKey.fileName)
        (storedFiles (entries.get? RecordKey.projectFiles))
        (entries.get? RecordKey.activeFile) = before.reopened := by
      rw [← held, restore_eq]
      rfl
    exact iff_of_true (attributes_of_kept kept) (by simp)
  | 1 =>
    refine (attributes_of_torn held).trans ?_
    constructor
    · rintro right ⟨_, same, notBefore, notAfter⟩
      exact (right same).elim notBefore notAfter
    · intro clear same
      refine Decidable.byContradiction fun wrong => clear ⟨rfl, same, ?_, ?_⟩
      · exact fun holds => wrong (.inl holds)
      · exact fun holds => wrong (.inr holds)
  | 2 => exact iff_of_true (attributes_of_renamed (.inl listed) _) (by simp)
  | 3 => exact iff_of_true (attributes_of_renamed (.inr rfl) _) (by simp)
  | count + 4 => exact iff_of_true (attributes_of_renamed (.inr rfl) _) (by simp)

end HdlDesk.Document
