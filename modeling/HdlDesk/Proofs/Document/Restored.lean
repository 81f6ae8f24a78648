import HdlDesk.Proofs.Storage.Components
import HdlDesk.Proofs.Json.Records

/-!
# Storing a document and taking it up again

A restored document is a function of four stored texts. When these are the ones that storing a
document leaves behind, the document comes back as it was, but for a file without name and text,
which cannot be told from an empty desk.
-/
namespace HdlDesk

/-! ### The active index -/

namespace Text

private theorem not_isBlank_of_isDigit {c : Char} (digit : c.isDigit = true) :
    isBlank c = false := by
  simp only [Char.isDigit, Bool.and_eq_true, decide_eq_true_eq, UInt32.le_iff_toNat_le] at digit
  have low : 48 ≤ c.toNat := digit.1
  have high : c.toNat ≤ 57 := digit.2
  simp [isBlank, blankRanges]
  omega

private theorem trimChars_of_visible {cs : List Char} (visible : ∀ c ∈ cs, isBlank c = false) :
    trimChars cs = cs := by
  have front (chars : List Char) (shown : ∀ c ∈ chars, isBlank c = false) :
      chars.dropWhile isBlank = chars := by
    cases chars with
    | nil => rfl
    | cons c more => simp [shown c List.mem_cons_self]
  rw [trimChars, front cs visible, front cs.reverse fun c member =>
    visible c (List.mem_reverse.mp member), List.reverse_reverse]

theorem trim_decimal (n : Nat) : trim (decimal n) = decimal n := by
  have visible : trimChars (Nat.toDigits 10 n) = Nat.toDigits 10 n :=
    trimChars_of_visible fun c member =>
      not_isBlank_of_isDigit (Nat.isDigit_of_mem_toDigits (by decide) (by decide) member)
  rw [trim, decimal, String.toList_ofList, visible]

theorem parseIndex?_decimal (n : Nat) (small : n < indexBound) :
    parseIndex? (decimal n) = some n := by
  unfold parseIndex?
  rw [decimal, String.toList_ofList]
  dsimp only
  split
  next rest shape =>
    have plus : '+'.isDigit = true := by
      refine Nat.isDigit_of_mem_toDigits (b := 10) (n := n) (by decide) (by decide) ?_
      rw [shape]
      exact List.mem_cons_self
    exact absurd plus (by decide)
  · rw [digitsValue?_toDigits]
    simp [small]

end Text

namespace Document

theorem storedIndex_fits (stored : Option String) (count : Nat) :
    storedIndex stored count < Text.indexBound := by
  have zero : 0 < Text.indexBound := by decide
  unfold storedIndex
  split
  next index parsed =>
    split
    · obtain ⟨text, _, read⟩ := Option.bind_eq_some_iff.mp parsed
      simp only [Text.parseIndex?, Option.filter_eq_some_iff, decide_eq_true_eq] at read
      exact read.2
    · exact zero
  · exact zero

theorem storedIndex_decimal {index count : Nat} (inside : index < count)
    (small : index < Text.indexBound) :
    storedIndex (some (Text.decimal index)) count = index := by
  simp [storedIndex, Text.trim_decimal, Text.parseIndex?_decimal index small, inside]

/-! ### The four texts -/

/-- The files that a stored text lists; a text that is no list of files lists none. -/
def storedFiles (stored : Option String) : List SourceFile :=
  (stored.bind Stored.read?).getD []

/-- The files that were found in a record; a record that cannot be read has none. -/
def foundFiles : Except DeskError (Option (List SourceFile)) → List SourceFile
  | .ok (some files) => files
  | _ => []

/-- The text in the editor of a project whose active file is `loaded`. -/
def heldText (content : Option String) (name : String) (loaded : SourceFile) : String :=
  match content with
  | some text => if loaded.name = name then text else loaded.content
  | none => loaded.content

/-- The document that stored texts mean: editor content, file name, files and active index. -/
def ofTexts (content name : Option String) (files : List SourceFile) (index : Option String) :
    Document :=
  if nonempty : 0 < files.length then
    have inside := storedIndex_lt index nonempty
    .project ⟨files, storedIndex index files.length,
      heldText content (name.getD "") files[storedIndex index files.length], inside⟩
  else if content.getD "" = "" ∧ name.getD "" = "" then .empty
  else .single (name.getD "") (content.getD "")

theorem restore_eq {σ : Type} [KeyValueStore σ] (storage : σ) :
    restore storage = ofTexts (KeyValueStore.get? storage RecordKey.editorContent)
      (KeyValueStore.get? storage RecordKey.fileName)
      (storedFiles (KeyValueStore.get? storage RecordKey.projectFiles))
      (KeyValueStore.get? storage RecordKey.activeFile) := by
  have files : foundFiles (readRecord? storage RecordKey.projectFiles) =
      storedFiles (KeyValueStore.get? storage RecordKey.projectFiles) := by
    unfold readRecord? storedFiles
    cases KeyValueStore.get? storage RecordKey.projectFiles with
    | none => rfl
    | some text =>
      dsimp only [Option.bind_some]
      cases (Stored.read? text : Option (List SourceFile)) <;> rfl
  rw [← files]
  rfl

/-- What a stored document comes back as: a file without name and text is no file. -/
def reopened : Document → Document
  | .single name content => if content = "" ∧ name = "" then .empty else .single name content
  | document => document

theorem restore_congr {σ τ : Type} [KeyValueStore σ] [KeyValueStore τ] {storage : σ} {other : τ}
    (same : Component.document.SameRecords storage other) : restore storage = restore other := by
  have held (key : String) (mine : key ∈ Component.document.records) := same key mine
  rw [restore_eq, restore_eq, held RecordKey.editorContent (by decide),
    held RecordKey.fileName (by decide), held RecordKey.projectFiles (by decide),
    held RecordKey.activeFile (by decide)]

/-- Only a file without name and text is not there when it is opened again. -/
theorem reopened_eq_self {document : Document} (visible : document ≠ .single "" "") :
    document.reopened = document := by
  cases document with
  | single name content =>
    refine if_neg ?_
    rintro ⟨rfl, rfl⟩
    exact visible rfl
  | _ => rfl

theorem reopened_restore {σ : Type} [KeyValueStore σ] (storage : σ) :
    (restore storage).reopened = restore storage := by
  rw [restore_eq]
  unfold ofTexts
  split
  · rfl
  · split
    · rfl
    next visible => exact if_neg visible

/-! ### Indices that can be read back -/

/-- The active index of a project is one that its stored form can be read back from. -/
def IndexFits (document : Document) : Prop :=
  ∀ opened, document = .project opened → opened.active < Text.indexBound

theorem indexFits_of_not_project {document : Document} (none : document.project? = none) :
    document.IndexFits := by
  rintro opened rfl
  cases none

theorem indexFits_openProject {files : List SourceFile} {opened : Project}
    (returned : openProject files = .ok opened) :
    (project opened).IndexFits := by
  rintro _ ⟨⟩
  cases files with
  | nil => cases returned
  | cons first rest =>
    cases returned
    show 0 < 2 ^ 64
    decide

theorem indexFits_switch {document : Document} {index : UInt64} {opened : Project}
    (returned : document.switch index = .ok opened) : (project opened).IndexFits := by
  rintro _ ⟨⟩
  unfold switch at returned
  split at returned
  · split at returned
    · cases returned
      exact index.toNat_lt
    · cases returned
  · cases returned

theorem indexFits_edit {document next : Document} {text : String}
    (edited : document.edit text = some next) (fits : document.IndexFits) : next.IndexFits := by
  unfold edit at edited
  split at edited
  · cases edited
  · split at edited
    · cases edited
      exact indexFits_of_not_project rfl
    · cases edited
      exact indexFits_of_not_project rfl
    next opened _ =>
      cases edited
      rintro _ ⟨⟩
      exact fits opened rfl

theorem indexFits_restore {σ : Type} [KeyValueStore σ] (storage : σ) :
    (restore storage).IndexFits := by
  intro opened shape
  rw [restore_eq] at shape
  unfold ofTexts at shape
  split at shape
  · cases shape
    exact storedIndex_fits _ _
  · split at shape <;> cases shape

/-! ### The texts that a document leaves behind -/

def files (document : Document) : List SourceFile :=
  match document with
  | .project opened => opened.files
  | _ => []

/-- The text of the active index, if there is one. -/
def indexText? (document : Document) : Option String :=
  match document with
  | .project opened => some (Text.decimal opened.active)
  | _ => none

/-- What is restored when only some of the calls that store a document have been made: the texts of
those calls, and the old ones for the rest. -/
theorem restore_take_writes (document : Document) (entries : Entries) (count : Nat) :
    restore ((document.writes.take count).foldl Entries.apply entries) =
      ofTexts
        (if 1 ≤ count then some document.content else entries.get? RecordKey.editorContent)
        (if 2 ≤ count then some document.fileName else entries.get? RecordKey.fileName)
        (if 3 ≤ count then document.files
          else storedFiles (entries.get? RecordKey.projectFiles))
        (if 4 ≤ count then document.indexText? else entries.get? RecordKey.activeFile) := by
  have view (held : Entries) (key : String) : KeyValueStore.get? held key = held.get? key := rfl
  rw [restore_eq]
  simp only [view]
  -- Each of the four calls writes one record, and the four names are different.
  rcases count with _ | _ | _ | _ | count <;> cases document <;>
    simp [writes, Write.record, Entries.apply, files, indexText?, storedFiles,
      Stored.read?_print, RecordKey.editorContent, RecordKey.fileName, RecordKey.projectFiles,
      RecordKey.activeFile]

theorem ofTexts_self (document : Document) (fits : document.IndexFits) :
    ofTexts (some document.content) (some document.fileName) document.files document.indexText? =
      document.reopened := by
  cases document with
  | empty => rfl
  | single name content => rfl
  | project opened =>
    obtain ⟨files, active, content, active_lt⟩ := opened
    have nonempty : 0 < files.length := Nat.zero_lt_of_lt active_lt
    have index := storedIndex_decimal active_lt (fits _ rfl)
    simp only [ofTexts, Document.files, indexText?, nonempty, index, dif_pos]
    simp [heldText, Document.content, fileName, Project.selected, reopened]

/-- A document that was stored completely is restored. -/
theorem restore_writes (document : Document) (fits : document.IndexFits) (entries : Entries) :
    restore (document.writes.foldl Entries.apply entries) = document.reopened := by
  have whole : document.writes.take 4 = document.writes := by
    cases document <;> rfl
  rw [← whole, restore_take_writes]
  exact ofTexts_self document fits

end Document

end HdlDesk
