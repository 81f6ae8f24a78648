import HdlDesk.Artifact.Cache
import HdlDesk.Document
import HdlDesk.Recent

/-!
# The parts of a session in the storage

The document, the recent files and the artifacts of each file are kept in records of their own, so
a write call for one part leaves the records of the others alone. Only clearing concerns them all.
-/
namespace HdlDesk

/-- The record that a call is about; clearing is about none in particular. -/
def Write.key? : Write → Option String
  | .set key _ => some key
  | .remove key => some key
  | .clear => none

/-- A part of a session that is stored apart from the others. -/
inductive Component where
  | document
  | recent
  | artifacts (key : String)
  deriving DecidableEq, Repr

namespace Component

def records : Component → List String
  | .document => [RecordKey.editorContent, RecordKey.fileName, RecordKey.projectFiles,
      RecordKey.activeFile]
  | .recent => [RecordKey.recentFiles]
  | .artifacts key => [RecordKey.artifact key]

/-- The call can change a record of the part. -/
def concerns (component : Component) (call : Write) : Bool :=
  match call.key? with
  | some key => component.records.contains key
  | none => true

/-! ### Whose record it is -/

theorem artifact_injective {key other : String}
    (same : RecordKey.artifact key = RecordKey.artifact other) : key = other := by
  have chars := congrArg String.toList same
  simp only [RecordKey.artifact, String.toList_append, List.append_cancel_left_eq] at chars
  exact String.toList_inj.mp chars

private theorem artifact_notMem (key : String) :
    RecordKey.artifact key ∉ document.records ++ recent.records := by
  -- The first two letters already tell the record of an entry from the others.
  have others : ∀ name ∈ document.records ++ recent.records, name.toList.take 2 ≠ ['a', 'r'] := by
    decide
  intro inside
  exact others _ inside (by simp [RecordKey.artifact])

private theorem recentFiles_notMem : RecordKey.recentFiles ∉ document.records := by decide

/-- No record belongs to two parts. -/
theorem eq_of_mem_records {component other : Component} {key : String}
    (mine : key ∈ component.records) (theirs : key ∈ other.records) : component = other := by
  -- Entries are told from the other parts by how their records' names begin.
  cases component with
  | document =>
    cases other with
    | document => rfl
    | recent =>
      obtain rfl := List.mem_singleton.mp theirs
      exact absurd mine recentFiles_notMem
    | artifacts name =>
      obtain rfl := List.mem_singleton.mp theirs
      exact absurd (List.mem_append_left _ mine) (artifact_notMem name)
  | recent =>
    cases other with
    | document =>
      obtain rfl := List.mem_singleton.mp mine
      exact absurd theirs recentFiles_notMem
    | recent => rfl
    | artifacts name =>
      obtain rfl := List.mem_singleton.mp theirs
      exact absurd (List.mem_append_right _ mine) (artifact_notMem name)
  | artifacts name =>
    obtain rfl := List.mem_singleton.mp mine
    cases other with
    | document => exact absurd (List.mem_append_left _ theirs) (artifact_notMem name)
    | recent => exact absurd (List.mem_append_right _ theirs) (artifact_notMem name)
    | artifacts other => rw [artifact_injective (List.mem_singleton.mp theirs)]

/-- Each of the calls is about a record of the part. -/
def Owns (component : Component) (calls : List Write) : Prop :=
  ∀ call ∈ calls, ∃ name ∈ component.records, call.key? = some name

theorem owns_documentWrites (opened : Document) : document.Owns opened.writes := by
  intro call made
  cases opened <;>
    simp only [Document.writes, List.cons_append, List.nil_append, List.mem_cons,
      List.not_mem_nil, or_false] at made <;>
    rcases made with rfl | rfl | rfl | rfl <;>
    exact ⟨_, by simp [records], rfl⟩

theorem owns_recentWrites (files : RecentFiles) : recent.Owns files.writes := by
  intro call made
  obtain rfl := List.mem_singleton.mp made
  exact ⟨_, List.mem_cons_self, rfl⟩

theorem owns_entryWrites (key : String) (entries : List ArtifactEntry) :
    (artifacts key).Owns (entries.map (.record (RecordKey.artifact key))) := by
  intro call made
  obtain ⟨entry, _, rfl⟩ := List.mem_map.mp made
  exact ⟨_, List.mem_cons_self, rfl⟩

theorem Owns.apart {component other : Component} {calls : List Write}
    (owns : component.Owns calls) (different : component ≠ other) {key : String}
    (theirs : key ∈ other.records) :
    ∀ call ∈ calls, ∃ name, call.key? = some name ∧ key ≠ name := by
  intro call made
  obtain ⟨name, mine, about⟩ := owns call made
  refine ⟨name, about, ?_⟩
  rintro rfl
  exact different (eq_of_mem_records mine theirs)

/-! ### Whose call it is -/

theorem Owns.concerns_iff {component : Component} {calls : List Write}
    (owns : component.Owns calls) {call : Write} (made : call ∈ calls) (part : Component) :
    part.concerns call = true ↔ part = component := by
  obtain ⟨key, mine, about⟩ := owns call made
  unfold concerns
  rw [about]
  constructor
  · intro theirs
    exact eq_of_mem_records (List.contains_iff_mem.mp theirs) mine
  · rintro rfl
    exact List.contains_iff_mem.mpr mine

theorem Owns.not_concerns {component part : Component} {calls : List Write}
    (owns : component.Owns calls) (apart : part ≠ component) {call : Write} (made : call ∈ calls) :
    part.concerns call = false := by
  rw [Bool.eq_false_iff]
  exact fun concerned => apart ((owns.concerns_iff made part).mp concerned)

/-! ### The records of a part -/

/-- Two storages hold the same records of a part. -/
def SameRecords {σ τ : Type} [KeyValueStore σ] [KeyValueStore τ] (component : Component)
    (storage : σ) (other : τ) : Prop :=
  ∀ key ∈ component.records, KeyValueStore.get? storage key = KeyValueStore.get? other key

end Component

namespace ArtifactCache

variable {σ τ : Type} [KeyValueStore σ] [KeyValueStore τ] {storage : σ} {other : τ} {key : String}

theorem storedEntry_congr (same : (Component.artifacts key).SameRecords storage other) :
    storedEntry storage key = storedEntry other key := by
  have held : KeyValueStore.get? storage (RecordKey.artifact key) =
      KeyValueStore.get? other (RecordKey.artifact key) := same _ List.mem_cons_self
  unfold storedEntry readRecord?
  rw [held]

theorem storedEntry_of_absent
    (absent : KeyValueStore.get? storage (RecordKey.artifact key) = none) :
    storedEntry storage key = .blank := by
  unfold storedEntry readRecord?
  rw [absent]

theorem entry_congr {cache after : ArtifactCache} (held : cache.get? key = after.get? key)
    (same : (Component.artifacts key).SameRecords storage other) :
    cache.entry storage key = after.entry other key := by
  unfold entry
  rw [held, storedEntry_congr same]

end ArtifactCache

end HdlDesk
