import HdlDesk.Artifact.Basic
import HdlDesk.Storage.Records

/-!
# The artifact cache

Entries are read from the storage when they are first asked for and stay in memory from then on.
Whatever changes an entry changes it in memory and then writes its record; a refused write is no
reason to undo the change, so memory may run ahead of the storage and is believed over it.
-/
namespace HdlDesk

abbrev ArtifactCache := SortedMap ArtifactEntry

namespace ArtifactCache

variable {σ : Type} [KeyValueStore σ]

/-- The entry that the storage holds for a display key: the record put right, or the blank entry
where there is no record or one that cannot be read. -/
def storedEntry (storage : σ) (key : String) : ArtifactEntry :=
  match readRecord? storage (RecordKey.artifact key) with
  | .ok (some entry) => ArtifactEntry.sanitized entry
  | _ => .blank

/-- The entry for a display key, from memory or else from the storage. -/
def entry (cache : ArtifactCache) (storage : σ) (key : String) : ArtifactEntry :=
  (cache.get? key).getD (storedEntry storage key)

/-- Brings the entry for a display key into memory. -/
def load (cache : ArtifactCache) (storage : σ) (key : String) : ArtifactCache :=
  match cache.get? key with
  | some _ => cache
  | none => cache.insert key (storedEntry storage key)

/-- Loading shows in no entry. -/
@[simp] theorem entry_load (cache : ArtifactCache) (storage : σ) (key wanted : String) :
    (cache.load storage key).entry storage wanted = cache.entry storage wanted := by
  unfold load
  split
  · rfl
  next absent =>
    by_cases same : wanted = key
    · simp [entry, same, absent]
    · simp [entry, same]

theorem entry_insert (cache : ArtifactCache) (storage : σ) (key wanted : String)
    (value : ArtifactEntry) :
    entry (cache.insert key value) storage wanted =
      if wanted = key then value else cache.entry storage wanted := by
  by_cases same : wanted = key <;> simp [entry, same]

/-- Changes the entry for a display key and writes its record, or does nothing but load the entry
when there is nothing to change. Answers whether there was. -/
def update (cache : ArtifactCache) (storage : σ) (key : String)
    (change : ArtifactEntry → Option ArtifactEntry) : Bool × ArtifactCache × σ :=
  match change (cache.entry storage key) with
  | none => (false, cache.load storage key, storage)
  | some next =>
    let write := Write.record (RecordKey.artifact key) next
    (true, cache.insert key next, (KeyValueStore.write storage write).2)

/-- Takes in an artifact. Answers whether the entry changed. -/
def receive (cache : ArtifactCache) (storage : σ) (message : ArtifactMessage) (isActive : Bool) :
    Bool × ArtifactCache × σ :=
  cache.update storage message.key fun entry =>
    entry.withArtifact message.kind message.payload isActive

def resetTestbench (cache : ArtifactCache) (storage : σ) (key : String) : ArtifactCache × σ :=
  (cache.update storage key fun entry => some entry.withoutTestbench).2

/-- Shows a file in a view. Answers whether the view changed. -/
def setView (cache : ArtifactCache) (storage : σ) (key : String) (view : View) :
    Except DeskError Bool × ArtifactCache × σ :=
  match (cache.entry storage key).withView view with
  | .error refused => (.error refused, cache.load storage key, storage)
  | .ok next =>
    let (changed, cache, storage) := cache.update storage key fun _ => next
    (.ok changed, cache, storage)

end ArtifactCache

end HdlDesk
