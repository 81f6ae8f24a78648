import HdlDesk.Disk.Error
import HdlDesk.SortedMap

/-!
# Key-value storage

The desk keeps what must outlive a session in a storage of named strings. It reads single keys and
makes three kinds of write calls. A storage may refuse a call; it answers with the cause and with
whatever it holds afterwards, so that a storage which changes in spite of a refusal can be
described as well. Three storages are given: plain entries in memory, any storage under watch, and,
in `HdlDesk.Storage.StateFile`, entries in a file.
-/
namespace HdlDesk

inductive Write where
  | set (key value : String)
  | remove (key : String)
  | clear
  deriving DecidableEq, Repr

structure StorageError where
  cause : DiskError
  deriving DecidableEq, Repr

def StorageError.message (error : StorageError) : String := "IO error: " ++ error.cause.message

class KeyValueStore (σ : Type) where
  get? : σ → String → Option String
  write : σ → Write → Except StorageError Unit × σ

namespace KeyValueStore

variable {σ : Type} [KeyValueStore σ]

/-- Makes write calls in turn and stops at the first that is refused. -/
def writeAll (storage : σ) : List Write → Except StorageError Unit × σ
  | [] => (.ok (), storage)
  | call :: rest =>
    match write storage call with
    | (.ok (), storage) => writeAll storage rest
    | (.error refused, storage) => (.error refused, storage)

theorem writeAll_singleton (storage : σ) (call : Write) :
    writeAll storage [call] = write storage call := by
  unfold writeAll
  split
  next written =>
    rw [written]
    rfl
  next written => rw [written]

theorem writeAll_cons {storage : σ} {call : Write} (accepted : (write storage call).1 = .ok ())
    (rest : List Write) : writeAll storage (call :: rest) = writeAll (write storage call).2 rest := by
  rw [writeAll]
  split
  next written => rw [written]
  next written =>
    rw [written] at accepted
    cases accepted

end KeyValueStore

abbrev Entries := SortedMap String

def Entries.apply (entries : Entries) : Write → Entries
  | .set key value => entries.insert key value
  | .remove key => entries.erase key
  | .clear => .empty

/-- Entries in memory, which refuse nothing. -/
instance : KeyValueStore Entries where
  get? entries key := entries.get? key
  write entries call := (.ok (), entries.apply call)

/-- A storage under watch: every write call is put down, and the calls that `refuses` picks, which
may look at all calls before, fail without reaching the storage. -/
structure Watched (σ : Type) where
  inner : σ
  refuses : List Write → Write → Bool := fun _ _ => false
  reason : DiskError := .refused "injected"
  /-- The calls made so far, oldest first. -/
  journal : List Write := []

instance {σ : Type} [KeyValueStore σ] : KeyValueStore (Watched σ) where
  get? storage key := KeyValueStore.get? storage.inner key
  write storage call :=
    let noted := { storage with journal := storage.journal ++ [call] }
    if storage.refuses storage.journal call then (.error ⟨storage.reason⟩, noted)
    else
      let (answer, inner) := KeyValueStore.write storage.inner call
      (answer, { noted with inner := inner })

end HdlDesk
