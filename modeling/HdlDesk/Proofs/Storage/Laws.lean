import HdlDesk.Storage.StateFile
import HdlDesk.Proofs.Storage.Components

/-!
# What a write call does to what a storage answers

A storage is known by what it answers for each key. On the storages here a call takes effect wholly
or not at all, whatever it answers itself, so it never touches a record that it is not about. Two
further promises are about one storage from some moment on: that clearing it takes effect, and that
no call fails. Both survive every call, so they can be carried along a run.
-/
namespace HdlDesk

/-- What a call makes of the answers of a storage when it takes effect. -/
def Write.applyTo (call : Write) (held : String → Option String) : String → Option String :=
  match call with
  | .set name value => fun key => if key = name then some value else held key
  | .remove name => fun key => if key = name then none else held key
  | .clear => fun _ => none

theorem Write.applyTo_of_ne {call : Write} {name key : String} (about : call.key? = some name)
    (other : key ≠ name) (held : String → Option String) : call.applyTo held key = held key := by
  cases call with
  | set named value =>
    cases about
    exact if_neg other
  | remove named =>
    cases about
    exact if_neg other
  | clear => cases about

theorem Entries.get?_apply (entries : Entries) (call : Write) :
    (entries.apply call).get? = call.applyTo entries.get? := by
  funext key
  cases call with
  | set name value => exact SortedMap.get?_insert entries name key value
  | remove name => exact SortedMap.get?_erase entries name key
  | clear => rfl

/-- A storage on which every call takes effect or leaves all answers as they were. -/
class AtomicStore (σ : Type) [KeyValueStore σ] : Prop where
  get?_write (storage : σ) (call : Write) :
    KeyValueStore.get? (KeyValueStore.write storage call).2 = KeyValueStore.get? storage ∨
    KeyValueStore.get? (KeyValueStore.write storage call).2 =
      call.applyTo (KeyValueStore.get? storage)

instance : AtomicStore Entries where
  get?_write entries call := .inr (entries.get?_apply call)

instance {σ : Type} [KeyValueStore σ] [AtomicStore σ] : AtomicStore (Watched σ) where
  get?_write storage call := by
    by_cases refused : storage.refuses storage.journal call = true
    · left
      simp only [KeyValueStore.write, if_pos refused]
      rfl
    · simp only [KeyValueStore.write, if_neg refused]
      exact AtomicStore.get?_write storage.inner call

namespace StateFile

variable {φ : Type} [FileSystem φ]

/-- Whatever becomes of the file, the entries in memory change as the call says. -/
theorem entries_write (storage : StateFile φ) (call : Write) :
    (KeyValueStore.write storage call).2.entries.get? = call.applyTo storage.entries.get? := by
  rw [← Entries.get?_apply]
  cases call with
  | set name value =>
    by_cases held : storage.entries.get? name = some value
    · -- The file is left alone because the entry is there already.
      have same : storage.entries.apply (.set name value) = storage.entries := by
        refine SortedMap.ext_get? fun key => ?_
        by_cases here : key = name <;> simp [Entries.apply, here, held]
      simp [KeyValueStore.write, apply, held, same]
    · simp only [KeyValueStore.write, apply, if_neg held]
      rfl
  | remove name =>
    by_cases absent : storage.entries.get? name = none
    · have same : storage.entries.apply (.remove name) = storage.entries := by
        refine SortedMap.ext_get? fun key => ?_
        by_cases here : key = name <;> simp [Entries.apply, here, absent]
      simp [KeyValueStore.write, apply, absent, same]
    · simp only [KeyValueStore.write, apply, if_neg absent]
      rfl
  | clear => rfl

instance : AtomicStore (StateFile φ) where
  get?_write storage call := .inr (storage.entries_write call)

end StateFile

namespace KeyValueStore

variable {σ : Type} [KeyValueStore σ]

/-- What each of the calls keeps is kept by making them in turn, wherever that stops. -/
theorem writeAll_induct (kept : σ → Prop) (calls : List Write)
    (step : ∀ storage : σ, ∀ call ∈ calls, kept storage → kept (write storage call).2)
    (storage : σ) (start : kept storage) : kept (writeAll storage calls).2 := by
  -- The calls are made one by one; a refused one is the last, and it too keeps the property.
  induction calls generalizing storage with
  | nil => exact start
  | cons call calls ih =>
    have next := step storage call List.mem_cons_self start
    have rest := ih fun storage other member => step storage other (List.mem_cons_of_mem _ member)
    unfold writeAll
    split
    next answered written =>
      rw [written] at next
      exact rest _ next
    next refused answered written =>
      rw [written] at next
      exact next

theorem get?_write_of_ne [AtomicStore σ] (storage : σ) {call : Write} {name key : String}
    (about : call.key? = some name) (other : key ≠ name) :
    get? (write storage call).2 key = get? storage key := by
  rcases AtomicStore.get?_write storage call with kept | done
  · rw [kept]
  · rw [done, Write.applyTo_of_ne about other]

theorem get?_writeAll_of_ne [AtomicStore σ] (storage : σ) {calls : List Write} {key : String}
    (apart : ∀ call ∈ calls, ∃ name, call.key? = some name ∧ key ≠ name) :
    get? (writeAll storage calls).2 key = get? storage key := by
  refine writeAll_induct (fun reached => get? reached key = get? storage key) calls
    (fun reached call member held => ?_) storage rfl
  obtain ⟨name, about, other⟩ := apart call member
  rw [get?_write_of_ne reached about other, held]

/-- Calls about the records of one part leave those of another alone. -/
theorem sameRecords_writeAll [AtomicStore σ] (storage : σ) {part other : Component}
    {calls : List Write} (owns : part.Owns calls) (different : part ≠ other) :
    other.SameRecords (writeAll storage calls).2 storage :=
  fun _ theirs => get?_writeAll_of_ne storage (owns.apart different theirs)

/-! ### Promises about what is still to come -/

/-- The storage once the calls have been made, whatever it answered to each. -/
def attempt (storage : σ) (calls : List Write) : σ :=
  calls.foldl (fun reached call => (write reached call).2) storage

/-- From now on, clearing takes effect whenever it is tried. -/
def AlwaysClears (storage : σ) : Prop :=
  ∀ calls key, get? (write (attempt storage calls) .clear).2 key = none

theorem AlwaysClears.write {storage : σ} (clears : AlwaysClears storage) (call : Write) :
    AlwaysClears (KeyValueStore.write storage call).2 :=
  fun calls key => clears (call :: calls) key

/-- From now on, no call fails: each is accepted and takes effect. -/
def NeverFails (storage : σ) : Prop :=
  ∀ calls call, (write (attempt storage calls) call).1 = .ok () ∧
    get? (write (attempt storage calls) call).2 = call.applyTo (get? (attempt storage calls))

theorem NeverFails.write {storage : σ} (obeys : NeverFails storage) (call : Write) :
    NeverFails (KeyValueStore.write storage call).2 :=
  fun calls next => obeys (call :: calls) next

theorem alwaysClears_entries (entries : Entries) : AlwaysClears entries := fun _ _ => rfl

theorem neverFails_entries (entries : Entries) : NeverFails entries :=
  fun calls call => ⟨rfl, (attempt entries calls).get?_apply call⟩

theorem alwaysClears_stateFile {φ : Type} [FileSystem φ] (storage : StateFile φ) :
    AlwaysClears storage := by
  intro calls key
  have cleared := (attempt storage calls).entries_write .clear
  exact congrFun cleared key

end KeyValueStore

end HdlDesk
