import HdlDesk.Proofs.Desk.Deeds
import HdlDesk.Proofs.Storage.Laws

/-!
# Desks over bare look-ups

A storage that never fails matters to a desk only by what it answers. Such a desk does what the same
desk does over the answers alone, and there calls for different parts can be made in any order: two
orders lead to equal storages, not only to storages that agree. So orders of actions are compared by
equations over look-ups and carried over to every storage that never fails.
-/
namespace HdlDesk

/-- A storage that is nothing but its answers. -/
structure Contents where
  get : String → Option String

instance : KeyValueStore Contents where
  get? contents := contents.get
  write contents call := (.ok (), ⟨call.applyTo contents.get⟩)

instance : AtomicStore Contents where
  get?_write _ _ := .inr rfl

/-- Two lists are gone through in either order when each step of the one can be exchanged with each
step of the other. -/
theorem foldl_exchange {α β : Type} {step : β → α → β} {first second : List α}
    (exchange : ∀ x ∈ first, ∀ y ∈ second, ∀ reached,
      step (step reached x) y = step (step reached y) x) (start : β) :
    second.foldl step (first.foldl step start) = first.foldl step (second.foldl step start) := by
  -- The first step of the one list is taken past the whole other list, then the rest follow.
  induction first generalizing start with
  | nil => rfl
  | cons x first ih =>
    have past : second.foldl step (step start x) = step (second.foldl step start) x := by
      have mine := exchange x List.mem_cons_self
      clear exchange ih
      induction second generalizing start with
      | nil => rfl
      | cons y second ih =>
        rw [List.foldl_cons, List.foldl_cons, mine y List.mem_cons_self start]
        exact ih (step start y) fun z member => mine z (List.mem_cons_of_mem _ member)
    rw [List.foldl_cons, List.foldl_cons, ← past]
    exact ih (fun other member => exchange other (List.mem_cons_of_mem _ member)) _

theorem Write.applyTo_comm {call other : Write} {name named : String}
    (about : call.key? = some name) (aboutOther : other.key? = some named)
    (different : name ≠ named) (held : String → Option String) :
    call.applyTo (other.applyTo held) = other.applyTo (call.applyTo held) := by
  -- Each is about one record; the cases are the two kinds of call that are.
  funext key
  cases call <;> cases other <;> cases about <;> cases aboutOther <;> grind [applyTo]

theorem Write.applyTo_set_set (name value other : String) (held : String → Option String) :
    (set name other).applyTo ((set name value).applyTo held) = (set name other).applyTo held := by
  funext key
  by_cases here : key = name <;> simp [applyTo, here]

namespace Contents

theorem writeAll_eq (contents : Contents) (calls : List Write) :
    (KeyValueStore.writeAll contents calls).2 = KeyValueStore.attempt contents calls := by
  induction calls generalizing contents with
  | nil => rfl
  | cons call calls ih => exact ih ⟨call.applyTo contents.get⟩

/-- Calls for one part and calls for another can be made in either order. -/
theorem writeAll_comm (contents : Contents) {part other : Component} {calls others : List Write}
    (owns : part.Owns calls) (ownsOthers : other.Owns others) (different : part ≠ other) :
    (KeyValueStore.writeAll (KeyValueStore.writeAll contents calls).2 others).2 =
      (KeyValueStore.writeAll (KeyValueStore.writeAll contents others).2 calls).2 := by
  rw [writeAll_eq, writeAll_eq, writeAll_eq, writeAll_eq]
  refine foldl_exchange (fun call made later follows reached => ?_) contents
  obtain ⟨name, mine, about⟩ := owns call made
  obtain ⟨named, theirs, aboutLater⟩ := ownsOthers later follows
  have apart : name ≠ named := by
    rintro rfl
    exact different (Component.eq_of_mem_records mine theirs)
  exact congrArg Contents.mk (Write.applyTo_comm aboutLater about apart.symm reached.get)

end Contents

namespace KeyValueStore

variable {σ : Type} [KeyValueStore σ]

def contents (storage : σ) : Contents := ⟨get? storage⟩

theorem NeverFails.writeAll {storage : σ} (obeys : NeverFails storage) (calls : List Write) :
    NeverFails (KeyValueStore.writeAll storage calls).2 ∧
    contents (KeyValueStore.writeAll storage calls).2 =
      (KeyValueStore.writeAll (contents storage) calls).2 := by
  induction calls generalizing storage with
  | nil => exact ⟨obeys, rfl⟩
  | cons call calls ih =>
    have accepted : (KeyValueStore.write storage call).1 = .ok () := (obeys [] call).1
    have first : contents (KeyValueStore.write storage call).2 =
        (KeyValueStore.write (contents storage) call).2 := congrArg Contents.mk (obeys [] call).2
    have rest := ih (obeys.write call)
    rw [first] at rest
    rw [writeAll_cons accepted]
    exact rest

end KeyValueStore

namespace Desk

variable {σ : Type} [KeyValueStore σ]

/-- All that a desk holds, and what its storage answers. -/
def contents (desk : Desk σ) : Desk Contents :=
  ⟨desk.config, desk.state, KeyValueStore.contents desk.storage⟩

theorem entry_contents (desk : Desk σ) (key : String) : desk.contents.entry key = desk.entry key :=
  ArtifactCache.entry_congr rfl fun _ _ => rfl

theorem contents_persist {desk : Desk σ} (obeys : KeyValueStore.NeverFails desk.storage)
    (state : DeskState) (calls : List Write) :
    ({ desk with state := state }.persist calls).contents =
      { desk.contents with state := state }.persist calls :=
  congrArg (Desk.mk desk.config state) (obeys.writeAll calls).2

theorem neverFails_persist {desk : Desk σ} (obeys : KeyValueStore.NeverFails desk.storage)
    (calls : List Write) : KeyValueStore.NeverFails (desk.persist calls).storage :=
  (obeys.writeAll calls).1

theorem neverFails_carryOut {desk : Desk σ} (obeys : KeyValueStore.NeverFails desk.storage)
    (deed : Deed) : KeyValueStore.NeverFails (desk.carryOut deed).storage := by
  cases deed with
  | putDocument document => exact neverFails_persist obeys document.writes
  | touchRecent name content => exact neverFails_persist obeys _
  | load key => exact obeys
  | change key how =>
    show KeyValueStore.NeverFails (desk.change key how).storage
    rw [change_eq]
    exact neverFails_persist obeys _
  | await kind key => exact obeys
  | settle kind key => exact obeys
  | clear => exact neverFails_persist obeys [.clear]

/-- A deed does to the answers of the storage what it does over the answers alone. -/
theorem contents_carryOut {desk : Desk σ} (obeys : KeyValueStore.NeverFails desk.storage)
    (deed : Deed) : (desk.carryOut deed).contents = desk.contents.carryOut deed := by
  cases deed with
  | putDocument document => exact contents_persist obeys _ document.writes
  | touchRecent name content => exact contents_persist obeys _ _
  | load key =>
    show (desk.load key).contents = desk.contents.load key
    rw [load_eq, load_eq, entry_contents]
    rfl
  | change key how =>
    show (desk.change key how).contents = desk.contents.change key how
    rw [change_eq, change_eq, entry_contents]
    exact contents_persist obeys _ _
  | await kind key => rfl
  | settle kind key => rfl
  | clear => exact contents_persist obeys _ [.clear]

theorem neverFails_dispatch {desk : Desk σ} (obeys : KeyValueStore.NeverFails desk.storage)
    (action : Action) : KeyValueStore.NeverFails (desk.dispatch action).2.storage :=
  dispatch_induct (fun reached => KeyValueStore.NeverFails reached.storage)
    (fun _ deed _ kept => neverFails_carryOut kept deed) obeys

theorem contents_dispatch {desk : Desk σ} (obeys : KeyValueStore.NeverFails desk.storage)
    (action : Action) : (desk.dispatch action).2.contents = (desk.contents.dispatch action).2 := by
  have decided : desk.contents.deeds action = desk.deeds action := deeds_congr ⟨rfl, rfl, rfl⟩ action
  rw [dispatch_eq_deeds, dispatch_eq_deeds, decided]
  -- What the deeds were decided by does not matter any more once they are carried out.
  generalize desk.deeds action = deeds at decided
  clear decided
  induction deeds generalizing desk with
  | nil => rfl
  | cons deed deeds ih =>
    rw [List.foldl_cons, List.foldl_cons, ← contents_carryOut obeys]
    exact ih (neverFails_carryOut obeys deed)

theorem outcome_contents (desk : Desk σ) (action : Action) :
    (desk.contents.dispatch action).1 = (desk.dispatch action).1 := by
  have same : SameOutlook desk.contents desk := ⟨rfl, rfl, rfl⟩
  exact outcome_congr same (entry_contents desk _) fun _ _ => rfl

end Desk

end HdlDesk
