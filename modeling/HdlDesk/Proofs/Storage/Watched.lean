import HdlDesk.Proofs.Storage.Laws

/-!
# Calls under watch

What becomes of a sequence of calls when some of them fail: those before the first failure take
effect, the failing one is put down and does nothing, and the rest are not made. From the calls
that were put down one can tell whether the last attempt to write a part came to its end.
-/
namespace HdlDesk

namespace Watched

variable {σ : Type}

/-- The storage once the calls have been accepted. -/
def accept (storage : Watched Entries) (calls : List Write) : Watched Entries :=
  { storage with
    inner := calls.foldl Entries.apply storage.inner
    journal := storage.journal ++ calls }

/-- The last call that concerns the part was not refused, or there was none. A sequence of calls
stops at its first failure, so all calls of the last sequence were accepted then. -/
def Settled (storage : Watched σ) (component : Component) : Prop :=
  ∀ before call later, storage.journal = before ++ call :: later →
    component.concerns call = true → (∀ other ∈ later, component.concerns other = false) →
    storage.refuses before call = false

theorem writeAll_cases (storage : Watched Entries) (calls : List Write) :
    (KeyValueStore.writeAll storage calls).2 = storage.accept calls ∨
    ∃ made refused rest, calls = made ++ refused :: rest ∧
      storage.refuses (storage.journal ++ made) refused = true ∧
      (KeyValueStore.writeAll storage calls).2 =
        { storage.accept made with journal := storage.journal ++ made ++ [refused] } := by
  -- By the calls: the first is refused, or it is accepted and the rest are made from there.
  induction calls generalizing storage with
  | nil =>
    left
    simp [KeyValueStore.writeAll, accept]
  | cons call calls ih =>
    by_cases refused : storage.refuses storage.journal call = true
    · right
      refine ⟨[], call, calls, rfl, by simpa using refused, ?_⟩
      simp [KeyValueStore.writeAll, KeyValueStore.write, refused, accept]
    · have step : (KeyValueStore.writeAll storage (call :: calls)).2 =
          (KeyValueStore.writeAll (storage.accept [call]) calls).2 := by
        simp [KeyValueStore.writeAll, KeyValueStore.write, refused, accept]
      rw [step]
      rcases ih (storage.accept [call]) with all | ⟨made, failed, rest, rfl, fails, stopped⟩
      · left
        rw [all]
        simp [accept]
      · right
        refine ⟨call :: made, failed, rest, rfl, by simpa [accept] using fails, ?_⟩
        rw [stopped]
        simp [accept]

/-! ### The calls that are put down -/

theorem journal_write [KeyValueStore σ] (storage : Watched σ) (call : Write) :
    (KeyValueStore.write storage call).2.journal = storage.journal ++ [call] := by
  simp only [KeyValueStore.write]
  split <;> rfl

/-- The calls that are put down are those that were made, in their order. -/
theorem journal_writeAll [KeyValueStore σ] (storage : Watched σ) (calls : List Write) :
    ∃ made, made <+: calls ∧
      (KeyValueStore.writeAll storage calls).2.journal = storage.journal ++ made := by
  induction calls generalizing storage with
  | nil => exact ⟨[], List.nil_prefix, (List.append_nil _).symm⟩
  | cons call calls ih =>
    have grown := journal_write storage call
    unfold KeyValueStore.writeAll
    split
    next next written =>
      rw [written] at grown
      obtain ⟨made, front, noted⟩ := ih next
      refine ⟨call :: made, (List.prefix_cons_inj call).mpr front, ?_⟩
      rw [noted, grown, List.append_assoc, List.singleton_append]
    next refused next written =>
      rw [written] at grown
      exact ⟨[call], (List.prefix_cons_inj call).mpr List.nil_prefix, grown⟩

theorem mem_journal_writeAll [KeyValueStore σ] (storage : Watched σ) (calls : List Write)
    {call : Write} (member : call ∈ (KeyValueStore.writeAll storage calls).2.journal) :
    call ∈ storage.journal ∨ call ∈ calls := by
  obtain ⟨made, front, noted⟩ := journal_writeAll storage calls
  rw [noted, List.mem_append] at member
  exact member.imp_right fun inside => front.subset inside

theorem refuses_write [KeyValueStore σ] (storage : Watched σ) (call : Write) :
    (KeyValueStore.write storage call).2.refuses = storage.refuses := by
  simp only [KeyValueStore.write]
  split <;> rfl

theorem refuses_writeAll [KeyValueStore σ] (storage : Watched σ) (calls : List Write) :
    (KeyValueStore.writeAll storage calls).2.refuses = storage.refuses :=
  KeyValueStore.writeAll_induct (fun reached => reached.refuses = storage.refuses) calls
    (fun reached call _ same => (refuses_write reached call).trans same) storage rfl

/-- A storage under watch whose calls are all accepted never fails. -/
theorem neverFails {storage : Watched Entries}
    (accepts : ∀ before call, storage.refuses before call = false) :
    KeyValueStore.NeverFails storage := by
  intro calls call
  induction calls generalizing storage with
  | nil =>
    simp only [KeyValueStore.attempt, List.foldl_nil, KeyValueStore.write, accepts,
      Bool.false_eq_true, if_false]
    exact ⟨trivial, storage.inner.get?_apply call⟩
  | cons first calls ih =>
    refine ih fun before other => ?_
    rw [refuses_write]
    exact accepts before other

theorem alwaysClears {storage : Watched Entries}
    (accepted : ∀ before, storage.refuses before .clear = false) :
    KeyValueStore.AlwaysClears storage := by
  intro calls key
  induction calls generalizing storage with
  | nil =>
    simp [KeyValueStore.attempt, KeyValueStore.write, accepted]
    rfl
  | cons call calls ih =>
    have next : ∀ before, (KeyValueStore.write storage call).2.refuses before .clear = false := by
      rw [refuses_write]
      exact accepted
    exact ih next

/-! ### Parts that are settled -/

theorem Settled.of_append {before after : Watched σ} {component : Component} {made : List Write}
    (settled : after.Settled component) (refuses : after.refuses = before.refuses)
    (journal : after.journal = before.journal ++ made)
    (apart : ∀ call ∈ made, component.concerns call = false) : before.Settled component := by
  intro earlier call later shape concerns quiet
  have whole : after.journal = earlier ++ call :: (later ++ made) := by simp [journal, shape]
  rw [← refuses]
  refine settled earlier call (later ++ made) whole concerns fun other member => ?_
  rcases List.mem_append.mp member with inside | added
  · exact quiet other inside
  · exact apart other added

theorem not_settled {after : Watched σ} {component : Component} {before : List Write}
    {call : Write} (journal : after.journal = before ++ [call])
    (refused : after.refuses before call = true) (concerns : component.concerns call = true) :
    ¬after.Settled component := by
  intro settled
  have accepted := settled before call [] journal concerns (by simp)
  rw [refused] at accepted
  cases accepted

/-- Calls for another part, accepted or not, do not settle a part. -/
theorem Settled.of_writeAll [KeyValueStore σ] {storage : Watched σ} {calls : List Write}
    {component part : Component} (owns : component.Owns calls) (apart : part ≠ component)
    (settled : (KeyValueStore.writeAll storage calls).2.Settled part) : storage.Settled part := by
  obtain ⟨made, front, noted⟩ := journal_writeAll storage calls
  exact settled.of_append (refuses_writeAll storage calls) noted fun call member =>
    owns.not_concerns apart (front.subset member)

/-- When calls for a part leave it settled, all of them took effect. -/
theorem writeAll_settled (storage : Watched Entries) (calls : List Write) {component : Component}
    (concerns : ∀ call ∈ calls, component.concerns call = true)
    (settled : (KeyValueStore.writeAll storage calls).2.Settled component) :
    (KeyValueStore.writeAll storage calls).2 = storage.accept calls := by
  rcases writeAll_cases storage calls with all | ⟨made, refused, rest, rfl, fails, stopped⟩
  · exact all
  · rw [stopped] at settled
    exact absurd settled (not_settled rfl fails (concerns refused (by simp)))

end Watched

end HdlDesk
