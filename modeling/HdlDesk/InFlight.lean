import HdlDesk.Artifact.Basic

/-!
# Requests in flight

The artifacts that have been asked for and have not arrived or failed yet. Asking again for one
that is still awaited changes nothing.
-/
namespace HdlDesk

structure InFlight where
  requests : List (ArtifactKind × String)
  deriving DecidableEq, Repr

namespace InFlight

def empty : InFlight := ⟨[]⟩

instance : Inhabited InFlight := ⟨empty⟩

def contains (inFlight : InFlight) (kind : ArtifactKind) (key : String) : Bool :=
  inFlight.requests.contains (kind, key)

def insert (inFlight : InFlight) (kind : ArtifactKind) (key : String) : InFlight :=
  if inFlight.contains kind key then inFlight else ⟨(kind, key) :: inFlight.requests⟩

def erase (inFlight : InFlight) (kind : ArtifactKind) (key : String) : InFlight :=
  ⟨inFlight.requests.filter fun request => request ≠ (kind, key)⟩

def size (inFlight : InFlight) : Nat := inFlight.requests.length

theorem contains_insert (inFlight : InFlight) (kind other : ArtifactKind) (key name : String) :
    (inFlight.insert kind key).contains other name =
      (decide ((other, name) = (kind, key)) || inFlight.contains other name) := by
  unfold insert
  split
  next held =>
    by_cases same : (other, name) = (kind, key)
    · simp only [Prod.mk.injEq] at same
      obtain ⟨rfl, rfl⟩ := same
      simp [held]
    · simp [same]
  · simp [contains]

theorem contains_erase (inFlight : InFlight) (kind other : ArtifactKind) (key name : String) :
    (inFlight.erase kind key).contains other name =
      (decide ((other, name) ≠ (kind, key)) && inFlight.contains other name) := by
  rw [Bool.eq_iff_iff]
  simp [contains, erase, and_comm]

theorem erase_comm (inFlight : InFlight) (kind other : ArtifactKind) (key name : String) :
    (inFlight.erase kind key).erase other name = (inFlight.erase other name).erase kind key := by
  simp [erase, List.filter_filter, Bool.and_comm]

theorem insert_erase_comm (inFlight : InFlight) {kind other : ArtifactKind} {key name : String}
    (different : (kind, key) ≠ (other, name)) :
    (inFlight.insert kind key).erase other name = (inFlight.erase other name).insert kind key := by
  have kept : (inFlight.erase other name).contains kind key = inFlight.contains kind key := by
    rw [contains_erase, decide_eq_true different, Bool.true_and]
  unfold insert
  rw [kept]
  split
  · rfl
  · simp [erase, different]

theorem erase_eq_self {inFlight : InFlight} {kind : ArtifactKind} {key : String}
    (absent : inFlight.contains kind key = false) : inFlight.erase kind key = inFlight := by
  obtain ⟨requests⟩ := inFlight
  have others : ∀ request ∈ requests, request ≠ (kind, key) := by
    rintro request member rfl
    simp [contains, member] at absent
  refine congrArg InFlight.mk (List.filter_eq_self.mpr fun request member => ?_)
  simpa using others request member

end InFlight

end HdlDesk
