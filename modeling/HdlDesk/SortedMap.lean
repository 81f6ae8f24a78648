/-!
# Maps from names, in order

A map from strings is a list of pairs whose keys strictly increase, compared code point by code
point. Equal maps are equal lists, so two maps that answer every look-up alike are the same map,
and listing the keys needs no sorting.
-/
namespace HdlDesk

/-- A finite map from strings, as its pairs in increasing order of the keys. -/
structure SortedMap (α : Type) where
  pairs : List (String × α)
  increasing : pairs.Pairwise fun a b => a.1 < b.1

namespace SortedMap

variable {α : Type}

instance [DecidableEq α] : DecidableEq (SortedMap α) := fun a b =>
  if same : a.pairs = b.pairs then
    isTrue (by cases a; cases b; cases same; rfl)
  else isFalse fun equal => same (by rw [equal])

def empty : SortedMap α := ⟨[], .nil⟩

instance : Inhabited (SortedMap α) := ⟨empty⟩

/-- The value at `key` in a list of pairs. -/
def lookup (key : String) : List (String × α) → Option α
  | [] => none
  | (name, value) :: rest => if name = key then some value else lookup key rest

def get? (map : SortedMap α) (key : String) : Option α := lookup key map.pairs

/-- Puts a pair at its place, in the stead of one with the same key. -/
def place (key : String) (value : α) : List (String × α) → List (String × α)
  | [] => [(key, value)]
  | (name, held) :: rest =>
    if key < name then (key, value) :: (name, held) :: rest
    else if name = key then (key, value) :: rest
    else (name, held) :: place key value rest

theorem mem_place {key : String} {value : α} {pair : String × α} :
    ∀ {pairs : List (String × α)}, pair ∈ place key value pairs → pair = (key, value) ∨ pair ∈ pairs
  | [], member => by simpa [place] using member
  | (name, held) :: rest, member => by
    simp only [place] at member
    split at member
    · simpa using member
    · split at member
      · simp only [List.mem_cons] at member ⊢
        exact member.imp_right .inr
      · simp only [List.mem_cons] at member ⊢
        rcases member with equal | inside
        · exact .inr (.inl equal)
        · exact (mem_place inside).imp_right .inr

theorem place_increasing (key : String) (value : α) :
    ∀ {pairs : List (String × α)}, pairs.Pairwise (fun a b => a.1 < b.1) →
      (place key value pairs).Pairwise fun a b => a.1 < b.1
  | [], _ => by simp [place]
  | (name, held) :: rest, increasing => by
    have ⟨above, tail⟩ := List.pairwise_cons.mp increasing
    simp only [place]
    split
    next less =>
      refine List.pairwise_cons.mpr ⟨fun pair member => ?_, increasing⟩
      rcases List.mem_cons.mp member with rfl | inside
      · exact less
      · exact String.lt_trans less (above pair inside)
    · split
      next equal =>
        subst equal
        exact List.pairwise_cons.mpr ⟨above, tail⟩
      next notLess different =>
        refine List.pairwise_cons.mpr ⟨fun pair member => ?_, place_increasing key value tail⟩
        rcases mem_place member with rfl | inside
        · exact Std.lt_of_le_of_ne (String.not_lt.mp notLess) different
        · exact above pair inside

def insert (map : SortedMap α) (key : String) (value : α) : SortedMap α :=
  ⟨place key value map.pairs, place_increasing key value map.increasing⟩

def erase (map : SortedMap α) (key : String) : SortedMap α :=
  ⟨map.pairs.filter fun pair => pair.1 ≠ key, map.increasing.filter _⟩

/-- Inserts pairs in turn; of those with one key the last stays. -/
def ofList (pairs : List (String × α)) : SortedMap α :=
  pairs.foldl (fun map pair => map.insert pair.1 pair.2) empty

def keys (map : SortedMap α) : List String := map.pairs.map Prod.fst

def size (map : SortedMap α) : Nat := map.pairs.length

/-! ### Look-ups

`get?` is the view of a map: each operation is known by what it does to the look-ups, and a map is
known by its look-ups. -/

theorem lookup_place (key wanted : String) (value : α) (pairs : List (String × α)) :
    lookup wanted (place key value pairs) =
      if wanted = key then some value else lookup wanted pairs := by
  induction pairs with
  | nil => simp [place, lookup, eq_comm]
  | cons pair rest ih =>
    obtain ⟨name, held⟩ := pair
    by_cases less : key < name
    · by_cases same : wanted = key
      · simp [place, lookup, less, same]
      · simp [place, lookup, less, same, Ne.symm same]
    · by_cases equal : name = key
      · subst equal
        by_cases same : wanted = name
        · simp [place, lookup, same]
        · simp [place, lookup, same, Ne.symm same]
      · by_cases here : name = wanted
        · subst here
          simp [place, lookup, less, equal]
        · simp [place, lookup, less, equal, here, ih]

theorem lookup_filter (key wanted : String) (pairs : List (String × α)) :
    lookup wanted (pairs.filter fun pair => pair.1 ≠ key) =
      if wanted = key then none else lookup wanted pairs := by
  induction pairs with
  | nil => simp [lookup]
  | cons pair rest ih =>
    obtain ⟨name, held⟩ := pair
    by_cases equal : name = key
    · subst equal
      by_cases same : wanted = name
      · simpa [lookup, same] using ih
      · simpa [lookup, same, Ne.symm same] using ih
    · by_cases here : name = wanted
      · subst here
        simp [lookup, equal]
      · simpa [lookup, equal, here] using ih

/-- A key below all keys of a list is not in it. -/
theorem lookup_eq_none {key : String} {pairs : List (String × α)}
    (above : ∀ pair ∈ pairs, key < pair.1) : lookup key pairs = none := by
  induction pairs with
  | nil => rfl
  | cons pair rest ih =>
    have different : pair.1 ≠ key := fun equal =>
      String.lt_irrefl key (by simpa [equal] using above pair List.mem_cons_self)
    simpa [lookup, different] using
      ih fun other member => above other (List.mem_cons_of_mem _ member)

/-- Two increasing lists of pairs with the same look-ups are the same list. -/
theorem pairs_eq_of_lookup {left right : List (String × α)}
    (leftIncreasing : left.Pairwise fun a b => a.1 < b.1)
    (rightIncreasing : right.Pairwise fun a b => a.1 < b.1)
    (agree : ∀ key, lookup key left = lookup key right) : left = right := by
  induction left generalizing right with
  | nil =>
    cases right with
    | nil => rfl
    | cons pair rest => simpa [lookup] using agree pair.1
  | cons first more ih =>
    cases right with
    | nil => simpa [lookup] using agree first.1
    | cons pair rest =>
      have ⟨firstBelow, moreIncreasing⟩ := List.pairwise_cons.mp leftIncreasing
      have ⟨pairBelow, restIncreasing⟩ := List.pairwise_cons.mp rightIncreasing
      -- The smallest keys agree: otherwise the smaller one is found on its own side only.
      have sameKey : first.1 = pair.1 := by
        by_cases less : first.1 < pair.1
        · have absent : lookup first.1 (pair :: rest) = none := by
            refine lookup_eq_none fun other member => ?_
            rcases List.mem_cons.mp member with rfl | inside
            · exact less
            · exact String.lt_trans less (pairBelow other inside)
          simpa [lookup] using (agree first.1).trans absent
        · by_cases greater : pair.1 < first.1
          · have absent : lookup pair.1 (first :: more) = none := by
              refine lookup_eq_none fun other member => ?_
              rcases List.mem_cons.mp member with rfl | inside
              · exact greater
              · exact String.lt_trans greater (firstBelow other inside)
            simpa [lookup] using (agree pair.1).symm.trans absent
          · exact String.le_antisymm (String.not_lt.mp greater) (String.not_lt.mp less)
      have sameValue : first.2 = pair.2 := by
        simpa [lookup, sameKey] using agree first.1
      have same : first = pair := Prod.ext sameKey sameValue
      subst same
      refine congrArg (first :: ·) (ih moreIncreasing restIncreasing fun key => ?_)
      by_cases equal : first.1 = key
      · subst equal
        rw [lookup_eq_none firstBelow, lookup_eq_none pairBelow]
      · simpa [lookup, equal] using agree key

@[simp] theorem get?_empty (key : String) : (empty : SortedMap α).get? key = none := rfl

@[simp] theorem get?_insert (map : SortedMap α) (key wanted : String) (value : α) :
    (map.insert key value).get? wanted = if wanted = key then some value else map.get? wanted :=
  lookup_place key wanted value map.pairs

theorem get?_insert_eq_none {map : SortedMap α} {key wanted : String} {value : α} :
    (map.insert key value).get? wanted = none ↔ wanted ≠ key ∧ map.get? wanted = none := by
  by_cases same : wanted = key <;> simp [same]

@[simp] theorem get?_erase (map : SortedMap α) (key wanted : String) :
    (map.erase key).get? wanted = if wanted = key then none else map.get? wanted :=
  lookup_filter key wanted map.pairs

theorem ext_get? {left right : SortedMap α} (agree : ∀ key, left.get? key = right.get? key) :
    left = right := by
  obtain ⟨leftPairs, leftIncreasing⟩ := left
  obtain ⟨rightPairs, rightIncreasing⟩ := right
  have same : leftPairs = rightPairs :=
    pairs_eq_of_lookup leftIncreasing rightIncreasing agree
  subst same
  rfl

theorem insert_eq_self {map : SortedMap α} {key : String} {value : α}
    (held : map.get? key = some value) : map.insert key value = map := by
  refine ext_get? fun wanted => ?_
  by_cases same : wanted = key <;> simp [same, held]

theorem insert_insert (map : SortedMap α) (key : String) (value other : α) :
    (map.insert key value).insert key other = map.insert key other := by
  refine ext_get? fun wanted => ?_
  by_cases same : wanted = key <;> simp [same]

theorem insert_comm (map : SortedMap α) {key other : String} (different : key ≠ other)
    (value held : α) :
    (map.insert key value).insert other held = (map.insert other held).insert key value := by
  refine ext_get? fun wanted => ?_
  by_cases same : wanted = key
  · simp [same, different]
  · simp [same]

end SortedMap

end HdlDesk
