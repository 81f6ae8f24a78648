import HdlDesk.Source.Medium

/-!
# Walks through a medium

A walk sorts the entries of one folder at a time. It still comes past everything in the order of the
names, compared one by one from the top, because what lies below an entry comes before everything
that lies below a later one. It comes past each item once that no refusal keeps from it, on the item
itself or on the way to it.
-/
namespace HdlDesk

/-- A name that an entry of a medium can have. -/
structure RawName.IsEntry (name : RawName) : Prop where
  not_empty : name ≠ []
  not_here : name ≠ [RawPath.dot]
  not_around : name ≠ [RawPath.dot, RawPath.dot]
  component : RawPath.slash ∉ name

instance (name : RawName) : Decidable (RawName.IsEntry name) :=
  decidable_of_iff
    (name ≠ [] ∧ name ≠ [RawPath.dot] ∧ name ≠ [RawPath.dot, RawPath.dot] ∧ RawPath.slash ∉ name)
    ⟨fun ⟨empty, here, around, component⟩ => ⟨empty, here, around, component⟩,
      fun isEntry => ⟨isEntry.not_empty, isEntry.not_here, isEntry.not_around, isEntry.component⟩⟩

namespace Item

variable {entries : List (RawName × Item)} {name : RawName} {names place : RawPlace}
  {item found : Item} {refusal : RawPlace → Option DiskError}

/-! ### Places -/

theorem at?_append {root : Item} (leads : root.at? place = some item) (more : RawPlace) :
    root.at? (place ++ more) = item.at? more := by
  induction place generalizing root with
  | nil =>
    cases leads
    rfl
  | cons first rest ih =>
    cases root with
    | file | other => simp [at?] at leads
    | folder entries =>
      rw [at?] at leads
      rw [List.cons_append, at?]
      cases inside : entries.lookup first with
      | none => simp [inside] at leads
      | some child =>
        rw [inside] at leads
        exact ih leads

/-- A tree as a medium can have it: the entries of every folder have different names that entries
can have. -/
inductive Proper : Item → Prop
  | file (reading : Except DiskError ByteArray) : Proper (.file reading)
  | other (reading : Except DiskError ByteArray) : Proper (.other reading)
  | folder {entries : List (RawName × Item)} (distinct : (entries.map Prod.fst).Nodup)
      (names : ∀ entry ∈ entries, RawName.IsEntry entry.1)
      (below : ∀ entry ∈ entries, Proper entry.2) : Proper (.folder entries)

theorem mem_of_lookup (inside : entries.lookup name = some item) : (name, item) ∈ entries := by
  obtain ⟨before, after, rfl, -⟩ := List.lookup_eq_some_iff.mp inside
  simp

theorem lookup_of_mem (distinct : (entries.map Prod.fst).Nodup) (member : (name, item) ∈ entries) :
    entries.lookup name = some item := by
  obtain ⟨before, after, rfl⟩ := List.append_of_mem member
  rw [List.map_append, List.map_cons] at distinct
  have apart := (List.nodup_append.mp distinct).2.2
  refine List.lookup_eq_some_iff.mpr ⟨before, after, rfl, fun entry earlier => ?_⟩
  exact bne_iff_ne.mpr (apart _ (List.mem_map_of_mem earlier) _ List.mem_cons_self).symm

/-- What a place in a proper tree leads to is proper, and so are the names of the place. -/
theorem Proper.at? {root : Item} (proper : root.Proper) (leads : root.at? place = some item) :
    item.Proper ∧ ∀ name ∈ place, RawName.IsEntry name := by
  induction place generalizing root with
  | nil =>
    cases leads
    exact ⟨proper, nofun⟩
  | cons first rest ih =>
    cases proper with
    | file | other => simp [Item.at?] at leads
    | @folder entries distinct names below =>
      rw [Item.at?] at leads
      cases inside : entries.lookup first with
      | none => simp [inside] at leads
      | some child =>
        rw [inside] at leads
        have member := mem_of_lookup inside
        obtain ⟨ends, others⟩ := ih (below _ member) leads
        refine ⟨ends, ?_⟩
        rintro name (_ | ⟨_, further⟩)
        · exact names _ member
        · exact others name further

/-! ### Siblings -/

theorem mem_inOrder {α : Type} {siblings : List (RawName × α)} {entry : RawName × α} :
    entry ∈ inOrder siblings ↔ entry ∈ siblings :=
  (List.mergeSort_perm siblings _).mem_iff

/-- Siblings with different names are put in strictly increasing order. -/
theorem increasing_inOrder {α : Type} {siblings : List (RawName × α)}
    (distinct : (siblings.map Prod.fst).Nodup) :
    (inOrder siblings).Pairwise fun a b => a.1 < b.1 := by
  have sorted : (inOrder siblings).Pairwise fun a b => a.1 ≤ b.1 := by
    have ordered : (inOrder siblings).Pairwise fun a b => decide (a.1 ≤ b.1) = true :=
      List.pairwise_mergeSort (fun a b c => by simpa using List.le_trans)
        (fun a b => by simpa using List.le_total a.1 b.1) siblings
    exact ordered.imp of_decide_eq_true
  have apart : (inOrder siblings).Pairwise fun a b => a.1 ≠ b.1 :=
    List.pairwise_map.mp (((List.mergeSort_perm siblings _).map Prod.fst).nodup_iff.mpr distinct)
  exact sorted.and apart |>.imp fun both => Std.lt_of_le_of_ne both.1 both.2

/-! ### Visits -/

theorem visitsAmong_eq_map (refusal : RawPlace → Option DiskError)
    (entries : List (RawName × Item)) :
    visitsAmong refusal entries = entries.map fun entry =>
      (entry.1, entry.2.visits fun names => refusal (entry.1 :: names)) := by
  induction entries with
  | nil => rw [visitsAmong, List.map_nil]
  | cons entry rest ih => rw [visitsAmong, List.map_cons, ih]

theorem ok_eq_within_iff {visit : Visit} :
    .ok (names, found) = visit.within name ↔ ∃ rest, names = name :: rest ∧
      visit = .ok (rest, found) := by
  rcases visit with refused | ⟨others, item⟩
  · exact ⟨nofun, fun ⟨_, _, visited⟩ => nomatch visited⟩
  · simp only [Visit.within, Except.map, Except.ok.injEq, Prod.mk.injEq]
    constructor
    · rintro ⟨rfl, rfl⟩
      exact ⟨_, rfl, rfl, rfl⟩
    · rintro ⟨_, rfl, rfl, rfl⟩
      exact ⟨rfl, rfl⟩

theorem mem_look {below : List Visit} :
    .ok (names, found) ∈ look refusal item below ↔
      refusal [] = none ∧ ((names = [] ∧ item = found) ∨ .ok (names, found) ∈ below) := by
  unfold look
  cases refusal [] <;> simp [eq_comm]

/-- What a walk comes past below a folder, by what it comes past below the entries. -/
theorem mem_visits_folder :
    .ok (names, found) ∈ (inOrder (visitsAmong refusal entries)).flatMap
        (fun (name, below) => below.map (Visit.within name)) ↔
      ∃ entry ∈ entries, ∃ rest, names = entry.1 :: rest ∧
        .ok (rest, found) ∈ entry.2.visits fun names => refusal (entry.1 :: names) := by
  simp only [List.mem_flatMap, mem_inOrder, visitsAmong_eq_map, List.mem_map]
  constructor
  · rintro ⟨_, ⟨entry, member, rfl⟩, below, visited, same⟩
    obtain ⟨rest, rfl, rfl⟩ := ok_eq_within_iff.mp same.symm
    exact ⟨entry, member, rest, rfl, visited⟩
  · rintro ⟨entry, member, rest, rfl, visited⟩
    exact ⟨_, ⟨entry, member, rfl⟩, _, visited, (ok_eq_within_iff.mpr ⟨rest, rfl, rfl⟩).symm⟩

/-- A walk comes past the items at the places below, unless something on the way is refused. -/
theorem mem_visits (proper : item.Proper) :
    .ok (names, found) ∈ item.visits refusal ↔
      item.at? names = some found ∧ ∀ front, front <+: names → refusal front = none := by
  induction proper generalizing names refusal with
  | file | other =>
    rw [visits, mem_look]
    cases names <;> simp [at?, and_comm]
  | @folder entries distinct areEntries below ih =>
    rw [visits, mem_look, mem_visits_folder]
    cases names with
    | nil => simp [at?, and_comm]
    | cons name rest =>
      -- Nothing is refused on the way below if the folder is not, nor anything from there.
      have listed : (∀ front, front <+: name :: rest → refusal front = none) ↔
          refusal [] = none ∧ ∀ front, front <+: rest → refusal (name :: front) = none := by
        simp only [List.prefix_cons_iff]
        constructor
        · exact fun all => ⟨all _ (.inl rfl), fun front before => all _ (.inr ⟨front, rfl, before⟩)⟩
        · rintro ⟨seen, all⟩ front (rfl | ⟨front, rfl, before⟩)
          · exact seen
          · exact all front before
      rw [listed, at?]
      constructor
      · rintro ⟨seen, ⟨none, _⟩ | ⟨⟨_, child⟩, member, _, shape, visited⟩⟩
        · cases none
        · cases shape
          obtain ⟨leads, all⟩ := (ih _ member).mp visited
          rw [lookup_of_mem distinct member]
          exact ⟨leads, seen, all⟩
      · rintro ⟨leads, seen, all⟩
        cases inside : entries.lookup name with
        | none => simp [inside] at leads
        | some child =>
          rw [inside] at leads
          have member := mem_of_lookup inside
          exact ⟨seen, .inr ⟨_, member, rest, rfl, (ih _ member).mpr ⟨leads, all⟩⟩⟩

/-- What a walk comes past is in the order of the names, compared one by one from the top. -/
theorem increasing_visits (proper : item.Proper) (refusal : RawPlace → Option DiskError) :
    (item.visits refusal).Pairwise fun visit other => ∀ names found others further,
      visit = .ok (names, found) → other = .ok (others, further) → names < others := by
  induction proper generalizing refusal with
  | file | other =>
    rw [visits, look]
    split <;> exact List.pairwise_singleton _ _
  | @folder entries distinct areEntries below ih =>
    have distinctVisits : ((visitsAmong refusal entries).map Prod.fst).Nodup := by
      rw [visitsAmong_eq_map, List.map_map]
      exact distinct
    rw [visits, look]
    split
    · exact List.pairwise_singleton _ _
    -- The folder comes before all that is in it. Two visits below one entry differ further down, and
    -- two below different entries in the first name.
    refine List.pairwise_cons.mpr ⟨?_, List.pairwise_flatMap.mpr ⟨?_, ?_⟩⟩
    · rintro visit member names found others further ⟨⟩ rfl
      obtain ⟨_, _, rest, rfl, _⟩ := mem_visits_folder.mp member
      exact List.nil_lt_cons _ _
    · intro entry member
      rw [mem_inOrder, visitsAmong_eq_map] at member
      obtain ⟨held, inside, rfl⟩ := List.mem_map.mp member
      refine List.pairwise_map.mpr ((ih held inside _).imp fun {visit other} less => ?_)
      intro names found others further first second
      obtain ⟨rest, rfl, rfl⟩ := ok_eq_within_iff.mp first.symm
      obtain ⟨beyond, rfl, rfl⟩ := ok_eq_within_iff.mp second.symm
      exact List.cons_lt_cons_iff.mpr (.inr ⟨rfl, less _ _ _ _ rfl rfl⟩)
    · refine (increasing_inOrder distinctVisits).imp fun {entry other} less => ?_
      rintro _ member _ memberOther names found others further rfl rfl
      obtain ⟨_, _, same⟩ := List.mem_map.mp member
      obtain ⟨_, _, sameOther⟩ := List.mem_map.mp memberOther
      obtain ⟨rest, rfl, _⟩ := ok_eq_within_iff.mp same.symm
      obtain ⟨beyond, rfl, _⟩ := ok_eq_within_iff.mp sameOther.symm
      exact List.cons_lt_cons_iff.mpr (.inl less)

end Item

end HdlDesk
