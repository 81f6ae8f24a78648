import Mathlib.Data.List.Nodup
import HdlDesk.Proofs.Json.Records
import HdlDesk.Proofs.Storage.Components

/-!
# The list of recent files is kept whole

A list holds each name once and no more files than there is room for, from the moment it is restored
and after every file that is put at its front. Such a list comes back from its record as it was.
-/
namespace HdlDesk.RecentFiles

structure WellFormed (recent : RecentFiles) (capacity : Nat) : Prop where
  capacity_eq : recent.capacity = max capacity 1
  nodup : (recent.files.map RecentFile.name).Nodup
  length_le : recent.files.length ≤ recent.capacity

/-! ### Taking the first file of each name -/

theorem nodup_takeDistinct (room : Nat) (kept files : List RecentFile)
    (distinct : (kept.map RecentFile.name).Nodup) :
    ((takeDistinct room kept files).map RecentFile.name).Nodup := by
  induction files generalizing room kept with
  | nil =>
    rw [takeDistinct, List.map_reverse]
    exact List.nodup_reverse.mpr distinct
  | cons file files ih =>
    cases room with
    | zero =>
      rw [takeDistinct, List.map_reverse]
      exact List.nodup_reverse.mpr distinct
    | succ room =>
      rw [takeDistinct]
      split
      · exact ih (room + 1) kept distinct
      next fresh =>
        refine ih room (file :: kept) ?_
        rw [List.map_cons, List.nodup_cons]
        refine ⟨fun known => fresh ?_, distinct⟩
        obtain ⟨other, member, same⟩ := List.mem_map.mp known
        exact List.any_eq_true.mpr ⟨other, member, decide_eq_true same⟩

theorem length_takeDistinct_le (room : Nat) (kept files : List RecentFile) :
    (takeDistinct room kept files).length ≤ kept.length + room := by
  induction files generalizing room kept with
  | nil => simp [takeDistinct]
  | cons file files ih =>
    cases room with
    | zero => simp [takeDistinct]
    | succ room =>
      rw [takeDistinct]
      split
      · exact ih (room + 1) kept
      · have bound := ih room (file :: kept)
        rw [List.length_cons] at bound
        omega

/-- Where all names are different and there is room, every file is taken. -/
theorem takeDistinct_eq (room : Nat) (kept files : List RecentFile)
    (distinct : ((kept.reverse ++ files).map RecentFile.name).Nodup)
    (enough : files.length ≤ room) : takeDistinct room kept files = kept.reverse ++ files := by
  induction files generalizing room kept with
  | nil => simp [takeDistinct]
  | cons file files ih =>
    cases room with
    | zero => simp at enough
    | succ room =>
      have fresh : ¬kept.any (fun other => other.name = file.name) = true := by
        intro known
        obtain ⟨other, member, same⟩ := List.any_eq_true.mp known
        rw [List.map_append, List.nodup_append] at distinct
        refine distinct.2.2 other.name ?_ file.name ?_ (of_decide_eq_true same)
        · exact List.mem_map_of_mem (List.mem_reverse.mpr member)
        · exact List.mem_map_of_mem List.mem_cons_self
      rw [takeDistinct, if_neg fresh, ih room (file :: kept)]
      · simp
      · simpa using distinct
      · simpa using enough

/-! ### Restoring and touching -/

theorem wellFormed_restore {σ : Type} [KeyValueStore σ] (storage : σ) (capacity : Nat) :
    (restore storage capacity).WellFormed capacity := by
  unfold restore
  dsimp only
  split
  next files _ =>
    refine ⟨rfl, nodup_takeDistinct _ [] files (by simp), ?_⟩
    simpa using length_takeDistinct_le (ofCapacity capacity).capacity [] files
  · exact ⟨rfl, by simp [ofCapacity], by simp [ofCapacity]⟩

/-- The list is put together anew also where it need not be: a file that is at the front stays
there, and so does all below it. -/
theorem touch_snd {recent : RecentFiles} {capacity : Nat} (wellFormed : recent.WellFormed capacity)
    (name content : String) :
    (recent.touch name content).2 = { recent with
      files := (⟨name, content⟩ :: recent.files.filter fun file => file.name ≠ name).take
        recent.capacity } := by
  unfold touch
  dsimp only
  split
  next front =>
    obtain ⟨room, files⟩ := recent
    obtain ⟨_, distinct, length_le⟩ := wellFormed
    obtain ⟨rest, rfl⟩ := List.head?_eq_some_iff.mp front
    have absent : ∀ other ∈ rest, other.name ≠ name := fun other member same =>
      (List.nodup_cons.mp distinct).1 (List.mem_map.mpr ⟨other, member, same⟩)
    have others : (⟨name, content⟩ :: rest).filter (fun file => file.name ≠ name) = rest := by
      rw [List.filter_cons_of_neg (by simp), List.filter_eq_self]
      exact fun other member => decide_eq_true (absent other member)
    rw [others, List.take_of_length_le length_le]
  · rfl

/-- The answer is that the list has changed exactly if it has. -/
theorem touch_fst {recent : RecentFiles} {capacity : Nat} (wellFormed : recent.WellFormed capacity)
    (name content : String) :
    (recent.touch name content).1 = true ↔ (recent.touch name content).2 ≠ recent := by
  have room : recent.capacity ≠ 0 := by
    rw [wellFormed.capacity_eq]
    omega
  have newest : (recent.touch name content).2.files.head? = some ⟨name, content⟩ := by
    rw [touch_snd wellFormed, List.head?_take, if_neg room, List.head?_cons]
  by_cases front : recent.files.head? = some ⟨name, content⟩
  · simp [touch, front]
  · have answered : (recent.touch name content).1 = true := by simp [touch, front]
    exact iff_of_true answered fun same => front (same ▸ newest)

theorem wellFormed_touch {recent : RecentFiles} {capacity : Nat}
    (wellFormed : recent.WellFormed capacity) (name content : String) :
    (recent.touch name content).2.WellFormed capacity := by
  rw [touch_snd wellFormed]
  refine ⟨wellFormed.capacity_eq, ?_, ?_⟩
  · -- The file at the front is the only one of its name, and cutting the list keeps names apart.
    have others : ((recent.files.filter fun file => file.name ≠ name).map RecentFile.name).Nodup :=
      wellFormed.nodup.sublist (List.filter_sublist.map RecentFile.name)
    have absent : name ∉ (recent.files.filter fun file => file.name ≠ name).map RecentFile.name := by
      simp
    have whole : ((⟨name, content⟩ :: recent.files.filter fun file => file.name ≠ name).map
        RecentFile.name).Nodup := List.nodup_cons.mpr ⟨absent, others⟩
    exact whole.sublist ((List.take_sublist _ _).map RecentFile.name)
  · exact List.length_take_le _ _

theorem wellFormed_clear {recent : RecentFiles} {capacity : Nat}
    (wellFormed : recent.WellFormed capacity) : recent.clear.WellFormed capacity :=
  ⟨wellFormed.capacity_eq, by simp [clear], by simp [clear]⟩

theorem restore_congr {σ τ : Type} [KeyValueStore σ] [KeyValueStore τ] {storage : σ} {other : τ}
    (same : Component.recent.SameRecords storage other) (capacity : Nat) :
    restore storage capacity = restore other capacity := by
  have held : KeyValueStore.get? storage RecordKey.recentFiles =
      KeyValueStore.get? other RecordKey.recentFiles := same _ List.mem_cons_self
  unfold restore readRecord?
  rw [held]

/-- A list that was stored is restored. -/
theorem restore_writes {recent : RecentFiles} {capacity : Nat}
    (wellFormed : recent.WellFormed capacity) (entries : Entries) :
    restore (recent.writes.foldl Entries.apply entries) capacity = recent := by
  obtain ⟨room, files⟩ := recent
  obtain ⟨rfl, nodup, length_le⟩ := wellFormed
  have held : KeyValueStore.get? ((writes ⟨max capacity 1, files⟩).foldl Entries.apply entries)
      RecordKey.recentFiles = some (Stored.print files) := by
    show ((entries.insert _ _).get? _) = _
    simp
  unfold restore readRecord?
  rw [held]
  simp only [Stored.read?_print, ofCapacity]
  rw [takeDistinct_eq _ [] files nodup length_le]
  rfl

end HdlDesk.RecentFiles
