import HdlDesk.Proofs.Recent

/-!
# A bounded list holds the newest files of its log

A log of opened files, newest first, has a listing: the first file of each name, cut to the room
there is. The list never sees the log. It is cut after every file that is put at its front, so it
forgets files for good, and it moves and renews files in place; still it is the listing of the whole
log, because putting a file at the front pushes out at most one other. A stored list is taken up as
the listing of a log as well, however long it is and whichever names it repeats.
-/
namespace HdlDesk.RecentFiles

/-- The first file of each name. -/
def firstOfEachName (files : List RecentFile) : List RecentFile :=
  files.eraseDupsBy fun file other => file.name = other.name

/-- The newest files of a log, for a list with room for so many, but at least one. -/
def newest (capacity : Nat) (log : List RecentFile) : List RecentFile :=
  (firstOfEachName log).take (max capacity 1)

/-- The files but those of one name. -/
def others (name : String) (files : List RecentFile) : List RecentFile :=
  files.filter fun file => file.name ≠ name

/-- None of the files seen has the name of this one. -/
def isNew (seen : List RecentFile) (file : RecentFile) : Bool :=
  seen.all fun other => other.name ≠ file.name

def unseen (seen files : List RecentFile) : List RecentFile := files.filter (isNew seen)

/-! ### The first file of each name -/

theorem others_comm (name wanted : String) (files : List RecentFile) :
    others name (others wanted files) = others wanted (others name files) :=
  List.filter_comm ..

theorem others_others (name : String) (files : List RecentFile) :
    others name (others name files) = others name files := by
  simp [others, List.filter_filter]

theorem others_eq_self {name : String} {files : List RecentFile}
    (absent : ∀ file ∈ files, file.name ≠ name) : others name files = files :=
  List.filter_eq_self.mpr fun file member => decide_eq_true (absent file member)

private theorem firstOfEachName_others (file : RecentFile) (files : List RecentFile) :
    firstOfEachName (file :: files) = file :: firstOfEachName (others file.name files) := by
  rw [firstOfEachName, List.eraseDupsBy_cons]
  simp [firstOfEachName, others]

theorem others_firstOfEachName (name : String) (files : List RecentFile) :
    others name (firstOfEachName files) = firstOfEachName (others name files) := by
  match files with
  | [] => rfl
  | file :: files =>
    -- The first files are those of a shorter list, which is no tail of this one.
    have shorter : (others file.name files).length < (file :: files).length :=
      Nat.lt_succ_of_le (List.length_filter_le _ _)
    have rest := others_firstOfEachName name (others file.name files)
    rw [firstOfEachName_others]
    by_cases same : file.name = name
    · subst same
      rw [others_others] at rest
      simpa [others] using rest
    · have kept (tail : List RecentFile) :
          others name (file :: tail) = file :: others name tail := by
        simp [others, same]
      rw [kept, kept, firstOfEachName_others, rest, others_comm]
termination_by files.length
decreasing_by exact shorter

theorem firstOfEachName_cons (file : RecentFile) (files : List RecentFile) :
    firstOfEachName (file :: files) = file :: others file.name (firstOfEachName files) := by
  rw [firstOfEachName_others, others_firstOfEachName]

theorem nodup_firstOfEachName (files : List RecentFile) :
    ((firstOfEachName files).map RecentFile.name).Nodup := by
  induction files with
  | nil => simp [firstOfEachName]
  | cons file files ih =>
    rw [firstOfEachName_cons, List.map_cons, List.nodup_cons]
    refine ⟨?_, ih.sublist (List.filter_sublist.map RecentFile.name)⟩
    simp [others]

theorem isNew_iff {seen : List RecentFile} {file : RecentFile} :
    isNew seen file = true ↔ ∀ other ∈ seen, other.name ≠ file.name := by
  simp [isNew]

theorem unseen_nil (files : List RecentFile) : unseen [] files = files :=
  List.filter_eq_self.mpr fun _ _ => rfl

theorem unseen_cons (first : RecentFile) (seen files : List RecentFile) :
    unseen (first :: seen) files = others first.name (unseen seen files) := by
  rw [unseen, unseen, others, List.filter_filter]
  refine List.filter_congr fun file _ => ?_
  simp [isNew, eq_comm]

theorem unseen_cons_of_new {seen : List RecentFile} {file : RecentFile}
    (new : ∀ other ∈ seen, other.name ≠ file.name) (files : List RecentFile) :
    unseen seen (file :: files) = file :: unseen seen files :=
  List.filter_cons_of_pos (isNew_iff.mpr new)

theorem unseen_cons_of_seen {seen : List RecentFile} {file held : RecentFile}
    (member : held ∈ seen) (same : held.name = file.name) (files : List RecentFile) :
    unseen seen (file :: files) = unseen seen files :=
  List.filter_cons_of_neg fun new => isNew_iff.mp new held member same

theorem unseen_others_of_seen {seen : List RecentFile} {held : RecentFile}
    (member : held ∈ seen) (files : List RecentFile) :
    unseen seen (others held.name files) = unseen seen files := by
  rw [unseen, others, List.filter_filter]
  refine List.filter_congr fun file _ => ?_
  by_cases new : isNew seen file = true
  · have apart : file.name ≠ held.name := (isNew_iff.mp new held member).symm
    rw [new, decide_eq_true apart, Bool.and_self]
  · rw [Bool.eq_false_iff.mpr new, Bool.false_and]

theorem unseen_others (seen : List RecentFile) (name : String) (files : List RecentFile) :
    unseen seen (others name files) = others name (unseen seen files) :=
  List.filter_comm ..

/-- After some files, those of a log count only where their names are new. -/
theorem firstOfEachName_append (later log : List RecentFile) :
    firstOfEachName (later ++ log) =
      firstOfEachName later ++ unseen later (firstOfEachName log) := by
  induction later with
  | nil => rw [List.nil_append, unseen_nil]; rfl
  | cons first later ih =>
    rw [List.cons_append, firstOfEachName_cons, ih, firstOfEachName_cons, List.cons_append,
      unseen_cons]
    simp [others]

/-! ### The listing of a log -/

/-- Leaving out one name of a list that was cut gives no other front than leaving it out before: of
the files that were cut off, at most one would move up. -/
theorem take_others_take {files : List RecentFile} (distinct : (files.map RecentFile.name).Nodup)
    (name : String) (count : Nat) :
    (others name (files.take (count + 1))).take count = (others name files).take count := by
  induction files generalizing count with
  | nil => simp
  | cons file files ih =>
    obtain ⟨fresh, rest⟩ := List.nodup_cons.mp distinct
    by_cases same : file.name = name
    · -- This is the one file of the name, so all that follow it stay.
      subst same
      have absent : ∀ other ∈ files, other.name ≠ file.name := fun other member equal =>
        fresh (List.mem_map.mpr ⟨other, member, equal⟩)
      have cut : ∀ other ∈ files.take count, other.name ≠ file.name := fun other member =>
        absent other (List.mem_of_mem_take member)
      have dropped (tail : List RecentFile) :
          others file.name (file :: tail) = others file.name tail := by simp [others]
      rw [List.take_succ_cons, dropped, dropped, others_eq_self absent, others_eq_self cut,
        List.take_take, Nat.min_self]
    · have kept (tail : List RecentFile) :
          others name (file :: tail) = file :: others name tail := by
        simp [others, same]
      cases count with
      | zero => simp
      | succ count =>
        rw [List.take_succ_cons, kept, kept, List.take_succ_cons, List.take_succ_cons,
          ih rest count]

theorem wellFormed_of_listed {recent : RecentFiles} {capacity : Nat} {log : List RecentFile}
    (room : recent.capacity = max capacity 1) (listed : recent.files = newest capacity log) :
    recent.WellFormed capacity where
  capacity_eq := room
  nodup := by
    rw [listed]
    exact (nodup_firstOfEachName log).sublist ((List.take_sublist _ _).map RecentFile.name)
  length_le := by
    rw [listed, room]
    exact List.length_take_le _ _

/-- A file that is put at the front of the listing of a log makes it the listing of the longer
log. -/
theorem files_touch_newest {recent : RecentFiles} {capacity : Nat} {log : List RecentFile}
    (room : recent.capacity = max capacity 1) (listed : recent.files = newest capacity log)
    (file : RecentFile) :
    (recent.touch file.name file.content).2.files = newest capacity (file :: log) := by
  obtain ⟨count, more⟩ : ∃ count, max capacity 1 = count + 1 :=
    Nat.exists_eq_succ_of_ne_zero (by omega)
  rw [touch_snd (wellFormed_of_listed room listed)]
  show (file :: others file.name recent.files).take recent.capacity = _
  rw [room, listed, newest, newest, more, firstOfEachName_cons, List.take_succ_cons,
    List.take_succ_cons, take_others_take (nodup_firstOfEachName log)]

theorem takeDistinct_eq_take (room : Nat) (kept files : List RecentFile) :
    takeDistinct room kept files =
      kept.reverse ++ (unseen kept (firstOfEachName files)).take room := by
  induction files generalizing room kept with
  | nil => simp [takeDistinct, firstOfEachName, unseen]
  | cons file files ih =>
    cases room with
    | zero => simp [takeDistinct]
    | succ room =>
      rw [takeDistinct, firstOfEachName_cons]
      by_cases known : kept.any (fun other => other.name = file.name) = true
      · -- The name is taken: this file and the later ones of its name are passed over.
        obtain ⟨held, member, same⟩ := List.any_eq_true.mp known
        have called : held.name = file.name := of_decide_eq_true same
        rw [if_pos known, ih, unseen_cons_of_seen member called,
          ← called, unseen_others_of_seen member]
      · have new : ∀ other ∈ kept, other.name ≠ file.name := fun other member same =>
          known (List.any_eq_true.mpr ⟨other, member, decide_eq_true same⟩)
        rw [if_neg known, ih, unseen_cons_of_new new, unseen_cons, unseen_others,
          List.take_succ_cons, List.reverse_cons, List.append_assoc, List.singleton_append]

/-- The files in the record of the list, as they stand there; none if it cannot be read. -/
def storedList {σ : Type} [KeyValueStore σ] (storage : σ) : List RecentFile :=
  match readRecord? storage RecordKey.recentFiles with
  | .ok (some files) => files
  | _ => []

theorem files_restore {σ : Type} [KeyValueStore σ] (storage : σ) (capacity : Nat) :
    (restore storage capacity).files = newest capacity (storedList storage) := by
  unfold restore storedList
  cases (readRecord? storage RecordKey.recentFiles : Except _ (Option (List RecentFile))) with
  | error refused => simp [newest, firstOfEachName, ofCapacity]
  | ok found =>
    cases found with
    | none => simp [newest, firstOfEachName, ofCapacity]
    | some files =>
      show takeDistinct (max capacity 1) [] files = newest capacity files
      rw [takeDistinct_eq_take, unseen_nil]
      rfl

/-- A file is listed unless files of too many other names came after it. -/
theorem mem_newest {capacity : Nat} {later earlier : List RecentFile} {file : RecentFile}
    (last : ∀ other ∈ later, other.name ≠ file.name)
    (few : (firstOfEachName later).length < max capacity 1) :
    file ∈ newest capacity (later ++ file :: earlier) := by
  rw [newest, firstOfEachName_append, firstOfEachName_cons, unseen_cons_of_new last]
  have within : (firstOfEachName later).length <
      min (max capacity 1) (firstOfEachName later ++ file :: unseen later
        (others file.name (firstOfEachName earlier))).length := by
    rw [List.length_append, List.length_cons]
    omega
  exact List.mem_take_iff_getElem.mpr ⟨_, within, by simp⟩

end HdlDesk.RecentFiles
