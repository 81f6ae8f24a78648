import HdlDesk.Proofs.Disk.Siblings
import HdlDesk.Proofs.Storage.Saving
import HdlDesk.Proofs.Text.Utf8

/-!
# A state file anywhere on a disk

The draft of a state file is looked up in the same folder as the file. What is done to the draft is
done to an entry of that folder, which no walk to the folder goes through, so the file is found
where it was. As long as neither of the two entries is a link, the disk is dependable at the path
of the file, wherever it leads.
-/
namespace HdlDesk.Disk

open StateFile (draftPath)

variable {disk : Disk} {path : String} {front : List String} {last name : String} {place : Place}
  {entries : List (String × Node)}

/-! ### What is read at a name -/

/-- The text of what stands at a name. -/
def textOf : Option Node → Except DiskError String
  | some (.file bytes) =>
    match String.fromUTF8? bytes with
    | some text => .ok text
    | none => .error .notText
  | some (.folder _) => .error .isADirectory
  | some (.link _) => .error .tooManyLinks
  | none => .error .notFound

theorem readText_of_found (found : disk.find path .reach = .ok (foundAmong place entries name)) :
    disk.readText path = textOf (Node.child? entries name) := by
  unfold readText readBytes node?
  rw [found, foundAmong]
  cases Node.child? entries name with
  | none => rfl
  | some node => cases node <;> rfl

theorem isPresent_of_found (found : disk.find path .reach = .ok (foundAmong place entries name)) :
    disk.isPresent path = (Node.child? entries name).isSome := by
  unfold isPresent node?
  rw [found, foundAmong]
  cases Node.child? entries name <;> rfl

theorem textOf_eq_ok {node : Option Node} {text : String} (read : textOf node = .ok text) :
    ∃ bytes, node = some (.file bytes) := by
  cases node with
  | none => cases read
  | some node =>
    cases node with
    | file bytes => exact ⟨bytes, rfl⟩
    | link | folder => cases read

theorem textOf_toUTF8 (text : String) : textOf (some (.file text.toUTF8)) = .ok text := by
  rw [textOf, Text.fromUTF8?_toUTF8]

/-! ### The path of a draft -/

/-- Whoever would read or write at the path is refused, or led to a folder. -/
def Bars (disk : Disk) (path : String) : Prop :=
  ∀ purpose, purpose ≠ .handle → (∃ refused, disk.find path purpose = .error refused) ∨
    ∃ place entries, disk.find path purpose = .ok (.node place (.folder entries))

theorem Bars.readText (bars : disk.Bars path) (text : String) : disk.readText path ≠ .ok text := by
  unfold Disk.readText readBytes node?
  rcases bars .reach nofun with ⟨refused, found⟩ | ⟨place, entries, found⟩ <;> rw [found] <;> nofun

theorem Bars.writeText (bars : disk.Bars path) (text : String) :
    ∃ refused, disk.writeText path text = (.error refused, disk) := by
  unfold Disk.writeText writeBytes
  rcases bars .fill nofun with ⟨refused, found⟩ | ⟨place, entries, found⟩ <;>
    exact ⟨_, by rw [found]⟩

/-- A path is barred if walking its last step is. -/
private theorem bars_of_step (opens : disk.Opens front place entries)
    (parts : ∀ component ∈ front, Path.IsComponent component) (ends : Path.IsComponent name)
    {step : Path.Step} (isStep : Path.Step.ofComponent? name = some step)
    (barred : ∀ left (there : Position), there.IsIn disk.root → there.node = .folder entries →
      ∀ purpose, (∃ refused, walk disk.root purpose left there [step] = .error refused) ∨
        ∃ place entries,
          walk disk.root purpose left there [step] = .ok (.node place (.folder entries))) :
    disk.Bars (Path.behind front name) := by
  intro purpose _
  cases taken : refusal? (Path.behind front name) with
  | some refused => exact .inl ⟨refused, find_of_refusal taken purpose⟩
  | none =>
    obtain ⟨left, there, inTree, _, folder, same⟩ := find_of_opens parts ends opens isStep taken
    rw [same]
    exact barred left there inTree folder purpose

/-- At the path of the parent there is a folder. -/
private theorem bars_around (opens : disk.Opens front place entries)
    (parts : ∀ component ∈ front, Path.IsComponent component) :
    disk.Bars (Path.behind front "..") := by
  refine bars_of_step opens parts (by decide) rfl fun left there inTree folder purpose => .inr ?_
  have into : disk.root.wayAt? there.place = some .into := by
    rw [inTree.wayAt?, folder]
    rfl
  obtain ⟨outer, isFolder⟩ := inTree.up.node_of_into (inTree.folder_up into)
  exact ⟨there.up.place, outer, by rw [walk_up folder, walk_eq, walkWith, isFolder]⟩

/-- A name that is too long for an entry is refused. -/
private theorem bars_of_long (opens : disk.Opens front place entries)
    (parts : ∀ component ∈ front, Path.IsComponent component) (ends : Path.IsComponent name)
    (isStep : Path.Step.ofComponent? name = some (.enter name))
    (long : Path.Step.nameBound < name.utf8ByteSize) : disk.Bars (Path.behind front name) := by
  refine bars_of_step opens parts ends isStep fun left there _ folder purpose => .inl ?_
  exact ⟨.nameTooLong, by simp [walk_eq, walkWith, folder, long]⟩

private theorem length_draft (stem : String) :
    (stem ++ "." ++ "json.tmp").length = stem.length + 9 := by
  have dot : ".".length = 1 := by decide
  have extension : "json.tmp".length = 8 := by decide
  rw [String.length_append, String.length_append, dot, extension]

/-- A file has another name than its draft, which ends in two extensions. -/
private theorem draft_ne {stem : String}
    (shape : last = stem ∨ ∃ old, last = stem ++ "." ++ old ∧ '.' ∉ old.toList) :
    stem ++ "." ++ "json.tmp" ≠ last := by
  intro same
  rcases shape with rfl | ⟨old, rfl, noDot⟩
  · have length := length_draft last
    rw [same] at length
    omega
  · have extension : "json.tmp".toList = old.toList := by
      simpa using congrArg String.toList same
    exact noDot (extension ▸ by decide)

/-- The draft has another name beside the file. Where the file would be named like a parent without
its extension, the draft is the parent itself. -/
theorem draftPath_shape (names : Path.Names path front last) :
    draftPath path = Path.behind front ".." ∨
    ∃ draft, Path.IsComponent draft ∧ Path.Step.ofComponent? draft = some (.enter draft) ∧
      draft ≠ last ∧ draftPath path = Path.behind front draft := by
  have isName := names.isName
  rw [draftPath, names.shape]
  rcases Path.withExtension_behind names.parts isName.component isName.not_empty isName.not_here
    isName.not_around "json.tmp" with around | ⟨stem, _, isStem, shape, beside⟩
  · exact .inl around
  · have length := length_draft stem
    have ofShort : ∀ other : String, other.length ≤ 2 → stem ++ "." ++ "json.tmp" ≠ other := by
      rintro other short rfl
      omega
    exact .inr ⟨_, by simpa [Path.IsComponent] using isStem, Path.ofComponent?_eq_enter
      (ofShort "" (by decide)) (ofShort "." (by decide)) (ofShort ".." (by decide)),
      draft_ne shape, beside⟩

/-- The draft has a name of its own beside the file, or cannot be written. -/
theorem draftPath_cases (names : Path.Names path front last) :
    (∃ draft, draft ≠ last ∧ Path.Names (draftPath path) front draft) ∨
    ∀ {disk place entries}, Opens disk front place entries → disk.Bars (draftPath path) := by
  rcases draftPath_shape names with around | ⟨draft, component, isStep, apart, beside⟩
  · rw [around]
    exact .inr fun opens => bars_around opens names.parts
  rw [beside]
  obtain ⟨_, not_empty, not_here, not_around⟩ := Path.of_ofComponent?_eq_enter isStep
  cases taken : refusal? (Path.behind front draft) with
  | some refused => exact .inr fun _ purpose _ => .inl ⟨refused, find_of_refusal taken purpose⟩
  | none =>
    by_cases fits : draft.utf8ByteSize ≤ Path.Step.nameBound
    · have noZero : '\x00' ∉ draft.toList := by
        have none := (refusal?_eq_none_iff.mp taken).1
        rw [Path.behind, String.toList_ofList, List.mem_append, not_or] at none
        exact none.2
      exact .inl ⟨draft, apart, rfl, names.parts,
        ⟨not_empty, not_here, not_around, component, noZero, fits⟩, taken⟩
    · exact .inr fun opens =>
        bars_of_long opens names.parts component isStep (Nat.not_le.mp fits)

/-! ### The folder that both stand in -/

/-- The path of a state file names an entry among these. Neither that nor the entry of the draft is
a link. -/
structure Seat (path : String) (disk : Disk) (front : List String) (last : String) (place : Place)
    (entries : List (String × Node)) : Prop where
  names : Path.Names path front last
  opens : disk.Opens front place entries
  file : ∀ target, Node.child? entries last ≠ some (.link target)
  draft : ∀ draft, Path.Names (draftPath path) front draft →
    ∀ target, Node.child? entries draft ≠ some (.link target)

def Seated (path : String) (disk : Disk) : Prop :=
  ∃ front last place entries, Seat path disk front last place entries

namespace Seat

/-- Nothing is there, or a file. -/
def IsPlain (held : Option Node) : Prop := ∀ node, held = some node → ∃ bytes, node = .file bytes

/-- Changing an entry from a file, if it is there, to a file or to none. -/
theorem alter (seat : Seat path disk front last place entries) (name : String)
    (before : IsPlain (Node.child? entries name)) (change : Option Node → Option Node)
    (after : ∀ held, IsPlain (change held)) :
    Seat path { disk with root := disk.root.alter change (place ++ [name]) } front last place
      (Node.alterChild change name entries) where
  names := seat.names
  opens := seat.opens.alter before
  file := Node.noLink_alterChild (fun _ _ link => nomatch after _ _ link) seat.file
  draft draft draftNames :=
    Node.noLink_alterChild (fun _ _ link => nomatch after _ _ link) (seat.draft draft draftNames)

theorem find_file (seat : Seat path disk front last place entries) (purpose : Purpose) :
    disk.find path purpose = .ok (foundAmong place entries last) :=
  find_of_names seat.opens seat.names seat.file purpose

section Draft

variable {draft : String} (draftNames : Path.Names (draftPath path) front draft)

include draftNames

theorem find_draft (seat : Seat path disk front last place entries) (purpose : Purpose) :
    disk.find (draftPath path) purpose = .ok (foundAmong place entries draft) :=
  find_of_names seat.opens draftNames (seat.draft draft draftNames) purpose

/-- Writing the draft leaves the text of the file. If it went well, the draft holds its text. -/
theorem write_draft (apart : draft ≠ last) (seat : Seat path disk front last place entries)
    (text : String) :
    let written := disk.writeText (draftPath path) text
    Seated path written.2 ∧ written.2.readText path = disk.readText path ∧
    (written.1 = .ok () → written.2.readText (draftPath path) = .ok text) := by
  -- Whether there is a draft already or not, its entry is changed to the same file.
  have filled : IsPlain (Node.child? entries draft) →
      let next := disk.put (place ++ [draft]) (.file text.toUTF8)
      Seated path next ∧ next.readText path = disk.readText path ∧
        next.readText (draftPath path) = .ok text := by
    intro plain
    have put := seat.alter draft plain (fun _ => some (.file text.toUTF8)) (by simp [IsPlain])
    refine ⟨⟨_, _, _, _, put⟩, ?_, ?_⟩
    · refine (readText_of_found (put.find_file .reach)).trans ?_
      rw [Node.child?_alterChild_of_ne apart.symm, readText_of_found (seat.find_file .reach)]
    · refine (readText_of_found (put.find_draft draftNames .reach)).trans ?_
      rw [Node.child?_alterChild_self, textOf_toUTF8]
  unfold writeText writeBytes
  rw [seat.find_draft draftNames, foundAmong]
  cases held : Node.child? entries draft with
  | none =>
    obtain ⟨seated, kept, holds⟩ := filled (by simp [IsPlain, held])
    exact ⟨seated, kept, fun _ => holds⟩
  | some node =>
    cases node with
    | file =>
      obtain ⟨seated, kept, holds⟩ := filled (by simp [IsPlain, held])
      exact ⟨seated, kept, fun _ => holds⟩
    | link target => exact absurd held (seat.draft draft draftNames target)
    | folder => exact ⟨⟨_, _, _, _, seat⟩, rfl, nofun⟩

/-- Moving a draft over the file puts its text there, unless a folder has the file's name. -/
theorem move_draft (apart : draft ≠ last) (seat : Seat path disk front last place entries)
    {text : String} (holds : disk.readText (draftPath path) = .ok text) :
    let moved := disk.moveFile (draftPath path) path
    Seated path moved.2 ∧
    (moved.1 = .ok () → moved.2.readText path = .ok text ∧
      moved.2.isPresent (draftPath path) = false) ∧
    (moved.1 ≠ .ok () → moved.2.readText path = disk.readText path) := by
  rw [readText_of_found (seat.find_draft draftNames .reach)] at holds
  obtain ⟨bytes, written⟩ := textOf_eq_ok holds
  -- The draft is taken out before the entry of the file is changed.
  have gone := seat.alter draft (by simp [IsPlain, written]) (fun _ => none) (by simp [IsPlain])
  have taken : IsPlain (Node.child? entries last) →
      let next := (disk.remove (place ++ [draft])).put (place ++ [last]) (.file bytes)
      Seated path next ∧ next.readText path = .ok text ∧
        next.isPresent (draftPath path) = false := by
    intro plain
    rw [← Node.child?_alterChild_of_ne apart.symm] at plain
    have put := gone.alter last plain (fun _ => some (.file bytes)) (by simp [IsPlain])
    refine ⟨⟨_, _, _, _, put⟩, ?_, ?_⟩
    · refine (readText_of_found (put.find_file .reach)).trans ?_
      rw [Node.child?_alterChild_self, ← written, holds]
    · refine (isPresent_of_found (put.find_draft draftNames .reach)).trans ?_
      rw [Node.child?_alterChild_of_ne apart, Node.child?_alterChild_self]
      rfl
  have isName := seat.names.isName
  have endsInName : Path.endsInName path = true := by
    rw [seat.names.shape, Path.endsInName,
      Path.openSteps_behind seat.names.parts isName.component, isName.ofComponent?]
    simp
  have notClosed : Path.endsInSlash path = false := by
    rw [seat.names.shape, Path.endsInSlash_behind isName.component isName.not_empty]
  have elsewhere : place ++ [last] ≠ place ++ [draft] := by simpa using apart.symm
  unfold moveFile
  rw [seat.find_draft draftNames, seat.find_file, foundAmong, foundAmong, written]
  simp only [endsInName, notClosed, Bool.not_true, Bool.false_eq_true, if_false]
  cases held : Node.child? entries last with
  | none =>
    obtain ⟨seated, reads, gone⟩ := taken (by simp [IsPlain, held])
    exact ⟨seated, fun _ => ⟨reads, gone⟩, fun failed => absurd rfl failed⟩
  | some node =>
    cases node with
    | file =>
      obtain ⟨seated, reads, gone⟩ := taken (by simp [IsPlain, held])
      simp only [Node.isFolder, elsewhere, Bool.false_eq_true, if_false]
      exact ⟨seated, fun _ => ⟨reads, gone⟩, fun failed => absurd rfl failed⟩
    | link target => exact absurd held (seat.file target)
    | folder => exact ⟨⟨_, _, _, _, seat⟩, nofun, fun _ => rfl⟩

end Draft

end Seat

/-- The disk is dependable wherever the path leads, as long as it meets no link at its end. -/
theorem dependable (path : String) : Dependable Disk path (Seated path) where
  makes disk folder seated around := by
    obtain ⟨front, last, place, entries, seat⟩ := seated
    have same : (disk.makeFolders folder).2 = disk :=
      makeFolders_parent seat.opens seat.names around
    rw [show (FileSystem.makeFolders disk folder).2 = disk from same]
    exact ⟨_, _, _, _, seat⟩
  stays disk folder seated around := by
    obtain ⟨front, last, place, entries, seat⟩ := seated
    have same : (disk.makeFolders folder).2 = disk :=
      makeFolders_parent seat.opens seat.names around
    rw [show (FileSystem.makeFolders disk folder).2 = disk from same]
  writes disk text seated := by
    obtain ⟨front, last, place, entries, seat⟩ := seated
    rcases draftPath_cases seat.names with ⟨draft, apart, draftNames⟩ | barred
    · exact seat.write_draft draftNames apart text
    · obtain ⟨refused, written⟩ := (barred seat.opens).writeText text
      intro answer
      rw [show answer = (.error refused, disk) from written]
      exact ⟨⟨_, _, _, _, seat⟩, rfl, nofun⟩
  moves disk text seated holds := by
    obtain ⟨front, last, place, entries, seat⟩ := seated
    rcases draftPath_cases seat.names with ⟨draft, apart, draftNames⟩ | barred
    · exact seat.move_draft draftNames apart holds
    · exact absurd holds ((barred seat.opens).readText text)

end HdlDesk.Disk
