import HdlDesk.Proofs.Disk.Medium

/-!
# A file alone and in its folder

A file can be opened alone by its path, or with the folder that it lies in. The first looks at the
name that the path ends in and then at the medium, the second finds the file while it walks through
the folder. Both accept the same files and read the same bytes; opened alone, a file loses the line
ends at its end and everything in front of its name. A file that the walk does not come past, or one
that is too far from the root to be read by its own path, can still be opened alone by a shorter
one.
-/
namespace HdlDesk.Medium

variable {medium : Medium} {extensions : Extensions} {folder names : RawPlace} {bytes : ByteArray}
  {path : RawPath}

/-- What is opened alone depends on the name that the path ends in and on the bytes read. -/
theorem loadSingle_eq_ok_iff {single : SourceFile} :
    medium.loadSingle path extensions = .ok single ↔
      extensions.accepts (RawPath.pickedName path) = true ∧ ∃ bytes,
        medium.read path = .ok bytes ∧
        .standalone (RawPath.pickedName path) (Text.trimLineEnds (Text.decodeLossy bytes)) =
          single := by
  rw [loadSingle, readRaw]
  by_cases accepted : extensions.accepts (RawPath.pickedName path) = true
  · rw [if_pos accepted]
    cases medium.read path with
    | error refused => exact ⟨nofun, fun ⟨_, _, read, _⟩ => nomatch read⟩
    | ok bytes =>
      simp only [Except.map]
      rw [Extensions.readSingle, if_pos accepted]
      simp [accepted]
  · rw [if_neg accepted]
    exact ⟨nofun, fun made => absurd made.1 accepted⟩

theorem read_of_resolve {place : RawPlace} {reading : Except DiskError ByteArray}
    (there : medium.root.at? place = some (.file reading))
    (leads : medium.resolve path = .ok place) : medium.read path = reading := by
  rw [read, item?, leads]
  simp only [there, Option.elim_some]

/-- Every file that a folder is opened with can be opened alone, by its own path and by every other
one that leads to it and ends in its name. Every file below the folder that can be opened alone by
its own path is one that the folder is opened with, unless the walk is kept from it or the folder
cannot be named. -/
theorem loadFolder_agrees_loadSingle (lawful : medium.Lawful) {entries : List (RawName × Item)}
    (around : medium.root.at? folder = some (.folder entries))
    (leads : medium.resolve path = .ok folder) (extensions : Extensions) :
    (∀ files, medium.loadFolder path extensions = .ok files → ∀ file ∈ files, ∃ names bytes,
      medium.root.at? (folder ++ names) = some (.file (.ok bytes)) ∧
      file = opened folder names bytes ∧
      let alone := ⟨file.name, file.name, Text.trimLineEnds file.content⟩
      medium.loadSingle (RawPath.ofPlace (folder ++ names)) extensions = .ok alone ∧
      ∀ other, medium.resolve other = .ok (folder ++ names) →
        RawPath.pickedName other = file.name → medium.loadSingle other extensions = .ok alone) ∧
    (∀ names reading, medium.root.at? (folder ++ names) = some (.file reading) →
      (∀ front, front <+: names → medium.refusal (folder ++ front) = none) →
      (∃ place, medium.canonical path = .ok place) →
      ∀ single, medium.loadSingle (RawPath.ofPlace (folder ++ names)) extensions = .ok single →
      ∃ files bytes, medium.loadFolder path extensions = .ok files ∧ reading = .ok bytes ∧
        opened folder names bytes ∈ files) := by
  obtain ⟨found, member, _, _, loads⟩ := loadFolder_picks lawful around extensions
  obtain ⟨loaded, refusals⟩ := loads path leads
  constructor
  · intro files isLoaded file inside
    cases named : medium.canonical path with
    | error refused => cases (refusals refused named).symm.trans isLoaded
    | ok place =>
      rw [loaded place named] at isLoaded
      split at isLoaded
      · cases isLoaded
      cases isLoaded
      obtain ⟨⟨names, bytes⟩, picked, rfl⟩ := List.mem_map.mp inside
      have offers := (member _ _).mp picked
      have byPath : ∀ other, medium.resolve other = .ok (folder ++ names) →
          RawPath.pickedName other = Text.decode (names.getLastD []) →
          medium.loadSingle other extensions = .ok ⟨Text.decode (names.getLastD []),
            Text.decode (names.getLastD []), Text.trimLineEnds (Text.decodeLossy bytes)⟩ := by
        intro other leadsThere named
        refine loadSingle_eq_ok_iff.mpr ⟨named ▸ offers.accepted, bytes, ?_, ?_⟩
        · exact read_of_resolve offers.there leadsThere
        · rw [named]
          rfl
      exact ⟨names, bytes, offers.there, rfl,
        byPath _ offers.reached (pickedName_ofPlace lawful around offers.there), byPath⟩
  · rintro names reading there seen ⟨place, named⟩ single alone
    obtain ⟨accepted, bytes, read, _⟩ := loadSingle_eq_ok_iff.mp alone
    obtain ⟨rfl, reached⟩ := (read_ofPlace_eq_ok_iff lawful around there).mp read
    rw [pickedName_ofPlace lawful around there] at accepted
    have picked := (member _ _).mpr ⟨there, seen, accepted, reached⟩
    exact ⟨_, bytes, (loaded place named).trans (if_neg (List.ne_nil_of_mem picked)), rfl,
      List.mem_map.mpr ⟨_, picked, rfl⟩⟩

end HdlDesk.Medium

namespace HdlDesk.Disk

open Medium (opened loadFolder_agrees_loadSingle)

/-- A folder with a hidden folder, a folder whose name sorts before that of a file, a link to a file
and a folder named like a source. -/
def sampleEntries : List (String × Node) :=
  [(".h", .folder [("x.V", .file "h".toUTF8)]), ("a", .folder [("b.v", .file "b".toUTF8)]),
    ("a.v", .file "a".toUTF8), ("b.txt", .file "t".toUTF8), ("k.v", .link "a.v"),
    ("s.v", .folder [])]

/-- The folder, and a link to it. -/
def sampleDisk : Disk := ⟨.folder [("l", .link "p"), ("p", .folder sampleEntries)], []⟩

theorem proper_sampleDisk : sampleDisk.root.Proper := by
  have lone : ∀ (name : String) (bytes : ByteArray), Path.IsName name →
      (Node.folder [(name, .file bytes)]).Proper := fun name bytes isName =>
    .folder (by simp) (by simpa using isName) (by simpa using .file bytes)
  have below : (Node.folder sampleEntries).Proper := by
    refine .folder (by decide +kernel) ?_ ?_
    · simp only [sampleEntries, List.forall_mem_cons]
      decide +kernel
    · simp only [sampleEntries, List.forall_mem_cons]
      exact ⟨lone _ _ (by decide +kernel), lone _ _ (by decide +kernel), .file _, .file _, .link _,
        .folder .nil nofun nofun, nofun⟩
  refine .folder (by decide +kernel) ?_ ?_
  · simp only [List.forall_mem_cons]
    decide +kernel
  · simp only [List.forall_mem_cons]
    exact ⟨.link _, below, nofun⟩

/-- The folder of the sample is picked by a link, and the file in the hidden folder opened alone. -/
theorem sampleDisk_agrees :
    ∃ files, sampleDisk.loadFolder "l" .default = .ok files ∧
      opened [Text.encode "p"] [Text.encode ".h", Text.encode "x.V"] "h".toUTF8 ∈ files ∧
      ∀ file ∈ files, ∃ path, sampleDisk.medium.loadSingle path .default =
        .ok ⟨file.name, file.name, Text.trimLineEnds file.content⟩ := by
  have leads : sampleDisk.node? "l" = .ok (["p"], .folder sampleEntries) :=
    node?_of_place (by decide +kernel) rfl
  have around : sampleDisk.medium.root.at? [Text.encode "p"] =
      some (.folder (Node.items sampleEntries)) := by
    exact (Node.at?_item sampleDisk.root ["p"]).trans rfl
  obtain ⟨inFolder, alone⟩ := loadFolder_agrees_loadSingle (lawful_medium proper_sampleDisk) around
    (resolve_of_node? leads) .default
  have single : sampleDisk.medium.loadSingle
      (RawPath.ofPlace ([Text.encode "p"] ++ [Text.encode ".h", Text.encode "x.V"])) .default =
      .ok ⟨"x.V", "x.V", "h"⟩ := by decide +kernel
  have named : sampleDisk.canonical "l" = .ok ["p"] := by decide +kernel
  have seen : ∀ front, front <+: [Text.encode ".h", Text.encode "x.V"] →
      sampleDisk.medium.refusal ([Text.encode "p"] ++ front) = none := by
    simp only [List.prefix_cons_iff, List.prefix_nil]
    rintro _ (rfl | ⟨_, rfl, rfl | ⟨_, rfl, rfl⟩⟩)
    all_goals decide +kernel
  obtain ⟨files, bytes, found, same, member⟩ :=
    alone [Text.encode ".h", Text.encode "x.V"] (.ok "h".toUTF8)
      ((Node.at?_item sampleDisk.root ["p", ".h", "x.V"]).trans rfl) seen
      ⟨_, canonical_encode named⟩ _ single
  cases same
  refine ⟨files, found, member, fun file inside => ?_⟩
  obtain ⟨names, _, _, _, own, _⟩ := inFolder files found file inside
  exact ⟨_, own⟩

end HdlDesk.Disk
