import HdlDesk.Proofs.Disk.WorkingFolder
import HdlDesk.Proofs.Source.Alone

/-!
# A file that lies too deep

Fifteen folders with the longest name that a folder can have lie one in the other, with one source
in the innermost. The folders can be walked through, but the path of the source has just as many
bytes as a path must not have. So no folder is opened with it, although it can be opened alone by a
shorter path from a folder near it.
-/
namespace HdlDesk.Disk

variable {bytes : ByteArray}

/-- A name of so many letters. -/
def letters : Nat → String
  | 0 => ""
  | count + 1 => "d" ++ letters count

private theorem toList_letters (count : Nat) : (letters count).toList = .replicate count 'd' := by
  induction count with
  | zero => rfl
  | succ count ih =>
    rw [letters, String.toList_append, ih, List.replicate_succ]
    rfl

private theorem utf8ByteSize_letters (count : Nat) : (letters count).utf8ByteSize = count := by
  induction count with
  | zero => rfl
  | succ count ih =>
    have one : "d".utf8ByteSize = 1 := by decide
    rw [letters, String.utf8ByteSize_append, ih, one, Nat.add_comm]

/-- A name for a folder and one for a file, both as long as a name can be. -/
def longFolder : String := letters 255

def longFile : String := letters 253 ++ ".v"

private theorem utf8ByteSize_longFile : longFile.utf8ByteSize = 255 := by
  have ending : ".v".utf8ByteSize = 2 := by decide
  rw [longFile, String.utf8ByteSize_append, utf8ByteSize_letters, ending]

private theorem not_mem_letters {c : Char} (other : c ≠ 'd') (count : Nat) :
    c ∉ (letters count).toList := by
  rw [toList_letters]
  exact fun member => other (List.eq_of_mem_replicate member)

private theorem isName_of_long {name : String} (size : name.utf8ByteSize = 255)
    (component : '/' ∉ name.toList) (noZero : '\x00' ∉ name.toList) : Path.IsName name where
  not_empty := by
    rintro rfl
    exact absurd size (by decide)
  not_here := by
    rintro rfl
    exact absurd size (by decide)
  not_around := by
    rintro rfl
    exact absurd size (by decide)
  component := component
  no_zero := noZero
  fits := Nat.le_of_eq size

private theorem isName_longFolder : Path.IsName longFolder :=
  isName_of_long (utf8ByteSize_letters 255) (not_mem_letters (by decide) 255)
    (not_mem_letters (by decide) 255)

private theorem isName_longFile : Path.IsName longFile := by
  refine isName_of_long utf8ByteSize_longFile ?_ ?_
  all_goals
    rw [longFile, String.toList_append, List.mem_append]
    exact not_or.mpr ⟨not_mem_letters (by decide) 253, by decide⟩

private theorem accepts_longFile : Extensions.default.accepts longFile = true := by
  refine (Extensions.accepts_ofList_iff _ _).mpr ⟨".v", List.mem_cons_self, by decide +kernel, ?_⟩
  have ending : Extensions.dotted (Text.lowerAscii (Text.trim ".v")).toList =
      ".v".toList.map Char.toLower := by decide +kernel
  refine ⟨(letters 253).toList.map Char.toLower, ?_⟩
  rw [ending, Text.lowerAscii, String.toList_map, longFile, String.toList_append, List.map_append]

/-- Folders of one name, one in the other, around a node. -/
def nested : Nat → Node → Node
  | 0, node => node
  | depth + 1, node => .folder [(longFolder, nested depth node)]

private theorem proper_nested {node : Node} (proper : node.Proper) (depth : Nat) :
    (nested depth node).Proper := by
  induction depth with
  | zero => exact proper
  | succ depth ih => exact .folder (by simp) (by simpa using isName_longFolder) (by simpa using ih)

private theorem at?_nested (node : Node) (depth : Nat) (place : Place) :
    (nested depth node).at? (List.replicate depth longFolder ++ place) = node.at? place := by
  induction depth with
  | zero => rfl
  | succ depth ih =>
    rw [nested, List.replicate_succ, List.cons_append, Node.at?, Node.child?, if_pos rfl]
    exact ih

/-- Every file inside is led to by the names of all the folders. -/
private theorem place_of_nested {node : Node} {depth : Nat} {place : Place}
    (there : (nested depth node).at? place = some (.file bytes)) :
    ∃ rest, place = List.replicate depth longFolder ++ rest ∧
      node.at? rest = some (.file bytes) := by
  induction depth generalizing place with
  | zero => exact ⟨place, rfl, there⟩
  | succ depth ih =>
    cases place with
    | nil => cases there
    | cons name rest =>
      by_cases same : longFolder = name
      · rw [nested, Node.at?, Node.child?, if_pos same] at there
        obtain ⟨last, rfl, inside⟩ := ih there
        exact ⟨last, by rw [← same, List.replicate_succ, List.cons_append], inside⟩
      · rw [nested, Node.at?, Node.child?, if_neg same, Node.child?] at there
        cases there

private theorem names_of_lone {name : String} {held : ByteArray} {place : Place}
    (there : (Node.folder [(name, .file held)]).at? place = some (.file bytes)) :
    place = [name] := by
  cases place with
  | nil => cases there
  | cons first rest =>
    by_cases same : name = first
    · rw [Node.at?, Node.child?, if_pos same] at there
      cases rest with
      | nil => rw [same]
      | cons => cases there
    · rw [Node.at?, Node.child?, if_neg same, Node.child?] at there
      cases there

/-- Each name of the greatest length takes 256 bytes of a path. -/
private theorem utf8ByteSize_of_long {names : List String}
    (long : ∀ name ∈ names, name.utf8ByteSize = 255) :
    256 * names.length ≤ (Path.ofNames true names).utf8ByteSize := by
  have slash : "/".utf8ByteSize = 1 := by decide
  induction names with
  | nil => exact Nat.zero_le _
  | cons name names ih =>
    have rest := ih fun other member => long other (List.mem_cons_of_mem _ member)
    have own := long name List.mem_cons_self
    rw [Path.ofNames, if_pos rfl, String.utf8ByteSize_append, slash] at rest ⊢
    rw [List.length_cons]
    rcases names with _ | ⟨next, names⟩
    · rw [String.intercalate_singleton, own, List.length_nil]
    · rw [String.intercalate_cons_of_ne_nil (by simp), String.utf8ByteSize_append,
        String.utf8ByteSize_append, slash, own]
      omega

/-- Fifteen folders around one file. -/
def deepDisk (workingFolder : Place) : Disk :=
  ⟨nested 15 (.folder [(longFile, .file "x".toUTF8)]), workingFolder⟩

/-- The place of the innermost folder. -/
def innermost : Place := List.replicate 15 longFolder

variable {workingFolder : Place}

private theorem proper_deepDisk : (deepDisk workingFolder).root.Proper :=
  proper_nested (.folder (by simp) (by simpa using isName_longFile) (by simpa using .file _)) 15

private theorem at?_innermost :
    (deepDisk workingFolder).root.at? innermost = some (.folder [(longFile, .file "x".toUTF8)]) := by
  have inside := at?_nested (.folder [(longFile, .file "x".toUTF8)]) 15 []
  rwa [List.append_nil] at inside

private theorem at?_deep_file :
    (deepDisk workingFolder).root.at? (innermost ++ [longFile]) = some (.file "x".toUTF8) := by
  rw [Node.at?_append at?_innermost, Node.at?, Node.child?, if_pos rfl]
  rfl

/-- The only file counts in none of the folders: sixteen names of 256 bytes with their slashes come
to just what a path may not reach. -/
private theorem not_offers_deep {extensions : Extensions}
    {folder names : RawPlace} :
    ¬(deepDisk workingFolder).medium.Offers extensions folder names bytes := by
  intro offers
  obtain ⟨place, node, shape, there, isFile⟩ := Node.exists_place offers.there
  have reached := offers.reached
  rw [shape, RawPath.ofPlace_encode] at reached
  obtain ⟨text, _, _, isText, leads, _⟩ := exists_of_resolve reached
  cases (textOf?_encode _).symm.trans isText
  cases node with
  | link | folder => cases isFile
  | file held =>
    obtain ⟨rest, rfl, inside⟩ := place_of_nested there
    cases names_of_lone inside
    have long : ∀ name ∈ List.replicate 15 longFolder ++ [longFile], name.utf8ByteSize = 255 := by
      intro name member
      rcases List.mem_append.mp member with folder | file
      · rw [List.eq_of_mem_replicate folder]
        exact utf8ByteSize_letters 255
      · rw [List.mem_singleton.mp file]
        exact utf8ByteSize_longFile
    exact node?_ne_ok_of_long (utf8ByteSize_of_long long) _ leads

/-- No folder is opened with it, by whatever path and from wherever it is picked. -/
private theorem loadFolder_deep {path : String} {place : Place}
    {entries : List (String × Node)}
    (leads : (deepDisk workingFolder).node? path = .ok (place, .folder entries))
    (named : (deepDisk workingFolder).canonical path = .ok place) :
    (deepDisk workingFolder).loadFolder path .default = .error .noMatchingFiles := by
  have around : (deepDisk workingFolder).medium.root.at? (place.map Text.encode) =
      some (.folder (Node.items entries)) := by
    refine (Node.at?_item _ _).trans ?_
    rw [at?_of_node? leads]
    rfl
  obtain ⟨found, member, _, _, loads⟩ :=
    Medium.loadFolder_picks (lawful_medium proper_deepDisk) around .default
  have none : found = [] := List.eq_nil_iff_forall_not_mem.mpr fun ⟨names, bytes⟩ inside =>
    not_offers_deep ((member names bytes).mp inside)
  exact ((loads _ (resolve_of_node? leads)).1 _ (canonical_encode named)).trans (if_pos none)

/-- The only file below the first folder is accepted and yet left out: its path is too long. -/
theorem deep_file_is_left_out :
    (deepDisk []).root.Proper ∧
    (∃ entries, (deepDisk []).node? (Path.ofNames true [longFolder]) =
      .ok ([longFolder], .folder entries)) ∧
    (deepDisk []).root.at? ([longFolder] ++ (List.replicate 14 longFolder ++ [longFile])) =
      some (.file "x".toUTF8) ∧
    Extensions.default.accepts longFile = true ∧
    (deepDisk []).loadFolder (Path.ofNames true [longFolder]) .default = .error .noMatchingFiles := by
  have around : (deepDisk []).root.at? ([] ++ [longFolder]) =
      some (nested 14 (.folder [(longFile, .file "x".toUTF8)])) := by
    rw [List.nil_append, deepDisk, nested, Node.at?, Node.child?, if_pos rfl]
    rfl
  have short : (Path.ofNames true ([] ++ [longFolder])).utf8ByteSize < Path.lengthBound := by
    have slash : "/".utf8ByteSize = 1 := by decide
    rw [Path.ofNames, if_pos rfl, String.utf8ByteSize_append, List.nil_append,
      String.intercalate_singleton, slash, longFolder, utf8ByteSize_letters]
    decide
  have leads := node?_ofNames proper_deepDisk around (by simp [nested]) short
  have named := canonical_ofNames proper_deepDisk around (by simp [nested]) short
  exact ⟨proper_deepDisk, ⟨_, leads⟩, at?_deep_file, accepts_longFile,
    loadFolder_deep leads named⟩

private theorem node?_here :
    (deepDisk innermost).node? "." =
      .ok (innermost, .folder [(longFile, .file "x".toUTF8)]) := by
  have dot : Path.behind [] "." = "." := by decide
  have opens : (deepDisk innermost).Opens [] innermost _ := opens_workingFolder at?_innermost
  obtain ⟨left, there, _, atPlace, folder, found⟩ :=
    find_of_opens (by simp) (by decide : Path.IsComponent ".") opens rfl (by decide)
  rw [dot] at found
  rw [node?, found, walk_idle folder (.inl rfl), walk_eq, walkWith, atPlace, folder]

private theorem behind_dot (name : String) : "./" ++ name = Path.behind ["."] name := by
  rw [← String.toList_inj, Path.toList_behind_cons]
  simp [Path.behind]

private theorem names_beside : Path.Names ("./" ++ longFile) ["."] longFile where
  shape := behind_dot longFile
  parts := by simp [Path.IsComponent]
  isName := isName_longFile
  taken := by
    have dots : "./".utf8ByteSize = 2 := by decide
    have size : ("./" ++ longFile).utf8ByteSize = 257 := by
      rw [String.utf8ByteSize_append, utf8ByteSize_longFile, dots]
    refine refusal?_eq_none_iff.mpr ⟨?_, ?_, ?_⟩
    · rw [String.toList_append, List.mem_append]
      exact not_or.mpr ⟨by decide, isName_longFile.no_zero⟩
    · rw [size]
      decide
    · intro empty
      rw [empty] at size
      exact absurd size (by decide)

private theorem pickedName_beside :
    RawPath.pickedName (Text.encode ("./" ++ longFile)) = longFile := by
  have dots : Text.encode "./" = [RawPath.dot, RawPath.slash] := by
    rw [Text.encode_eq]
    decide
  have named : RawPath.fileName? (RawPath.dot :: RawPath.slash :: Text.encode longFile) =
      some (Text.encode longFile) :=
    RawPath.fileName?_behind [RawPath.dot] (Node.isEntry_encode isName_longFile)
  simp only [RawPath.pickedName, Text.encode_append, dots, List.cons_append, List.nil_append, named,
    Option.map_some, Text.decode_encode, Option.getD_some]

/-- In the innermost folder the file can be opened alone by its name, and the folder itself has
nothing to be opened with. -/
theorem deep_file_opens_alone :
    let disk := deepDisk innermost
    disk.root.Proper ∧
    (∃ entries, disk.node? "." = .ok (innermost, .folder entries)) ∧
    disk.root.at? (innermost ++ [longFile]) = some (.file "x".toUTF8) ∧
    disk.node? ("./" ++ longFile) = .ok (innermost ++ [longFile], .file "x".toUTF8) ∧
    disk.loadSingle ("./" ++ longFile) .default = .ok ⟨longFile, longFile, "x"⟩ ∧
    disk.loadFolder "." .default = .error .noMatchingFiles := by
  intro disk
  have opens : disk.Opens ["."] innermost [(longFile, .file "x".toUTF8)] :=
    ⟨⟨_, .idle (Node.wayAt?_eq_into_iff.mpr ⟨_, at?_innermost⟩) (.inl rfl) (.done _ _)⟩,
      at?_innermost⟩
  have held : Node.child? [(longFile, .file "x".toUTF8)] longFile = some (.file "x".toUTF8) :=
    if_pos rfl
  have leads : disk.node? ("./" ++ longFile) =
      .ok (innermost ++ [longFile], .file "x".toUTF8) := by
    have noLink : ∀ target, Node.child? [(longFile, .file "x".toUTF8)] longFile ≠
        some (.link target) := by
      rw [held]
      nofun
    rw [node?, find_of_names opens names_beside noLink, foundAmong, held]
  have there : disk.medium.root.at? ((innermost ++ [longFile]).map Text.encode) =
      some (.file (.ok "x".toUTF8)) := by
    refine (Node.at?_item _ _).trans ?_
    rw [at?_deep_file]
    rfl
  have alone : disk.loadSingle ("./" ++ longFile) .default = .ok ⟨longFile, longFile, "x"⟩ := by
    refine Medium.loadSingle_eq_ok_iff.mpr ?_
    rw [pickedName_beside]
    have text : Text.trimLineEnds (Text.decodeLossy "x".toUTF8) = "x" := by decide +kernel
    exact ⟨accepts_longFile, _, Medium.read_of_resolve there (resolve_of_node? leads), by
      rw [text]
      rfl⟩
  have named : disk.canonical "." = .ok innermost := by
    rw [canonical, node?_here]
    rfl
  exact ⟨proper_deepDisk, ⟨_, node?_here⟩, at?_deep_file, leads, alone,
    loadFolder_deep node?_here named⟩

end HdlDesk.Disk
