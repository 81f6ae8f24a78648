import Mathlib
import HdlDesk.Proofs.Disk.Names
import HdlDesk.Proofs.Source.Configured
import HdlDesk.Proofs.Source.Visits
import HdlDesk.Proofs.Text.Utf8
import HdlDesk.Source.Loading

/-!
# What a folder is picked with

From a folder are picked the files that the walk comes past, that are accepted, and that can be read
by their own paths, in the order of the names that lead to them. The names are shown as text, so two
files may be shown alike; where all names are texts, the paths that are shown are in order too.
-/
namespace HdlDesk

variable {name : RawName} {folder names : RawPlace} {path : RawPath} {bytes : ByteArray}
  {extensions : Extensions}

/-! ### Names in paths -/

/-- The name is written as a text is. -/
def RawName.IsText (name : RawName) : Prop := Text.encode (Text.decode name) = name

namespace RawPath

theorem fileName?_behind (front : RawPath) (isEntry : RawName.IsEntry name) :
    fileName? (front ++ slash :: name) = some name := by
  have alone : name.splitOn slash = [name] := by
    simpa using List.splitOn_intercalate slash (by simpa using isEntry.component)
      (List.cons_ne_nil name [])
  simp [fileName?, List.splitOn_append_cons_self, alone, isEntry.not_empty, isEntry.not_here,
    isEntry.not_around]

section Place

variable {front : RawPlace} (areEntries : ∀ other ∈ front ++ [name], RawName.IsEntry other)
include areEntries

/-- Before the slash of the root stands nothing. -/
theorem splitOn_ofPlace : (ofPlace (front ++ [name])).splitOn slash = [] :: (front ++ [name]) := by
  have split : (ofPlace (front ++ [name])).splitOn slash =
      [[]] ++ ([slash].intercalate (front ++ [name])).splitOn slash :=
    List.splitOn_append_cons_self [] _
  rwa [List.splitOn_intercalate slash (fun other member => (areEntries other member).component)
    (by simp)] at split

theorem fileName?_ofPlace : fileName? (ofPlace (front ++ [name])) = some name := by
  have isEntry := areEntries name (by simp)
  simp [fileName?, splitOn_ofPlace areEntries, isEntry.not_empty, isEntry.not_here,
    isEntry.not_around]

end Place

end RawPath

/-- Behind the folder around a folder stand the folder's own name, if it has one, and what follows. -/
theorem drop_around (folder names : RawPlace) :
    (folder ++ names).drop folder.dropLast.length = folder.getLast?.toList ++ names := by
  rcases List.eq_nil_or_concat folder with rfl | ⟨front, last, rfl⟩ <;> simp

namespace Medium

variable {medium : Medium}

/-- A file below a picked folder as it is collected: named by the last of its names, with a path
that begins with the folder's own name. -/
def collected (folder names : RawPlace) (bytes : ByteArray) : RawSource :=
  ⟨Text.decode (names.getLastD []),
    "/".intercalate ((folder.getLast?.toList ++ names).map Text.decode), bytes⟩

/-- The same file as it is opened. -/
def opened (folder names : RawPlace) (bytes : ByteArray) : SourceFile :=
  ⟨(collected folder names bytes).name, (collected folder names bytes).path,
    Text.decodeLossy bytes⟩

/-- What a loader can rely on: a tree with proper names, paths of files that lead to them as far as
they are not refused, and canonical paths that lead where the paths do. -/
structure Lawful (medium : Medium) : Prop where
  proper : medium.root.Proper
  own : ∀ front last reading, medium.root.at? (front ++ [last]) = some (.file reading) →
    ∀ place, medium.resolve (RawPath.ofPlace (front ++ [last])) = .ok place →
      place = front ++ [last]
  canonical : ∀ path place other, medium.resolve path = .ok place →
    medium.canonical path = .ok other → other = place

/-- The file that some names lead to from a folder counts: the walk is kept from nothing on the way
to it, it is accepted, and reading it by its own path gives its bytes. -/
structure Offers (medium : Medium) (extensions : Extensions) (folder names : RawPlace)
    (bytes : ByteArray) : Prop where
  there : medium.root.at? (folder ++ names) = some (.file (.ok bytes))
  seen : ∀ front, front <+: names → medium.refusal (folder ++ front) = none
  accepted : extensions.accepts (Text.decode (names.getLastD [])) = true
  reached : medium.resolve (RawPath.ofPlace (folder ++ names)) = .ok (folder ++ names)

/-- A file below a folder is not the folder, so some name leads to it. -/
theorem exists_last {entries : List (RawName × Item)} {reading : Except DiskError ByteArray}
    (around : medium.root.at? folder = some (.folder entries))
    (there : medium.root.at? (folder ++ names) = some (.file reading)) :
    ∃ front last, names = front ++ [last] := by
  rcases List.eq_nil_or_concat names with rfl | ⟨front, last, shape⟩
  · rw [List.append_nil, around] at there
    cases there
  · exact ⟨front, last, by rw [shape, List.concat_eq_append]⟩

theorem isFolder_of_resolve {entries : List (RawName × Item)}
    (around : medium.root.at? folder = some (.folder entries))
    (leads : medium.resolve path = .ok folder) : medium.isFolder path = true := by
  rw [isFolder, item?, leads]
  simp only [around, Option.elim_some]

/-- The names and the bytes that are picked of a visit. -/
def offered? (medium : Medium) (extensions : Extensions) (folder : RawPlace) :
    Visit → Option (RawPlace × ByteArray)
  | .ok (names, .file _) =>
    if extensions.accepts (RawPath.pickedName (RawPath.ofPlace (folder ++ names))) then
      (medium.read (RawPath.ofPlace (folder ++ names))).toOption.map fun bytes => (names, bytes)
    else none
  | _ => none

section Lawful

variable (lawful : medium.Lawful)
include lawful

theorem pickedName_ofPlace {entries : List (RawName × Item)} {reading : Except DiskError ByteArray}
    (around : medium.root.at? folder = some (.folder entries))
    (there : medium.root.at? (folder ++ names) = some (.file reading)) :
    RawPath.pickedName (RawPath.ofPlace (folder ++ names)) = Text.decode (names.getLastD []) := by
  obtain ⟨front, last, rfl⟩ := exists_last around there
  rw [← List.append_assoc] at there ⊢
  rw [RawPath.pickedName, RawPath.fileName?_ofPlace (lawful.proper.at? there).2,
    List.getLastD_concat]
  rfl

/-- By its own path a file gives its bytes or nothing. -/
theorem read_ofPlace_eq_ok_iff {entries : List (RawName × Item)}
    {reading : Except DiskError ByteArray}
    (around : medium.root.at? folder = some (.folder entries))
    (there : medium.root.at? (folder ++ names) = some (.file reading)) :
    medium.read (RawPath.ofPlace (folder ++ names)) = .ok bytes ↔
      reading = .ok bytes ∧
        medium.resolve (RawPath.ofPlace (folder ++ names)) = .ok (folder ++ names) := by
  obtain ⟨front, last, rfl⟩ := exists_last around there
  have own := lawful.own (folder ++ front) last reading (by rwa [List.append_assoc])
  rw [List.append_assoc] at own
  unfold read item?
  cases leads : medium.resolve (RawPath.ofPlace (folder ++ (front ++ [last]))) with
  | error refused => simp
  | ok place =>
    rw [own place leads]
    simp [there]

section Walk

variable {entries : List (RawName × Item)}
  (around : medium.root.at? folder = some (.folder entries))
include around

theorem mem_visits {item : Item} :
    .ok (names, item) ∈ medium.visits folder ↔
      medium.root.at? (folder ++ names) = some item ∧
        ∀ front, front <+: names → medium.refusal (folder ++ front) = none := by
  rw [visits, around, Item.at?_append around]
  exact Item.mem_visits (lawful.proper.at? around).1

/-- What is picked of a visit is a file that counts. -/
theorem offered?_eq_some_iff {visit : Visit} (visited : visit ∈ medium.visits folder) :
    medium.offered? extensions folder visit = some (names, bytes) ↔
      visit = .ok (names, .file (.ok bytes)) ∧ medium.Offers extensions folder names bytes := by
  rcases visit with refused | ⟨others, reading | reading | inside⟩
  · exact ⟨nofun, nofun⟩
  · obtain ⟨there, seen⟩ := (mem_visits lawful around).mp visited
    have read : ∀ bytes, medium.read (RawPath.ofPlace (folder ++ others)) = .ok bytes ↔
        reading = .ok bytes ∧
          medium.resolve (RawPath.ofPlace (folder ++ others)) = .ok (folder ++ others) :=
      fun _ => read_ofPlace_eq_ok_iff lawful around there
    rw [offered?, pickedName_ofPlace lawful around there]
    constructor
    · intro taken
      split at taken
      next accepted =>
        cases isRead : medium.read (RawPath.ofPlace (folder ++ others)) with
        | error refused => simp [isRead, Except.toOption] at taken
        | ok held =>
          rw [isRead] at taken
          cases taken
          obtain ⟨rfl, reached⟩ := (read _).mp isRead
          exact ⟨rfl, there, seen, accepted, reached⟩
      · cases taken
    · rintro ⟨⟨⟩, offers⟩
      rw [if_pos offers.accepted, (read _).mpr ⟨rfl, offers.reached⟩]
      rfl
  · exact ⟨nofun, nofun⟩
  · exact ⟨nofun, nofun⟩

/-- The files that are picked are those that count. -/
theorem mem_found :
    (names, bytes) ∈ (medium.visits folder).filterMap (medium.offered? extensions folder) ↔
      medium.Offers extensions folder names bytes := by
  rw [List.mem_filterMap]
  constructor
  · rintro ⟨visit, visited, taken⟩
    exact ((offered?_eq_some_iff lawful around visited).mp taken).2
  · intro offers
    have visited := (mem_visits lawful around).mpr ⟨offers.there, offers.seen⟩
    exact ⟨_, visited, (offered?_eq_some_iff lawful around visited).mpr ⟨rfl, offers⟩⟩

theorem increasing_found :
    ((medium.visits folder).filterMap (medium.offered? extensions folder)).Pairwise
      fun offered other => offered.1 < other.1 := by
  have increasing : (medium.visits folder).Pairwise fun visit other => ∀ names found others further,
      visit = .ok (names, found) → other = .ok (others, further) → names < others := by
    rw [visits, around]
    exact Item.increasing_visits (lawful.proper.at? around).1 _
  refine List.pairwise_filterMap.mpr (increasing.imp_of_mem ?_)
  rintro visit other visited visitedOther less ⟨names, bytes⟩ taken ⟨others, held⟩ takenOther
  obtain ⟨same, _⟩ := (offered?_eq_some_iff lawful around visited).mp taken
  obtain ⟨sameOther, _⟩ := (offered?_eq_some_iff lawful around visitedOther).mp takenOther
  exact less _ _ _ _ same sameOther

theorem collect?_eq_map (extensions : Extensions) {visit : Visit} (visited : visit ∈ medium.visits folder) :
    medium.collect? extensions folder visit =
      (medium.offered? extensions folder visit).map fun offered =>
        collected folder offered.1 offered.2 := by
  rcases visit with refused | ⟨names, reading | reading | inside⟩
  · rfl
  · obtain ⟨there, _⟩ := (mem_visits lawful around).mp visited
    unfold collect? offered?
    dsimp only
    rw [pickedName_ofPlace lawful around there, drop_around]
    split
    · rw [Option.map_map]
      rfl
    · rfl
  · rfl
  · rfl

/-- Accepting the collected files a second time changes nothing. -/
theorem loadFolder_eq {path : RawPath} (leads : medium.resolve path = .ok folder)
    (named : medium.canonical path = .ok folder) :
    medium.loadFolder path extensions =
      let found := (medium.visits folder).filterMap (medium.offered? extensions folder)
      if found = [] then .error .noMatchingFiles
      else .ok (found.map fun offered => opened folder offered.1 offered.2) := by
  have raws := List.filterMap_congr fun visit visited =>
    collect?_eq_map lawful around extensions visited
  rw [← List.map_filterMap] at raws
  have accepted : ∀ raw ∈ ((medium.visits folder).filterMap
      (medium.offered? extensions folder)).map fun offered => collected folder offered.1 offered.2,
      extensions.accepts raw.name = true :=
    List.forall_mem_map.mpr fun _ member => ((mem_found lawful around).mp member).accepted
  rw [loadFolder, collectFolder, if_pos (isFolder_of_resolve around leads), named]
  dsimp only
  generalize (medium.visits folder).filterMap (medium.offered? extensions folder) = found
    at raws accepted
  rw [raws, Extensions.readFolder, List.filter_eq_self.mpr accepted, List.map_map]
  by_cases none : found = []
  · rw [none]
    rfl
  · rw [if_neg none, if_neg (by simpa using none)]
    rfl

/-- The components of an opened file's path are the folder's name and the names that lead to the
file, if these are texts. -/
theorem components_opened (offers : medium.Offers extensions folder names bytes)
    (areTexts : ∀ name ∈ folder ++ names, RawName.IsText name) :
    (Path.components (opened folder names bytes).path).map Text.encode =
      folder.getLast?.toList ++ names := by
  obtain ⟨front, last, rfl⟩ := exists_last around offers.there
  have areEntries := (lawful.proper.at? offers.there).2
  have isComponent : ∀ name ∈ folder ++ (front ++ [last]), Path.IsComponent (Text.decode name) := by
    intro name member slash
    rw [← Text.slash_mem_encode_iff, areTexts name member] at slash
    exact (areEntries name member).component slash
  -- The folder's own name is the last one of its place.
  have inPlace : ∀ name ∈ folder.getLast?.toList ++ (front ++ [last]),
      name ∈ folder ++ (front ++ [last]) := by
    intro name member
    rw [List.mem_append] at member ⊢
    exact member.imp_left fun own => List.mem_of_getLast? (Option.mem_toList.mp own)
  have components : Path.components (collected folder (front ++ [last]) bytes).path =
      (folder.getLast?.toList ++ (front ++ [last])).map Text.decode := by
    have split : Path.components
        (Path.behind ((folder.getLast?.toList ++ front).map Text.decode) (Text.decode last)) = _ :=
      Path.components_behind (List.forall_mem_map.mpr fun name member => isComponent name (inPlace name (by
        rw [← List.append_assoc]
        exact List.mem_append_left _ member)))
      (isComponent last (by simp))
    rwa [← Path.intercalate_eq_behind, ← List.map_singleton, ← List.map_append,
      List.append_assoc] at split
  have given : (collected folder (front ++ [last]) bytes).path ≠ "" := by
    intro empty
    rw [empty] at components
    have noName : "" ∈ (folder.getLast?.toList ++ (front ++ [last])).map Text.decode := by
      rw [← components]
      decide
    obtain ⟨name, member, blank⟩ := List.mem_map.mp noName
    have isText := areTexts name (inPlace name member)
    rw [RawName.IsText, blank] at isText
    have nothing : Text.encode "" = [] := by simp [Text.encode_eq]
    exact (areEntries name (inPlace name member)).not_empty (isText.symm.trans nothing)
  rw [SourceFile.path, opened, if_neg given, components, List.map_map]
  exact (List.map_congr_left fun name member => areTexts name (inPlace name member)).trans
    (List.map_id _)

end Walk

end Lawful

/-- A folder is opened with exactly the files below it that count, each once and in the order of the
names that lead to them; where the names are texts, that is the order of the paths that are shown.
It is refused if there is none, and only then, unless the medium refuses to name the folder. By
whatever path the folder is picked makes no difference. -/
theorem loadFolder_picks (lawful : medium.Lawful) {entries : List (RawName × Item)}
    (around : medium.root.at? folder = some (.folder entries)) (extensions : Extensions) :
    ∃ found : List (RawPlace × ByteArray),
      (∀ names bytes, (names, bytes) ∈ found ↔ medium.Offers extensions folder names bytes) ∧
      found.Pairwise (fun offered other => offered.1 < other.1) ∧
      ((∀ offered ∈ found, ∀ name ∈ folder ++ offered.1, RawName.IsText name) →
        (found.map fun offered => opened folder offered.1 offered.2).Pairwise fun file other =>
          (Path.components file.path).map Text.encode <
            (Path.components other.path).map Text.encode) ∧
      ∀ path, medium.resolve path = .ok folder →
        (∀ place, medium.canonical path = .ok place → medium.loadFolder path extensions =
          if found = [] then .error .noMatchingFiles
          else .ok (found.map fun offered => opened folder offered.1 offered.2)) ∧
        ∀ refused, medium.canonical path = .error refused →
          medium.loadFolder path extensions = .error (.ofDisk refused) := by
  refine ⟨(medium.visits folder).filterMap (medium.offered? extensions folder),
    fun names bytes => mem_found lawful around, increasing_found lawful around, ?_, ?_⟩
  · intro areTexts
    refine List.pairwise_map.mpr ((increasing_found lawful around).imp_of_mem ?_)
    intro offered other member memberOther less
    rw [components_opened lawful around ((mem_found lawful around).mp member) (areTexts _ member),
      components_opened lawful around ((mem_found lawful around).mp memberOther)
        (areTexts _ memberOther)]
    exact List.append_left_lt less
  · intro path leads
    constructor
    · intro place named
      cases lawful.canonical path folder place leads named
      exact loadFolder_eq lawful around leads named
    · intro refused named
      rw [loadFolder, collectFolder, if_pos (isFolder_of_resolve around leads), named]

/-! ### A medium with names that are no texts -/

/-- A medium whose paths are lists of names from the root, but for some links. -/
def plain (root : Item) (links : List (RawPath × RawPlace))
    (refusal : RawPlace → Option DiskError) : Medium :=
  let resolve (path : RawPath) : Except DiskError RawPlace :=
    match links.lookup path with
    | some place => .ok place
    | none =>
      let place := (path.splitOn RawPath.slash).filter (· ≠ [])
      if (root.at? place).isSome then .ok place else .error .notFound
  { root, resolve, canonical := resolve, refusal }

theorem lawful_plain {root : Item} (proper : root.Proper) {links : List (RawPath × RawPlace)}
    (relative : ∀ link ∈ links, link.1.head? ≠ some RawPath.slash)
    (refusal : RawPlace → Option DiskError) : (plain root links refusal).Lawful where
  proper := proper
  own := by
    intro front last reading there place leads
    have areEntries := (proper.at? there).2
    have noLink : links.lookup (RawPath.ofPlace (front ++ [last])) = none := by
      refine List.lookup_eq_none_iff.mpr fun link member => ?_
      refine bne_iff_ne.mpr fun same => relative link member ?_
      rw [← same]
      rfl
    have names : ((RawPath.ofPlace (front ++ [last])).splitOn RawPath.slash).filter (· ≠ []) =
        front ++ [last] := by
      rw [RawPath.splitOn_ofPlace areEntries, List.filter_cons_of_neg (by simp)]
      exact List.filter_eq_self.mpr fun name member => by simpa using (areEntries name member).not_empty
    simp only [plain, noLink, names] at leads
    split at leads <;> cases leads
    rfl
  canonical path place other leads named := Except.ok.inj (named.symm.trans leads)

/-- A folder `p` with two files whose names are no texts, a file `a.v` that cannot be read, a folder
`b` that cannot be listed, a link `k.v` and a source `x.V` in a hidden folder. -/
def plainEntries : List (RawName × Item) :=
  [([0xFF, 0x2E, 0x76], .file (.ok "f".toUTF8)), ([0xFE, 0x2E, 0x76], .file (.ok "e".toUTF8)),
    ([0x61, 0x2E, 0x76], .file (.error (.refused "Permission denied (os error 13)"))),
    ([0x62], .folder [([0x62, 0x2E, 0x76], .file (.ok "b".toUTF8))]),
    ([0x6B, 0x2E, 0x76], .other (.ok "k".toUTF8)),
    ([0x2E, 0x68], .folder [([0x78, 0x2E, 0x56], .file (.ok "h".toUTF8))])]

/-- The folder, with a link `l` to it. -/
def plainMedium : Medium :=
  plain (.folder [([0x70], .folder plainEntries)]) [([0x6C], [[0x70]])] fun place =>
    if place = [[0x70], [0x62]] then some (.refused "Permission denied (os error 13)") else none

theorem lawful_plainMedium : plainMedium.Lawful := by
  have lone : ∀ (name : RawName) (bytes : ByteArray), RawName.IsEntry name →
      (Item.folder [(name, .file (.ok bytes))]).Proper := fun name bytes isEntry =>
    .folder (by simp) (by simpa using isEntry) (by simpa using .file _)
  have below : (Item.folder plainEntries).Proper := by
    refine .folder (by decide) ?_ ?_
    · simp only [plainEntries, List.forall_mem_cons]
      decide
    · simp only [plainEntries, List.forall_mem_cons]
      exact ⟨.file _, .file _, .file _, lone _ _ (by decide), .other _, lone _ _ (by decide), nofun⟩
  exact lawful_plain (.folder (by simp) (by simp; decide) (by simpa using below)) (by simp; decide) _

/-- By the link and by its own path the folder is opened with the three files that can be reached and
read, of which two are shown alike. -/
theorem plainMedium_loadFolder :
    ∃ found : List (RawPlace × ByteArray),
      (∀ names bytes, (names, bytes) ∈ found ↔
        plainMedium.Offers .default [[0x70]] names bytes) ∧
      found.Pairwise (fun offered other => offered.1 < other.1) ∧
      (found.map fun offered => opened [[0x70]] offered.1 offered.2) =
        [⟨"x.V", "p/.h/x.V", "h"⟩, ⟨"\uFFFD.v", "p/\uFFFD.v", "e"⟩,
          ⟨"\uFFFD.v", "p/\uFFFD.v", "f"⟩] ∧
      plainMedium.loadFolder [0x2F, 0x70] .default = plainMedium.loadFolder [0x6C] .default := by
  have around : plainMedium.root.at? [[0x70]] = some (.folder plainEntries) := rfl
  obtain ⟨found, member, increasing, _, loads⟩ :=
    loadFolder_picks lawful_plainMedium around .default
  have byLink := (loads [0x6C] rfl).1 _ rfl
  have byPath := (loads [0x2F, 0x70] (by decide +kernel)).1 _ rfl
  refine ⟨found, member, increasing, ?_, byPath.trans byLink.symm⟩
  have loaded : plainMedium.loadFolder [0x6C] .default = .ok
      [⟨"x.V", "p/.h/x.V", "h"⟩, ⟨"\uFFFD.v", "p/\uFFFD.v", "e"⟩,
        ⟨"\uFFFD.v", "p/\uFFFD.v", "f"⟩] := by cbv
  rw [loaded] at byLink
  split at byLink
  · cases byLink
  · exact (Except.ok.inj byLink).symm

end Medium

end HdlDesk
