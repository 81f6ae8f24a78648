import HdlDesk.Proofs.Disk.Siblings

/-!
# Folders that are missing

Where a path goes on by names below a folder that has no entry of the first of them, nothing is
found, whatever the path is walked for. To make the folders of such a path makes one for each name,
from the first to the last, or none at all. Nothing stood where they are made, so every way of the
tree stays, and the same components lead to the innermost of them afterwards.
-/
namespace HdlDesk.Path

variable {front names : List String} {last : String}

theorem counting_append_names (absolute : Bool) {front : List String}
    (each : ∀ name ∈ names, IsName name) :
    counting absolute (front ++ names) = counting absolute front ++ names := by
  induction names generalizing front with
  | nil => simp
  | cons name names ih =>
    have isName := each name List.mem_cons_self
    rw [List.append_cons, ih fun other member => each other (List.mem_cons_of_mem _ member),
      counting_append absolute front isName.not_empty isName.not_here, ← List.append_cons]

/-- The folder around has the last of some names, behind the components that count. -/
theorem parent?_of_names (parts : ∀ component ∈ front, IsComponent component) {final : String}
    (each : ∀ name ∈ names ++ [final], IsName name) (isName : IsName last) :
    let absolute := isAbsolute (behind front "")
    parent? (behind (front ++ (names ++ [final])) last) =
      some (behind (rooted absolute (counting absolute front) ++ names) final) := by
  intro absolute
  have parts' : ∀ component ∈ front ++ (names ++ [final]), IsComponent component := by
    intro component member
    rcases List.mem_append.mp member with before | inside
    · exact parts component before
    · exact (each component inside).component
  have same : isAbsolute (behind (front ++ (names ++ [final])) last) = absolute := by
    have noSlash : IsComponent "" := by decide
    rw [isAbsolute_behind isName.component noSlash]
    exact isAbsolute_append (fun name member => (each name member).not_empty)
      fun name member => (each name member).component
  rw [parent?_behind parts' isName.component isName.not_empty isName.not_here,
    same, counting_append_names absolute each, ← List.append_assoc, ofNames_concat,
    rooted_append]

end HdlDesk.Path

namespace HdlDesk

theorem Node.KeepsWays.trans {root mid next : Node} (first : root.KeepsWays mid)
    (second : mid.KeepsWays next) : root.KeepsWays next :=
  fun place way leads => second place way (first place way leads)

namespace Approach

variable {root : Node} {links left : Nat} {place last : Place}

theorem trans {kept : Nat} {there : Place} {steps more : List Path.Step}
    (first : Approach root links place steps left there)
    (second : Approach root left there more kept last) :
    Approach root links place (steps ++ more) kept last := by
  induction first with
  | done => exact second
  | idle into idles _ ih => exact .idle into idles (ih second)
  | up into _ ih => exact .up into (ih second)
  | enter into fits child _ ih => exact .enter into fits child (ih second)
  | jump into fits link _ ih =>
    have onward := ih second
    rw [List.append_assoc] at onward
    exact .jump into fits link onward

/-- By the names of folders that stand one in the other. -/
theorem enters {names : List String} {entries : List (String × Node)}
    (folder : root.at? (place ++ names) = some (.folder entries))
    (each : ∀ name ∈ names, Path.IsName name) :
    Approach root links place (names.map .enter) links (place ++ names) := by
  induction names generalizing place with
  | nil => simpa using Approach.done links place
  | cons name names ih =>
    have behind : place ++ name :: names = place ++ [name] ++ names := by simp
    -- Only a folder has something below it.
    have folders : ∀ {front more}, place ++ name :: names = front ++ more →
        root.wayAt? front = some .into := by
      intro front more shape
      rw [shape] at folder
      obtain ⟨around, toAround, below⟩ := Node.exists_at?_of_append folder
      cases around with
      | folder inner => exact Node.wayAt?_eq_into_iff.mpr ⟨inner, toAround⟩
      | file | link => cases more <;> cases below
    rw [behind] at folder ⊢
    exact .enter (folders rfl) (each name List.mem_cons_self).fits (folders behind)
      (ih folder fun other member => each other (List.mem_cons_of_mem _ member))

end Approach

namespace Disk

variable {disk mid next : Disk} {path : String} {front names : List String} {name last : String}
  {place : Place} {entries : List (String × Node)}

/-- Folders of these names have been made below a place, one in the other, and every way of the tree
has stayed. -/
structure Lays (disk next : Disk) (place : Place) (names : List String) : Prop where
  workingFolder : next.workingFolder = disk.workingFolder
  keeps : disk.root.KeepsWays next.root
  folder : next.root.at? (place ++ names) = some (.folder [])

theorem Lays.trans {more : List String} (first : disk.Lays mid place names)
    (second : mid.Lays next (place ++ names) more) : disk.Lays next place (names ++ more) where
  workingFolder := second.workingFolder.trans first.workingFolder
  keeps := first.keeps.trans second.keeps
  folder := by rw [← List.append_assoc, second.folder]

/-- The components that led to the place lead on by the names. -/
theorem Opens.below (opens : disk.Opens front place entries) (lays : disk.Lays next place names)
    (each : ∀ name ∈ names, Path.IsName name) :
    next.Opens (front ++ names) (place ++ names) [] where
  approach := by
    obtain ⟨left, approach⟩ := opens.approach
    have sameStart : next.startPlace (Path.behind (front ++ names) "") =
        disk.startPlace (Path.behind front "") := by
      rw [startPlace, startPlace, lays.workingFolder,
        Path.isAbsolute_append (fun name member => (each name member).not_empty)
          fun name member => (each name member).component]
    rw [sameStart, List.filterMap_append, Path.filterMap_names each]
    exact ⟨left, (approach.mono lays.keeps).trans (.enters lays.folder each)⟩
  folder := lays.folder

/-- Behind the components that count stands the same folder. -/
theorem Opens.counting (opens : disk.Opens front place entries)
    (parts : ∀ component ∈ front, Path.IsComponent component) :
    let absolute := Path.isAbsolute (Path.behind front "")
    disk.Opens (Path.rooted absolute (Path.counting absolute front)) place entries where
  approach := by
    generalize same : Path.isAbsolute (Path.behind front "") = absolute
    have sameStart :
        disk.startPlace (Path.behind (Path.rooted absolute (Path.counting absolute front)) "") =
          disk.startPlace (Path.behind front "") := by
      rw [startPlace, startPlace, same, Path.isAbsolute_rooted absolute
        (fun name member => parts name (Path.mem_counting member).1)
        fun name member => (Path.mem_counting member).2]
    rw [sameStart, Path.filterMap_rooted]
    exact opens.approach_counting absolute
  folder := opens.folder

/-! ### Names that lead nowhere -/

/-- The components lead to a folder in which the first of some names is missing. -/
structure Lacks (disk : Disk) (front names : List String) (place : Place)
    (entries : List (String × Node)) : Prop where
  opens : disk.Opens front place entries
  parts : ∀ component ∈ front, Path.IsComponent component
  areNames : ∀ name ∈ names, Path.IsName name
  absent : ∀ first, names.head? = some first → Node.child? entries first = none

namespace Lacks

theorem components (lacks : disk.Lacks front names place entries) :
    ∀ component ∈ front ++ names, Path.IsComponent component := by
  intro component member
  rcases List.mem_append.mp member with before | inside
  · exact lacks.parts component before
  · exact (lacks.areNames component inside).component

theorem of_append {more : List String} (lacks : disk.Lacks front (names ++ more) place entries) :
    disk.Lacks front names place entries where
  opens := lacks.opens
  parts := lacks.parts
  areNames name member := lacks.areNames name (List.mem_append_left _ member)
  absent first begins := lacks.absent first (by rw [List.head?_append, begins]; rfl)

/-- The components that count lead to where the names are missing as well. -/
theorem counting (lacks : disk.Lacks front names place entries) :
    let absolute := Path.isAbsolute (Path.behind front "")
    disk.Lacks (Path.rooted absolute (Path.counting absolute front)) names place entries where
  opens := lacks.opens.counting lacks.parts
  parts component member := by
    rcases Path.mem_rooted member with rfl | counts
    · decide
    · exact lacks.parts component (Path.mem_counting counts).1
  areNames := lacks.areNames
  absent := lacks.absent

/-- What is below the names cannot be found. -/
theorem find (lacks : disk.Lacks front names place entries) (some : names ≠ [])
    (ends : Path.IsComponent last) {step : Path.Step}
    (isStep : Path.Step.ofComponent? last = .some step)
    (taken : refusal? (Path.behind (front ++ names) last) = none) (purpose : Purpose) :
    disk.find (Path.behind (front ++ names) last) purpose = .error .notFound := by
  obtain ⟨left, there, _, _, folder, same⟩ := find_below_opens lacks.components
    (fun name member => (lacks.areNames name member).not_empty) ends lacks.opens isStep taken
  rw [same, Path.filterMap_names lacks.areNames, walk_eq]
  obtain ⟨first, others, rfl⟩ := List.exists_cons_of_ne_nil some
  have fits := (lacks.areNames first List.mem_cons_self).fits
  have absent := lacks.absent first rfl
  -- A step is left behind the first name, and it is no closing slash.
  have more : (others.map Path.Step.enter ++ [step] : List Path.Step) ≠ [] :=
    List.concat_ne_nil step _
  have notClosing := Path.Step.concat_ne_close isStep (others.map .enter)
  simp only [List.map_cons, List.cons_append, walkWith, folder, notClosing, and_false,
    Nat.not_lt.mpr fits, absent, more, if_false]

end Lacks

/-! ### Making folders -/

theorem makeFolder_missing (opens : disk.Opens front place entries)
    (names : Path.Names path front name) (absent : Node.child? entries name = none) :
    ∃ next, disk.makeFolder path = (.ok (), next) ∧ disk.Lays next place [name] := by
  have noLink : ∀ target, Node.child? entries name ≠ some (.link target) := by simp [absent]
  have noWay : ∀ held, Node.child? entries name = some held → ∃ bytes, held = .file bytes := by
    simp [absent]
  refine ⟨disk.put (place ++ [name]) (.folder []), ?_, rfl, Node.keepsWays_alter opens.folder noWay,
    ?_⟩
  · rw [makeFolder, find_of_names opens names noLink, foundAmong, absent]
  · rw [put, Node.at?_append (Node.at?_alter opens.folder), Node.at?, Node.child?_alterChild_self]
    rfl

theorem makeFoldersWithin_lacks (depth : Nat)
    (lacks : disk.Lacks front (names ++ [name]) place entries) :
    let path := Path.behind (front ++ names) name
    (∃ refused, makeFoldersWithin depth disk path = (.error refused, disk)) ∨
    ∃ next, makeFoldersWithin depth disk path = (.ok (), next) ∧
      disk.Lays next place (names ++ [name]) := by
  -- The folder around is made first, with a path of the components that count, so the induction is
  -- over all components that lead to the place.
  induction depth generalizing front names name with
  | zero => exact .inl ⟨.notFound, rfl⟩
  | succ depth ih =>
    intro path
    have isName : Path.IsName name := lacks.areNames name (by simp)
    cases taken : refusal? path with
    | some refused =>
      -- Refused as a text, the path leads to no folder that was there already.
      refine .inl ⟨refused, ?_⟩
      have notFolder : disk.isFolder path = false := by
        rw [isFolder, node?, find_of_refusal taken]
      have notMissing := refused_ne_notFound (Path.behind_ne_empty isName.not_empty) taken
      rw [makeFoldersWithin, makeFolder, find_of_refusal taken]
      cases refused with
      | notFound => exact absurd rfl notMissing
      | _ => simp only [notFolder, Bool.false_eq_true, if_false]
    | none =>
      have given : Path.Names path (front ++ names) name := by
        refine ⟨rfl, fun component member => lacks.components component ?_, isName, taken⟩
        rw [← List.append_assoc]
        exact List.mem_append_left _ member
      rcases List.eq_nil_or_concat names with rfl | ⟨before, final, shape⟩
      · -- Only the last name is missing.
        rw [List.append_nil] at given
        obtain ⟨next, made, lays⟩ := makeFolder_missing lacks.opens given (lacks.absent name rfl)
        exact .inr ⟨next, by rw [makeFoldersWithin, made], lays⟩
      · rw [List.concat_eq_append] at shape
        subst shape
        have outer := lacks.of_append
        have missing : disk.makeFolder path = (.error .notFound, disk) := by
          rw [makeFolder, outer.find (List.concat_ne_nil _ _) isName.component isName.ofComponent?
            taken]
        have parent := Path.parent?_of_names lacks.parts outer.areNames isName
        have something : ∀ front, Path.behind front final ≠ "" := fun _ =>
          Path.behind_ne_empty (outer.areNames final (by simp)).not_empty
        simp only [makeFoldersWithin, missing, show Path.parent? path = _ from parent, something,
          if_false]
        rcases ih lacks.counting.of_append with ⟨refused, made⟩ | ⟨mid, made, lays⟩
        · exact .inl ⟨refused, by rw [made]⟩
        · obtain ⟨next, madeLast, laysLast⟩ :=
            makeFolder_missing (lacks.opens.below lays outer.areNames) given rfl
          refine .inr ⟨next, ?_, lays.trans laysLast⟩
          rw [made]
          dsimp only
          rw [madeLast]

/-- To make the folder around what some missing names lead to makes all of the names, or none. -/
theorem makeFolders_lacks (lacks : disk.Lacks front names place entries) (some : names ≠ [])
    (isName : Path.IsName last) {folder : String}
    (around : Path.parent? (Path.behind (front ++ names) last) = .some folder) :
    (∃ refused, disk.makeFolders folder = (.error refused, disk)) ∨
    ∃ next, disk.makeFolders folder = (.ok (), next) ∧ disk.Lays next place names := by
  rcases List.eq_nil_or_concat names with nothing | ⟨before, final, shape⟩
  · exact absurd nothing some
  · rw [List.concat_eq_append] at shape
    subst shape
    have parent := Path.parent?_of_names lacks.parts lacks.areNames isName
    obtain rfl := Option.some.inj (around.symm.trans parent)
    rw [makeFolders, if_neg (Path.behind_ne_empty (lacks.areNames final (by simp)).not_empty)]
    exact makeFoldersWithin_lacks _ lacks.counting

end Disk

end HdlDesk
