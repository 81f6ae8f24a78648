import HdlDesk.Proofs.Disk.Approach

/-!
# Paths beside a path

A path with another extension differs from the first in its last component only, so both are looked
up in the same folder. The path of the folder around a file leaves out some of the components in
front of the name, but only such as lead nowhere, so it leads to that folder as well.
-/
namespace HdlDesk.Path

variable {front : List String} {last : String}

/-! ### Another extension -/

/-- A name has an extension behind its last dot if that neither begins the name nor ends it as a
parent does. -/
theorem splitExtension_cases (name : String) :
    splitExtension name = (name, none) ∨
    ∃ stem extension, splitExtension name = (stem, some extension) ∧
      name = stem ++ "." ++ extension ∧ '.' ∉ extension.toList ∧ stem ≠ "" := by
  -- The name is read from its end, where the extension is what comes before the first dot.
  have cut := List.takeWhile_append_dropWhile (p := (· ≠ '.')) (l := name.toList.reverse)
  have noDot : '.' ∉ name.toList.reverse.takeWhile (· ≠ '.') := by
    intro member
    have passed := List.all_eq_true.mp (List.all_takeWhile (p := (· ≠ '.'))) _ member
    simp at passed
  have dot := List.head?_dropWhile_not (· ≠ '.') name.toList.reverse
  unfold splitExtension
  dsimp only
  split
  · exact .inl rfl
  · exact .inl rfl
  next first stem notLone shape =>
    rw [shape] at cut dot
    generalize name.toList.reverse.takeWhile (· ≠ '.') = extension at cut noDot ⊢
    split
    · exact .inl rfl
    · refine .inr ⟨_, _, rfl, ?_, by simpa using noDot, fun empty => notLone (by simpa using empty)⟩
      have same : first = '.' := by simpa using dot
      rw [← String.toList_inj, ← List.reverse_inj, ← cut, same]
      simp

theorem splitExtension_append {stem extension : String} (noDot : '.' ∉ extension.toList)
    (some : stem ≠ "") (not_around : stem ++ "." ++ extension ≠ "..") :
    splitExtension (stem ++ "." ++ extension) = (stem, .some extension) := by
  have reversed : (stem ++ "." ++ extension).toList.reverse =
      extension.toList.reverse ++ '.' :: stem.toList.reverse := by
    simp
  have passes : ∀ c ∈ extension.toList.reverse, decide (c ≠ '.') = true := by
    intro c member
    refine decide_eq_true fun dot => noDot ?_
    simpa [dot] using member
  have before : (stem ++ "." ++ extension).toList.reverse.takeWhile (· ≠ '.') =
      extension.toList.reverse := by
    rw [reversed, List.takeWhile_append_of_pos passes]
    simp
  have after : (stem ++ "." ++ extension).toList.reverse.dropWhile (· ≠ '.') =
      '.' :: stem.toList.reverse := by
    rw [reversed, List.dropWhile_append_of_pos passes]
    simp
  unfold splitExtension
  dsimp only
  rw [before, after]
  split
  next none => cases none
  next lone => simp [some] at lone
  next rest _ shape =>
    cases shape
    rw [if_neg not_around]
    simp

/-- What is left off at the end of a path is nothing that belongs to a name. -/
private theorem dropClosing_eq {c : Char} {rest : List Char} (noSlash : c ≠ '/')
    (noDot : c = '.' → rest.head? ≠ some '/') : dropClosing (c :: rest) = c :: rest := by
  unfold dropClosing
  split
  next slash => exact absurd (List.cons.inj slash).1 noSlash
  next dot =>
    obtain ⟨rfl, rfl⟩ := List.cons.inj dot
    exact absurd rfl (noDot rfl)
  · rfl

private theorem dropClosing_behind (ends : IsComponent last) (not_empty : last ≠ "")
    (not_here : last ≠ ".") :
    dropClosing (behind front last).toList.reverse = (behind front last).toList.reverse := by
  rw [behind, String.toList_ofList, List.reverse_append]
  have noSlash : '/' ∉ last.toList.reverse := by rwa [List.mem_reverse]
  cases reversed : last.toList.reverse with
  | nil => exact absurd (by simpa using reversed) not_empty
  | cons c more =>
    rw [reversed, List.mem_cons, not_or] at noSlash
    refine dropClosing_eq (Ne.symm noSlash.1) fun dot => ?_
    -- Before a dot at the end there is more of the name, and so no slash.
    cases more with
    | nil =>
      refine absurd ?_ not_here
      rw [← String.toList_inj, ← List.reverse_inj, reversed, dot]
      rfl
    | cons d more =>
      intro slash
      exact noSlash.2 (by rw [Option.some.inj slash]; exact List.mem_cons_self)

theorem setExtension_behind (each : ∀ component ∈ front, IsComponent component)
    (ends : IsComponent last) (not_empty : last ≠ "") (not_here : last ≠ ".")
    (not_around : last ≠ "..") (extension : String) :
    setExtension (behind front last) extension =
      behind front ((splitExtension last).1 ++ "." ++ extension) := by
  rw [setExtension, fileName?_behind each ends not_empty not_here, if_neg not_around]
  dsimp only
  have off : (behind front last).toList.reverse.drop last.length =
      (front.flatMap fun component => component.toList ++ ['/']).reverse := by
    rw [behind, String.toList_ofList, List.reverse_append]
    exact List.drop_left' (by rw [List.length_reverse, String.length_toList])
  rw [dropClosing_behind ends not_empty not_here, off, ← String.toList_inj]
  simp [behind]

/-- The path with another extension stands beside the path, unless the extension taken off leaves
the name of a parent. -/
theorem withExtension_behind (each : ∀ component ∈ front, IsComponent component)
    (ends : IsComponent last) (not_empty : last ≠ "") (not_here : last ≠ ".")
    (not_around : last ≠ "..") (extension : String) :
    withExtension (behind front last) extension = behind front ".." ∨
    ∃ stem, stem ≠ "" ∧ IsComponent stem ∧
      (last = stem ∨ ∃ old, last = stem ++ "." ++ old ∧ '.' ∉ old.toList) ∧
      withExtension (behind front last) extension = behind front (stem ++ "." ++ extension) := by
  rw [withExtension, fileName?_behind each ends not_empty not_here, if_neg not_around,
    Option.bind_some]
  rcases splitExtension_cases last with noExtension | ⟨stem, old, split, parts, noDot, some⟩
  · refine .inr ⟨last, not_empty, ends, .inl rfl, ?_⟩
    rw [noExtension]
    dsimp only
    rw [setExtension_behind each ends not_empty not_here not_around, noExtension]
  · have stemIs : IsComponent stem := by
      rw [parts] at ends
      simp only [IsComponent, String.toList_append, List.mem_append, not_or] at ends
      exact ends.1.1
    -- The old extension is taken off by its length, and the dot before it stays.
    have kept : String.ofList ((behind front last).toList.take
        ((behind front last).length - old.length)) = behind front (stem ++ ".") := by
      have whole : (behind front last).toList =
          (behind front (stem ++ ".")).toList ++ old.toList := by
        simp [behind, parts]
      rw [← String.length_toList, ← String.length_toList, whole, List.length_append,
        Nat.add_sub_cancel, List.take_left, String.ofList_toList]
    rw [split]
    dsimp only
    rw [kept]
    have stemDot : IsComponent (stem ++ ".") := by
      simpa [IsComponent] using stemIs
    have ending : ∀ other, stem ++ "." = other ++ "." → stem = other := by
      intro other same
      exact String.toList_inj.mp (by simpa using congrArg String.toList same)
    by_cases parent : stem = "."
    · -- With the dot that stays, the stem is the name of a parent, which takes no extension.
      left
      rw [parent, setExtension, fileName?_behind each (by decide) (by decide) (by decide)]
      rfl
    · refine .inr ⟨stem, some, stemIs, .inr ⟨old, parts, noDot⟩, ?_⟩
      have not_around : stem ++ "." ≠ ".." := fun same => parent (ending "." same)
      have stays : splitExtension (stem ++ ".") = (stem, .some "") := by
        have nothing : '.' ∉ "".toList := by decide
        simpa using splitExtension_append nothing some (by simpa using not_around)
      rw [setExtension_behind each stemDot (by simp) (fun same => some (ending "" same)) not_around,
        stays]

/-! ### The folder around -/

/-- Some of the steps that lead nowhere are left out. -/
inductive DropsStays : List Step → List Step → Prop
  | nil : DropsStays [] []
  | keep (step : Step) {steps fewer : List Step} (rest : DropsStays steps fewer) :
      DropsStays (step :: steps) (step :: fewer)
  | drop {steps fewer : List Step} (rest : DropsStays steps fewer) :
      DropsStays (.stay :: steps) fewer

namespace DropsStays

theorem append_left (front : List Step) {steps fewer : List Step} (rest : DropsStays steps fewer) :
    DropsStays (front ++ steps) (front ++ fewer) := by
  induction front with
  | nil => exact rest
  | cons step front ih => exact .keep step ih

theorem filterMap_filter (components : List String) :
    DropsStays (components.filterMap Step.ofComponent?)
      ((components.filter (· ≠ ".")).filterMap Step.ofComponent?) := by
  induction components with
  | nil => exact .nil
  | cons component components ih =>
    by_cases here : component = "."
    · subst here
      exact .drop ih
    · rw [List.filter_cons_of_pos (by simpa using here), List.filterMap_cons, List.filterMap_cons]
      cases Step.ofComponent? component with
      | none => exact ih
      | some step => exact .keep step ih

/-- The components that count lead where all of them lead. -/
theorem filterMap_counting (absolute : Bool) (front : List String) :
    DropsStays (front.filterMap Step.ofComponent?)
      ((counting absolute front).filterMap Step.ofComponent?) := by
  have given : front.filterMap Step.ofComponent? =
      (front.filter (· ≠ "")).filterMap Step.ofComponent? := by
    rw [List.filterMap_filter]
    refine congrArg (List.filterMap · front) (funext fun component => ?_)
    by_cases empty : component = ""
    · simp [empty, Step.ofComponent?]
    · simp [empty]
  -- A dot in front of everything counts unless the path starts at the root.
  rw [given, counting]
  split
  next rest dot =>
    rw [dot]
    split
    · exact .drop (filterMap_filter rest)
    · exact .keep .stay (filterMap_filter rest)
  · exact filterMap_filter _

end DropsStays

/-- The components in front of the last one in the path of some names. -/
def rooted (absolute : Bool) (names : List String) : List String :=
  if absolute then "" :: names else names

section Rooted

variable {names : List String}

theorem ofNames_concat (absolute : Bool) (names : List String) (last : String) :
    ofNames absolute (names ++ [last]) = behind (rooted absolute names) last := by
  cases absolute with
  | true => exact ofNames_eq_behind names last
  | false =>
    rw [ofNames, if_neg Bool.false_ne_true, String.empty_append, intercalate_eq_behind]
    rfl

theorem rooted_append (absolute : Bool) (front names : List String) :
    rooted absolute (front ++ names) = rooted absolute front ++ names := by
  cases absolute <;> rfl

theorem mem_rooted {absolute : Bool} {component : String}
    (member : component ∈ rooted absolute names) : component = "" ∨ component ∈ names := by
  cases absolute with
  | true => exact List.mem_cons.mp member
  | false => exact .inr member

/-- Before the slash of the root stands no step. -/
theorem filterMap_rooted (absolute : Bool) (names : List String) :
    (rooted absolute names).filterMap Step.ofComponent? = names.filterMap Step.ofComponent? := by
  cases absolute <;> rfl

theorem isAbsolute_rooted (absolute : Bool) (each : ∀ name ∈ names, IsComponent name)
    (named : ∀ name ∈ names, name ≠ "") :
    isAbsolute (behind (rooted absolute names) "") = absolute := by
  cases absolute with
  | true => simp [rooted, isAbsolute, toList_behind_cons]
  | false =>
    have same : isAbsolute (behind ([] ++ names) "") = isAbsolute (behind [] "") :=
      isAbsolute_append named each
    exact same.trans (by decide)

variable (each : ∀ name ∈ names, IsComponent name)
include each

theorem openSteps_ofNames (absolute : Bool) :
    openSteps (ofNames absolute names) = names.filterMap Step.ofComponent? := by
  rcases List.eq_nil_or_concat names with rfl | ⟨before, final, rfl⟩
  · cases absolute <;> decide
  · rw [List.concat_eq_append] at each ⊢
    have ends : IsComponent final := each final (by simp)
    have parts : ∀ component ∈ rooted absolute before, IsComponent component := by
      intro component member
      rcases mem_rooted member with rfl | inside
      · decide
      · exact each component (List.mem_append_left _ inside)
    rw [ofNames_concat, openSteps_behind parts ends, filterMap_rooted, List.filterMap_append]
    cases step : Step.ofComponent? final <;> simp [step]

theorem isAbsolute_ofNames_of_named (absolute : Bool) (named : ∀ name ∈ names, name ≠ "") :
    isAbsolute (ofNames absolute names) = absolute := by
  rcases List.eq_nil_or_concat names with rfl | ⟨before, final, rfl⟩
  · cases absolute <;> decide
  · rw [List.concat_eq_append] at each named ⊢
    have noSlash : IsComponent "" := by decide
    rw [ofNames_concat, isAbsolute_behind (each final (by simp)) noSlash,
      isAbsolute_rooted absolute (fun name member => each name (List.mem_append_left _ member))
        fun name member => named name (List.mem_append_left _ member)]

end Rooted

theorem parent?_behind (each : ∀ component ∈ front, IsComponent component)
    (ends : IsComponent last) (not_empty : last ≠ "") (not_here : last ≠ ".") :
    parent? (behind front last) =
      some (ofNames (isAbsolute (behind front last))
        (counting (isAbsolute (behind front last)) front)) := by
  rw [parent?, names_behind each ends not_empty not_here]
  simp

theorem mem_counting {absolute : Bool} {component : String}
    (member : component ∈ counting absolute front) : component ∈ front ∧ component ≠ "" := by
  have among : component ∈ front.filter (· ≠ "") := by
    unfold counting at member
    split at member
    next rest dot =>
      rw [dot]
      split at member
      · exact List.mem_cons_of_mem _ (List.mem_filter.mp member).1
      · rcases List.mem_cons.mp member with rfl | inside
        · exact List.mem_cons_self
        · exact List.mem_cons_of_mem _ (List.mem_filter.mp inside).1
    · exact (List.mem_filter.mp member).1
  simpa using among

end HdlDesk.Path

namespace HdlDesk

theorem Approach.drop_stays {root : Node} {links left : Nat} {place last : Place}
    {steps fewer : List Path.Step} (approach : Approach root links place steps left last)
    (drops : Path.DropsStays steps fewer) : Approach root links place fewer left last := by
  induction approach generalizing fewer with
  | done links place =>
    cases drops
    exact .done links place
  | idle into idles _ ih =>
    cases drops with
    | keep _ rest => exact .idle into idles (ih rest)
    | drop rest => exact ih rest
  | up into _ ih =>
    cases drops with
    | keep _ rest => exact .up into (ih rest)
  | enter into fits child _ ih =>
    cases drops with
    | keep _ rest => exact .enter into fits child (ih rest)
  | jump into fits link _ ih =>
    -- The steps of the target all stay, and some behind them are left out.
    cases drops with
    | keep _ rest => exact .jump into fits link (ih (rest.append_left _))

namespace Disk

variable {disk : Disk} {path : String} {front : List String} {last : String} {place : Place}
  {entries : List (String × Node)}

/-- What is at the path of a folder that is led to is never missing. -/
private theorem makeFolder_of_approach {folder : String} (something : folder ≠ "") {left : Nat}
    (approach : Approach disk.root linkLimit (disk.startPlace folder) (Path.openSteps folder) left
      place)
    (into : disk.root.wayAt? place = some .into) :
    ∃ refused, refused ≠ .notFound ∧ disk.makeFolder folder = (.error refused, disk) := by
  unfold makeFolder
  cases taken : refusal? folder with
  | some refused =>
    exact ⟨refused, refused_ne_notFound something taken, by rw [find_of_refusal taken]⟩
  | none =>
    obtain ⟨here, starts⟩ := exists_startPosition (approach.starts into)
    obtain ⟨isIn, stands⟩ := isIn_startPosition starts
    obtain ⟨ended, node, walked⟩ := walk_handle_of_approach approach isIn stands
    refine ⟨.alreadyExists, nofun, ?_⟩
    rw [find_of_start taken starts, if_pos rfl, walked]

/-- The components that count lead where all of them lead. -/
theorem Opens.approach_counting (opens : disk.Opens front place entries) (absolute : Bool) :
    ∃ left, Approach disk.root linkLimit (disk.startPlace (Path.behind front ""))
      ((Path.counting absolute front).filterMap Path.Step.ofComponent?) left place := by
  obtain ⟨left, approach⟩ := opens.approach
  exact ⟨left, approach.drop_stays (Path.DropsStays.filterMap_counting absolute front)⟩

/-- The path of the folder around leads to the folder that the name is looked up in. -/
private theorem approach_parent (opens : disk.Opens front place entries)
    (names : Path.Names path front last) {folder : String}
    (around : Path.parent? path = some folder) :
    ∃ left, Approach disk.root linkLimit (disk.startPlace folder) (Path.openSteps folder) left
      place := by
  have isName := names.isName
  rw [names.shape, Path.parent?_behind names.parts isName.component isName.not_empty
    isName.not_here, Option.some.injEq] at around
  subst around
  generalize same : Path.isAbsolute (Path.behind front last) = absolute
  have parts : ∀ name ∈ Path.counting absolute front, Path.IsComponent name :=
    fun name member => names.parts name (Path.mem_counting member).1
  have sameStart : disk.startPlace (Path.ofNames absolute (Path.counting absolute front)) =
      disk.startPlace (Path.behind front "") := by
    rw [← startPlace_behind disk front isName.component, startPlace, startPlace, same,
      Path.isAbsolute_ofNames_of_named parts absolute fun _ member => (Path.mem_counting member).2]
  rw [sameStart, Path.openSteps_ofNames parts]
  exact opens.approach_counting absolute

/-- There is no folder to make for a path whose name is looked up in one. -/
theorem makeFolders_parent (opens : disk.Opens front place entries)
    (names : Path.Names path front last) {folder : String}
    (around : Path.parent? path = some folder) : (disk.makeFolders folder).2 = disk := by
  unfold makeFolders
  split
  · rfl
  next something =>
    have into := Node.wayAt?_eq_into_iff.mpr ⟨entries, opens.folder⟩
    obtain ⟨left, approach⟩ := approach_parent opens names around
    obtain ⟨refused, notMissing, made⟩ := makeFolder_of_approach something approach into
    rw [makeFoldersWithin, made]
    cases refused with
    | notFound => exact absurd rfl notMissing
    | _ => dsimp only; split <;> rfl

end Disk

end HdlDesk
