import HdlDesk.Disk.Path

/-!
# Names and the paths they make

Every path is a last component behind others, each of which is followed by a slash. Read in this
form a path tells its steps, whether it starts at the root and what name it ends in. A name that an
entry of a folder can have is a component which is entered, so the path of a place, from the root,
enters one name after the other.
-/
namespace HdlDesk.Path

/-! ### Components -/

private theorem split_of_notMem {cs : List Char} (noSlash : '/' ∉ cs) : split cs = [cs] := by
  induction cs with
  | nil => rfl
  | cons c rest ih =>
    rw [List.mem_cons, not_or] at noSlash
    obtain ⟨different, others⟩ := noSlash
    rw [split, if_neg (Ne.symm different), ih others]

private theorem split_append {first : List Char} (noSlash : '/' ∉ first) (rest : List Char) :
    split (first ++ '/' :: rest) = first :: split rest := by
  induction first with
  | nil => rw [List.nil_append, split, if_pos rfl]
  | cons c more ih =>
    rw [List.mem_cons, not_or] at noSlash
    obtain ⟨different, others⟩ := noSlash
    rw [List.cons_append, split, if_neg (Ne.symm different), ih others]

/-- A text that can stand between two slashes. -/
def IsComponent (component : String) : Prop := '/' ∉ component.toList

instance (component : String) : Decidable (IsComponent component) :=
  inferInstanceAs (Decidable ('/' ∉ component.toList))

/-- The path of a last component behind others. -/
def behind (front : List String) (last : String) : String :=
  .ofList (front.flatMap (fun component => component.toList ++ ['/']) ++ last.toList)

theorem toList_behind_cons (first : String) (front : List String) (last : String) :
    (behind (first :: front) last).toList = first.toList ++ '/' :: (behind front last).toList := by
  simp [behind]

theorem behind_ne_empty {front : List String} {last : String} (some : last ≠ "") :
    behind front last ≠ "" := by
  intro nothing
  have characters := congrArg String.toList nothing
  simp only [behind, String.toList_ofList, String.toList_empty, List.append_eq_nil_iff] at characters
  exact some (String.toList_eq_nil_iff.mp characters.2)

theorem components_behind {front : List String} {last : String}
    (each : ∀ component ∈ front, IsComponent component) (ends : IsComponent last) :
    components (behind front last) = front ++ [last] := by
  induction front with
  | nil => simp [components, behind, split_of_notMem ends]
  | cons first front ih =>
    have rest := ih fun component member => each component (List.mem_cons_of_mem _ member)
    unfold components at rest ⊢
    rw [toList_behind_cons, split_append (each first List.mem_cons_self), List.map_cons, rest]
    simp

/-- Every path is its last component behind the others. -/
theorem exists_behind (path : String) : ∃ front last,
    path = behind front last ∧ (∀ component ∈ front, IsComponent component) ∧ IsComponent last := by
  suffices divided : ∀ cs : List Char, ∃ front last,
      cs = (behind front last).toList ∧ (∀ component ∈ front, IsComponent component) ∧
        IsComponent last by
    obtain ⟨front, last, shape, parts⟩ := divided path.toList
    exact ⟨front, last, String.toList_inj.mp shape, parts⟩
  intro cs
  induction cs with
  | nil => exact ⟨[], "", rfl, nofun, by simp [IsComponent]⟩
  | cons c rest ih =>
    obtain ⟨front, last, shape, each, ends⟩ := ih
    by_cases slash : c = '/'
    · refine ⟨"" :: front, last, ?_, ?_, ends⟩
      · rw [toList_behind_cons, slash, shape]
        simp
      · rintro component (_ | ⟨_, member⟩)
        · simp [IsComponent]
        · exact each component member
    · -- The character belongs to the first component, which may be the last one too.
      cases front with
      | nil =>
        refine ⟨[], String.ofList (c :: last.toList), ?_, nofun, ?_⟩
        · rw [shape]
          simp [behind]
        · simp only [IsComponent, String.toList_ofList, List.mem_cons, not_or]
          exact ⟨Ne.symm slash, ends⟩
      | cons first front =>
        refine ⟨String.ofList (c :: first.toList) :: front, last, ?_, ?_, ends⟩
        · rw [toList_behind_cons, shape, toList_behind_cons]
          simp
        · rintro component (_ | ⟨_, member⟩)
          · simp only [IsComponent, String.toList_ofList, List.mem_cons, not_or]
            exact ⟨Ne.symm slash, each first List.mem_cons_self⟩
          · exact each component (List.mem_cons_of_mem _ member)

variable {front : List String} {last : String}

theorem openSteps_behind (each : ∀ component ∈ front, IsComponent component)
    (ends : IsComponent last) :
    openSteps (behind front last) =
      front.filterMap Step.ofComponent? ++ (Step.ofComponent? last).toList := by
  rw [openSteps, components_behind each ends, List.filterMap_append]
  cases step : Step.ofComponent? last <;> simp [step]

/-! ### Names -/

/-- A name that an entry of a folder can have. -/
structure IsName (name : String) : Prop where
  not_empty : name ≠ ""
  not_here : name ≠ "."
  not_around : name ≠ ".."
  component : IsComponent name
  no_zero : '\x00' ∉ name.toList
  fits : name.utf8ByteSize ≤ Step.nameBound

instance (name : String) : Decidable (IsName name) :=
  decidable_of_iff
    (name ≠ "" ∧ name ≠ "." ∧ name ≠ ".." ∧ IsComponent name ∧ '\x00' ∉ name.toList ∧
      name.utf8ByteSize ≤ Step.nameBound)
    ⟨fun ⟨empty, here, around, component, zero, fits⟩ =>
        ⟨empty, here, around, component, zero, fits⟩,
      fun isName => ⟨isName.not_empty, isName.not_here, isName.not_around, isName.component,
        isName.no_zero, isName.fits⟩⟩

theorem ofComponent?_eq_enter {name : String} (not_empty : name ≠ "") (not_here : name ≠ ".")
    (not_around : name ≠ "..") : Step.ofComponent? name = some (.enter name) := by
  unfold Step.ofComponent?
  split <;> first | contradiction | rfl

theorem of_ofComponent?_eq_enter {component name : String}
    (isStep : Step.ofComponent? component = some (.enter name)) :
    component = name ∧ component ≠ "" ∧ component ≠ "." ∧ component ≠ ".." := by
  unfold Step.ofComponent? at isStep
  split at isStep
  · cases isStep
  · cases isStep
  · cases isStep
  next not_empty not_here not_around =>
    cases isStep
    exact ⟨rfl, not_empty, not_here, not_around⟩

/-- No component asks for a folder to have been reached. -/
theorem Step.ofComponent?_ne_close (component : String) :
    Step.ofComponent? component ≠ some .close := by
  unfold Step.ofComponent?
  split <;> nofun

theorem Step.concat_ne_close {component : String} {step : Step}
    (isStep : ofComponent? component = some step) (front : List Step) :
    front ++ [step] ≠ [.close] := by
  intro closing
  have final := List.append_inj_right' (closing.trans (List.nil_append _).symm) rfl
  exact ofComponent?_ne_close component (by rw [isStep, List.singleton_inj.mp final])

theorem IsName.ofComponent? {name : String} (isName : IsName name) :
    Step.ofComponent? name = some (.enter name) :=
  ofComponent?_eq_enter isName.not_empty isName.not_here isName.not_around

/-- Names are entered one by one. -/
theorem filterMap_names {names : List String} (each : ∀ name ∈ names, IsName name) :
    names.filterMap Step.ofComponent? = names.map .enter := by
  induction names with
  | nil => rfl
  | cons name names ih =>
    rw [List.filterMap_cons_some (each name List.mem_cons_self).ofComponent?, List.map_cons,
      ih fun other member => each other (List.mem_cons_of_mem _ member)]

theorem endsInSlash_behind (ends : IsComponent last) (some : last ≠ "") :
    endsInSlash (behind front last) = false := by
  have nonempty : last.toList ≠ [] := by
    rwa [ne_eq, String.toList_eq_nil_iff]
  have final : (behind front last).toList.getLast? = last.toList.getLast? := by
    rw [behind, String.toList_ofList, List.getLast?_append]
    obtain ⟨c, held⟩ := List.getLast?_isSome.mpr nonempty |> Option.isSome_iff_exists.mp
    rw [held, Option.some_or]
  rw [endsInSlash, final, decide_eq_false_iff_not]
  exact fun slash => ends (List.mem_of_getLast? slash)

/-- The last step of a path is its last component, or asks for a folder if that is empty. -/
theorem exists_steps_behind (each : ∀ component ∈ front, IsComponent component)
    (ends : IsComponent last) (some : behind front last ≠ "") :
    ∃ step, steps (behind front last) = front.filterMap Step.ofComponent? ++ [step] ∧
      (Step.ofComponent? last = .some step ∨ step = .close) := by
  rw [steps, openSteps_behind each ends]
  -- Nothing behind the last slash is no step, but the slash is one.
  by_cases closed : last = ""
  · subst closed
    have slash : endsInSlash (behind front "") = true := by
      rcases List.eq_nil_or_concat front with rfl | ⟨before, final, shape⟩
      · exact absurd rfl some
      · simp [endsInSlash, behind, shape]
    have noStep : Step.ofComponent? "" = none := rfl
    exact ⟨.close, by simp [slash, noStep], .inr rfl⟩
  · have isStep : ∃ step, Step.ofComponent? last = .some step := by
      unfold Step.ofComponent?
      split
      · contradiction
      all_goals exact ⟨_, rfl⟩
    obtain ⟨step, isStep⟩ := isStep
    exact ⟨step, by simp [endsInSlash_behind ends closed, isStep], .inl isStep⟩

/-- Whether a path starts at the root is told by what stands before its last component. -/
theorem isAbsolute_behind (ends : IsComponent last) {other : String}
    (otherEnds : IsComponent other) :
    isAbsolute (behind front last) = isAbsolute (behind front other) := by
  have relative : ∀ {last}, IsComponent last → isAbsolute (behind [] last) = false := by
    intro last ends
    rw [isAbsolute, decide_eq_false_iff_not]
    intro slash
    simp only [behind, List.flatMap_nil, List.nil_append, String.toList_ofList] at slash
    exact ends (List.mem_of_head? slash)
  cases front with
  | nil => rw [relative ends, relative otherEnds]
  | cons first front =>
    simp only [isAbsolute, toList_behind_cons]
    cases first.toList <;> simp

/-- Names behind the first components do not change where a path starts. -/
theorem isAbsolute_append {more : List String} (named : ∀ name ∈ more, name ≠ "")
    (each : ∀ name ∈ more, IsComponent name) :
    isAbsolute (behind (front ++ more) "") = isAbsolute (behind front "") := by
  cases front with
  | cons first front =>
    simp only [isAbsolute, List.cons_append, toList_behind_cons]
    cases first.toList <;> simp
  | nil =>
    cases more with
    | nil => rfl
    | cons name more =>
      have noSlash := each name List.mem_cons_self
      have some : name.toList ≠ [] := by
        simpa using named name List.mem_cons_self
      obtain ⟨c, cs, shape⟩ := List.exists_cons_of_ne_nil some
      rw [IsComponent, shape, List.mem_cons, not_or] at noSlash
      simp [isAbsolute, shape, behind, Ne.symm noSlash.1]

/-- The components of a path that count when it is read as a name. -/
def counting (absolute : Bool) (components : List String) : List String :=
  match components.filter (· ≠ "") with
  | "." :: rest => if absolute then rest.filter (· ≠ ".") else "." :: rest.filter (· ≠ ".")
  | parts => parts.filter (· ≠ ".")

theorem counting_append (absolute : Bool) (front : List String) (not_empty : last ≠ "")
    (not_here : last ≠ ".") :
    counting absolute (front ++ [last]) = counting absolute front ++ [last] := by
  have final : ∀ parts : List String,
      (parts ++ [last]).filter (· ≠ ".") = parts.filter (· ≠ ".") ++ [last] := by
    simp [not_here]
  have filtered : (front ++ [last]).filter (· ≠ "") = front.filter (· ≠ "") ++ [last] := by
    simp [not_empty]
  rw [counting, counting, filtered]
  -- Only a dot in front of everything may count, and the last component is no dot.
  cases front.filter (· ≠ "") with
  | nil =>
    rw [List.nil_append]
    split
    next dot => exact absurd (List.cons.inj dot).1 not_here
    · exact final []
  | cons first others =>
    rw [List.cons_append]
    split
    next rest dot =>
      obtain ⟨rfl, rfl⟩ := List.cons.inj dot
      split
      · exact final others
      · exact congrArg (List.cons ".") (final others)
    next noDot =>
      split
      next rest dot => exact absurd (by rw [(List.cons.inj dot).1]) (noDot (others ++ [last]))
      · exact final (first :: others)

theorem names_behind (each : ∀ component ∈ front, IsComponent component)
    (ends : IsComponent last) (not_empty : last ≠ "") (not_here : last ≠ ".") :
    names (behind front last) = counting (isAbsolute (behind front last)) front ++ [last] := by
  rw [← counting_append _ _ not_empty not_here, ← components_behind each ends]
  rfl

/-- The last component is the name of the file if it is a name at all. -/
theorem fileName?_behind (each : ∀ component ∈ front, IsComponent component)
    (ends : IsComponent last) (not_empty : last ≠ "") (not_here : last ≠ ".") :
    fileName? (behind front last) = if last = ".." then none else some last := by
  rw [fileName?, names_behind each ends not_empty not_here, List.getLast?_append]
  simp [not_here]

/-! ### The path of a place -/

theorem intercalate_eq_behind (front : List String) (last : String) :
    "/".intercalate (front ++ [last]) = behind front last := by
  induction front with
  | nil => rw [List.nil_append, String.intercalate_singleton, behind, List.flatMap_nil,
      List.nil_append, String.ofList_toList]
  | cons first front ih =>
    have more : front ++ [last] ≠ [] := List.append_ne_nil_of_right_ne_nil front nofun
    rw [List.cons_append, String.intercalate_cons_of_ne_nil more, ih, ← String.toList_inj,
      toList_behind_cons]
    simp

/-- The path of a place stands behind the slash of the root. -/
theorem ofNames_eq_behind (front : List String) (last : String) :
    ofNames true (front ++ [last]) = behind ("" :: front) last := by
  rw [ofNames, if_pos rfl, intercalate_eq_behind, ← String.toList_inj, toList_behind_cons]
  simp

section Place

variable {front : List String} {last : String} (each : ∀ name ∈ front ++ [last], IsName name)

include each

private theorem components_ofNames :
    (∀ component ∈ "" :: front, IsComponent component) ∧ IsComponent last := by
  refine ⟨?_, (each last (by simp)).component⟩
  rintro component (_ | ⟨_, member⟩)
  · simp [IsComponent]
  · exact (each component (List.mem_append_left _ member)).component

theorem steps_ofNames : steps (ofNames true (front ++ [last])) = (front ++ [last]).map .enter := by
  obtain ⟨parts, ends⟩ := components_ofNames each
  have final := each last (by simp)
  -- What stands before the slash of the root is empty and no step.
  have rooted : ("" :: front).filterMap Step.ofComponent? = front.map .enter :=
    filterMap_names fun name member => each name (List.mem_append_left _ member)
  rw [steps, ofNames_eq_behind, openSteps_behind parts ends,
    endsInSlash_behind ends final.not_empty, rooted, final.ofComponent?]
  simp

theorem no_zero_ofNames : '\x00' ∉ (ofNames true (front ++ [last])).toList := by
  rw [ofNames_eq_behind, behind, String.toList_ofList, List.mem_append, List.mem_flatMap, not_or]
  refine ⟨?_, (each last (by simp)).no_zero⟩
  rintro ⟨component, member, inside⟩
  rcases List.mem_append.mp inside with inside | slash
  · rcases List.mem_cons.mp member with rfl | member
    · simp at inside
    · exact (each component (List.mem_append_left _ member)).no_zero inside
  · simp at slash

end Place

theorem isAbsolute_ofNames (names : List String) : isAbsolute (ofNames true names) = true := by
  simp [isAbsolute, ofNames]

private theorem utf8ByteSize_intercalate_le (names more : List String) :
    ("/".intercalate names).utf8ByteSize ≤ ("/".intercalate (names ++ more)).utf8ByteSize := by
  induction names with
  | nil => simp
  | cons name names ih =>
    by_cases last : names = []
    · subst last
      by_cases same : more = []
      · simp [same]
      · rw [List.singleton_append, String.intercalate_singleton,
          String.intercalate_cons_of_ne_nil same, String.utf8ByteSize_append,
          String.utf8ByteSize_append]
        omega
    · have longer : names ++ more ≠ [] := List.append_ne_nil_of_left_ne_nil last more
      rw [List.cons_append, String.intercalate_cons_of_ne_nil last,
        String.intercalate_cons_of_ne_nil longer]
      simp only [String.utf8ByteSize_append]
      omega

/-- The path of a folder is no longer than the path of what is in it. -/
theorem utf8ByteSize_ofNames_le (names more : List String) :
    (ofNames true names).utf8ByteSize ≤ (ofNames true (names ++ more)).utf8ByteSize := by
  have shorter := utf8ByteSize_intercalate_le names more
  rw [ofNames, ofNames, String.utf8ByteSize_append, String.utf8ByteSize_append]
  omega

end HdlDesk.Path
