import HdlDesk.Proofs.Disk.Altered

/-!
# The way to a last step

A walk is cut before its last step. Whatever the walk is for, what comes before is the same: it goes
through folders and on from links, takes up some of the links that it may follow, and ends at a
place. All of it is told by the ways of the tree, so it stays as it is in a tree that keeps them.
-/
namespace HdlDesk

/-- Steps lead from one place to another and leave some of the links that could be followed. -/
inductive Approach (root : Node) : Nat → Place → List Path.Step → Nat → Place → Prop
  | done (links : Nat) (place : Place) : Approach root links place [] links place
  | idle {links left : Nat} {place last : Place} {step : Path.Step} {rest : List Path.Step}
      (folder : root.wayAt? place = some .into) (idles : step = .stay ∨ step = .close)
      (onward : Approach root links place rest left last) :
      Approach root links place (step :: rest) left last
  | up {links left : Nat} {place last : Place} {rest : List Path.Step}
      (folder : root.wayAt? place = some .into)
      (onward : Approach root links place.dropLast rest left last) :
      Approach root links place (.up :: rest) left last
  | enter {links left : Nat} {place last : Place} {name : String} {rest : List Path.Step}
      (folder : root.wayAt? place = some .into) (fits : name.utf8ByteSize ≤ Path.Step.nameBound)
      (child : root.wayAt? (place ++ [name]) = some .into)
      (onward : Approach root links (place ++ [name]) rest left last) :
      Approach root links place (.enter name :: rest) left last
  | jump {links left : Nat} {place last : Place} {name target : String} {rest : List Path.Step}
      (folder : root.wayAt? place = some .into) (fits : name.utf8ByteSize ≤ Path.Step.nameBound)
      (link : root.wayAt? (place ++ [name]) = some (.onTo target))
      (onward : Approach root links (if Path.isAbsolute target then [] else place)
        (Path.steps target ++ rest) left last) :
      Approach root (links + 1) place (.enter name :: rest) left last

namespace Approach

variable {root next : Node} {links left : Nat} {place last : Place} {steps : List Path.Step}

theorem mono (keeps : root.KeepsWays next) (approach : Approach root links place steps left last) :
    Approach next links place steps left last := by
  induction approach with
  | done links place => exact .done links place
  | idle folder idles _ ih => exact .idle (keeps _ _ folder) idles ih
  | up folder _ ih => exact .up (keeps _ _ folder) ih
  | enter folder fits child _ ih => exact .enter (keeps _ _ folder) fits (keeps _ _ child) ih
  | jump folder fits link _ ih => exact .jump (keeps _ _ folder) fits (keeps _ _ link) ih

/-- A way that ends in a folder starts in one. -/
theorem starts (approach : Approach root links place steps left last)
    (ends : root.wayAt? last = some .into) : root.wayAt? place = some .into := by
  cases approach with
  | done => exact ends
  | idle folder | up folder | enter folder | jump folder => exact folder

end Approach

/-! ### Walks along a way -/

namespace Position

theorem IsIn.wayAt? {here : Position} {root : Node} (isIn : here.IsIn root) :
    root.wayAt? here.place = here.node.way? := by
  rw [Node.wayAt?, isIn.at?, Option.bind_some]

theorem IsIn.node_of_into {here : Position} {root : Node} (isIn : here.IsIn root)
    (folder : root.wayAt? here.place = some .into) : ∃ entries, here.node = .folder entries := by
  obtain ⟨entries, there⟩ := Node.wayAt?_eq_into_iff.mp folder
  exact ⟨entries, Option.some.inj (isIn.at?.symm.trans there)⟩

theorem IsIn.child {here : Position} {root : Node} (isIn : here.IsIn root)
    {entries : List (String × Node)} (folder : here.node = .folder entries) (name : String) :
    root.at? (here.place ++ [name]) = Node.child? entries name := by
  rw [Node.at?_append isIn.at?, folder, Node.at?]
  cases Node.child? entries name <;> rfl

/-- Around a folder is a folder. -/
theorem IsIn.folder_up {here : Position} {root : Node} (isIn : here.IsIn root)
    (folder : root.wayAt? here.place = some .into) : root.wayAt? here.up.place = some .into := by
  obtain ⟨node, way⟩ := here
  cases way with
  | nil => exact folder
  | cons entry rest =>
    obtain ⟨name, around⟩ := entry
    have inside : root.at? ((⟨around, rest⟩ : Position).place ++ [name]) = some node := by
      simpa [place] using isIn.at?
    have before : root.at? (⟨around, rest⟩ : Position).place = some around := isIn.up.at?
    rw [Node.at?_append before] at inside
    refine isIn.up.wayAt?.trans ?_
    cases around with
    | file | link => cases inside
    | folder entries => rfl

end Position

namespace Disk

variable {root : Node} {purpose : Purpose} {links : Nat} {here : Position}

/-- What a walk that may follow so many links does after a link. -/
def leap (root : Node) (purpose : Purpose) :
    Nat → Position → List Path.Step → Except DiskError Found
  | 0 => fun _ _ => .error .tooManyLinks
  | links + 1 => walk root purpose links

theorem walk_eq (links : Nat) :
    walk root purpose links = walkWith root purpose (leap root purpose links) := by
  cases links <;> rfl

/-! ### Single steps of a walk -/

section Steps

variable {entries : List (String × Node)} (folder : here.node = .folder entries)
  {name : String} {rest : List Path.Step}

include folder

theorem walk_idle {step : Path.Step} (idles : step = .stay ∨ step = .close) :
    walk root purpose links here (step :: rest) = walk root purpose links here rest := by
  rcases idles with rfl | rfl <;> simp only [walk_eq, walkWith, folder]

theorem walk_up :
    walk root purpose links here (.up :: rest) = walk root purpose links here.up rest := by
  simp only [walk_eq, walkWith, folder]

theorem walk_enter (purpose : Purpose) (unclosed : purpose = .fill → rest ≠ [.close])
    (fits : name.utf8ByteSize ≤ Path.Step.nameBound) {inner : List (String × Node)}
    (found : Node.child? entries name = some (.folder inner)) :
    walk root purpose links here (.enter name :: rest) =
      walk root purpose links (here.enter name (.folder inner)) rest := by
  have stays : ¬(purpose = .fill ∧ rest = [.close]) := fun both => unclosed both.1 both.2
  simp only [walk_eq, walkWith, folder, stays, Nat.not_lt.mpr fits, found, if_false]

theorem walk_jump (purpose : Purpose) (unclosed : purpose = .fill → rest ≠ [.close])
    (fits : name.utf8ByteSize ≤ Path.Step.nameBound) {target : String}
    (found : Node.child? entries name = some (.link target))
    (follows : purpose = .handle → rest ≠ []) :
    walk root purpose (links + 1) here (.enter name :: rest) =
      walk root purpose links (start root target here) (Path.steps target ++ rest) := by
  have stays : ¬(purpose = .fill ∧ rest = [.close]) := fun both => unclosed both.1 both.2
  have goesOn : ¬(rest = [] ∧ purpose = .handle) := fun both => follows both.2 both.1
  rw [walk_eq]
  simp only [walkWith, folder, stays, Nat.not_lt.mpr fits, found, goesOn, if_false, leap]

end Steps

/-! ### Walks along an approach -/

/-- What remains to be walked does not depend on what the walk is for, as long as more than a
closing slash is left. -/
theorem walk_of_approach {left : Nat} {place last : Place} {steps more : List Path.Step}
    (approach : Approach root links place steps left last) (some : more ≠ [])
    (notClosing : more ≠ [.close]) (isIn : here.IsIn root) (stands : here.place = place) :
    ∃ there : Position, there.IsIn root ∧ there.place = last ∧ ∀ purpose,
      walk root purpose links here (steps ++ more) = walk root purpose left there more := by
  have longer : ∀ rest : List Path.Step, rest ++ more ≠ [] ∧ rest ++ more ≠ [.close] := by
    intro rest
    cases rest <;> simp [some, notClosing]
  -- The purposes differ in what they do at the end of the steps and before a lone closing slash,
  -- and by `longer` neither comes up along the approach.
  induction approach generalizing here with
  | done => exact ⟨here, isIn, stands, fun _ => rfl⟩
  | idle into idles _ ih =>
    obtain ⟨entries, folder⟩ := isIn.node_of_into (stands ▸ into)
    obtain ⟨there, inTree, ends, same⟩ := ih isIn stands
    exact ⟨there, inTree, ends, fun purpose => (walk_idle folder idles).trans (same purpose)⟩
  | up into _ ih =>
    obtain ⟨entries, folder⟩ := isIn.node_of_into (stands ▸ into)
    obtain ⟨there, inTree, ends, same⟩ := ih isIn.up (by rw [Position.place_up, stands])
    exact ⟨there, inTree, ends, fun purpose => (walk_up folder).trans (same purpose)⟩
  | enter into fits child _ ih =>
    obtain ⟨entries, folder⟩ := isIn.node_of_into (stands ▸ into)
    obtain ⟨inner, found⟩ := Node.wayAt?_eq_into_iff.mp child
    rw [← stands, isIn.child folder] at found
    obtain ⟨there, inTree, ends, same⟩ :=
      ih (isIn.enter folder found) (by rw [Position.place_enter, stands])
    exact ⟨there, inTree, ends, fun purpose =>
      (walk_enter folder purpose (fun _ => (longer _).2) fits found).trans (same purpose)⟩
  | jump into fits link _ ih =>
    obtain ⟨entries, folder⟩ := isIn.node_of_into (stands ▸ into)
    have found := Node.wayAt?_eq_onTo_iff.mp link
    rw [← stands, isIn.child folder] at found
    obtain ⟨there, inTree, ends, same⟩ := ih (isIn.start _) (by rw [Position.place_start, stands])
    refine ⟨there, inTree, ends, fun purpose => ?_⟩
    rw [← same purpose, List.append_assoc]
    exact walk_jump folder purpose (fun _ => (longer _).2) fits found fun _ => (longer _).1

/-- To handle what the steps lead to is never to find it missing. -/
theorem walk_handle_of_approach {left : Nat} {place last : Place} {steps : List Path.Step}
    (approach : Approach root links place steps left last) (isIn : here.IsIn root)
    (stands : here.place = place) :
    ∃ place node, walk root .handle links here steps = .ok (.node place node) := by
  induction approach generalizing here with
  | done links => exact ⟨here.place, here.node, by rw [walk_eq, walkWith]⟩
  | idle into idles _ ih =>
    obtain ⟨entries, folder⟩ := isIn.node_of_into (stands ▸ into)
    rw [walk_idle folder idles]
    exact ih isIn stands
  | up into _ ih =>
    obtain ⟨entries, folder⟩ := isIn.node_of_into (stands ▸ into)
    rw [walk_up folder]
    exact ih isIn.up (by rw [Position.place_up, stands])
  | enter into fits child _ ih =>
    obtain ⟨entries, folder⟩ := isIn.node_of_into (stands ▸ into)
    obtain ⟨inner, found⟩ := Node.wayAt?_eq_into_iff.mp child
    rw [← stands, isIn.child folder] at found
    rw [walk_enter folder .handle (by simp) fits found]
    exact ih (isIn.enter folder found) (by rw [Position.place_enter, stands])
  | @jump links left place last name target rest into fits link _ ih =>
    obtain ⟨entries, folder⟩ := isIn.node_of_into (stands ▸ into)
    have found := Node.wayAt?_eq_onTo_iff.mp link
    rw [← stands, isIn.child folder] at found
    by_cases final : rest = []
    · -- The link itself is what is handled.
      refine ⟨here.place ++ [name], .link target, ?_⟩
      rw [walk_eq, final]
      simp [walkWith, folder, found, Nat.not_lt.mpr fits]
    · rw [walk_jump folder .handle (by simp) fits found fun _ => final]
      exact ih (isIn.start _) (by rw [Position.place_start, stands])

/-- A walk that succeeds came to its last step in some way. -/
theorem approach_of_walk {steps : List Path.Step} {step : Path.Step} (isIn : here.IsIn root)
    {found : Found} (walked : walk root .reach links here (steps ++ [step]) = .ok found) :
    ∃ left, ∃ there : Position, there.IsIn root ∧
      Approach root links here.place steps left there.place ∧
      walk root .reach left there [step] = .ok found := by
  -- A link puts the steps of its target in front, so the steps alone do not get fewer. The outer
  -- induction is on the links that are left, the inner one on the steps up to the next link.
  induction links using Nat.strongRecOn generalizing here steps with
  | ind links fewer =>
    induction steps generalizing here with
    | nil => exact ⟨links, here, isIn, .done _ _, walked⟩
    | cons first rest ih =>
      have longer : rest ++ [step] ≠ [] :=
        List.append_ne_nil_of_right_ne_nil rest (List.cons_ne_nil _ _)
      rw [List.cons_append] at walked
      cases folder : here.node with
      | file | link => simp [walk_eq, walkWith, folder] at walked
      | folder entries =>
        have into : root.wayAt? here.place = some .into := by
          rw [isIn.wayAt?, folder]
          rfl
        cases first with
        | stay | close =>
          rw [walk_idle folder (by simp)] at walked
          obtain ⟨left, there, inTree, approach, ended⟩ := ih isIn walked
          exact ⟨left, there, inTree, .idle into (by simp) approach, ended⟩
        | up =>
          rw [walk_up folder] at walked
          obtain ⟨left, there, inTree, approach, ended⟩ := ih isIn.up walked
          rw [Position.place_up] at approach
          exact ⟨left, there, inTree, .up into approach, ended⟩
        | enter name =>
          have fits : name.utf8ByteSize ≤ Path.Step.nameBound := by
            refine Nat.not_lt.mp fun long => ?_
            simp [walk_eq, walkWith, folder, long] at walked
          cases found : Node.child? entries name with
          | none => simp [walk_eq, walkWith, folder, Nat.not_lt.mpr fits, found, longer] at walked
          | some child =>
            have there := isIn.child folder name
            rw [found] at there
            cases child with
            | file bytes =>
              -- Nothing can be walked from a file.
              obtain ⟨next, more, shape⟩ := List.exists_cons_of_ne_nil longer
              simp [walk_eq, walkWith, folder, Nat.not_lt.mpr fits, found, shape,
                Position.enter] at walked
            | folder inner =>
              rw [walk_enter folder .reach (by simp) fits found] at walked
              obtain ⟨left, last, inTree, approach, ended⟩ := ih (isIn.enter folder found) walked
              rw [Position.place_enter] at approach
              have child := Node.wayAt?_eq_into_iff.mpr ⟨inner, there⟩
              exact ⟨left, last, inTree, .enter into fits child approach, ended⟩
            | link target =>
              cases links with
              | zero => simp [walk, walkWith, folder, Nat.not_lt.mpr fits, found] at walked
              | succ links =>
                rw [walk_jump folder .reach (by simp) fits found fun _ => longer,
                  ← List.append_assoc] at walked
                obtain ⟨left, last, inTree, approach, ended⟩ :=
                  fewer links (Nat.lt_succ_self links) (isIn.start target) walked
                rw [Position.place_start] at approach
                have link := Node.wayAt?_eq_onTo_iff.mpr there
                exact ⟨left, last, inTree, .jump into fits link approach, ended⟩

/-! ### The last step -/

/-- What the walk to a name finds among the entries of the folder it has come to. -/
def foundAmong (place : Place) (entries : List (String × Node)) (name : String) : Found :=
  match Node.child? entries name with
  | some node => .node (place ++ [name]) node
  | none => .missing place name

theorem walk_last {entries : List (String × Node)} (folder : here.node = .folder entries)
    {name : String} (fits : name.utf8ByteSize ≤ Path.Step.nameBound)
    (noLink : ∀ target, Node.child? entries name ≠ some (.link target)) :
    walk root purpose links here [.enter name] = .ok (foundAmong here.place entries name) := by
  have notLong : ¬Path.Step.nameBound < name.utf8ByteSize := Nat.not_lt.mpr fits
  unfold foundAmong
  simp only [walk_eq, walkWith, folder, notLong, if_false, reduceCtorEq, and_false, if_true]
  cases found : Node.child? entries name with
  | none => rfl
  | some child =>
    cases child with
    | link target => exact absurd found (noLink target)
    | file | folder => simp [Position.enter, Position.place]

/-! ### From a path to its last step -/

variable {disk : Disk} {path : String}

/-- What is answered to a path before it is walked. -/
def refusal? (path : String) : Option DiskError :=
  if path.toList.contains '\x00' then some .zeroInPath
  else if Path.lengthBound ≤ path.utf8ByteSize then some .nameTooLong
  else if path = "" then some .notFound
  else none

theorem find_of_refusal {refused : DiskError} (refuses : refusal? path = some refused)
    (purpose : Purpose) : disk.find path purpose = .error refused := by
  unfold find
  unfold refusal? at refuses
  split at refuses
  next zero =>
    cases refuses
    exact if_pos zero
  next noZero =>
    rw [if_neg noZero]
    split at refuses
    next long =>
      cases refuses
      exact if_pos long
    next short =>
      rw [if_neg short]
      split at refuses
      next nothing =>
        cases refuses
        exact if_pos nothing
      · cases refuses

theorem refusal?_eq_none_iff : refusal? path = none ↔
    '\x00' ∉ path.toList ∧ path.utf8ByteSize < Path.lengthBound ∧ path ≠ "" := by
  by_cases zero : '\x00' ∈ path.toList
  · simp [refusal?, zero]
  by_cases long : Path.lengthBound ≤ path.utf8ByteSize
  · simp [refusal?, zero, long, Nat.not_lt.mpr long]
  by_cases nothing : path = ""
  · simp [refusal?, Path.lengthBound, nothing]
  · simp [refusal?, zero, Nat.not_le.mp long, long, nothing]

theorem refused_ne_notFound {refused : DiskError} (something : path ≠ "")
    (refuses : refusal? path = some refused) : refused ≠ .notFound := by
  rintro rfl
  unfold refusal? at refuses
  split at refuses
  · cases refuses
  split at refuses
  · cases refuses
  cases refuses

/-- Where a path starts. -/
def startPosition? (disk : Disk) (path : String) : Option Position :=
  if Path.isAbsolute path then some ⟨disk.root, []⟩
  else (⟨disk.root, []⟩ : Position).below? disk.workingFolder

/-- The place that a path starts from. -/
def startPlace (disk : Disk) (path : String) : Place :=
  if Path.isAbsolute path then [] else disk.workingFolder

/-- A path that is not refused is walked from where it starts. -/
theorem find_of_start (taken : refusal? path = none) {here : Position}
    (starts : disk.startPosition? path = some here) (purpose : Purpose) :
    disk.find path purpose = walk disk.root purpose linkLimit here
      (if purpose = .handle then Path.openSteps path else Path.steps path) := by
  obtain ⟨noZero, short, something⟩ := refusal?_eq_none_iff.mp taken
  have noneZero : path.toList.contains '\x00' = false := by simpa using noZero
  unfold startPosition? at starts
  unfold find
  simp only [noneZero, Nat.not_le.mpr short, something, starts, if_false, Bool.false_eq_true]

theorem find_of_no_start (starts : disk.startPosition? path = none) (purpose : Purpose) :
    ∃ refused, disk.find path purpose = .error refused := by
  unfold startPosition? at starts
  unfold find
  dsimp only
  rw [starts]
  split
  · exact ⟨_, rfl⟩
  split
  · exact ⟨_, rfl⟩
  split <;> exact ⟨_, rfl⟩

theorem isIn_startPosition {here : Position} (starts : disk.startPosition? path = some here) :
    here.IsIn disk.root ∧ here.place = disk.startPlace path := by
  unfold startPosition? at starts
  unfold startPlace
  split
  next absolute =>
    rw [if_pos absolute] at starts
    cases starts
    exact ⟨.root_isIn _, rfl⟩
  next relative =>
    rw [if_neg relative] at starts
    exact ⟨.of_below? starts, by simpa [Position.place] using Position.place_of_below? starts⟩

theorem exists_startPosition (into : disk.root.wayAt? (disk.startPlace path) = some .into) :
    ∃ here, disk.startPosition? path = some here := by
  obtain ⟨entries, folder⟩ := Node.wayAt?_eq_into_iff.mp into
  unfold startPlace at folder
  unfold startPosition?
  split
  next absolute => exact ⟨_, rfl⟩
  next relative =>
    rw [if_neg relative] at folder
    obtain ⟨here, below, _⟩ := Position.below?_eq_some ⟨disk.root, []⟩ folder
    exact ⟨here, below⟩

theorem startPlace_behind (disk : Disk) (front : List String) {last : String}
    (ends : Path.IsComponent last) :
    disk.startPlace (Path.behind front last) = disk.startPlace (Path.behind front "") := by
  have noSlash : Path.IsComponent "" := by decide
  rw [startPlace, startPlace, Path.isAbsolute_behind ends noSlash]

/-- A walk that succeeds was not refused, and it has a start. -/
theorem exists_start {found : Found} (walked : disk.find path .reach = .ok found) :
    refusal? path = none ∧ ∃ here, disk.startPosition? path = some here ∧
      walk disk.root .reach linkLimit here (Path.steps path) = .ok found := by
  cases taken : refusal? path with
  | some refused => cases (find_of_refusal taken .reach).symm.trans walked
  | none =>
    cases starts : disk.startPosition? path with
    | none =>
      obtain ⟨refused, found⟩ := find_of_no_start starts .reach
      cases found.symm.trans walked
    | some here =>
      rw [find_of_start taken starts, if_neg (by simp)] at walked
      exact ⟨rfl, here, rfl, walked⟩

theorem find_of_node? {place : Place} {node : Node} (leads : disk.node? path = .ok (place, node)) :
    disk.find path .reach = .ok (.node place node) := by
  unfold node? at leads
  split at leads
  next found =>
    rw [found]
    cases leads
    rfl
  · cases leads
  · cases leads

/-- The folder that the components before the last one lead to. -/
structure Opens (disk : Disk) (front : List String) (place : Place)
    (entries : List (String × Node)) : Prop where
  approach : ∃ left, Approach disk.root linkLimit (disk.startPlace (Path.behind front ""))
    (front.filterMap Path.Step.ofComponent?) left place
  folder : disk.root.at? place = some (.folder entries)

section Opens

variable {front more : List String} {place : Place} {entries : List (String × Node)}
  (each : ∀ component ∈ front ++ more, Path.IsComponent component)
  (named : ∀ name ∈ more, name ≠ "") {last : String} (ends : Path.IsComponent last)

include each named ends

/-- Whatever a path is walked for, it is walked alike up to an opened folder. -/
theorem find_below_opens (opens : disk.Opens front place entries) {step : Path.Step}
    (isStep : Path.Step.ofComponent? last = some step)
    (taken : refusal? (Path.behind (front ++ more) last) = none) :
    ∃ left, ∃ there : Position, there.IsIn disk.root ∧ there.place = place ∧
      there.node = .folder entries ∧ ∀ purpose,
      disk.find (Path.behind (front ++ more) last) purpose =
        walk disk.root purpose left there (more.filterMap Path.Step.ofComponent? ++ [step]) := by
  have some : last ≠ "" := by
    rintro rfl
    cases isStep
  have notClosing := Path.Step.concat_ne_close isStep (more.filterMap Path.Step.ofComponent?)
  have samePlace : disk.startPlace (Path.behind (front ++ more) last) =
      disk.startPlace (Path.behind front "") := by
    rw [startPlace_behind disk _ ends, startPlace, startPlace, Path.isAbsolute_append named fun name member =>
      each name (List.mem_append_right _ member)]
  obtain ⟨before, approach⟩ := opens.approach
  have into := Node.wayAt?_eq_into_iff.mpr ⟨entries, opens.folder⟩
  obtain ⟨here, starts⟩ := exists_startPosition (samePlace ▸ approach.starts into)
  obtain ⟨isIn, stands⟩ := isIn_startPosition starts
  obtain ⟨there, inTree, atPlace, same⟩ :=
    walk_of_approach approach (List.concat_ne_nil step _) notClosing isIn (stands.trans samePlace)
  have folder := inTree.at?
  rw [atPlace, opens.folder] at folder
  have opened := Path.openSteps_behind each ends
  rw [isStep, List.filterMap_append, Option.toList_some, List.append_assoc] at opened
  -- The path ends in no slash, so its closing is the same for every purpose.
  have steps : Path.steps (Path.behind (front ++ more) last) =
      Path.openSteps (Path.behind (front ++ more) last) := by
    rw [Path.steps, Path.endsInSlash_behind ends some]
    simp
  refine ⟨before, there, inTree, atPlace, (Option.some.inj folder).symm, fun purpose => ?_⟩
  rw [find_of_start taken starts, steps, ite_self, opened]
  exact same purpose

end Opens

/-- Paths that differ in their last component only are walked alike up to it. -/
theorem find_of_opens {front : List String} {place : Place} {entries : List (String × Node)}
    (each : ∀ component ∈ front, Path.IsComponent component) {last : String}
    (ends : Path.IsComponent last) (opens : disk.Opens front place entries) {step : Path.Step}
    (isStep : Path.Step.ofComponent? last = some step)
    (taken : refusal? (Path.behind front last) = none) :
    ∃ left, ∃ there : Position, there.IsIn disk.root ∧ there.place = place ∧
      there.node = .folder entries ∧ ∀ purpose,
      disk.find (Path.behind front last) purpose = walk disk.root purpose left there [step] := by
  have whole : front ++ [] = front := List.append_nil front
  rw [← whole] at each taken ⊢
  exact find_below_opens each nofun ends opens isStep taken

end Disk

/-- A path that a disk walks and whose last component can be the name of an entry. -/
structure Path.Names (path : String) (front : List String) (last : String) : Prop where
  shape : path = behind front last
  parts : ∀ component ∈ front, IsComponent component
  isName : IsName last
  taken : Disk.refusal? path = none

namespace Disk

variable {disk : Disk} {path : String}

/-- The path of a file ends in its name, behind components that lead to the folder around it. -/
theorem names_of_node? {place : Place} {bytes : ByteArray}
    (leads : disk.node? path = .ok (place, .file bytes)) :
    ∃ front last folder entries, Path.Names path front last ∧ disk.Opens front folder entries := by
  obtain ⟨taken, here, starts, walked⟩ := exists_start (find_of_node? leads)
  obtain ⟨isIn, stands⟩ := isIn_startPosition starts
  obtain ⟨noZero, _, something⟩ := refusal?_eq_none_iff.mp taken
  obtain ⟨front, last, shape, parts, ends⟩ := Path.exists_behind path
  obtain ⟨step, steps, isStep⟩ := Path.exists_steps_behind parts ends (shape ▸ something)
  rw [shape, steps] at walked
  obtain ⟨left, there, inTree, approach, ended⟩ := approach_of_walk isIn walked
  cases folder : there.node with
  | file | link => simp [walk_eq, walkWith, folder] at ended
  | folder entries =>
  have into : disk.root.wayAt? there.place = some .into := by
    rw [inTree.wayAt?, folder]
    rfl
  -- Every step but the entering of a name ends in a folder.
  cases step with
  | stay | close => simp [walk_eq, walkWith, folder] at ended
  | up =>
    obtain ⟨around, isFolder⟩ := inTree.up.node_of_into (inTree.folder_up into)
    simp [walk_eq, walkWith, folder, isFolder] at ended
  | enter name =>
    obtain ⟨rfl, not_empty, not_here, not_around⟩ :=
      Path.of_ofComponent?_eq_enter (isStep.resolve_right (by simp))
    have fits : last.utf8ByteSize ≤ Path.Step.nameBound := by
      refine Nat.not_lt.mp fun long => ?_
      simp [walk_eq, walkWith, folder, long] at ended
    have isName : Path.IsName last := by
      refine ⟨not_empty, not_here, not_around, ends, fun zero => noZero ?_, fits⟩
      rw [shape, Path.behind, String.toList_ofList]
      exact List.mem_append_right _ zero
    refine ⟨front, last, there.place, entries, ⟨shape, parts, isName, taken⟩, ⟨left, ?_⟩, ?_⟩
    · rw [stands, shape, startPlace_behind disk front ends] at approach
      exact approach
    · exact folder ▸ inTree.at?

section Names

variable {front : List String} {last : String} {place : Place} {entries : List (String × Node)}
  (opens : disk.Opens front place entries)

include opens

/-- To change an entry that is no way leaves the folder where it is. -/
theorem Opens.alter {change : Option Node → Option Node} {name : String}
    (noWay : ∀ held, Node.child? entries name = some held → ∃ bytes, held = .file bytes) :
    Opens { disk with root := disk.root.alter change (place ++ [name]) } front place
      (Node.alterChild change name entries) where
  approach := opens.approach.imp fun _ approach =>
    approach.mono (Node.keepsWays_alter opens.folder noWay)
  folder := Node.at?_alter opens.folder

theorem find_of_names (names : Path.Names path front last)
    (noLink : ∀ target, Node.child? entries last ≠ some (.link target)) (purpose : Purpose) :
    disk.find path purpose = .ok (foundAmong place entries last) := by
  obtain ⟨left, there, _, atPlace, folder, same⟩ := find_of_opens names.parts names.isName.component
    opens names.isName.ofComponent? (names.shape ▸ names.taken)
  rw [names.shape, same, walk_last folder names.isName.fits noLink, atPlace]

theorem find_handle_link (names : Path.Names path front last) {target : String}
    (link : Node.child? entries last = some (.link target)) :
    disk.find path .handle = .ok (.node (place ++ [last]) (.link target)) := by
  obtain ⟨left, there, _, atPlace, folder, same⟩ := find_of_opens names.parts names.isName.component
    opens names.isName.ofComponent? (names.shape ▸ names.taken)
  rw [names.shape, same, walk_eq]
  simp [walkWith, folder, link, Nat.not_lt.mpr names.isName.fits, atPlace]

end Names

end Disk

end HdlDesk
