import HdlDesk.Disk.Basic
import HdlDesk.Proofs.Disk.Names

/-!
# Where walks lead

A walk that succeeds ends at a place of the tree, whatever links and parents it went through. Back
from a place to a walk: in a tree whose entries have proper names, the path that enters the names of
a place one by one leads there, as long as the disk can take it.
-/
namespace HdlDesk

namespace Node

variable {entries : List (String × Node)} {name : String} {node : Node}

theorem mem_of_child? (found : child? entries name = some node) : (name, node) ∈ entries := by
  induction entries with
  | nil => cases found
  | cons entry rest ih =>
    obtain ⟨other, held⟩ := entry
    rw [child?] at found
    split at found
    next same =>
      subst same
      cases found
      exact List.mem_cons_self
    · exact List.mem_cons_of_mem _ (ih found)

theorem at?_append {root : Node} {place : Place} (leads : root.at? place = some node)
    (more : Place) : root.at? (place ++ more) = node.at? more := by
  induction place generalizing root with
  | nil =>
    cases leads
    rfl
  | cons first rest ih =>
    cases root with
    | file | link => simp [at?] at leads
    | folder entries =>
      rw [at?] at leads
      rw [List.cons_append, at?]
      cases found : child? entries first with
      | none => simp [found] at leads
      | some child =>
        rw [found] at leads
        exact ih leads

theorem exists_at?_of_append {root : Node} {place more : Place}
    (leads : root.at? (place ++ more) = some node) :
    ∃ around, root.at? place = some around ∧ around.at? more = some node := by
  induction place generalizing root with
  | nil => exact ⟨root, rfl, leads⟩
  | cons first rest ih =>
    cases root with
    | file | link => simp [at?] at leads
    | folder entries =>
      rw [List.cons_append, at?] at leads
      cases found : child? entries first with
      | none => simp [found] at leads
      | some child =>
        rw [found] at leads
        obtain ⟨around, toAround, below⟩ := ih leads
        exact ⟨around, by rw [at?, found]; exact toAround, below⟩

/-- A tree as a disk can have it: the entries of every folder have different names that entries can
have. -/
inductive Proper : Node → Prop
  | file (bytes : ByteArray) : Proper (.file bytes)
  | link (target : String) : Proper (.link target)
  | folder {entries : List (String × Node)} (distinct : (entries.map Prod.fst).Nodup)
      (names : ∀ entry ∈ entries, Path.IsName entry.1) (below : ∀ entry ∈ entries, Proper entry.2) :
      Proper (.folder entries)

/-- What a place in a proper tree leads to is proper, and so are the names of the place. -/
theorem Proper.at? {root : Node} (proper : root.Proper) {place : Place}
    (leads : root.at? place = some node) :
    node.Proper ∧ ∀ name ∈ place, Path.IsName name := by
  induction place generalizing root with
  | nil =>
    cases leads
    exact ⟨proper, nofun⟩
  | cons first rest ih =>
    cases proper with
    | file | link => simp [Node.at?] at leads
    | @folder entries distinct names below =>
      rw [Node.at?] at leads
      cases found : child? entries first with
      | none => simp [found] at leads
      | some child =>
        rw [found] at leads
        have member := mem_of_child? found
        obtain ⟨ends, others⟩ := ih (below _ member) leads
        refine ⟨ends, ?_⟩
        rintro name (_ | ⟨_, inside⟩)
        · exact names _ member
        · exact others name inside

end Node

/-! ### Positions -/

namespace Position

theorem place_enter (here : Position) (name : String) (child : Node) :
    (here.enter name child).place = here.place ++ [name] := by
  simp [enter, place]

theorem place_up (here : Position) : here.up.place = here.place.dropLast := by
  obtain ⟨node, way⟩ := here
  cases way with
  | nil => rfl
  | cons entry rest => simp [up, place]

variable {position here : Position} {place : Place}

theorem below?_append (position : Position) (place more : Place) :
    position.below? (place ++ more) = (position.below? place).bind (below? · more) := by
  induction place generalizing position with
  | nil => rfl
  | cons name rest ih =>
    rw [List.cons_append, below?, below?]
    cases position.node with
    | file | link => rfl
    | folder entries =>
      dsimp only
      rw [Option.bind_assoc]
      exact congrArg _ (funext fun child => ih _)

theorem at?_of_below? (below : position.below? place = some here) :
    position.node.at? place = some here.node := by
  induction place generalizing position with
  | nil =>
    cases below
    rfl
  | cons name rest ih =>
    rw [below?] at below
    cases folder : position.node with
    | file | link => simp [folder] at below
    | folder entries =>
      rw [folder] at below
      cases found : Node.child? entries name with
      | none => simp [found] at below
      | some child =>
        simp only [found, Option.bind_some] at below
        rw [Node.at?, found]
        exact ih below

theorem place_of_below? (below : position.below? place = some here) :
    here.place = position.place ++ place := by
  induction place generalizing position with
  | nil =>
    cases below
    simp
  | cons name rest ih =>
    rw [below?] at below
    cases folder : position.node with
    | file | link => simp [folder] at below
    | folder entries =>
      rw [folder] at below
      obtain ⟨child, _, onward⟩ := Option.bind_eq_some_iff.mp below
      rw [ih onward]
      simp [enter, Position.place]

theorem below?_eq_some (position : Position) {place : Place} {node : Node}
    (leads : position.node.at? place = some node) :
    ∃ here, position.below? place = some here ∧ here.node = node ∧
      here.place = position.place ++ place := by
  induction place generalizing position with
  | nil => exact ⟨position, rfl, by simpa [Node.at?] using leads, by simp⟩
  | cons name rest ih =>
    cases folder : position.node with
    | file | link => simp [folder, Node.at?] at leads
    | folder entries =>
      rw [folder, Node.at?] at leads
      cases found : Node.child? entries name with
      | none => simp [found] at leads
      | some child =>
        rw [found] at leads
        have entered : (position.enter name child).node.at? rest = some node := leads
        obtain ⟨here, below, isNode, isPlace⟩ := ih _ entered
        refine ⟨here, ?_, isNode, ?_⟩
        · rw [below?, folder]
          simpa [found] using below
        · rw [isPlace]
          simp [enter, Position.place]

/-- The position that the names of its place lead to from a root. -/
def IsIn (here : Position) (root : Node) : Prop :=
  (⟨root, []⟩ : Position).below? here.place = some here

namespace IsIn

variable {root : Node}

theorem root_isIn (root : Node) : IsIn ⟨root, []⟩ root := rfl

theorem of_below? (below : (⟨root, []⟩ : Position).below? place = some here) : here.IsIn root := by
  have atPlace : here.place = place := by simpa [Position.place] using place_of_below? below
  rw [IsIn, atPlace, below]

theorem at? (isIn : here.IsIn root) : root.at? here.place = some here.node :=
  at?_of_below? isIn

theorem enter (isIn : here.IsIn root) {entries : List (String × Node)} {name : String}
    {child : Node} (folder : here.node = .folder entries)
    (found : Node.child? entries name = some child) : (here.enter name child).IsIn root := by
  rw [IsIn, place_enter, below?_append, isIn, Option.bind_some, below?, folder]
  simp only [found, Option.bind_some]
  rfl

theorem up (isIn : here.IsIn root) : here.up.IsIn root := by
  obtain ⟨node, way⟩ := here
  cases way with
  | nil => exact isIn
  | cons entry rest =>
    obtain ⟨name, around⟩ := entry
    have place : (⟨node, (name, around) :: rest⟩ : Position).place =
        (⟨around, rest⟩ : Position).place ++ [name] := by
      simp [Position.place]
    rw [IsIn, place, below?_append] at isIn
    obtain ⟨before, toBefore, onward⟩ := Option.bind_eq_some_iff.mp isIn
    -- The last name was entered from the folder around, which is kept in the way.
    have entered : before = ⟨around, rest⟩ := by
      rw [below?] at onward
      cases folder : before.node with
      | file | link => simp [folder] at onward
      | folder entries =>
        rw [folder] at onward
        obtain ⟨child, _, at_child⟩ := Option.bind_eq_some_iff.mp onward
        simp only [below?, Position.enter, Option.some.injEq, Position.mk.injEq, List.cons.injEq,
          Prod.mk.injEq] at at_child
        obtain ⟨_, ⟨_, sameNode⟩, sameWay⟩ := at_child
        rw [← sameNode, ← sameWay]
    rw [entered] at toBefore
    exact toBefore

/-- Where a path starts from is in the tree. -/
theorem start (isIn : here.IsIn root) (path : String) : (Disk.start root path here).IsIn root := by
  unfold Disk.start
  split
  · exact .root_isIn root
  · exact isIn

end IsIn

theorem place_start (root : Node) (path : String) (here : Position) :
    (Disk.start root path here).place = if Path.isAbsolute path then [] else here.place := by
  unfold Disk.start
  split <;> rfl

end Position

/-! ### What is found -/

/-- What was found is in the tree: a node at its place, or a folder without an entry of the name. -/
def Found.IsIn (root : Node) : Found → Prop
  | .node place held => root.at? place = some held
  | .missing place name => ∃ entries, root.at? place = some (.folder entries) ∧
      Node.child? entries name = none

namespace Disk

variable {root : Node}

/-- Walking on from a position of the tree finds what is in it, if going on after a link does. -/
theorem walkWith_isIn {purpose : Purpose}
    {jump : Position → List Path.Step → Except DiskError Found}
    (jumps : ∀ here steps found, here.IsIn root → jump here steps = .ok found → found.IsIn root)
    (steps : List Path.Step) {here : Position} (isIn : here.IsIn root) {found : Found}
    (walked : walkWith root purpose jump here steps = .ok found) : found.IsIn root := by
  induction steps generalizing here with
  | nil =>
    cases walked
    exact isIn.at?
  | cons step rest ih =>
    cases folder : here.node with
    | file | link => simp [walkWith, folder] at walked
    | folder entries =>
      cases step with
      | stay | close =>
        simp only [walkWith, folder] at walked
        exact ih isIn walked
      | up =>
        simp only [walkWith, folder] at walked
        exact ih isIn.up walked
      | enter name =>
        simp only [walkWith, folder] at walked
        split at walked
        · cases walked
        split at walked
        · cases walked
        cases child : Node.child? entries name with
        | none =>
          simp only [child] at walked
          split at walked
          · cases walked
            exact ⟨entries, folder ▸ isIn.at?, child⟩
          · cases walked
        | some node =>
          cases node with
          | file | folder =>
            simp only [child] at walked
            exact ih (isIn.enter folder child) walked
          | link target =>
            -- The walk ends at the link, or goes on from where its target starts.
            simp only [child] at walked
            split at walked
            · cases walked
              have there := (isIn.enter folder child).at?
              rwa [Position.place_enter] at there
            · exact jumps _ _ _ (isIn.start target) walked

theorem walk_isIn {purpose : Purpose} (links : Nat) {here : Position} (isIn : here.IsIn root)
    {steps : List Path.Step} {found : Found}
    (walked : walk root purpose links here steps = .ok found) : found.IsIn root := by
  induction links generalizing here steps found with
  | zero => exact walkWith_isIn (fun _ _ _ _ refused => by cases refused) steps isIn walked
  | succ links ih =>
    exact walkWith_isIn (fun _ _ _ stands onward => ih stands onward) steps isIn walked

theorem find_isIn {disk : Disk} {path : String} {purpose : Purpose} {found : Found}
    (walked : disk.find path purpose = .ok found) : found.IsIn disk.root := by
  unfold find at walked
  split at walked
  · cases walked
  split at walked
  · cases walked
  split at walked
  · cases walked
  dsimp only at walked
  split at walked
  next here starts =>
    refine walk_isIn linkLimit ?_ walked
    split at starts
    · cases starts
      exact .root_isIn disk.root
    · exact .of_below? starts
  · cases walked

theorem at?_of_node? {disk : Disk} {path : String} {place : Place} {node : Node}
    (leads : disk.node? path = .ok (place, node)) : disk.root.at? place = some node := by
  unfold node? at leads
  split at leads
  next found =>
    cases leads
    exact find_isIn found
  · cases leads
  · cases leads

/-- A walk has led to a folder once its place is one. -/
theorem node?_of_place {disk : Disk} {path : String} {place : Place} {node : Node}
    (placed : (disk.node? path).toOption.map Prod.fst = some place)
    (there : disk.root.at? place = some node) : disk.node? path = .ok (place, node) := by
  cases walked : disk.node? path with
  | error refused =>
    rw [walked] at placed
    cases placed
  | ok found =>
    obtain ⟨ended, led⟩ := found
    rw [walked] at placed
    cases placed
    have same : led = node := Option.some.inj ((at?_of_node? walked).symm.trans there)
    rw [same]

/-! ### The path of a place leads there -/

/-- Entering names one after the other. -/
theorem walkWith_names {jump : Position → List Path.Step → Except DiskError Found}
    {names : List String} (fits : ∀ name ∈ names, name.utf8ByteSize ≤ Path.Step.nameBound)
    {here : Position} {node : Node} (leads : here.node.at? names = some node)
    (noLink : ∀ target, node ≠ .link target) :
    walkWith root .reach jump here (names.map .enter) = .ok (.node (here.place ++ names) node) := by
  induction names generalizing here with
  | nil =>
    cases leads
    simp [walkWith]
  | cons name rest ih =>
    cases folder : here.node with
    | file | link => simp [folder, Node.at?] at leads
    | folder entries =>
      rw [folder, Node.at?] at leads
      cases found : Node.child? entries name with
      | none => simp [found] at leads
      | some child =>
        rw [found] at leads
        have short : ¬Path.Step.nameBound < name.utf8ByteSize :=
          Nat.not_lt.mpr (fits name List.mem_cons_self)
        have below : (here.enter name child).node.at? rest = some node := leads
        have onward := ih (fun other member => fits other (List.mem_cons_of_mem _ member)) below
        rw [Position.place_enter, List.append_assoc, List.singleton_append] at onward
        simp only [List.map_cons, walkWith, folder, short, found, reduceCtorEq, false_and, if_false]
        cases child with
        | file | folder => exact onward
        | link target =>
          -- A link leads to nothing below, and the last node is none.
          cases rest with
          | nil =>
            cases leads
            exact absurd rfl (noLink target)
          | cons => simp [Node.at?] at leads

/-- In a proper tree the path of a place leads there, if the disk can take it. -/
theorem node?_ofNames {disk : Disk} (proper : disk.root.Proper) {front : Place} {last : String}
    {node : Node} (there : disk.root.at? (front ++ [last]) = some node)
    (noLink : ∀ target, node ≠ .link target)
    (fits : (Path.ofNames true (front ++ [last])).utf8ByteSize < Path.lengthBound) :
    disk.node? (Path.ofNames true (front ++ [last])) = .ok (front ++ [last], node) := by
  have names := (proper.at? there).2
  have walked : walk disk.root .reach linkLimit ⟨disk.root, []⟩ ((front ++ [last]).map .enter) =
      .ok (.node (front ++ [last]) node) :=
    walkWith_names (fun name member => (names name member).fits) there noLink
  have noZero : (Path.ofNames true (front ++ [last])).toList.contains '\x00' = false := by
    simpa using Path.no_zero_ofNames names
  have nonempty : Path.ofNames true (front ++ [last]) ≠ "" := by
    intro empty
    have absolute := Path.isAbsolute_ofNames (front ++ [last])
    rw [empty] at absolute
    exact absurd absolute (by decide)
  rw [node?, find]
  simp only [noZero, Nat.not_le.mpr fits, nonempty, Path.isAbsolute_ofNames, if_true, if_false,
    Bool.false_eq_true, reduceCtorEq, Path.steps_ofNames names, walked]

end Disk

end HdlDesk
