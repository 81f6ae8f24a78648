import HdlDesk.Disk.Medium
import HdlDesk.Proofs.Disk.Approach
import HdlDesk.Proofs.Source.Folders

/-!
# A disk is a lawful medium

The tree of a disk is kept when its names are written as bytes, and so are the paths of its places.
A path that leads somewhere and a canonical path that is made from it lead to the same place: both
go through the same links and folders, and all that the second may do on its own is to refuse.
-/
namespace HdlDesk

namespace Node

variable {entries : List (String × Node)} {name : String} {node : Node} {place : Place}

/-! ### Names as bytes -/

theorem items_eq_map (entries : List (String × Node)) :
    items entries = entries.map fun entry => (Text.encode entry.1, entry.2.item) := by
  induction entries with
  | nil => rw [items, List.map_nil]
  | cons entry rest ih => rw [items, List.map_cons, ih]

theorem lookup_items (entries : List (String × Node)) (name : String) :
    (items entries).lookup (Text.encode name) = (child? entries name).map item := by
  induction entries with
  | nil => rfl
  | cons entry rest ih =>
    obtain ⟨other, held⟩ := entry
    rw [items, List.lookup_cons, child?, ih]
    by_cases same : other = name
    · rw [if_pos same, same, beq_self_eq_true]
      rfl
    · have apart : (Text.encode name == Text.encode other) = false :=
        beq_eq_false_iff_ne.mpr fun written => same (Text.encode_injective written).symm
      rw [if_neg same, apart]

theorem at?_item (root : Node) (place : Place) :
    root.item.at? (place.map Text.encode) = (root.at? place).map item := by
  induction place generalizing root with
  | nil => simp [at?, Item.at?]
  | cons name rest ih =>
    cases root with
    | file | link => simp [item, at?, Item.at?]
    | folder entries =>
      rw [item, List.map_cons, Item.at?, lookup_items, at?]
      cases child? entries name with
      | none => rfl
      | some child => exact ih child

/-- What is at a place in the tree of bytes is at a place of the disk. -/
theorem exists_place {root : Node} {raw : RawPlace} {held : Item}
    (there : root.item.at? raw = some held) :
    ∃ place node, raw = place.map Text.encode ∧ root.at? place = some node ∧ held = node.item := by
  induction raw generalizing root with
  | nil =>
    cases there
    exact ⟨[], root, rfl, rfl, rfl⟩
  | cons first rest ih =>
    cases root with
    | file | link => simp [item, Item.at?] at there
    | folder entries =>
      rw [item, Item.at?] at there
      cases inside : (items entries).lookup first with
      | none => simp [inside] at there
      | some child =>
        rw [inside] at there
        -- The name is in the list of items, so it is written for a name of the folder.
        have member := Item.mem_of_lookup inside
        rw [items_eq_map] at member
        obtain ⟨⟨name, _⟩, _, same⟩ := List.mem_map.mp member
        cases (Prod.mk.inj same).1
        obtain ⟨node, found, rfl⟩ := Option.map_eq_some_iff.mp (lookup_items entries name ▸ inside)
        obtain ⟨place, last, rfl, leads, isLast⟩ := ih there
        exact ⟨name :: place, last, rfl, by rw [at?, found]; exact leads, isLast⟩

/-- A name of a disk is one that an entry of a medium can have. -/
theorem isEntry_encode (isName : Path.IsName name) : RawName.IsEntry (Text.encode name) where
  not_empty same :=
    isName.not_empty (Text.encode_injective (same.trans (by rw [Text.encode_eq]; decide)))
  not_here same :=
    isName.not_here (Text.encode_injective (same.trans (by rw [Text.encode_eq]; decide)))
  not_around same :=
    isName.not_around (Text.encode_injective (same.trans (by rw [Text.encode_eq]; decide)))
  component slash := isName.component ((Text.slash_mem_encode_iff name).mp slash)

theorem Proper.item (proper : node.Proper) : node.item.Proper := by
  induction proper with
  | file | link => constructor
  | @folder entries distinct areNames below ih =>
    rw [Node.item, items_eq_map]
    refine .folder ?_ ?_ ?_
    · rw [List.map_map]
      exact List.pairwise_map.mpr ((List.pairwise_map.mp distinct).imp fun apart same =>
        apart (Text.encode_injective same))
    · exact List.forall_mem_map.mpr fun entry member => isEntry_encode (areNames entry member)
    · exact List.forall_mem_map.mpr ih

end Node

/-! ### Paths as bytes -/

/-- The path of a place is written the same way on both sides. -/
theorem RawPath.ofPlace_encode (place : Place) :
    RawPath.ofPlace (place.map Text.encode) = Text.encode (Path.ofNames true place) := by
  have slash : Text.encode "/" = [RawPath.slash] := by rw [Text.encode_eq]; decide
  have joined : [RawPath.slash].intercalate (place.map Text.encode) =
      Text.encode ("/".intercalate place) := by
    induction place with
    | nil => simp [Text.encode_eq]
    | cons name rest ih =>
      by_cases last : rest = []
      · simp [last]
      · rw [List.map_cons, List.intercalate_cons_of_ne_nil (by simpa using last), ih,
          String.intercalate_cons_of_ne_nil last, Text.encode_append, Text.encode_append, slash]
  rw [RawPath.ofPlace, joined, Path.ofNames, if_pos rfl, Text.encode_append, slash]
  rfl

namespace Disk

variable {disk : Disk} {root : Node}

theorem textOf?_encode (text : String) : textOf? (Text.encode text) = .ok text := by
  rw [textOf?, Text.fromUTF8?_encode]

theorem exists_of_resolve {path : RawPath} {raw : RawPlace}
    (leads : disk.medium.resolve path = .ok raw) :
    ∃ text place node, textOf? path = .ok text ∧ disk.node? text = .ok (place, node) ∧
      raw = place.map Text.encode := by
  simp only [medium] at leads
  cases isText : textOf? path with
  | error refused => simp [isText] at leads
  | ok text =>
    cases walked : disk.node? text with
    | error refused => simp [isText, walked, Except.map] at leads
    | ok found =>
      simp only [isText, walked, Except.map, Except.ok.injEq] at leads
      exact ⟨text, found.1, found.2, rfl, walked, leads.symm⟩

theorem resolve_of_node? {path : String} {place : Place} {node : Node}
    (leads : disk.node? path = .ok (place, node)) :
    disk.medium.resolve (Text.encode path) = .ok (place.map Text.encode) := by
  simp only [medium, textOf?_encode, leads, Except.map]

theorem canonical_encode {path : String} {place : Place} (named : disk.canonical path = .ok place) :
    disk.medium.canonical (Text.encode path) = .ok (place.map Text.encode) := by
  simp only [medium, textOf?_encode, named, Except.map]

/-- Going on after a link leads a walk and a canonical path to the same place. -/
def Agree (root : Node) (jump : Position → List Path.Step → Except DiskError Found)
    (trace : Place → List Path.Step → Except DiskError Place) : Prop :=
  ∀ here steps place node traced, here.IsIn root → jump here steps = .ok (.node place node) →
    trace here.place steps = .ok traced → traced = place

theorem walkWith_agrees {jump : Position → List Path.Step → Except DiskError Found}
    {trace : Place → List Path.Step → Except DiskError Place} (agree : Agree root jump trace) :
    Agree root (walkWith root .reach jump) (traceWith root trace) := by
  intro here steps place node traced isIn walked named
  induction steps generalizing here with
  | nil =>
    cases walked
    cases named
    rfl
  | cons step rest ih =>
    cases folder : here.node with
    | file | link => simp [walkWith, folder] at walked
    | folder entries =>
      cases step with
      | stay | close =>
        simp only [walkWith, folder] at walked
        exact ih here isIn walked named
      | up =>
        simp only [walkWith, folder] at walked
        refine ih here.up isIn.up walked ?_
        rwa [Position.place_up]
      | enter name =>
        rw [traceWith, isIn.child folder] at named
        simp only [walkWith, folder, reduceCtorEq, false_and, and_false, if_false] at walked
        -- Each may refuse by itself, the walk a name and the other a whole path that is too long.
        split at walked
        · cases walked
        split at named
        · cases named
        cases child : Node.child? entries name with
        | none =>
          simp only [child] at walked
          split at walked <;> cases walked
        | some held =>
          cases held with
          | file | folder =>
            simp only [child] at walked named
            refine ih _ (isIn.enter folder child) walked ?_
            rwa [Position.place_enter]
          | link target =>
            simp only [child] at walked named
            refine agree _ _ _ _ _ (isIn.start target) walked ?_
            rwa [Position.place_start]

theorem walk_agrees (links : Nat) : Agree root (walk root .reach links) (trace root links) := by
  induction links with
  | zero => exact walkWith_agrees fun _ _ _ _ _ _ refused => by cases refused
  | succ links ih => exact walkWith_agrees ih

/-- A canonical path leads where the path leads that it was made from. -/
theorem canonical_eq {path : String} {place traced : Place} {node : Node}
    (leads : disk.node? path = .ok (place, node)) (named : disk.canonical path = .ok traced) :
    traced = place := by
  rw [canonical, leads] at named
  obtain ⟨_, here, starts, walked⟩ := exists_start (find_of_node? leads)
  obtain ⟨isIn, stands⟩ := isIn_startPosition starts
  -- Both start from the same place, and neither may follow more links than the other.
  refine walk_agrees linkLimit here _ place node traced isIn walked ?_
  rwa [stands]

private theorem traceWith_names {trace : Place → List Path.Step → Except DiskError Place}
    {front names : Place} {node : Node} (there : root.at? (front ++ names) = some node)
    (noLink : ∀ target, node ≠ .link target)
    (fits : (Path.ofNames true (front ++ names)).utf8ByteSize < Path.lengthBound) :
    traceWith root trace front (names.map .enter) = .ok (front ++ names) := by
  induction names generalizing front with
  | nil => simp [traceWith]
  | cons name rest ih =>
    rw [List.append_cons] at there fits
    have short := Nat.lt_of_le_of_lt (Path.utf8ByteSize_ofNames_le (front ++ [name]) rest) fits
    obtain ⟨child, atChild, below⟩ := Node.exists_at?_of_append there
    rw [List.map_cons, traceWith, if_neg (Nat.not_le.mpr short), atChild]
    cases child with
    | file | folder =>
      dsimp only
      rw [ih there fits, ← List.append_cons]
    | link target =>
      -- A link leads to nothing below, and the last node is none.
      cases rest with
      | nil =>
        cases below
        exact absurd rfl (noLink target)
      | cons => cases below

/-- The path of a place is its own canonical path. -/
theorem canonical_ofNames (proper : disk.root.Proper) {front : Place} {last : String} {node : Node}
    (there : disk.root.at? (front ++ [last]) = some node) (noLink : ∀ target, node ≠ .link target)
    (fits : (Path.ofNames true (front ++ [last])).utf8ByteSize < Path.lengthBound) :
    disk.canonical (Path.ofNames true (front ++ [last])) = .ok (front ++ [last]) := by
  rw [canonical, node?_ofNames proper there noLink fits]
  dsimp only
  rw [if_pos (Path.isAbsolute_ofNames _), Path.steps_ofNames (proper.at? there).2]
  exact traceWith_names there noLink fits

/-- Nothing is found by a path that is too long. -/
theorem node?_ne_ok_of_long {path : String} (long : Path.lengthBound ≤ path.utf8ByteSize)
    (found : Place × Node) : disk.node? path ≠ .ok found := by
  intro leads
  have taken := (exists_start (find_of_node? leads)).1
  exact absurd (refusal?_eq_none_iff.mp taken).2.1 (Nat.not_lt.mpr long)

/-- By the path of its place a file is found there or not at all. -/
theorem node?_own (proper : disk.root.Proper) {front place : Place} {last : String}
    {bytes : ByteArray} {node : Node}
    (there : disk.root.at? (front ++ [last]) = some (.file bytes))
    (leads : disk.node? (Path.ofNames true (front ++ [last])) = .ok (place, node)) :
    place = front ++ [last] := by
  by_cases fits : (Path.ofNames true (front ++ [last])).utf8ByteSize < Path.lengthBound
  · rw [node?_ofNames proper there nofun fits] at leads
    cases leads
    rfl
  · exact absurd leads (node?_ne_ok_of_long (Nat.not_lt.mp fits) _)

theorem lawful_medium (proper : disk.root.Proper) : disk.medium.Lawful where
  proper := proper.item
  own := by
    intro front last reading there raw leads
    obtain ⟨named, node, shape, inTree, isFile⟩ := Node.exists_place there
    obtain ⟨before, final, rfl⟩ : ∃ before final, named = before ++ [final] := by
      rcases List.eq_nil_or_concat named with rfl | ⟨before, final, rfl⟩
      · simp at shape
      · exact ⟨before, final, List.concat_eq_append⟩
    rw [shape, RawPath.ofPlace_encode] at leads
    obtain ⟨text, place, held, isText, walked, rfl⟩ := exists_of_resolve leads
    cases (textOf?_encode _).symm.trans isText
    cases node with
    | file bytes => rw [shape, node?_own proper inTree walked]
    | link | folder => cases isFile
  canonical := by
    intro path raw other leads named
    obtain ⟨text, place, node, isText, walked, rfl⟩ := exists_of_resolve leads
    simp only [medium, isText] at named
    cases made : disk.canonical text with
    | error refused => simp [made, Except.map] at named
    | ok traced =>
      simp only [made, Except.map, Except.ok.injEq] at named
      rw [← named, canonical_eq walked made]

end Disk

end HdlDesk
