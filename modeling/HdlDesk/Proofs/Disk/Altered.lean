import HdlDesk.Proofs.Disk.Walks

/-!
# A tree with one entry changed

To change an entry of a folder changes what is found under its name and nothing else. If it was a
file, or was not there, then every folder and every link that stood in the tree still stands in it.
-/
namespace HdlDesk

namespace Node

variable {entries : List (String × Node)} {name wanted : String} {node : Node}

@[simp] theorem child?_putChild_self : child? (putChild name node entries) name = some node := by
  induction entries with
  | nil => simp [putChild, child?]
  | cons entry entries ih =>
    obtain ⟨other, held⟩ := entry
    unfold putChild
    split
    · simp [child?]
    split
    · simp [child?]
    next different => simpa [child?, different] using ih

theorem child?_putChild_of_ne (different : wanted ≠ name) :
    child? (putChild name node entries) wanted = child? entries wanted := by
  induction entries with
  | nil => simp [putChild, child?, different.symm]
  | cons entry entries ih =>
    obtain ⟨other, held⟩ := entry
    unfold putChild
    split
    · simp [child?, different.symm]
    split
    next same => simp [child?, same, different.symm]
    · simp [child?, ih]

private theorem child?_filter_self :
    child? (entries.filter fun entry => entry.1 ≠ name) name = none := by
  induction entries with
  | nil => rfl
  | cons entry entries ih =>
    by_cases same : entry.1 = name
    · simpa [same] using ih
    · simpa [same, child?] using ih

private theorem child?_filter_of_ne (different : wanted ≠ name) :
    child? (entries.filter fun entry => entry.1 ≠ name) wanted = child? entries wanted := by
  induction entries with
  | nil => rfl
  | cons entry entries ih =>
    obtain ⟨other, held⟩ := entry
    by_cases same : other = name
    · simpa [same, child?, different.symm] using ih
    · simp only [List.filter_cons, same, child?, ne_eq, not_false_eq_true, decide_true, if_true]
      simp only [ne_eq] at ih
      rw [ih]

/-- The entries of a folder after one of them has been changed. -/
def alterChild (change : Option Node → Option Node) (name : String)
    (entries : List (String × Node)) : List (String × Node) :=
  match change (child? entries name) with
  | some node => putChild name node entries
  | none => entries.filter fun entry => entry.1 ≠ name

@[simp] theorem child?_alterChild_self {change : Option Node → Option Node} :
    child? (alterChild change name entries) name = change (child? entries name) := by
  unfold alterChild
  split
  next node changed => simp [changed]
  next removed => rw [removed, child?_filter_self]

theorem child?_alterChild_of_ne {change : Option Node → Option Node} (different : wanted ≠ name) :
    child? (alterChild change name entries) wanted = child? entries wanted := by
  unfold alterChild
  split
  · exact child?_putChild_of_ne different
  · exact child?_filter_of_ne different

theorem noLink_alterChild {change : Option Node → Option Node}
    (noLink : ∀ held target, change held ≠ some (.link target))
    (before : ∀ target, child? entries wanted ≠ some (.link target)) (target : String) :
    child? (alterChild change name entries) wanted ≠ some (.link target) := by
  by_cases same : wanted = name
  · rw [same, child?_alterChild_self]
    exact noLink _ target
  · rw [child?_alterChild_of_ne same]
    exact before target

private theorem alter_singleton {change : Option Node → Option Node} :
    alter change [name] (.folder entries) = .folder (alterChild change name entries) := by
  rw [alter, alterChild]
  cases change (child? entries name) <;> rfl

/-- To change an entry of a folder changes the folder in its place. -/
theorem at?_alter {change : Option Node → Option Node} {root : Node} {place : Place}
    (here : root.at? place = some (.folder entries)) :
    (root.alter change (place ++ [name])).at? place =
      some (.folder (alterChild change name entries)) := by
  induction place generalizing root with
  | nil =>
    obtain rfl : root = .folder entries := by simpa [at?] using here
    rw [List.nil_append, alter_singleton, at?]
  | cons first rest ih =>
    cases root with
    | file | link => simp [at?] at here
    | folder above =>
      cases found : child? above first with
      | none => simp [at?, found] at here
      | some inner =>
        rw [at?, found] at here
        have some : rest ++ [name] ≠ [] :=
          List.append_ne_nil_of_right_ne_nil rest (List.cons_ne_nil _ _)
        obtain ⟨next, more, longer⟩ := List.exists_cons_of_ne_nil some
        have changed := ih here
        rw [longer] at changed
        rw [List.cons_append, longer, alter, found]
        simp only [at?, child?_putChild_self]
        exact changed

/-! ### What a change leaves -/

end Node

/-- What a walk can make of a node besides ending there: step into it, or go on to its target. -/
inductive Way where
  | into
  | onTo (target : String)

namespace Node

def way? : Node → Option Way
  | .file _ => none
  | .link target => some (.onTo target)
  | .folder _ => some .into

def wayAt? (root : Node) (place : Place) : Option Way := (root.at? place).bind way?

theorem wayAt?_eq_into_iff {root : Node} {place : Place} :
    root.wayAt? place = some .into ↔ ∃ entries, root.at? place = some (.folder entries) := by
  rw [wayAt?, Option.bind_eq_some_iff]
  constructor
  · rintro ⟨node, there, isWay⟩
    cases node with
    | folder entries => exact ⟨entries, there⟩
    | file | link => cases isWay
  · rintro ⟨entries, there⟩
    exact ⟨_, there, rfl⟩

theorem wayAt?_eq_onTo_iff {root : Node} {place : Place} {target : String} :
    root.wayAt? place = some (.onTo target) ↔ root.at? place = some (.link target) := by
  rw [wayAt?, Option.bind_eq_some_iff]
  constructor
  · rintro ⟨node, there, isWay⟩
    cases node with
    | link held => cases isWay; exact there
    | file | folder => cases isWay
  · intro there
    exact ⟨_, there, rfl⟩

/-- Every way of a tree is one of the other. -/
def KeepsWays (root next : Node) : Prop :=
  ∀ place way, root.wayAt? place = some way → next.wayAt? place = some way

private theorem wayAt?_cons (first : String) (rest : Place) :
    (folder entries).wayAt? (first :: rest) = (child? entries first).bind (wayAt? · rest) := by
  rw [wayAt?, at?]
  cases child? entries first <;> rfl

/-- To change what stands for no way keeps all of them. -/
theorem keepsWays_alter {change : Option Node → Option Node} {root : Node} {place : Place}
    (here : root.at? place = some (.folder entries))
    (noWay : ∀ held, child? entries name = some held → ∃ bytes, held = .file bytes) :
    KeepsWays root (root.alter change (place ++ [name])) := by
  induction place generalizing root with
  | nil =>
    obtain rfl : root = .folder entries := by simpa [at?] using here
    rw [List.nil_append, alter_singleton]
    intro other way leads
    cases other with
    | nil => exact leads
    | cons first rest =>
      rw [wayAt?_cons] at leads ⊢
      by_cases same : first = name
      · -- A file is no way, and nothing is below it.
        obtain ⟨held, found, onward⟩ := Option.bind_eq_some_iff.mp leads
        obtain ⟨bytes, rfl⟩ := noWay held (same ▸ found)
        cases rest <;> cases onward
      · rw [child?_alterChild_of_ne same]
        exact leads
  | cons first rest ih =>
    cases root with
    | file | link => simp [at?] at here
    | folder above =>
      cases found : child? above first with
      | none => simp [at?, found] at here
      | some inner =>
        rw [at?, found] at here
        have some : rest ++ [name] ≠ [] :=
          List.append_ne_nil_of_right_ne_nil rest (List.cons_ne_nil _ _)
        obtain ⟨next, more, longer⟩ := List.exists_cons_of_ne_nil some
        have kept := ih here
        rw [longer] at kept
        rw [List.cons_append, longer, alter, found]
        intro other way leads
        cases other with
        | nil => exact leads
        | cons step others =>
          -- A place leads through the changed entry if it begins as the changed place does.
          dsimp only
          rw [wayAt?_cons] at leads ⊢
          by_cases same : step = first
          · rw [same, found] at leads
            rw [same, child?_putChild_self]
            exact kept others way leads
          · rw [child?_putChild_of_ne same]
            exact leads

end Node

end HdlDesk
