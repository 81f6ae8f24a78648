import HdlDesk.Json.Printer

/-!
# Spellings of a value

A value has many texts: blanks may stand between its tokens. The relation `Spells` says which texts
these are for a value that every string of can be written down, and both layouts of the printer
are among them. Numbers that are not natural are left out, since nothing that is stored holds one.
-/
namespace HdlDesk.Json

/-- Nothing but the blanks that may stand between tokens. -/
def IsGap (cs : List Char) : Prop :=
  ∀ c ∈ cs, c = ' ' ∨ c = '\n' ∨ c = '\t' ∨ c = '\r'

/-- Every string and every name has a text, and every number is natural. -/
inductive Plain : Json → Prop
  | null : Plain .null
  | bool (value : Bool) : Plain (.bool value)
  | natural (value : Nat) : Plain (.natural value)
  | text (value : String) : Plain (.text value)
  | array {items : List Json} (every : ∀ item ∈ items, Plain item) : Plain (.array items)
  | object {members : List (Option String × Json)} (named : ∀ member ∈ members, member.1 ≠ none)
      (every : ∀ member ∈ members, Plain member.2) : Plain (.object members)

mutual
/-- The text is one of the value. -/
inductive Spells : Json → List Char → Prop
  | null : Spells .null ['n', 'u', 'l', 'l']
  | yes : Spells (.bool true) ['t', 'r', 'u', 'e']
  | no : Spells (.bool false) ['f', 'a', 'l', 's', 'e']
  | natural (value : Nat) : Spells (.natural value) (Nat.toDigits 10 value)
  | text (value : String) : Spells (.text value) (quote (some value))
  | emptyArray : Spells (.array []) ['[', ']']
  | array {items : List Json} {gap text : List Char} (blank : IsGap gap)
      (inside : SpellsItems items text) : Spells (.array items) ('[' :: (gap ++ text))
  | emptyObject : Spells (.object []) ['\x7b', '\x7d']
  | object {members : List (Option String × Json)} {gap text : List Char} (blank : IsGap gap)
      (inside : SpellsMembers members text) : Spells (.object members) ('\x7b' :: (gap ++ text))

/-- The text holds the items, of which there is one, and the closing bracket. -/
inductive SpellsItems : List Json → List Char → Prop
  | last {item : Json} {text gap : List Char} (first : Spells item text) (blank : IsGap gap) :
      SpellsItems [item] (text ++ (gap ++ [']']))
  | more {item : Json} {items : List Json} {text gap others : List Char}
      (first : Spells item text) (blank : IsGap gap) (next : SpellsItems items others) :
      SpellsItems (item :: items) (text ++ ',' :: (gap ++ others))

/-- The text holds the members, of which there is one, and the closing brace. -/
inductive SpellsMembers : List (Option String × Json) → List Char → Prop
  | last {name : String} {value : Json} {colon text gap : List Char} (apart : IsGap colon)
      (first : Spells value text) (blank : IsGap gap) :
      SpellsMembers [(some name, value)]
        (quote (some name) ++ ':' :: (colon ++ (text ++ (gap ++ ['\x7d']))))
  | more {name : String} {value : Json} {members : List (Option String × Json)}
      {colon text gap others : List Char} (apart : IsGap colon) (first : Spells value text)
      (blank : IsGap gap) (next : SpellsMembers members others) :
      SpellsMembers ((some name, value) :: members)
        (quote (some name) ++ ':' :: (colon ++ (text ++ ',' :: (gap ++ others))))
end

/-! ### The layouts of the printer -/

theorem IsGap.nil : IsGap [] := by simp [IsGap]

theorem isGap_newLine (level : Nat) : IsGap (newLine level) := by
  intro c member
  simp only [newLine, List.mem_cons, List.mem_replicate] at member
  rcases member with rfl | ⟨_, rfl⟩
  · exact .inr (.inl rfl)
  · exact .inl rfl

private theorem compactItems_spells (item : Json) (items : List Json)
    (every : ∀ other ∈ item :: items, Spells other (compact other)) :
    SpellsItems (item :: items) (compact item ++ (compactItems items ++ [']'])) := by
  induction items generalizing item with
  | nil => exact .last (every item List.mem_cons_self) .nil
  | cons next items ih =>
    have others := ih next fun other member => every other (List.mem_cons_of_mem _ member)
    simpa [compactItems] using SpellsItems.more (every item List.mem_cons_self) .nil others

private theorem compactMembers_spells (name : String) (value : Json)
    (members : List (Option String × Json)) (named : ∀ member ∈ members, member.1 ≠ none)
    (here : Spells value (compact value))
    (every : ∀ member ∈ members, Spells member.2 (compact member.2)) :
    SpellsMembers ((some name, value) :: members)
      (quote (some name) ++ ':' :: (compact value ++ (compactMembers members ++ ['\x7d']))) := by
  induction members generalizing name value with
  | nil => exact .last .nil here .nil
  | cons next members ih =>
    obtain ⟨nextName, nextValue⟩ := next
    obtain ⟨text, rfl⟩ := Option.ne_none_iff_exists'.mp (named _ List.mem_cons_self)
    have others := ih text nextValue (fun member inside => named member (.tail _ inside))
      (every _ List.mem_cons_self) fun member inside => every member (.tail _ inside)
    have whole : SpellsMembers ((some name, value) :: (some text, nextValue) :: members) _ :=
      .more .nil here .nil others
    simpa [compactMembers] using whole

/-- The compact text is one of the value. -/
theorem compact_spells {value : Json} (plain : value.Plain) : Spells value (compact value) := by
  induction plain with
  | null => exact .null
  | bool value =>
    cases value with
    | true => exact .yes
    | false => exact .no
  | natural value => exact .natural value
  | text value => exact .text value
  | @array items _ ih =>
    cases items with
    | nil => exact .emptyArray
    | cons item items => exact @Spells.array _ [] _ .nil (compactItems_spells item items ih)
  | @object members named _ ih =>
    cases members with
    | nil => exact .emptyObject
    | cons member members =>
      obtain ⟨name, value⟩ := member
      obtain ⟨text, rfl⟩ := Option.ne_none_iff_exists'.mp (named _ List.mem_cons_self)
      exact @Spells.object _ [] _ .nil (compactMembers_spells text value members
        (fun member inside => named member (.tail _ inside)) (ih _ List.mem_cons_self)
        fun member inside => ih member (.tail _ inside))

private theorem spreadItems_spells (level : Nat) (item : Json) (items : List Json)
    (every : ∀ other ∈ item :: items, Spells other (spread (level + 1) other)) :
    SpellsItems (item :: items) (spread (level + 1) item ++
      (spreadItems (level + 1) items ++ (newLine level ++ [']']))) := by
  induction items generalizing item with
  | nil => exact .last (every item List.mem_cons_self) (isGap_newLine level)
  | cons next items ih =>
    have others := ih next fun other member => every other (List.mem_cons_of_mem _ member)
    simpa [spreadItems] using
      SpellsItems.more (every item List.mem_cons_self) (isGap_newLine (level + 1)) others

private theorem isGap_blank : IsGap [' '] := by simp [IsGap]

private theorem spreadMembers_spells (level : Nat) (name : String) (value : Json)
    (members : List (Option String × Json)) (named : ∀ member ∈ members, member.1 ≠ none)
    (here : Spells value (spread (level + 1) value))
    (every : ∀ member ∈ members, Spells member.2 (spread (level + 1) member.2)) :
    SpellsMembers ((some name, value) :: members)
      (quote (some name) ++ ':' :: ' ' :: (spread (level + 1) value ++
        (spreadMembers (level + 1) members ++ (newLine level ++ ['\x7d'])))) := by
  induction members generalizing name value with
  | nil => exact .last isGap_blank here (isGap_newLine level)
  | cons next members ih =>
    obtain ⟨nextName, nextValue⟩ := next
    obtain ⟨text, rfl⟩ := Option.ne_none_iff_exists'.mp (named _ List.mem_cons_self)
    have others := ih text nextValue (fun member inside => named member (.tail _ inside))
      (every _ List.mem_cons_self) fun member inside => every member (.tail _ inside)
    have whole : SpellsMembers ((some name, value) :: (some text, nextValue) :: members) _ :=
      .more isGap_blank here (isGap_newLine (level + 1)) others
    simpa [spreadMembers] using whole

/-- The spread text is one of the value, at every level of indentation. -/
theorem spread_spells {value : Json} (plain : value.Plain) (level : Nat) :
    Spells value (spread level value) := by
  induction plain generalizing level with
  | null => exact .null
  | bool value =>
    cases value with
    | true => exact .yes
    | false => exact .no
  | natural value => exact .natural value
  | text value => exact .text value
  | @array items _ ih =>
    -- Only what is not empty is spread over lines, its parts one level further in.
    cases items with
    | nil => exact .emptyArray
    | cons item items =>
      exact .array (isGap_newLine (level + 1))
        (spreadItems_spells level item items fun other member => ih other member (level + 1))
  | @object members named _ ih =>
    cases members with
    | nil => exact .emptyObject
    | cons member members =>
      obtain ⟨name, value⟩ := member
      obtain ⟨text, rfl⟩ := Option.ne_none_iff_exists'.mp (named _ List.mem_cons_self)
      exact .object (isGap_newLine (level + 1)) (spreadMembers_spells level text value members
        (fun member inside => named member (.tail _ inside))
        (ih _ List.mem_cons_self (level + 1))
        fun member inside => ih member (.tail _ inside) (level + 1))

end HdlDesk.Json
