import Mathlib.Data.List.TakeDrop
import HdlDesk.Json.Stored
import HdlDesk.Proofs.Json.Literal
import HdlDesk.Proofs.Json.Spelling

/-!
# Every spelling reads back

The reader takes each text of a value back to that value, whatever follows the text, provided that
a number is not continued by it. The induction is on the fuel: a value needs twice the length of
its text less one, and the items or members inside need twice the length of theirs, so a call that
opens a bracket or goes on to the next item leaves enough for the call it makes.
-/
namespace HdlDesk.Json

/-! ### Blanks -/

theorem skipBlanks_gap {gap : List Char} (blank : IsGap gap) (rest : List Char) :
    skipBlanks (gap ++ rest) = skipBlanks rest := by
  induction gap with
  | nil => rfl
  | cons c gap ih =>
    have here := blank c List.mem_cons_self
    have tail : IsGap gap := fun other member => blank other (List.mem_cons_of_mem _ member)
    simp [skipBlanks, here, ih tail]

/-- A character that can begin a value or a member: it is no blank and closes nothing. -/
def Opens (c : Char) : Prop :=
  ¬(c = ' ' ∨ c = '\n' ∨ c = '\t' ∨ c = '\r') ∧ c ≠ ']' ∧ c ≠ '\x7d'

theorem skipBlanks_opens {c : Char} (opens : Opens c) (rest : List Char) :
    skipBlanks (c :: rest) = c :: rest := by
  simp [skipBlanks, opens.1]

private theorem skipBlanks_mark {c : Char} (mark : c = ',' ∨ c = ':' ∨ c = ']' ∨ c = '\x7d')
    (rest : List Char) : skipBlanks (c :: rest) = c :: rest := by
  rcases mark with rfl | rfl | rfl | rfl <;> simp [skipBlanks]

theorem opens_of_isDigit {c : Char} (digit : c.isDigit = true) : Opens c := by
  refine ⟨?_, ?_, ?_⟩
  · rintro (rfl | rfl | rfl | rfl) <;> revert digit <;> decide
  · rintro rfl
    revert digit
    decide
  · rintro rfl
    revert digit
    decide

/-- The text of a value begins with a character that begins a value. -/
theorem Spells.opens {value : Json} {text : List Char} (spells : Spells value text) :
    ∃ c more, text = c :: more ∧ Opens c := by
  cases spells with
  | natural value =>
    obtain ⟨c, more, shape⟩ := List.exists_cons_of_ne_nil (Nat.toDigits_ne_nil (n := value) (b := 10))
    have digit : c.isDigit = true := by
      refine Nat.isDigit_of_mem_toDigits (b := 10) (n := value) (by decide) (by decide) ?_
      rw [shape]
      exact List.mem_cons_self
    exact ⟨c, more, shape, opens_of_isDigit digit⟩
  | text value => exact ⟨'"', _, rfl, by unfold Opens; decide⟩
  | _ => exact ⟨_, _, rfl, by unfold Opens; decide⟩

theorem SpellsItems.opens {items : List Json} {text : List Char} (spells : SpellsItems items text) :
    ∃ c more, text = c :: more ∧ Opens c := by
  cases spells with
  | last first _ =>
    obtain ⟨c, more, rfl, opens⟩ := first.opens
    exact ⟨c, _, rfl, opens⟩
  | more first _ _ =>
    obtain ⟨c, more, rfl, opens⟩ := first.opens
    exact ⟨c, _, rfl, opens⟩

theorem SpellsMembers.opens {members : List (Option String × Json)} {text : List Char}
    (spells : SpellsMembers members text) : ∃ more, text = '"' :: more := by
  cases spells with
  | last _ _ _ => exact ⟨_, rfl⟩
  | more _ _ _ _ => exact ⟨_, rfl⟩

/-! ### Numbers -/

/-- The text does not go on with a number that ends in front of it. -/
def EndsNumber (rest : List Char) : Prop :=
  ∀ c more, rest = c :: more → c.isDigit = false ∧ c ≠ '.' ∧ c ≠ 'e' ∧ c ≠ 'E'

theorem EndsNumber.nil : EndsNumber [] := by
  intro c more shape
  cases shape

/-- Blanks end a number, and so do a comma and the closing characters. -/
theorem endsNumber_gap {gap : List Char} (blank : IsGap gap) {c : Char}
    (closes : c = ',' ∨ c = ']' ∨ c = '\x7d') (rest : List Char) :
    EndsNumber (gap ++ c :: rest) := by
  intro d more shape
  cases gap with
  | nil =>
    obtain ⟨rfl, _⟩ := List.cons.inj shape
    rcases closes with rfl | rfl | rfl <;> decide
  | cons first gap =>
    obtain ⟨rfl, _⟩ := List.cons.inj shape
    rcases blank first List.mem_cons_self with rfl | rfl | rfl | rfl <;> decide

theorem digits?_append {digits : List Char} (every : ∀ c ∈ digits, c.isDigit = true)
    (nonempty : digits ≠ []) {rest : List Char} (ends : EndsNumber rest) :
    digits? (digits ++ rest) = some (digits, rest) := by
  have stop : rest.takeWhile Char.isDigit = [] := by
    cases rest with
    | nil => rfl
    | cons c more => simp [(ends c more rfl).1]
  have back : rest.dropWhile Char.isDigit = rest := by
    cases rest with
    | nil => rfl
    | cons c more => simp [(ends c more rfl).1]
  have span : (digits ++ rest).span Char.isDigit = (digits, rest) := by
    rw [List.span_eq_takeWhile_dropWhile, List.takeWhile_append_of_pos every,
      List.dropWhile_append_of_pos every, stop, back, List.append_nil]
  unfold digits?
  rw [span]
  cases digits with
  | nil => exact absurd rfl nonempty
  | cons c more => rfl

/-- A number of several digits does not begin with a zero. -/
theorem toDigits_head (n : Nat) : ∀ c more, Nat.toDigits 10 n ≠ '0' :: c :: more := by
  induction n using Nat.strongRecOn with
  | _ n ih =>
    intro c more shape
    by_cases small : n < 10
    · rw [Nat.toDigits_of_lt_base small] at shape
      simp at shape
    · have large : 10 ≤ n := Nat.le_of_not_lt small
      rw [Nat.toDigits_of_base_le (by decide) large] at shape
      -- Without its last digit the number is still positive, so it does not begin with a zero.
      cases front : Nat.toDigits 10 (n / 10) with
      | nil => exact Nat.toDigits_ne_nil front
      | cons d others =>
        rw [front] at shape
        obtain ⟨rfl, _⟩ := List.cons.inj shape
        cases others with
        | nil =>
          have zero : Nat.ofDigitChars 10 ['0'] 0 = n / 10 := by
            rw [← front, Nat.ofDigitChars_ten_toDigits]
          have value : Nat.ofDigitChars 10 ['0'] 0 = 0 := by decide
          omega
        | cons e others => exact ih (n / 10) (by omega) e others front

theorem integerPart?_toDigits (n : Nat) {rest : List Char} (ends : EndsNumber rest) :
    integerPart? (Nat.toDigits 10 n ++ rest) = some (Nat.toDigits 10 n, rest) := by
  have every : ∀ c ∈ Nat.toDigits 10 n, c.isDigit = true := fun c member =>
    Nat.isDigit_of_mem_toDigits (by decide) (by decide) member
  unfold integerPart?
  rw [digits?_append every Nat.toDigits_ne_nil ends]
  split
  next c more _ shape =>
    simp only [Option.some.injEq, Prod.mk.injEq] at shape
    exact absurd shape.1 (toDigits_head n c more)
  · rfl

theorem scanNumber_toDigits (n : Nat) {rest : List Char} (ends : EndsNumber rest) :
    scanNumber (Nat.toDigits 10 n ++ rest) = some (.natural n, rest) := by
  have fraction : skipFraction? rest = some rest := by
    cases rest with
    | nil => rfl
    | cons c more =>
      unfold skipFraction?
      split
      next shape => exact absurd (List.cons.inj shape).1 (ends c more rfl).2.1
      · rfl
  have exponent : skipExponent? rest = some rest := by
    cases rest with
    | nil => rfl
    | cons c more => simp [skipExponent?, (ends c more rfl).2.2]
  unfold scanNumber
  split
  next unsigned shape =>
    have digit : '-'.isDigit = true := by
      refine Nat.isDigit_of_mem_toDigits (b := 10) (n := n) (by decide) (by decide) ?_
      obtain ⟨c, more, front⟩ := List.exists_cons_of_ne_nil (Nat.toDigits_ne_nil (n := n) (b := 10))
      rw [front] at shape ⊢
      rw [← (List.cons.inj shape).1]
      exact List.mem_cons_self
    exact absurd digit (by decide)
  · simp [integerPart?_toDigits n ends, fraction, exponent, Nat.ofDigitChars_ten_toDigits]

/-! ### Values -/

/-- Where a number begins, the reader looks for no other value. -/
theorem scanValue_number (fuel : Nat) {c : Char} (digit : c.isDigit = true) (rest : List Char) :
    scanValue (fuel + 1) (c :: rest) = scanNumber (c :: rest) := by
  unfold scanValue
  split
  case h_7 => rfl
  all_goals
    next shape =>
      obtain ⟨rfl, _⟩ := List.cons.inj shape
      exact absurd digit (by decide)

/-- What a call with so much fuel reads: values, items and members up to their closing character. -/
private structure Reads (fuel : Nat) : Prop where
  value : ∀ {value text}, Spells value text → ∀ rest, EndsNumber rest →
    2 * text.length ≤ fuel + 1 → scanValue fuel (text ++ rest) = some (value, rest)
  items : ∀ {items text}, SpellsItems items text → ∀ done rest,
    2 * text.length ≤ fuel → scanItems fuel done (text ++ rest) =
      some (.array (done.reverse ++ items), rest)
  members : ∀ {members text}, SpellsMembers members text → ∀ done rest,
    2 * text.length ≤ fuel → scanMembers fuel done (text ++ rest) =
      some (.object (done.reverse ++ members), rest)

private theorem scanValue_spells {fuel : Nat} (inner : Reads fuel) {value : Json}
    {text : List Char} (spells : Spells value text) (rest : List Char) (ends : EndsNumber rest)
    (enough : 2 * text.length ≤ fuel + 2) :
    scanValue (fuel + 1) (text ++ rest) = some (value, rest) := by
  cases spells with
  | null => rfl
  | yes => rfl
  | no => rfl
  | natural n =>
    -- The first character alone decides that this is read as a number.
    obtain ⟨c, more, shape⟩ := List.exists_cons_of_ne_nil (Nat.toDigits_ne_nil (n := n) (b := 10))
    have digit : c.isDigit = true := by
      refine Nat.isDigit_of_mem_toDigits (b := 10) (n := n) (by decide) (by decide) ?_
      rw [shape]
      exact List.mem_cons_self
    have read := scanNumber_toDigits n ends
    rw [shape, List.cons_append] at read ⊢
    rw [scanValue_number fuel digit, read]
  | text value =>
    obtain ⟨body, shape, read⟩ := quote_append value rest
    simp [shape, scanValue, read, Json.text]
  | emptyArray => simp [scanValue, skipBlanks]
  | @array items gap text blank inside =>
    obtain ⟨c, more, rfl, opens⟩ := inside.opens
    have read := inner.items inside [] rest
      (by simp only [List.length_cons, List.length_append] at *; omega)
    simp only [List.cons_append, List.append_assoc] at read ⊢
    simp only [scanValue, skipBlanks_gap blank, skipBlanks_opens opens]
    -- No item begins as the end of an array does.
    split
    next shape => exact absurd (List.cons.inj shape).1 opens.2.1
    · simpa using read
  | emptyObject => simp [scanValue, skipBlanks]
  | @object members gap text blank inside =>
    obtain ⟨more, rfl⟩ := inside.opens
    have read := inner.members inside [] rest
      (by simp only [List.length_cons, List.length_append] at *; omega)
    simp only [List.cons_append, List.append_assoc] at read ⊢
    simp only [scanValue, skipBlanks_gap blank, skipBlanks_opens (by unfold Opens; decide : Opens '"')]
    simpa using read

private theorem scanItems_spells {fuel : Nat} (inner : Reads fuel) {items : List Json}
    {text : List Char} (spells : SpellsItems items text) (done : List Json) (rest : List Char)
    (enough : 2 * text.length ≤ fuel + 1) :
    scanItems (fuel + 1) done (text ++ rest) = some (.array (done.reverse ++ items), rest) := by
  cases spells with
  | @last item text gap first blank =>
    have read := inner.value first (gap ++ ']' :: rest) (endsNumber_gap blank (by simp) rest)
      (by simp only [List.length_cons, List.length_append] at enough; omega)
    simp [scanItems, read, skipBlanks_gap blank, skipBlanks_mark]
  | @more item items text gap others first blank next =>
    obtain ⟨c, more, rfl, opens⟩ := next.opens
    have read := inner.value first (',' :: (gap ++ (c :: more ++ rest)))
      (endsNumber_gap .nil (by simp) _)
      (by simp only [List.length_cons, List.length_append] at enough; omega)
    have readOn := inner.items next (item :: done) rest
      (by simp only [List.length_cons, List.length_append] at enough ⊢; omega)
    simp only [List.cons_append] at read readOn
    simp [scanItems, read, skipBlanks_gap blank, skipBlanks_mark, skipBlanks_opens opens, readOn]

private theorem scanMembers_spells {fuel : Nat} (inner : Reads fuel)
    {members : List (Option String × Json)} {text : List Char}
    (spells : SpellsMembers members text) (done : List (Option String × Json)) (rest : List Char)
    (enough : 2 * text.length ≤ fuel + 1) :
    scanMembers (fuel + 1) done (text ++ rest) =
      some (.object (done.reverse ++ members), rest) := by
  cases spells with
  | @last name value colon text gap apart first blank =>
    obtain ⟨c, more, rfl, opens⟩ := first.opens
    obtain ⟨body, shape, named⟩ :=
      quote_append name (':' :: (colon ++ (c :: more ++ (gap ++ '\x7d' :: rest))))
    have read := inner.value first (gap ++ '\x7d' :: rest) (endsNumber_gap blank (by simp) rest)
      (by simp only [List.length_cons, List.length_append] at enough ⊢; omega)
    simp only [List.cons_append] at read named shape
    simp [shape, scanMembers, named, read, skipBlanks_gap apart, skipBlanks_gap blank,
      skipBlanks_opens opens, skipBlanks_mark]
  | @more name value members colon text gap others apart first blank next =>
    obtain ⟨c, more, rfl, opens⟩ := first.opens
    obtain ⟨others, rfl⟩ := next.opens
    obtain ⟨body, shape, named⟩ :=
      quote_append name (':' :: (colon ++ (c :: more ++ ',' :: (gap ++ '"' :: others ++ rest))))
    have read := inner.value first (',' :: (gap ++ '"' :: others ++ rest))
      (endsNumber_gap .nil (by simp) _)
      (by simp only [List.length_cons, List.length_append] at enough ⊢; omega)
    have readOn := inner.members next ((some name, value) :: done) rest
      (by simp only [List.length_cons, List.length_append] at enough ⊢; omega)
    have quoted : Opens '"' := by unfold Opens; decide
    simp only [List.cons_append, List.append_assoc] at read readOn named shape
    simp [shape, scanMembers, named, read, skipBlanks_gap apart, skipBlanks_gap blank,
      skipBlanks_opens opens, skipBlanks_opens quoted, skipBlanks_mark, readOn]

private theorem reads (fuel : Nat) : Reads fuel := by
  induction fuel with
  | zero =>
    -- No text is empty, so none is short enough for no fuel at all.
    refine ⟨fun spells rest _ enough => ?_, fun spells done rest enough => ?_,
      fun spells done rest enough => ?_⟩
    · obtain ⟨c, more, rfl, _⟩ := spells.opens
      simp only [List.length_cons] at enough
      omega
    · obtain ⟨c, more, rfl, _⟩ := spells.opens
      simp only [List.length_cons] at enough
      omega
    · obtain ⟨more, rfl⟩ := spells.opens
      simp only [List.length_cons] at enough
      omega
  | succ fuel ih =>
    exact ⟨fun spells rest ends enough => scanValue_spells ih spells rest ends enough,
      fun spells done rest enough => scanItems_spells ih spells done rest enough,
      fun spells done rest enough => scanMembers_spells ih spells done rest enough⟩

/-- A text of a value is read as that value. -/
theorem parse?_spells {value : Json} {text : List Char} (spells : Spells value text) :
    parse? (String.ofList text) = some value := by
  obtain ⟨c, more, rfl, opens⟩ := spells.opens
  have read := (reads (2 * (c :: more).length + 2)).value spells [] .nil (by omega)
  rw [List.append_nil] at read
  simp only [parse?, String.toList_ofList, skipBlanks_opens opens, read]
  rfl

theorem parse?_render {value : Json} (plain : value.Plain) : parse? value.render = some value :=
  parse?_spells (compact_spells plain)

theorem parse?_renderSpread {value : Json} (plain : value.Plain) :
    parse? value.renderSpread = some value :=
  parse?_spells (spread_spells plain 0)

end HdlDesk.Json
