import HdlDesk.Json.Quoted

/-!
# A literal reads back as its text

Every character stands for itself in the literal of a string, as it is or behind a backslash, and
the reader takes both forms back one character at a time. So the literal of a text, whatever
follows it, is read as that text.
-/
namespace HdlDesk.Json

/-- A control character is named by its code point, in two digits behind two zeros. -/
private theorem codeUnit?_control (n : Nat) (control : n < 0x20) :
    codeUnit? '0' '0' (hexDigit (n / 16)) (hexDigit (n % 16)) = some n := by
  have every : ∀ n < 0x20,
      codeUnit? '0' '0' (hexDigit (n / 16)) (hexDigit (n % 16)) = some n := by decide
  exact every n control

private theorem eq_of_toNat {c d : Char} (same : c.toNat = d.toNat) : c = d :=
  Char.toNat_inj.mp same

/-- A code point below the surrogates is a character on its own. -/
private theorem addUnit_control (done : List Char) (n : Nat) (control : n < 0x20) :
    ({ chars := some done } : Seen).addUnit n = { chars := some (Char.ofNat n :: done) } := by
  have leading : isLeadingHalf n = false := by
    simp only [isLeadingHalf, Bool.and_eq_false_iff, decide_eq_false_iff_not]
    omega
  have trailing : isTrailingHalf n = false := by
    simp only [isTrailingHalf, Bool.and_eq_false_iff, decide_eq_false_iff_not]
    omega
  simp [Seen.addUnit, leading, trailing]

/-- What stands for a character is read as that character. -/
theorem scanLiteral_escapeChar (done : List Char) (c : Char) (rest : List Char) :
    scanLiteral { chars := some done } (escapeChar c ++ rest) =
      scanLiteral { chars := some (c :: done) } rest := by
  unfold escapeChar
  split
  next quote => subst quote; simp [scanLiteral, shortEscape?, Seen.addChar]
  split
  next backslash => subst backslash; simp [scanLiteral, shortEscape?, Seen.addChar]
  split
  next feed => subst feed; simp [scanLiteral, shortEscape?, Seen.addChar]
  split
  next returned => subst returned; simp [scanLiteral, shortEscape?, Seen.addChar]
  split
  next tab => subst tab; simp [scanLiteral, shortEscape?, Seen.addChar]
  split
  next back =>
    obtain rfl : c = '\x08' := eq_of_toNat back
    simp [scanLiteral, shortEscape?, Seen.addChar]
  split
  next form =>
    obtain rfl : c = '\x0c' := eq_of_toNat form
    simp [scanLiteral, shortEscape?, Seen.addChar]
  split
  next control =>
    simp [scanLiteral, codeUnit?_control c.toNat control, addUnit_control done c.toNat control]
  next notQuote notBackslash _ _ _ _ _ visible =>
    have plain : ¬(c = '\\' ∨ c.toNat < 0x20) := by simp [notBackslash, visible]
    rw [List.singleton_append, scanLiteral]
    · simp [plain, Seen.addChar]
    all_goals simp_all

/-- The characters of a literal are read in order up to its closing quote. -/
theorem scanLiteral_escapes (done text rest : List Char) :
    scanLiteral { chars := some done } (text.flatMap escapeChar ++ '"' :: rest) =
      some (some (String.ofList (done.reverse ++ text)), rest) := by
  induction text generalizing done with
  | nil => simp [scanLiteral, Seen.text?]
  | cons c text ih =>
    rw [List.flatMap_cons, List.append_assoc, scanLiteral_escapeChar, ih]
    simp

/-- The literal of a text begins with a quote, and what follows the quote is read as the text. -/
theorem quote_append (text : String) (rest : List Char) :
    ∃ body, quote (some text) ++ rest = '"' :: body ∧
      scanLiteral {} body = some (some text, rest) := by
  refine ⟨text.toList.flatMap escapeChar ++ '"' :: rest, ?_, ?_⟩
  · simp [quote]
  · simpa using scanLiteral_escapes [] text.toList rest

end HdlDesk.Json
