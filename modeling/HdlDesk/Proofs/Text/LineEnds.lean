import Mathlib.Data.List.DropRight
import HdlDesk.Proofs.Text.Utf8
import HdlDesk.Text.Lines

/-!
# Line ends in bytes and in text

A line feed and a carriage return are one byte each, and neither byte begins or continues another
character. So a decoded text ends in one of the two exactly where its bytes do, also behind a
character that the byte breaks off, and no other bytes are read as one. Dropping the line ends of a
text is therefore the same as dropping the bytes that they are written with.
-/
namespace HdlDesk.Text

/-! ### Line ends and their bytes -/

/-- The bytes that a line feed and a carriage return are written with. -/
def isLineEndByte (byte : UInt8) : Bool :=
  byte = 0x0A || byte = 0x0D

theorem isLineEnd_ofNat (n : Nat) : isLineEnd (Char.ofNat n) = true ↔ n = 0x0A ∨ n = 0x0D := by
  constructor
  · intro ends
    by_cases valid : n.isValidChar
    · have value : (Char.ofNat n).toNat = n := by
        rw [Char.ofNat, dif_pos valid]
        rfl
      simp only [isLineEnd, Bool.or_eq_true, decide_eq_true_eq] at ends
      rw [← value]
      exact ends.imp (fun same => by rw [same]; rfl) (fun same => by rw [same]; rfl)
    · rw [Char.ofNat, dif_neg valid] at ends
      exact absurd ends (by decide)
  · rintro (rfl | rfl) <;> decide

theorem isLineEndByte_iff (byte : UInt8) :
    isLineEndByte byte = true ↔ byte.toNat = 0x0A ∨ byte.toNat = 0x0D := by
  simp [isLineEndByte, ← UInt8.toNat_inj]

/-! ### Decoding at the end of some bytes -/

/-- What a decoder may hold inside a character: its next byte is no character of its own, and the
character will be none of those that are written as one byte. Where more than one byte is owed, the
next one need only bring the value to two, since each byte after it adds six bits. -/
structure Pending.Wide (held : Pending) : Prop where
  low : 0x80 ≤ held.low
  least : 2 ≤ held.value * 64 + (held.low - 0x80)
  last : held.owed ≤ 1 → 0x80 ≤ held.value * 64 + (held.low - 0x80)

private theorem wide_beginChar (byte : Nat) : ∀ held ∈ (beginChar byte).2, held.Wide := by
  intro held begun
  unfold beginChar at begun
  split_ifs at begun
  all_goals simp only [Option.mem_def, Option.some.injEq, reduceCtorEq] at begun
  all_goals
    subst begun
    constructor
    all_goals (dsimp only; omega)

private theorem beginChar_last {byte : Nat} (idle : (beginChar byte).2 = none) :
    ∃ last, (beginChar byte).1 = [last] ∧
      (isLineEnd last = true → byte = 0x0A ∨ byte = 0x0D) := by
  unfold beginChar at idle ⊢
  split_ifs at idle ⊢
  · exact ⟨_, rfl, (isLineEnd_ofNat byte).mp⟩
  · exact ⟨_, rfl, fun ends => absurd ends (by decide)⟩

section
variable {state : Option Pending} (wide : ∀ held ∈ state, held.Wide)
include wide

private theorem wide_decodeByte (byte : Nat) :
    ∀ next ∈ (decodeByte state byte).2, next.Wide := by
  cases state with
  | none => exact wide_beginChar byte
  | some held =>
    obtain ⟨low, least, _⟩ := wide held rfl
    rw [decodeByte]
    split
    next within =>
      dsimp only
      split
      next =>
        intro next moved
        cases moved
      next owes =>
        intro next moved
        simp only [Option.mem_def, Option.some.injEq] at moved
        subst moved
        have value : 2 ≤ held.value * 64 + (byte - 0x80) := by omega
        exact ⟨le_refl _, by dsimp only; omega, fun _ => by dsimp only; omega⟩
    next => exact wide_beginChar byte

/-- A byte below `80` is a character of its own wherever it stands. -/
private theorem decodeByte_plain {byte : Nat} (plain : byte ≤ 0x7F) : ∃ broken : List Char,
      decodeByte state byte = (broken ++ [Char.ofNat byte], none) ∧
      ∀ done : List Char, decodeFrom state done [] = done.reverse ++ broken := by
  have begins : beginChar byte = ([Char.ofNat byte], none) := if_pos plain
  cases state with
  | none => exact ⟨[], begins, fun done => (List.append_nil _).symm⟩
  | some held =>
    -- What is held cannot go on with the byte, so it ends as a replacement.
    have apart : ¬(held.low ≤ byte ∧ byte ≤ held.high) := by
      have low := (wide held rfl).low
      omega
    refine ⟨[replacement], ?_, fun done => List.reverse_cons⟩
    rw [decodeByte, if_neg apart, begins]
    rfl

/-- Such a byte at the end of some bytes adds its character to their text. -/
theorem decodeFrom_concat (done : List Char) (bytes : List UInt8) {byte : UInt8}
    (plain : byte.toNat ≤ 0x7F) :
    decodeFrom state done (bytes ++ [byte]) =
      decodeFrom state done bytes ++ [Char.ofNat byte.toNat] := by
  -- Each byte before the last leaves a wide state again, whatever was held.
  induction bytes generalizing state done with
  | nil =>
    obtain ⟨broken, read, ended⟩ := decodeByte_plain wide plain
    rw [List.nil_append, decodeFrom, read, ended]
    simp [decodeFrom]
  | cons first rest ih =>
    rw [List.cons_append, decodeFrom, decodeFrom]
    exact ih (wide_decodeByte wide _) _

/-- The last character that a byte completes is a line end only if the byte is written for one. -/
private theorem decodeByte_last {byte : Nat} (idle : (decodeByte state byte).2 = none) :
    ∃ front last, (decodeByte state byte).1 = front ++ [last] ∧
      (isLineEnd last = true → byte = 0x0A ∨ byte = 0x0D) := by
  cases state with
  | none =>
    obtain ⟨last, completed, ends⟩ := beginChar_last idle
    exact ⟨[], last, completed, ends⟩
  | some held =>
    obtain ⟨low, _, least⟩ := wide held rfl
    rw [decodeByte] at idle ⊢
    split at idle
    next within =>
      rw [if_pos within]
      dsimp only at idle ⊢
      split at idle
      next last =>
        rw [if_pos last]
        refine ⟨[], _, rfl, fun ends => ?_⟩
        -- The completed character is beyond those of one byte.
        have beyond := least last
        rw [isLineEnd_ofNat] at ends
        omega
      next => cases idle
    next apart =>
      rw [if_neg apart]
      obtain ⟨last, completed, ends⟩ := beginChar_last idle
      exact ⟨[replacement], last, by rw [← completed]; rfl, ends⟩

theorem decodeFrom_last (done : List Char) (bytes : List UInt8) (byte : UInt8) :
    ∃ front last, decodeFrom state done (bytes ++ [byte]) = front ++ [last] ∧
      (isLineEnd last = true → isLineEndByte byte = true) := by
  induction bytes generalizing state done with
  | nil =>
    rw [List.nil_append, decodeFrom]
    cases left : (decodeByte state byte.toNat).2 with
    | none =>
      obtain ⟨front, last, completed, ends⟩ := decodeByte_last wide left
      refine ⟨done.reverse ++ front, last, ?_, fun ended => ?_⟩
      · simp [left, completed, decodeFrom]
      · exact (isLineEndByte_iff byte).mpr (ends ended)
    | some held =>
      -- The bytes stop inside a character, which is broken off.
      refine ⟨((decodeByte state byte.toNat).1.reverse ++ done).reverse, replacement, ?_,
        fun ended => absurd ended (by decide)⟩
      simp [left, decodeFrom]
  | cons first rest ih =>
    rw [List.cons_append, decodeFrom]
    exact ih (wide_decodeByte wide _) _

end

/-! ### Dropping line ends -/

/-- A text loses the line ends at its end exactly as its bytes do. -/
theorem rdropWhile_decodeFrom (bytes : List UInt8) :
    (decodeFrom none [] bytes).rdropWhile isLineEnd =
      decodeFrom none [] (bytes.rdropWhile isLineEndByte) := by
  have wide : ∀ held ∈ (none : Option Pending), held.Wide := nofun
  induction bytes using List.reverseRecOn with
  | nil => rfl
  | append_singleton bytes byte ih =>
    by_cases ends : isLineEndByte byte = true
    · have value := (isLineEndByte_iff byte).mp ends
      rw [decodeFrom_concat wide [] bytes (by omega), List.rdropWhile_concat_pos _ _ _ ends,
        List.rdropWhile_concat_pos _ _ _ ((isLineEnd_ofNat _).mpr value), ih]
    · obtain ⟨front, last, shape, only⟩ := decodeFrom_last wide [] bytes byte
      rw [List.rdropWhile_concat_neg _ _ _ ends, shape,
        List.rdropWhile_concat_neg _ _ _ (mt only ends)]

/-- The bytes without the line feeds and carriage returns at their end. -/
def dropLineEndBytes (bytes : ByteArray) : ByteArray :=
  (bytes.toList.rdropWhile isLineEndByte).toByteArray

theorem toList_trimLineEnds (text : String) :
    (trimLineEnds text).toList = text.toList.rdropWhile isLineEnd :=
  String.toList_ofList

theorem trimLineEnds_decodeLossy (bytes : ByteArray) :
    trimLineEnds (decodeLossy bytes) = decodeLossy (dropLineEndBytes bytes) := by
  rw [← String.toList_inj, toList_trimLineEnds, decodeLossy, decodeLossy, decode, decode,
    String.toList_ofList, String.toList_ofList, dropLineEndBytes, toList_toByteArray,
    rdropWhile_decodeFrom]

/-- A character that the carriage return breaks off stays as a replacement. -/
example : trimLineEnds (decodeLossy ⟨#[0x61, 0xE2, 0x82, 0x0D, 0x0A]⟩) = "a\uFFFD" := by
  decide +kernel

end HdlDesk.Text
