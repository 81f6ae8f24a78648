import Mathlib.Tactic.SplitIfs
import HdlDesk.Text.Utf8

/-!
# Text written as bytes and read again

Each character is written with one to four bytes, and the decoder puts the same character together
from them, whatever follows. So decoding undoes encoding, and only a slash is written with the byte
of a slash.
-/
namespace HdlDesk.Text

/-! ### Byte arrays as lists -/

private theorem toList_loop (bytes : ByteArray) (start : Nat) (read : List UInt8) :
    ByteArray.toList.loop bytes start read = read.reverse ++ bytes.data.toList.drop start := by
  fun_induction ByteArray.toList.loop bytes start read with
  | case1 start read inside ih =>
    have below : start < bytes.data.toList.length := inside
    have next : bytes.get! start = bytes.data.toList[start] := getElem!_pos bytes.data start inside
    rw [ih, next, List.reverse_cons, List.append_assoc, List.singleton_append,
      ← List.drop_eq_getElem_cons below]
  | case2 start read outside =>
    have above : bytes.data.toList.length ≤ start := Nat.le_of_not_lt outside
    rw [List.drop_eq_nil_of_le above, List.append_nil]

private theorem toList_eq (bytes : ByteArray) : bytes.toList = bytes.data.toList := by
  rw [ByteArray.toList, toList_loop]
  rfl

theorem toList_toByteArray (bytes : List UInt8) : bytes.toByteArray.toList = bytes := by
  rw [toList_eq, List.toList_data_toByteArray]

theorem toByteArray_toList (bytes : ByteArray) : bytes.toList.toByteArray = bytes := by
  rw [ByteArray.ext_iff, ← Array.toList_inj, List.toList_data_toByteArray, toList_eq]

/-! ### Writing -/

theorem encode_eq (text : String) : encode text = text.toList.flatMap String.utf8EncodeChar := by
  obtain ⟨chars, rfl⟩ : ∃ chars, text = String.ofList chars := ⟨_, String.ofList_toList.symm⟩
  rw [encode, String.toUTF8_eq_toByteArray, String.toByteArray_ofList, List.utf8Encode,
    toList_toByteArray, String.toList_ofList]

theorem encode_append (text more : String) : encode (text ++ more) = encode text ++ encode more := by
  simp only [encode_eq, String.toList_append, List.flatMap_append]

/-- What is written is UTF-8. -/
theorem fromUTF8?_toUTF8 (text : String) : String.fromUTF8? text.toUTF8 = some text := by
  have valid : text.toUTF8.IsValidUTF8 := text.isValidUTF8
  unfold String.fromUTF8?
  rw [dif_pos valid]
  rfl

theorem fromUTF8?_encode (text : String) :
    String.fromUTF8? (encode text).toByteArray = some text := by
  rw [encode, toByteArray_toList, fromUTF8?_toUTF8]

/-! ### Reading again -/

section
variable {state : Option Pending} {held next : Pending} {n : Nat}

private theorem decodeFrom_begun (small : n < 256) (begun : decodeByte state n = ([], some next))
    (done : List Char) (rest : List UInt8) :
    decodeFrom state done (.ofNat n :: rest) = decodeFrom (some next) done rest := by
  rw [decodeFrom, UInt8.toNat_ofNat_of_lt' small, begun]
  rfl

private theorem decodeFrom_completed {c : Char} (small : n < 256)
    (completed : decodeByte state n = ([c], none)) (done : List Char) (rest : List UInt8) :
    decodeFrom state done (.ofNat n :: rest) = decodeFrom none (c :: done) rest := by
  rw [decodeFrom, UInt8.toNat_ofNat_of_lt' small, completed]
  rfl

/-- A byte that a character owes brings six bits. -/
private theorem decodeByte_owed {bits : Nat}
    (within : held.low ≤ bits + 128 ∧ bits + 128 ≤ held.high) (owes : 1 < held.owed) :
    decodeByte (some held) (bits + 128) =
      ([], some { value := held.value * 64 + bits, owed := held.owed - 1 }) := by
  rw [decodeByte, if_pos within, if_neg (Nat.not_le.mpr owes), Nat.add_sub_cancel]

private theorem decodeByte_last_owed {bits : Nat}
    (within : held.low ≤ bits + 128 ∧ bits + 128 ≤ held.high) (owes : held.owed = 1) :
    decodeByte (some held) (bits + 128) = ([Char.ofNat (held.value * 64 + bits)], none) := by
  rw [decodeByte, if_pos within, if_pos (Nat.le_of_eq owes), Nat.add_sub_cancel]

private theorem decodeByte_two (low : 127 < n) (high : n ≤ 2047) :
    decodeByte none (n / 64 % 32 + 192) = ([], some { value := n / 64, owed := 1 }) := by
  simp only [decodeByte, beginChar]
  split_ifs
  all_goals first
    | omega
    | simp only [Nat.add_sub_cancel]; rw [Nat.mod_eq_of_lt (by omega)]

/-- The second byte of three is in the range that the first one leaves for it: a longer form than
needed and half of a surrogate pair are no characters. -/
private theorem decodeByte_three (valid : n.isValidChar) (low : 2047 < n) (high : n ≤ 65535) :
    ∃ held : Pending, decodeByte none (n / 4096 % 16 + 224) = ([], some held) ∧
      held.value = n / 4096 ∧ held.owed = 2 ∧
      held.low ≤ n / 64 % 64 + 128 ∧ n / 64 % 64 + 128 ≤ held.high := by
  unfold Nat.isValidChar at valid
  simp only [decodeByte, beginChar]
  split_ifs
  all_goals first
    | omega
    | exact ⟨_, rfl, by dsimp only; omega, rfl, by dsimp only; omega, by dsimp only; omega⟩

private theorem decodeByte_four (valid : n.isValidChar) (low : 65535 < n) :
    ∃ held : Pending, decodeByte none (n / 262144 % 8 + 240) = ([], some held) ∧
      held.value = n / 262144 ∧ held.owed = 3 ∧
      held.low ≤ n / 4096 % 64 + 128 ∧ n / 4096 % 64 + 128 ≤ held.high := by
  unfold Nat.isValidChar at valid
  simp only [decodeByte, beginChar]
  split_ifs
  all_goals first
    | omega
    | exact ⟨_, rfl, by dsimp only; omega, rfl, by dsimp only; omega, by dsimp only; omega⟩

/-- A character is put together again from its bytes, whatever follows them. -/
theorem decodeFrom_encodeChar (done : List Char) (c : Char) (rest : List UInt8) :
    decodeFrom none done (String.utf8EncodeChar c ++ rest) = decodeFrom none (c :: done) rest := by
  have valid : c.val.toNat.isValidChar := c.valid
  have same : Char.ofNat c.val.toNat = c := Char.ofNat_toNat c
  rw [String.utf8EncodeChar]
  generalize c.val.toNat = n at valid same ⊢
  split_ifs with one two three
  · exact decodeFrom_completed (by omega) (by rw [decodeByte, beginChar, if_pos one, same]) _ _
  · have value : n / 64 * 64 + n % 64 = n := by omega
    rw [List.cons_append, decodeFrom_begun (by omega) (decodeByte_two (by omega) two)]
    refine decodeFrom_completed (by omega) ?_ _ _
    rw [decodeByte_last_owed ⟨by dsimp only; omega, by dsimp only; omega⟩ rfl, value, same]
  · obtain ⟨held, begun, front, owed, within⟩ := decodeByte_three valid (by omega) three
    have value : (n / 4096 * 64 + n / 64 % 64) * 64 + n % 64 = n := by omega
    rw [List.cons_append, decodeFrom_begun (by omega) begun, List.cons_append,
      decodeFrom_begun (by omega) (decodeByte_owed within (by omega)), front, owed]
    refine decodeFrom_completed (by omega) ?_ _ _
    rw [decodeByte_last_owed ⟨by dsimp only; omega, by dsimp only; omega⟩ rfl, value, same]
  · obtain ⟨held, begun, front, owed, within⟩ := decodeByte_four valid (by omega)
    have value : ((n / 262144 * 64 + n / 4096 % 64) * 64 + n / 64 % 64) * 64 + n % 64 = n := by
      omega
    rw [List.cons_append, decodeFrom_begun (by omega) begun, List.cons_append,
      decodeFrom_begun (by omega) (decodeByte_owed within (by omega)), front, owed,
      List.cons_append,
      decodeFrom_begun (by omega)
        (decodeByte_owed ⟨by dsimp only; omega, by dsimp only; omega⟩ (by dsimp only; omega))]
    refine decodeFrom_completed (by omega) ?_ _ _
    rw [decodeByte_last_owed ⟨by dsimp only; omega, by dsimp only; omega⟩ rfl, value, same]

end

private theorem decodeFrom_encodeChars (done chars : List Char) :
    decodeFrom none done (chars.flatMap String.utf8EncodeChar) = done.reverse ++ chars := by
  induction chars generalizing done with
  | nil => simp [decodeFrom]
  | cons c chars ih =>
    rw [List.flatMap_cons, decodeFrom_encodeChar, ih, List.reverse_cons, List.append_assoc]
    rfl

theorem decode_encode (text : String) : decode (encode text) = text := by
  rw [decode, encode_eq, decodeFrom_encodeChars]
  exact String.ofList_toList

theorem encode_injective {text other : String} (same : encode text = encode other) :
    text = other := by
  rw [← decode_encode text, same, decode_encode]

/-! ### Slashes -/

/-- Every byte of a longer character is above those that are characters of their own. -/
private theorem slash_mem_encodeChar_iff (c : Char) :
    (0x2F : UInt8) ∈ String.utf8EncodeChar c ↔ '/' = c := by
  have isByte : ∀ {n : Nat}, n < 256 → ((0x2F : UInt8) = .ofNat n ↔ n = 0x2F) := by
    intro n small
    rw [← UInt8.toNat_inj, UInt8.toNat_ofNat_of_lt' small]
    exact eq_comm
  have isSlash : '/' = c ↔ c.val.toNat = 0x2F := by
    rw [eq_comm, ← Char.toNat_inj]
    exact Iff.rfl
  rw [String.utf8EncodeChar, isSlash]
  split_ifs
  all_goals
    simp (disch := omega) only [List.mem_cons, List.not_mem_nil, or_false, isByte]
  all_goals omega

/-- The byte of a slash is written for slashes alone. -/
theorem slash_mem_encode_iff (text : String) :
    (0x2F : UInt8) ∈ encode text ↔ '/' ∈ text.toList := by
  simp only [encode_eq, List.mem_flatMap, slash_mem_encodeChar_iff]
  constructor
  · rintro ⟨_, member, rfl⟩
    exact member
  · intro member
    exact ⟨_, member, rfl⟩

end HdlDesk.Text
