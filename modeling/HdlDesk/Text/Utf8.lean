/-!
# Reading bytes as text

Source files are taken off the disk as bytes, and so are the names of what lies there. Reading them as text never fails: a stretch of bytes
that is no UTF-8 becomes one replacement character per maximal piece that could have begun a
character, and decoding goes on with the next byte. The decoder is a machine that stands either
between characters or inside one; inside, it knows how many bytes are owed and in which range the
next of them must lie, which is how overlong forms, halves of surrogate pairs and values above
`10FFFF` are refused at the earliest byte.
-/
namespace HdlDesk.Text

/-- What the bytes so far of an unfinished character have fixed. -/
structure Pending where
  value : Nat
  /-- How many bytes are still owed, at least one. -/
  owed : Nat
  /-- The range of the next byte; only the byte after the first is restricted further. -/
  low : Nat := 0x80
  high : Nat := 0xBF
  deriving DecidableEq, Repr

def replacement : Char := '\uFFFD'

/-- A byte that arrives between characters: the characters it completes, and what it begins. -/
def beginChar (byte : Nat) : List Char × Option Pending :=
  if byte ≤ 0x7F then ([Char.ofNat byte], none)
  else if 0xC2 ≤ byte ∧ byte ≤ 0xDF then ([], some { value := byte - 0xC0, owed := 1 })
  else if byte = 0xE0 then ([], some { value := 0, owed := 2, low := 0xA0 })
  else if byte = 0xED then ([], some { value := 0xD, owed := 2, high := 0x9F })
  else if 0xE1 ≤ byte ∧ byte ≤ 0xEF then ([], some { value := byte - 0xE0, owed := 2 })
  else if byte = 0xF0 then ([], some { value := 0, owed := 3, low := 0x90 })
  else if 0xF1 ≤ byte ∧ byte ≤ 0xF3 then ([], some { value := byte - 0xF0, owed := 3 })
  else if byte = 0xF4 then ([], some { value := 4, owed := 3, high := 0x8F })
  else ([replacement], none)

/-- One byte of the input. A byte that cannot go on with the character ends it as a replacement
and is then read as a first byte. -/
def decodeByte : Option Pending → Nat → List Char × Option Pending
  | none, byte => beginChar byte
  | some held, byte =>
    if held.low ≤ byte ∧ byte ≤ held.high then
      let value := held.value * 64 + (byte - 0x80)
      if held.owed ≤ 1 then ([Char.ofNat value], none)
      else ([], some { value := value, owed := held.owed - 1 })
    else
      -- The byte is not part of what it breaks off.
      let (chars, next) := beginChar byte
      (replacement :: chars, next)

/-- Decodes the rest of the input; `done` holds the characters so far, last first. -/
def decodeFrom : Option Pending → List Char → List UInt8 → List Char
  | none, done, [] => done.reverse
  | some _, done, [] => (replacement :: done).reverse
  | held, done, byte :: rest =>
    let (chars, next) := decodeByte held byte.toNat
    decodeFrom next (chars.reverse ++ done) rest

/-- The text of some bytes, with replacements for what is no UTF-8. -/
def decode (bytes : List UInt8) : String :=
  String.ofList (decodeFrom none [] bytes)

/-- The text of what a file holds. -/
def decodeLossy (bytes : ByteArray) : String := decode bytes.toList

/-- The bytes that a text is written with. -/
def encode (text : String) : List UInt8 := text.toUTF8.toList

end HdlDesk.Text
