/-!
# String literals

A string is written between quotes. Quotes, backslashes and control characters are escaped, five
of the controls by a letter and the others by four hexadecimal digits; nothing else is. Reading
accepts every escape of the grammar, joins an escaped surrogate pair to one character, and reports
half of a pair as a literal without a text.
-/
namespace HdlDesk.Json

def hexDigit (n : Nat) : Char :=
  if n < 10 then Char.ofNat (48 + n) else Char.ofNat (87 + n)

/-- The characters that stand for `c` inside a literal. -/
def escapeChar (c : Char) : List Char :=
  if c = '"' then ['\\', '"']
  else if c = '\\' then ['\\', '\\']
  else if c = '\n' then ['\\', 'n']
  else if c = '\r' then ['\\', 'r']
  else if c = '\t' then ['\\', 't']
  else if c.toNat = 0x08 then ['\\', 'b']
  else if c.toNat = 0x0C then ['\\', 'f']
  else if c.toNat < 0x20 then
    ['\\', 'u', '0', '0', hexDigit (c.toNat / 16), hexDigit (c.toNat % 16)]
  else [c]

/-- The literal of a string; one without a text is written as half of a surrogate pair. -/
def quote : Option String → List Char
  | some text => '"' :: (text.toList.flatMap escapeChar ++ ['"'])
  | none => ['"', '\\', 'u', 'd', '8', '0', '0', '"']

def hexValue? (c : Char) : Option Nat :=
  if '0' ≤ c ∧ c ≤ '9' then some (c.toNat - 48)
  else if 'a' ≤ c ∧ c ≤ 'f' then some (c.toNat - 87)
  else if 'A' ≤ c ∧ c ≤ 'F' then some (c.toNat - 55)
  else none

/-- The code unit that four hexadecimal digits name. -/
def codeUnit? (a b c d : Char) : Option Nat :=
  match hexValue? a, hexValue? b, hexValue? c, hexValue? d with
  | some a, some b, some c, some d => some (((a * 16 + b) * 16 + c) * 16 + d)
  | _, _, _, _ => none

def isLeadingHalf (unit : Nat) : Bool := 0xD800 ≤ unit && unit ≤ 0xDBFF

def isTrailingHalf (unit : Nat) : Bool := 0xDC00 ≤ unit && unit ≤ 0xDFFF

/-- The character that two halves of a surrogate pair name together. -/
def joinHalves (leading trailing : Nat) : Char :=
  Char.ofNat (0x10000 + (leading - 0xD800) * 0x400 + (trailing - 0xDC00))

/-- The character that a letter after a backslash stands for. -/
def shortEscape? : Char → Option Char
  | '"' => some '"'
  | '\\' => some '\\'
  | '/' => some '/'
  | 'b' => some '\x08'
  | 'f' => some '\x0c'
  | 'n' => some '\n'
  | 'r' => some '\r'
  | 't' => some '\t'
  | _ => none

/-- What the front of a literal has told. -/
structure Seen where
  /-- The characters so far, last first, or `none` once half of a surrogate pair stood alone. -/
  chars : Option (List Char) := some []
  /-- The leading half that still waits for its trailing half. -/
  half : Option Nat := none

namespace Seen

/-- A character that is no escaped code unit. -/
def addChar (seen : Seen) (c : Char) : Seen :=
  match seen.half with
  | some _ => { chars := none }
  | none => { chars := seen.chars.map (c :: ·) }

/-- An escaped code unit. -/
def addUnit (seen : Seen) (unit : Nat) : Seen :=
  match seen.half with
  | some leading =>
    -- Whatever is not the trailing half leaves the leading one alone, and the literal without text.
    if isTrailingHalf unit then { chars := seen.chars.map (joinHalves leading unit :: ·) }
    else { chars := none }
  | none =>
    if isLeadingHalf unit then { chars := seen.chars, half := some unit }
    else if isTrailingHalf unit then { chars := none }
    else { chars := seen.chars.map (Char.ofNat unit :: ·) }

def text? (seen : Seen) : Option String :=
  match seen.half with
  | some _ => none
  | none => seen.chars.map fun cs => String.ofList cs.reverse

end Seen

/-- Reads a literal whose opening quote is gone, up to and with its closing quote. -/
def scanLiteral : Seen → List Char → Option (Option String × List Char)
  | _, [] => none
  | seen, '"' :: rest => some (seen.text?, rest)
  | seen, '\\' :: 'u' :: a :: b :: c :: d :: rest =>
    match codeUnit? a b c d with
    | some unit => scanLiteral (seen.addUnit unit) rest
    | none => none
  | seen, '\\' :: letter :: rest =>
    match shortEscape? letter with
    | some c => scanLiteral (seen.addChar c) rest
    | none => none
  | seen, c :: rest =>
    if c = '\\' ∨ c.toNat < 0x20 then none else scanLiteral (seen.addChar c) rest

end HdlDesk.Json
