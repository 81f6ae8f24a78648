/-!
# Blank characters

The `White_Space` property of Unicode, as ranges of code points, and the operations that look at
the blank ends of a text. A name or an editor buffer counts as empty when trimming leaves nothing,
so every "is there anything here?" question of the desk ends in this table.
-/
namespace HdlDesk.Text

/-- Closed ranges of the code points with the `White_Space` property, in increasing order. -/
def blankRanges : List (Nat × Nat) :=
  [(0x09, 0x0D), (0x20, 0x20), (0x85, 0x85), (0xA0, 0xA0), (0x1680, 0x1680), (0x2000, 0x200A),
   (0x2028, 0x2029), (0x202F, 0x202F), (0x205F, 0x205F), (0x3000, 0x3000)]

def isBlank (c : Char) : Bool :=
  blankRanges.any fun range => range.1 ≤ c.toNat && c.toNat ≤ range.2

def trimChars (cs : List Char) : List Char :=
  ((cs.dropWhile isBlank).reverse.dropWhile isBlank).reverse

def trim (text : String) : String :=
  String.ofList (trimChars text.toList)

def isAllBlank (text : String) : Bool :=
  text.toList.all isBlank

end HdlDesk.Text
