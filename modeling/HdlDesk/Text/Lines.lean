/-!
# Lines

A line ends at a line feed; the piece after the last line feed counts only when it holds a
character. A file that is opened alone loses every line feed and carriage return at its end.
-/
namespace HdlDesk.Text

/-- Counts lines; `begun` says that characters have been read since the last line feed. -/
def countLinesFrom : Nat → Bool → List Char → Nat
  | count, begun, [] => if begun then count + 1 else count
  | count, _, '\n' :: rest => countLinesFrom (count + 1) false rest
  | count, _, _ :: rest => countLinesFrom count true rest

/-- The number of lines; a line feed at the very end starts no further line. -/
def countLines (text : String) : Nat :=
  countLinesFrom 0 false text.toList

def isLineEnd (c : Char) : Bool :=
  c = '\n' || c = '\r'

/-- Drops the longest run of line feeds and carriage returns at the end. -/
def trimLineEnds (text : String) : String :=
  String.ofList (text.toList.reverse.dropWhile isLineEnd).reverse

end HdlDesk.Text
