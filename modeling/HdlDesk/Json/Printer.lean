import HdlDesk.Json.Basic
import HdlDesk.Json.Quoted

/-!
# Writing stored values

Two layouts of one grammar: the compact one of the stored records, without any blank, and the
spread one of the files a person may open, with one item or member to a line and two blanks of
indentation a level. Empty arrays and objects are written as two characters in both.
-/
namespace HdlDesk.Json

mutual
def compact : Json → List Char
  | .null => ['n', 'u', 'l', 'l']
  | .bool true => ['t', 'r', 'u', 'e']
  | .bool false => ['f', 'a', 'l', 's', 'e']
  | .natural value => Nat.toDigits 10 value
  | .number literal => literal.toList
  | .string held => quote held
  | .array [] => ['[', ']']
  | .array (item :: more) => '[' :: (compact item ++ (compactItems more ++ [']']))
  | .object [] => ['\x7b', '\x7d']
  | .object ((name, value) :: more) =>
    '\x7b' :: (quote name ++ ':' :: (compact value ++ (compactMembers more ++ ['\x7d'])))

/-- The items after the first, each behind a comma. -/
def compactItems : List Json → List Char
  | [] => []
  | item :: more => ',' :: (compact item ++ compactItems more)

/-- The members after the first, each behind a comma. -/
def compactMembers : List (Option String × Json) → List Char
  | [] => []
  | (name, value) :: more => ',' :: (quote name ++ ':' :: (compact value ++ compactMembers more))
end

/-- A line feed and the indentation of a level. -/
def newLine (level : Nat) : List Char :=
  '\n' :: List.replicate (2 * level) ' '

mutual
/-- The spread text of a value that stands at a level of indentation. -/
def spread (level : Nat) : Json → List Char
  | .null => ['n', 'u', 'l', 'l']
  | .bool true => ['t', 'r', 'u', 'e']
  | .bool false => ['f', 'a', 'l', 's', 'e']
  | .natural value => Nat.toDigits 10 value
  | .number literal => literal.toList
  | .string held => quote held
  | .array [] => ['[', ']']
  | .array (item :: more) =>
    '[' :: (newLine (level + 1) ++ (spread (level + 1) item ++
      (spreadItems (level + 1) more ++ (newLine level ++ [']']))))
  | .object [] => ['\x7b', '\x7d']
  | .object ((name, value) :: more) =>
    '\x7b' :: (newLine (level + 1) ++ (quote name ++ ':' :: ' ' :: (spread (level + 1) value ++
      (spreadMembers (level + 1) more ++ (newLine level ++ ['\x7d'])))))

def spreadItems (level : Nat) : List Json → List Char
  | [] => []
  | item :: more => ',' :: (newLine level ++ (spread level item ++ spreadItems level more))

def spreadMembers (level : Nat) : List (Option String × Json) → List Char
  | [] => []
  | (name, value) :: more =>
    ',' :: (newLine level ++ (quote name ++ ':' :: ' ' ::
      (spread level value ++ spreadMembers level more)))
end

def render (value : Json) : String := String.ofList (compact value)

def renderSpread (value : Json) : String := String.ofList (spread 0 value)

end HdlDesk.Json
