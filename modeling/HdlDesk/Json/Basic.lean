/-!
# Stored values

Everything the desk keeps between sessions is a JSON text inside a stored string. This module holds
the values such a text denotes. Members of an object keep their order and their repetitions,
because whether a repetition is allowed depends on the record that is read from the object.
-/
namespace HdlDesk

/-- A value of a stored text.

The text of a string or of a member's name is `none` when one of its escapes names half of a
surrogate pair: such a string obeys the grammar, so it may stand where nobody reads it, but it
denotes no text. -/
inductive Json where
  | null
  | bool (value : Bool)
  /-- A number that is written with digits alone. -/
  | natural (value : Nat)
  /-- Any other number: negative, with a fraction or with an exponent. -/
  | number (literal : String)
  | string (text : Option String)
  | array (items : List Json)
  | object (members : List (Option String × Json))

namespace Json

def text (value : String) : Json := .string (some value)

def asText? : Json → Option String
  | .string held => held
  | _ => none

def asBool? : Json → Option Bool
  | .bool value => some value
  | _ => none

def asNatural? (bound : Nat) : Json → Option Nat
  | .natural value => if value < bound then some value else none
  | _ => none

def asArray? : Json → Option (List Json)
  | .array items => some items
  | _ => none

end Json

end HdlDesk
