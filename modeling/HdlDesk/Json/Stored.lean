import HdlDesk.Json.Parser
import HdlDesk.Json.Printer

/-!
# Values that can be stored

A type is `Stored` when its values are written as JSON and read back. Records are read leniently in
form and strictly in content: their fields may come in any order, with unknown members between
them, or as an array in order of declaration, but no field twice and none with a value of the
wrong kind. Which fields may be left out is up to the record.
-/
namespace HdlDesk

class Stored (α : Type) where
  toJson : α → Json
  ofJson? : Json → Option α

namespace Stored

variable {α : Type}

def print [Stored α] (value : α) : String := (toJson value).render

def printSpread [Stored α] (value : α) : String := (toJson value).renderSpread

def read? [Stored α] (text : String) : Option α := (Json.parse? text).bind ofJson?

instance : Stored String where
  toJson := Json.text
  ofJson? := Json.asText?

instance : Stored Bool where
  toJson := .bool
  ofJson? := Json.asBool?

instance [Stored α] : Stored (List α) where
  toJson values := .array (values.map toJson)
  ofJson? json := json.asArray?.bind fun items => items.mapM ofJson?

end Stored

namespace Json

/-- The members of an object with the texts of their names, which all must have one. -/
def namedMembers? (members : List (Option String × Json)) : Option (List (String × Json)) :=
  members.mapM fun (name, value) => name.map fun name => (name, value)

/-- The value given for each of a record's fields, in order of declaration. -/
def fields? (names : List String) : Json → Option (List (Option Json))
  | .array items =>
    if items.length ≤ names.length then
      some (items.map some ++ List.replicate (names.length - items.length) none)
    else none
  | .object members => do
    let named ← namedMembers? members
    if names.all fun name => (named.filter fun member => member.1 == name).length ≤ 1 then
      some (names.map fun name => named.lookup name)
    else none
  | _ => none

def required? {α : Type} [Stored α] (field : Option Json) : Option α :=
  field.bind Stored.ofJson?

/-- A field that stands for `fallback` when it is not given. -/
def optional? {α : Type} [Stored α] (fallback : α) : Option Json → Option α
  | none => some fallback
  | some json => Stored.ofJson? json

/-- One of a few words, written as a string or as the only member of an object, without a value. -/
def word? {α : Type} (meanings : List (String × α)) : Json → Option α
  | .string (some name) => meanings.lookup name
  | .object [(some name, .null)] => meanings.lookup name
  | _ => none

end Json

end HdlDesk
