import HdlDesk.Json.Stored

/-!
# Source files

A source file as the desk holds it: its name, where it lies inside the folder it was opened with,
and its text. The path may be missing, in which case the name stands for it; whether it is missing
is remembered, because records are compared and stored as they were given.
-/
namespace HdlDesk

structure SourceFile where
  name : String
  /-- The path as it was given; empty when there was none. -/
  givenPath : String
  content : String
  deriving DecidableEq, Repr

structure RawSource where
  name : String
  path : String
  bytes : ByteArray

namespace SourceFile

def standalone (name content : String) : SourceFile := ⟨name, name, content⟩

/-- The path to show: the given one, else the name. -/
def path (file : SourceFile) : String :=
  if file.givenPath = "" then file.name else file.givenPath

/-- A missing path is left out of the record. -/
instance : Stored SourceFile where
  toJson file := .object <|
    [(some "name", .text file.name)] ++
    (if file.givenPath = "" then [] else [(some "path", .text file.givenPath)]) ++
    [(some "content", .text file.content)]
  ofJson? json :=
    match json.fields? ["name", "path", "content"] with
    | some [name, path, content] => do
      return ⟨← Json.required? name, ← Json.optional? "" path, ← Json.optional? "" content⟩
    | _ => none

end SourceFile

end HdlDesk
