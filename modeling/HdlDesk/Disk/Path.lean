/-!
# Paths

A path is a text; slashes divide it into components. Two readings of a path are used. As a walk, it
is the list of steps that the disk follows one by one, where a closing slash is a step of its own:
it asks that a folder has been reached. As a name, empty components and dots are passed over (but
for a dot that the path begins with), and the last component is the file's name.
-/
namespace HdlDesk.Path

/-- The components between the slashes, empty ones included. -/
def split : List Char → List (List Char)
  | [] => [[]]
  | c :: rest =>
    if c = '/' then [] :: split rest
    else match split rest with
      | [] => [[c]]
      | first :: more => (c :: first) :: more

def components (path : String) : List String :=
  (split path.toList).map String.ofList

def isAbsolute (path : String) : Bool :=
  path.toList.head? = some '/'

/-- The path ends in a slash, so it can only name a folder. -/
def endsInSlash (path : String) : Bool :=
  path.toList.getLast? = some '/'

/-- A path of so many bytes is too long to be walked. -/
def lengthBound : Nat := 4096

inductive Step where
  | enter (name : String)
  /-- A dot: nowhere. -/
  | stay
  /-- Two dots: to the folder around. -/
  | up
  | close
  deriving DecidableEq, Repr

namespace Step

def nameBound : Nat := 255

/-- The step that a component asks for, if it is not empty. -/
def ofComponent? : String → Option Step
  | "" => none
  | "." => some .stay
  | ".." => some .up
  | name => some (.enter name)

end Step

/-- The steps of a walk up to a closing slash. -/
def openSteps (path : String) : List Step :=
  (components path).filterMap Step.ofComponent?

def steps (path : String) : List Step :=
  openSteps path ++ if endsInSlash path then [.close] else []

/-- The last step names an entry, which may have to be made. -/
def endsInName (path : String) : Bool :=
  match (openSteps path).getLast? with
  | some (.enter _) => true
  | _ => false

/-- The components of a path as a name. -/
def names (path : String) : List String :=
  match (components path).filter (· ≠ "") with
  | "." :: rest =>
    if isAbsolute path then rest.filter (· ≠ ".") else "." :: rest.filter (· ≠ ".")
  | parts => parts.filter (· ≠ ".")

/-- The path of some names, from the root or from where one stands. -/
def ofNames (absolute : Bool) (names : List String) : String :=
  (if absolute then "/" else "") ++ "/".intercalate names

/-- The name of the file that a path leads to; none when it ends at a dot, at a parent or at the
root. -/
def fileName? (path : String) : Option String :=
  match (names path).getLast? with
  | some name => if name = "." ∨ name = ".." then none else some name
  | none => none

/-- The path without its last name; none when there is no name to leave out. -/
def parent? (path : String) : Option String :=
  let names := names path
  if names = [] then none else some (ofNames (isAbsolute path) names.dropLast)

/-- A name split at its last dot, unless that dot begins the name; parents have no extension. -/
def splitExtension (name : String) : String × Option String :=
  let reversed := name.toList.reverse
  let extension := reversed.takeWhile (· ≠ '.')
  match reversed.dropWhile (· ≠ '.') with
  | [] => (name, none)
  | [_] => (name, none)
  | _ :: stem =>
    if name = ".." then (name, none)
    else (String.ofList stem.reverse, some (String.ofList extension.reverse))

/-- Leaves off, from the end of a path that is read backwards, slashes and dots behind slashes. -/
def dropClosing : List Char → List Char
  | '/' :: rest => dropClosing rest
  | '.' :: '/' :: rest => dropClosing rest
  | cs => cs

/-- Replaces what stands for the extension of the file's name, or does nothing to a path without a
file name. What follows the name in the path is left off. -/
def setExtension (path extension : String) : String :=
  match fileName? path with
  | none => path
  | some name =>
    let before := (dropClosing path.toList.reverse).drop name.length
    String.ofList before.reverse ++ (splitExtension name).1 ++ "." ++ extension

/-- The path with another extension. The text of the old extension is taken off the end of the path
first, so a name that is only told apart from a parent by its extension is not replaced. -/
def withExtension (path extension : String) : String :=
  match (fileName? path).bind fun name => (splitExtension name).2 with
  | none => setExtension path extension
  | some old => setExtension (String.ofList (path.toList.take (path.length - old.length))) extension

/-- A path below a base; the base's closing slash, if it has one, is not repeated. -/
def join (base path : String) : String :=
  if endsInSlash base then base ++ path else base ++ "/" ++ path

end HdlDesk.Path
