import HdlDesk.Disk.Basic

/-!
# What changed on a disk

The changes that lead from one tree of files and folders to another, in an order in which they can
be made: what is gone is removed first, and a folder is made before what it holds. Links are never
made by a run, so they are passed over.
-/
namespace HdlDesk

inductive Change where
  | removeFile (place : Place)
  | makeFolder (place : Place)
  | writeFile (place : Place) (bytes : ByteArray)

namespace Node

/-- The files among some entries whose names are not among others. -/
def gone (place : Place) (before after : List (String × Node)) : List Change :=
  before.filterMap fun entry => match entry.2, child? after entry.1 with
    | .file _, none => some (.removeFile (place ++ [entry.1]))
    | _, _ => none

mutual
/-- The changes that make a node of what was at its place. -/
def changes (place : Place) (before : Option Node) : Node → List Change
  | .file bytes =>
    match before with
    | some (.file held) => if held = bytes then [] else [.writeFile place bytes]
    | _ => [.writeFile place bytes]
  | .link _ => []
  | .folder entries =>
    match before with
    | some (.folder held) => gone place held entries ++ changesAmong place held entries
    | _ => .makeFolder place :: changesAmong place [] entries

/-- The changes that make entries of those that were in their folder. -/
def changesAmong (place : Place) (before : List (String × Node)) :
    List (String × Node) → List Change
  | [] => []
  | (name, node) :: rest =>
    changes (place ++ [name]) (child? before name) node ++ changesAmong place before rest
end

end Node

namespace Disk

def changes (before after : Disk) : List Change := after.root.changes [] (some before.root)

end Disk

end HdlDesk
