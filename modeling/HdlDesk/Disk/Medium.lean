import HdlDesk.Disk.Basic
import HdlDesk.Source.Medium

/-!
# Disks as media

On a disk all names are texts, every file can be read, and a folder can be listed unless its own path
is too long to be opened by. A canonical path is made by following links and parents like a walk
does, except that every name is looked up by its whole path from the root, which may be too long
even where the walk is not.
-/
namespace HdlDesk

namespace Node

mutual
def item : Node → Item
  | .file bytes => .file (.ok bytes)
  | .link _ => .other (.error .tooManyLinks)
  | .folder entries => .folder (items entries)

def items : List (String × Node) → List (RawName × Item)
  | [] => []
  | (name, node) :: rest => (Text.encode name, item node) :: items rest
end

end Node

namespace Disk

/-- Makes a canonical path along steps from a place. `jump` goes on after a link. -/
def traceWith (root : Node) (jump : Place → List Path.Step → Except DiskError Place) :
    Place → List Path.Step → Except DiskError Place
  | here, [] => .ok here
  | here, .stay :: rest => traceWith root jump here rest
  | here, .close :: rest => traceWith root jump here rest
  | here, .up :: rest => traceWith root jump here.dropLast rest
  | here, .enter name :: rest =>
    let next := here ++ [name]
    if Path.lengthBound ≤ (Path.ofNames true next).utf8ByteSize then .error .nameTooLong
    else match root.at? next with
      | none => .error .notFound
      | some (.link target) =>
        jump (if Path.isAbsolute target then [] else here) (Path.steps target ++ rest)
      | some _ => traceWith root jump next rest

/-- Makes a canonical path along steps and at most so many links. -/
def trace (root : Node) : Nat → Place → List Path.Step → Except DiskError Place
  | 0 => traceWith root fun _ _ => .error .tooManyLinks
  | links + 1 => traceWith root (trace root links)

/-- The place that a path leads to, as far as a path can be made for it. -/
def canonical (disk : Disk) (path : String) : Except DiskError Place :=
  match disk.node? path with
  | .ok _ =>
    let start := if Path.isAbsolute path then [] else disk.workingFolder
    trace disk.root linkLimit start (Path.steps path)
  | .error refused => .error refused

/-- The text of a path, on a disk whose names are all texts. -/
def textOf? (path : RawPath) : Except DiskError String :=
  match String.fromUTF8? path.toByteArray with
  | some text => .ok text
  | none => .error .notFound

def medium (disk : Disk) : Medium where
  root := disk.root.item
  resolve path :=
    match textOf? path with
    | .ok text => (disk.node? text).map fun (place, _) => place.map Text.encode
    | .error refused => .error refused
  canonical path :=
    match textOf? path with
    | .ok text => (disk.canonical text).map (·.map Text.encode)
    | .error refused => .error refused
  refusal place :=
    match disk.root.item.at? place with
    | some (.folder _) =>
      if Path.lengthBound ≤ (RawPath.ofPlace place).length then some .nameTooLong else none
    | _ => none

end Disk

end HdlDesk
