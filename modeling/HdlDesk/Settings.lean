import HdlDesk.Json.Stored
import HdlDesk.Recent
import HdlDesk.Source.Extensions

/-!
# Settings

What a user can configure, the record it is kept in, and the configuration that the desk works
with. Every field of the record may be left out. A capacity of zero and an empty list of extensions
are replaced before they are used, not when they are read.
-/
namespace HdlDesk

/-- Where an artifact goes that arrives after a switch to another file. -/
inductive ResponseBinding where
  /-- To the file that it was requested for. -/
  | originating
  /-- To the file that is active when it arrives. -/
  | activeAtArrival
  deriving DecidableEq, Repr

namespace ResponseBinding

def name : ResponseBinding → String
  | .originating => "originating"
  | .activeAtArrival => "active_at_arrival"

def byName : List (String × ResponseBinding) :=
  [("originating", .originating), ("active_at_arrival", .activeAtArrival)]

instance : Stored ResponseBinding where
  toJson binding := .text binding.name
  ofJson? := Json.word? byName

end ResponseBinding

/-- Whether a session is kept in a file or forgotten at its end. -/
inductive StorageKind where
  | file
  | memory
  deriving DecidableEq, Repr

namespace StorageKind

def name : StorageKind → String
  | .file => "file"
  | .memory => "memory"

def byName : List (String × StorageKind) := [("file", .file), ("memory", .memory)]

instance : Stored StorageKind where
  toJson kind := .text kind.name
  ofJson? := Json.word? byName

end StorageKind

/-- What the desk needs to know of the settings. -/
structure DeskConfig where
  recentCapacity : Nat := RecentFiles.defaultCapacity
  acceptedExtensions : List String := Extensions.defaultList
  responseBinding : ResponseBinding := .originating
  deriving DecidableEq, Repr

def DeskConfig.extensions (config : DeskConfig) : Extensions :=
  .ofList config.acceptedExtensions

structure Settings where
  recentCapacity : Nat := RecentFiles.defaultCapacity
  acceptedExtensions : List String := Extensions.defaultList
  responseBinding : ResponseBinding := .originating
  storage : StorageKind := .file
  deriving DecidableEq, Repr

namespace Settings

/-- A capacity of a recent list, which a record holds as a number of at most 64 bits. -/
structure Capacity where
  value : Nat

instance : Stored Capacity where
  toJson capacity := .natural capacity.value
  ofJson? json := (json.asNatural? Text.indexBound).map Capacity.mk

instance : Stored Settings where
  toJson settings := .object [
    (some "recent_capacity", .natural settings.recentCapacity),
    (some "accepted_extensions", Stored.toJson settings.acceptedExtensions),
    (some "response_binding", .text settings.responseBinding.name),
    (some "storage", .text settings.storage.name)]
  ofJson? json :=
    let names := ["recent_capacity", "accepted_extensions", "response_binding", "storage"]
    match json.fields? names with
    | some [capacity, extensions, binding, storage] => do
      return {
        recentCapacity := (← Json.optional? ⟨RecentFiles.defaultCapacity⟩ capacity : Capacity).value
        acceptedExtensions := ← Json.optional? Extensions.defaultList extensions
        responseBinding := ← Json.optional? .originating binding
        storage := ← Json.optional? .file storage }
    | _ => none

def config (settings : Settings) : DeskConfig where
  recentCapacity := max settings.recentCapacity 1
  acceptedExtensions :=
    if settings.acceptedExtensions = [] then Extensions.defaultList
    else settings.acceptedExtensions
  responseBinding := settings.responseBinding

end Settings

end HdlDesk
