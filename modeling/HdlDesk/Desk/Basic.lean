import HdlDesk.Artifact.Cache
import HdlDesk.Desk.Action
import HdlDesk.Document
import HdlDesk.InFlight
import HdlDesk.Recent
import HdlDesk.Settings

/-!
# The desk

All that a session holds: the open document, the recent files, the artifacts and the requests in
flight, and the storage they are kept in. The first four are the state; it does not mention the
storage, so that desks over different storages can be compared.
-/
namespace HdlDesk

structure DeskState where
  document : Document
  recent : RecentFiles
  artifacts : ArtifactCache
  inFlight : InFlight

structure Desk (σ : Type) where
  config : DeskConfig
  state : DeskState
  storage : σ

namespace Desk

variable {σ : Type} [KeyValueStore σ]

/-- Takes up the session that a storage holds. -/
def restore (config : DeskConfig) (storage : σ) : Desk σ where
  config := config
  state := {
    document := .restore storage
    recent := .restore storage config.recentCapacity
    artifacts := .empty
    inFlight := .empty }
  storage := storage

def activeKey (desk : Desk σ) : String := desk.state.document.key

def entry (desk : Desk σ) (key : String) : ArtifactEntry :=
  desk.state.artifacts.entry desk.storage key

/-- Brings the artifacts of a file into memory. -/
def load (desk : Desk σ) (key : String) : Desk σ :=
  { desk with state.artifacts := desk.state.artifacts.load desk.storage key }

/-- An artifact of the active file is awaited. -/
def isLoading (desk : Desk σ) (kind : ArtifactKind) : Bool :=
  desk.state.inFlight.contains kind desk.activeKey

/-- Writes calls to the storage; a refusal is no reason to stop. -/
def persist (desk : Desk σ) (calls : List Write) : Desk σ :=
  { desk with storage := (KeyValueStore.writeAll desk.storage calls).2 }

end Desk

end HdlDesk
