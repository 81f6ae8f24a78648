import HdlDesk.Artifact.Switchboard
import HdlDesk.Desk.Dispatch
import HdlDesk.Work.Answer

/-!
# Sessions

A desk together with the work it has started. Tasks run side by side and are answered in any order:
an artifact goes into a mailbox, a report into the inbox, and both are read when the session gets
to it. The session counts the answers it still expects; it has settled when it expects none.

`Session.settle` is one way through: the oldest task is answered first, then all artifacts and one
report are read, and so on. An answer that is read starts at most one task, whose own answer starts
none, which bounds the number of turns.
-/
namespace HdlDesk

inductive Shown where
  /-- A refusal that shows a mistake of the program around the desk. -/
  | misuse (error : DeskError)
  /-- What nobody carries out. -/
  | effect (effect : Effect)
  deriving DecidableEq, Repr

/-- The effects that a session expects an answer to. It goes by this list alone and does not ask what
has been started. -/
def Effect.isAnswered : Effect → Bool
  | .loadFile _ => true
  | .loadFolder _ => true
  | .uploadFile _ _ => true
  | .uploadFolder _ => true
  | .requestExplanation _ _ => true
  | .requestTestbench _ _ => true
  | .clearBackend => true
  | _ => false

structure Session (σ : Type) where
  desk : Desk σ
  board : Switchboard
  consumer : Consumer
  /-- Tasks that have not been answered. -/
  running : List Task := []
  /-- Reports that have not been read. -/
  inbox : List Report := []
  /-- How many answers are expected, read ones not counted. -/
  pending : Nat := 0
  failed : Bool := false
  shown : List Shown := []

namespace Session

variable {σ : Type} [KeyValueStore σ]

/-- A session over a storage, with its mailboxes connected and nothing going on. -/
def start (config : DeskConfig) (storage : σ) : Session σ :=
  let (consumer, board) := ({} : Switchboard).connectBoth
  { desk := .restore config storage, board := board, consumer := consumer }

def perform (session : Session σ) (effect : Effect) : Session σ :=
  let pending := if effect.isAnswered then session.pending + 1 else session.pending
  match effect.receive with
  | .started task => { session with pending := pending, running := session.running ++ [task] }
  | .handedBack other =>
    { session with pending := pending, shown := session.shown ++ [.effect other] }

def apply (session : Session σ) (action : Action) : Session σ :=
  let (outcome, desk) := session.desk.dispatch action
  let misuse := outcome.error.toList.filter DeskError.isMisuse
  let session := { session with
    desk := desk
    failed := session.failed || outcome.error.isSome
    shown := session.shown ++ misuse.map .misuse }
  outcome.effects.foldl perform session

def finish (session : Session σ) (work : Task → Answer) (index : Nat) : Session σ :=
  match session.running[index]? with
  | none => session
  | some task =>
    let session := { session with running := session.running.eraseIdx index }
    match work task with
    | .report report => { session with inbox := session.inbox ++ [report] }
    | .artifact message => { session with board := (session.board.deliver message).2 }

/-- Takes in an artifact that was in a mailbox. -/
def takeArtifact (session : Session σ) (message : ArtifactMessage) : Session σ :=
  { session with pending := session.pending - 1 }.apply (.artifactArrived message)

def readArtifacts (session : Session σ) : Session σ :=
  let (messages, board) := session.board.drain session.consumer
  messages.foldl takeArtifact { session with board := board }

def readReport (session : Session σ) : Session σ :=
  match session.inbox with
  | [] => session
  | report :: rest =>
    let session := { session with inbox := rest, pending := session.pending - 1 }
    match report.action? with
    | some action => session.apply action
    | none => session

def turn (session : Session σ) (work : Task → Answer) : Session σ :=
  ((session.finish work 0).readArtifacts).readReport

def settleWithin (work : Task → Answer) : Nat → Session σ → Session σ
  | 0, session => session
  | turns + 1, session =>
    if session.pending = 0 then session else settleWithin work turns (session.turn work)

def settle (session : Session σ) (work : Task → Answer) : Session σ :=
  -- Each of these takes a turn, and so does the one task that its answer may start.
  let waiting := session.running.length + session.inbox.length
  settleWithin work (2 * waiting + 1) session

end Session

end HdlDesk
