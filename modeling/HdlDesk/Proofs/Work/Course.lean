import Mathlib
import HdlDesk.Proofs.Artifact.Delivery
import HdlDesk.Proofs.Desk.Deeds
import HdlDesk.Work.Session

/-!
# The course of a session

Between the command and the settling of a session four things can happen, in any order: a running
task is answered, an artifact is fetched from its mailbox, a fetched artifact is taken in, and a
report is read. An errand is what the session waits for, followed on its way through these places
from the task that was started to the answer that is taken in. A move passes one errand on, and only
what is taken in can start a task, which is a new errand.
-/
namespace HdlDesk

/-- A started task whose answer has not been taken in, by where it has got to. -/
inductive Errand where
  | running (task : Task)
  | reported (report : Report)
  | delivered (message : ArtifactMessage)
  | fetched (message : ArtifactMessage)
  deriving DecidableEq

/-- The errands that have got to one of four places each. -/
def Errand.all (running : List Task) (inbox : List Report)
    (waiting : ArtifactKind → List ArtifactMessage) (hand : List ArtifactMessage) : List Errand :=
  running.map .running ++ inbox.map .reported ++
    (waiting .explanation ++ waiting .testbench).map .delivered ++ hand.map .fetched

inductive Move where
  /-- One of the running tasks is carried out, in whatever circumstances there are by then. -/
  | finish (backend : Backend) (disk : Disk) (extensions : Extensions) (index : Nat)
  | fetch (kind : ArtifactKind)
  | takeIn
  | read

/-- The task that an effect starts. -/
def Effect.task? (effect : Effect) : Option Task :=
  match effect.receive with
  | .started task => some task
  | .handedBack _ => none

/-- A session expects an answer to the effects that start a task, and to no others. -/
theorem Effect.isAnswered_eq (effect : Effect) : effect.isAnswered = effect.task?.isSome := by
  cases effect <;> rfl

/-- The tasks that an outcome starts. -/
def Outcome.tasks (outcome : Outcome) : List Task := outcome.effects.filterMap Effect.task?

/-- A session, with the artifacts that have been fetched and not been taken in, the outcomes of the
actions so far, and the number of answers that have been taken in. -/
structure Course (σ : Type) where
  session : Session σ
  hand : List ArtifactMessage := []
  outcomes : List Outcome := []
  taken : Nat := 0

namespace Course

variable {σ : Type} [KeyValueStore σ]

/-- A session in which one action has been carried out. -/
def begin (config : DeskConfig) (storage : σ) (action : Action) : Course σ :=
  let session := Session.start config storage
  { session := session.apply action, outcomes := [(session.desk.dispatch action).1] }

/-- What a move does; it does nothing if there is nothing to be moved. -/
def step (course : Course σ) : Move → Course σ
  | .finish backend disk extensions index =>
    { course with session := course.session.finish (Task.answer backend disk extensions) index }
  | .fetch kind =>
    match course.session.board.read (course.session.consumer.number kind) with
    | (.message message, board) =>
      { course with session.board := board, hand := course.hand ++ [message] }
    | _ => course
  | .takeIn =>
    match course.hand with
    | [] => course
    | message :: rest =>
      { session := course.session.takeArtifact message
        hand := rest
        outcomes := course.outcomes ++
          [(course.session.desk.dispatch (.artifactArrived message)).1]
        taken := course.taken + 1 }
  | .read =>
    match course.session.inbox with
    | [] => course
    | report :: _ =>
      { course with
        session := course.session.readReport
        outcomes := course.outcomes ++ report.action?.toList.map fun action =>
          (course.session.desk.dispatch action).1
        taken := course.taken + 1 }

def run (course : Course σ) (moves : List Move) : Course σ := moves.foldl step course

/-- There is something to be moved. -/
def allows (course : Course σ) : Move → Bool
  | .finish _ _ _ index => index < course.session.running.length
  | .fetch kind => !(course.session.board.waitingFor course.session.consumer kind).isEmpty
  | .takeIn => !course.hand.isEmpty
  | .read => !course.session.inbox.isEmpty

/-- How many of some moves have found something to be moved. -/
def made : Course σ → List Move → Nat
  | _, [] => 0
  | course, move :: rest => (course.allows move).toNat + made (course.step move) rest

/-- All errands that are under way. -/
def errands (course : Course σ) : List Errand :=
  Errand.all course.session.running course.session.inbox
    (course.session.board.waitingFor course.session.consumer) course.hand

/-- The tasks that have been started. -/
def started (course : Course σ) : List Task := course.outcomes.flatMap Outcome.tasks

end Course

/-! ### What an action starts -/

namespace Session

variable {σ : Type} [KeyValueStore σ]

omit [KeyValueStore σ] in
private theorem foldl_perform (effects : List Effect) (session : Session σ) :
    effects.foldl perform session = { session with
      running := session.running ++ effects.filterMap Effect.task?
      pending := session.pending + (effects.filterMap Effect.task?).length
      shown := (effects.foldl perform session).shown } := by
  induction effects generalizing session with
  | nil => simp
  | cons effect effects ih =>
    have counted := effect.isAnswered_eq
    rw [List.foldl_cons, ih, perform, List.filterMap_cons, counted, Effect.task?]
    cases effect.receive with
    | started task => simp [Nat.add_comm, Nat.add_left_comm]
    | handedBack other => rfl

variable (session : Session σ) (action : Action)

private theorem apply_eq :
    session.apply action = { session with
      desk := (session.desk.dispatch action).2
      failed := session.failed || (session.desk.dispatch action).1.error.isSome
      running := session.running ++ (session.desk.dispatch action).1.tasks
      pending := session.pending + (session.desk.dispatch action).1.tasks.length
      shown := (session.apply action).shown } := by
  unfold apply
  dsimp only
  rw [foldl_perform]
  rfl

@[simp] theorem apply_desk : (session.apply action).desk = (session.desk.dispatch action).2 := by
  rw [apply_eq]

@[simp] theorem apply_board : (session.apply action).board = session.board := by
  rw [apply_eq]

@[simp] theorem apply_consumer : (session.apply action).consumer = session.consumer := by
  rw [apply_eq]

@[simp] theorem apply_inbox : (session.apply action).inbox = session.inbox := by
  rw [apply_eq]

@[simp] theorem apply_running : (session.apply action).running =
    session.running ++ (session.desk.dispatch action).1.tasks := by
  rw [apply_eq]

@[simp] theorem apply_pending : (session.apply action).pending =
    session.pending + (session.desk.dispatch action).1.tasks.length := by
  rw [apply_eq]

@[simp] theorem apply_failed : (session.apply action).failed =
    (session.failed || (session.desk.dispatch action).1.error.isSome) := by
  rw [apply_eq]

end Session

/-! ### What comes of an errand -/

namespace Errand

def ofAnswer : Answer → Errand
  | .report report => .reported report
  | .artifact message => .delivered message

/-- What comes of an errand by one move, and whether an answer is taken in by it. -/
inductive Leads : Errand → Bool → List Errand → Prop where
  | finish (task : Task) (backend : Backend) (disk : Disk) (extensions : Extensions) :
    Leads (.running task) false [ofAnswer (task.answer backend disk extensions)]
  | fetch (message : ArtifactMessage) : Leads (.delivered message) false [.fetched message]
  | takeIn (message : ArtifactMessage) : Leads (.fetched message) true []
  | readFile (path : String) (file : SourceFile) :
    Leads (.reported (.fileLoaded path file)) true
      [.running (.uploadFile file.name file.content)]
  | readFolder (path : String) (files : List SourceFile) :
    Leads (.reported (.folderLoaded path files)) true [.running (.uploadFolder files)]
  | read (report : Report) : Leads (.reported report) true []

/-- How many answers are still to be taken in on its account. -/
def answersLeft : Errand → Nat
  | .running (.loadFile _) | .running (.loadFolder _) => 2
  | .reported (.fileLoaded _ _) | .reported (.folderLoaded _ _) => 2
  | _ => 1

/-- How many moves are still to be made on its account. -/
def movesLeft : Errand → Nat
  | .running (.loadFile _) | .running (.loadFolder _) => 4
  | .running (.request _ _ _) => 3
  | .running _ => 2
  | .reported (.fileLoaded _ _) | .reported (.folderLoaded _ _) => 3
  | .reported _ => 1
  | .delivered _ => 2
  | .fetched _ => 1

/-- The request in flight that ends with the errand. -/
def request? : Errand → Option (ArtifactKind × String)
  | .running (.request kind key _) => some (kind, key)
  | .reported (.artifactFailed kind key _) => some (kind, key)
  | .delivered message => some (message.kind, message.key)
  | .fetched message => some (message.kind, message.key)
  | _ => none

/-- The answer to a task is about the same request, and there is less to come of it. -/
theorem ofAnswer_answer (task : Task) (backend : Backend) (disk : Disk) (extensions : Extensions) :
    (ofAnswer (task.answer backend disk extensions)).request? = (running task).request? ∧
    (ofAnswer (task.answer backend disk extensions)).answersLeft ≤ (running task).answersLeft ∧
    (ofAnswer (task.answer backend disk extensions)).movesLeft < (running task).movesLeft := by
  cases task with
  | request kind key source =>
    simp only [Task.answer]
    cases backend.artifact kind source with
    | ok payload => simp [ofAnswer, request?, answersLeft, movesLeft]
    | error failed => cases kind <;> simp [ofAnswer, request?, answersLeft, movesLeft]
  | _ =>
    simp only [Task.answer]
    split <;> simp [ofAnswer, request?, answersLeft, movesLeft]

variable {errand : Errand} {taken : Bool} {next : List Errand}

theorem Leads.answersLeft_le (leads : errand.Leads taken next) :
    (next.map answersLeft).sum + taken.toNat ≤ errand.answersLeft := by
  cases leads with
  | finish task backend disk extensions =>
    simpa using (ofAnswer_answer task backend disk extensions).2.1
  | read report => cases report <;> simp [answersLeft]
  | _ => simp [answersLeft]

/-- What is started when an answer is taken in is no request. -/
theorem Leads.request?_eq_none (leads : errand.Leads true next) {heir : Errand}
    (member : heir ∈ next) : heir.request? = none := by
  cases leads with
  | readFile | readFolder =>
    obtain rfl := List.mem_singleton.mp member
    rfl
  | takeIn | read => cases member

theorem Leads.movesLeft_lt (leads : errand.Leads taken next) :
    (next.map movesLeft).sum < errand.movesLeft := by
  cases leads with
  | finish task backend disk extensions =>
    simpa using (ofAnswer_answer task backend disk extensions).2.2
  | read report => cases report <;> simp [movesLeft]
  | _ => simp [movesLeft]

end Errand

end HdlDesk
