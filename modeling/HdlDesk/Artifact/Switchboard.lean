import HdlDesk.Artifact.Basic

/-!
# The switchboard

Finished artifacts are handed over through mailboxes. For each kind of artifact the switchboard is
connected to one mailbox at most; connecting another replaces the first, which keeps what it holds.
A mailbox is closed by its owner, and the switchboard learns of that when it next tries to deliver.
Mailboxes are numbered in the order in which they were made, and the numbers are never reused.
-/
namespace HdlDesk

structure Mailbox where
  kind : ArtifactKind
  isOpen : Bool := true
  /-- What has been delivered and not been taken out, oldest first. -/
  waiting : List ArtifactMessage := []

structure Switchboard where
  mailboxes : List Mailbox := []
  /-- The number of the mailbox for explanations. -/
  explanation : Option Nat := none
  /-- The number of the mailbox for testbenches. -/
  testbench : Option Nat := none

/-- What the owner of one mailbox finds. -/
inductive Reading where
  | message (message : ArtifactMessage)
  /-- Nothing, but more can come. -/
  | empty
  /-- Nothing, and the switchboard is connected elsewhere or nowhere. -/
  | disconnected
  deriving DecidableEq, Repr

namespace Switchboard

/-- The number of the mailbox for a kind. -/
def line (board : Switchboard) : ArtifactKind → Option Nat
  | .explanation => board.explanation
  | .testbench => board.testbench

def setLine (board : Switchboard) (kind : ArtifactKind) (number : Option Nat) : Switchboard :=
  match kind with
  | .explanation => { board with explanation := number }
  | .testbench => { board with testbench := number }

def isConnected (board : Switchboard) (kind : ArtifactKind) : Bool := (board.line kind).isSome

/-- Connects a new mailbox, and answers with its number. -/
def connect (board : Switchboard) (kind : ArtifactKind) : Nat × Switchboard :=
  let number := board.mailboxes.length
  let grown := { board with mailboxes := board.mailboxes ++ [({ kind := kind } : Mailbox)] }
  (number, grown.setLine kind (some number))

def disconnect (board : Switchboard) (kind : ArtifactKind) : Switchboard := board.setLine kind none

/-- Closes a mailbox; what it held is gone. -/
def close (board : Switchboard) (number : Nat) : Switchboard :=
  { board with
    mailboxes := board.mailboxes.modify number fun box =>
      { box with isOpen := false, waiting := [] } }

/-- Delivers an artifact to the mailbox for its kind, and answers whether there was one. A mailbox
that turns out to be closed is disconnected. -/
def deliver (board : Switchboard) (message : ArtifactMessage) : Bool × Switchboard :=
  match board.line message.kind with
  | none => (false, board)
  | some number =>
    match board.mailboxes[number]? with
    | some { isOpen := true, .. } =>
      (true, { board with
        mailboxes := board.mailboxes.modify number fun box =>
          { box with waiting := box.waiting ++ [message] } })
    | _ => (false, board.disconnect message.kind)

def waiting (board : Switchboard) (number : Nat) : List ArtifactMessage :=
  (board.mailboxes[number]?).elim [] Mailbox.waiting

def read (board : Switchboard) (number : Nat) : Reading × Switchboard :=
  match board.waiting number with
  | message :: rest =>
    (.message message, { board with
      mailboxes := board.mailboxes.modify number fun box => { box with waiting := rest } })
  | [] =>
    if board.explanation = some number ∨ board.testbench = some number then (.empty, board)
    else (.disconnected, board)

end Switchboard

/-- The owner of one mailbox of each kind, by their numbers. -/
structure Consumer where
  explanation : Nat
  testbench : Nat

namespace Switchboard

def connectBoth (board : Switchboard) : Consumer × Switchboard :=
  let (explanation, board) := board.connect .explanation
  let (testbench, board) := board.connect .testbench
  (⟨explanation, testbench⟩, board)

def closeBoth (board : Switchboard) (consumer : Consumer) : Switchboard :=
  (board.close consumer.explanation).close consumer.testbench

/-- Takes one message out of the two mailboxes; explanations come first. -/
def take (board : Switchboard) (consumer : Consumer) : Option ArtifactMessage × Switchboard :=
  match board.read consumer.explanation with
  | (.message message, board) => (some message, board)
  | _ =>
    match board.read consumer.testbench with
    | (.message message, board) => (some message, board)
    | _ => (none, board)

def takeUpTo : Nat → Switchboard → Consumer → List ArtifactMessage × Switchboard
  | 0, board, _ => ([], board)
  | count + 1, board, consumer =>
    match board.take consumer with
    | (none, board) => ([], board)
    | (some message, board) =>
      let (rest, board) := takeUpTo count board consumer
      (message :: rest, board)

def drain (board : Switchboard) (consumer : Consumer) : List ArtifactMessage × Switchboard :=
  takeUpTo
    ((board.waiting consumer.explanation).length + (board.waiting consumer.testbench).length)
    board consumer

end Switchboard

end HdlDesk
