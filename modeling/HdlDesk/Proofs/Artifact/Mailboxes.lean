import Mathlib.Data.List.Basic
import HdlDesk.Artifact.Switchboard

/-!
# Mailboxes

What can be told of a switchboard from outside: how many mailboxes were made, where each kind is
connected, which mailboxes are open, and what waits in them. Each operation is known by what it does
to these four, and taking messages out only ever shortens what waits. So a consumer who drains his
two mailboxes gets all explanations and then all testbenches, in order.
-/
namespace HdlDesk

/-- The number of the mailbox for a kind. -/
def Consumer.number (consumer : Consumer) : ArtifactKind → Nat
  | .explanation => consumer.explanation
  | .testbench => consumer.testbench

namespace Switchboard

variable (board : Switchboard)

def isOpen (number : Nat) : Bool := (board.mailboxes[number]?).elim false Mailbox.isOpen

/-- Changes what waits in a mailbox. -/
def requeue (number : Nat) (change : List ArtifactMessage → List ArtifactMessage) : Switchboard :=
  { board with
    mailboxes := board.mailboxes.modify number fun box =>
      { box with waiting := change box.waiting } }

/-! ### What the operations do -/

theorem line_connect (kind other : ArtifactKind) :
    (board.connect kind).2.line other =
      if other = kind then some board.mailboxes.length else board.line other := by
  cases kind <;> cases other <;> rfl

theorem line_disconnect (kind other : ArtifactKind) :
    (board.disconnect kind).line other = if other = kind then none else board.line other := by
  cases kind <;> cases other <;> rfl

@[simp] theorem line_close (number : Nat) (kind : ArtifactKind) :
    (board.close number).line kind = board.line kind := by
  cases kind <;> rfl

@[simp] theorem line_requeue (number : Nat) (change : List ArtifactMessage → List ArtifactMessage)
    (kind : ArtifactKind) : (board.requeue number change).line kind = board.line kind := by
  cases kind <;> rfl

theorem mailboxes_connect (kind : ArtifactKind) :
    (board.connect kind).2.mailboxes = board.mailboxes ++ [{ kind := kind }] := by
  cases kind <;> rfl

@[simp] theorem mailboxes_disconnect (kind : ArtifactKind) :
    (board.disconnect kind).mailboxes = board.mailboxes := by
  cases kind <;> rfl

@[simp] theorem length_close (number : Nat) :
    (board.close number).mailboxes.length = board.mailboxes.length := by
  simp [close]

@[simp] theorem length_requeue (number : Nat)
    (change : List ArtifactMessage → List ArtifactMessage) :
    (board.requeue number change).mailboxes.length = board.mailboxes.length := by
  simp [requeue]

theorem getElem?_requeue (number other : Nat)
    (change : List ArtifactMessage → List ArtifactMessage) :
    (board.requeue number change).mailboxes[other]? = (board.mailboxes[other]?).map fun box =>
      if number = other then { box with waiting := change box.waiting } else box := by
  simp only [requeue, List.getElem?_modify]
  rfl

theorem getElem?_close (number other : Nat) :
    (board.close number).mailboxes[other]? = (board.mailboxes[other]?).map fun box =>
      if number = other then { box with isOpen := false, waiting := [] } else box := by
  simp only [close, List.getElem?_modify]
  rfl

theorem isOpen_connect (kind : ArtifactKind) (number : Nat) :
    (board.connect kind).2.isOpen number =
      (decide (number = board.mailboxes.length) || board.isOpen number) := by
  simp only [isOpen, mailboxes_connect]
  rcases Nat.lt_trichotomy number board.mailboxes.length with inside | rfl | outside
  · simp [List.getElem?_append_left inside, Nat.ne_of_lt inside]
  · simp
  · have far : (board.mailboxes ++ [{ kind := kind }])[number]? = none :=
      List.getElem?_eq_none (by simpa using Nat.succ_le_of_lt outside)
    have absent : board.mailboxes[number]? = none :=
      List.getElem?_eq_none (Nat.le_of_lt outside)
    simp [far, absent, Nat.ne_of_gt outside]

@[simp] theorem isOpen_disconnect (kind : ArtifactKind) (number : Nat) :
    (board.disconnect kind).isOpen number = board.isOpen number := by
  simp [isOpen]

theorem isOpen_close (number other : Nat) :
    (board.close number).isOpen other = (board.isOpen other && decide (other ≠ number)) := by
  simp only [isOpen, getElem?_close]
  cases board.mailboxes[other]? with
  | none => rfl
  | some box => by_cases same : number = other <;> simp [same, eq_comm (a := other)]

@[simp] theorem isOpen_requeue (number other : Nat)
    (change : List ArtifactMessage → List ArtifactMessage) :
    (board.requeue number change).isOpen other = board.isOpen other := by
  simp only [isOpen, getElem?_requeue]
  cases board.mailboxes[other]? with
  | none => rfl
  | some box => by_cases same : number = other <;> simp [same]

/-- Nothing waits in a mailbox that has just been made. -/
@[simp] theorem waiting_connect (kind : ArtifactKind) (number : Nat) :
    (board.connect kind).2.waiting number = board.waiting number := by
  simp only [waiting, mailboxes_connect]
  rcases Nat.lt_trichotomy number board.mailboxes.length with inside | rfl | outside
  · rw [List.getElem?_append_left inside]
  · simp
  · have far : (board.mailboxes ++ [{ kind := kind }])[number]? = none :=
      List.getElem?_eq_none (by simpa using Nat.succ_le_of_lt outside)
    rw [far, List.getElem?_eq_none (Nat.le_of_lt outside)]

@[simp] theorem waiting_disconnect (kind : ArtifactKind) (number : Nat) :
    (board.disconnect kind).waiting number = board.waiting number := by
  simp [waiting]

theorem waiting_close (number other : Nat) :
    (board.close number).waiting other = if other = number then [] else board.waiting other := by
  simp only [waiting, getElem?_close]
  cases board.mailboxes[other]? with
  | none => simp
  | some box => by_cases same : number = other <;> simp [same, eq_comm (a := other)]

theorem waiting_requeue {number : Nat} (inside : number < board.mailboxes.length) (other : Nat)
    (change : List ArtifactMessage → List ArtifactMessage) :
    (board.requeue number change).waiting other =
      if other = number then change (board.waiting number) else board.waiting other := by
  simp only [waiting, getElem?_requeue]
  by_cases same : other = number
  · subst same
    simp [List.getElem?_eq_getElem inside]
  · simp [same, Ne.symm same]

theorem lt_length_of_waiting {number : Nat} (waits : board.waiting number ≠ []) :
    number < board.mailboxes.length := by
  by_contra outside
  simp [waiting, List.getElem?_eq_none (Nat.le_of_not_lt outside)] at waits

/-- An artifact is delivered to the mailbox that is connected for its kind, if that is open, and
else the kind is disconnected. -/
theorem deliver_of_line {message : ArtifactMessage} {number : Nat}
    (connected : board.line message.kind = some number) :
    board.deliver message =
      if board.isOpen number then (true, board.requeue number (· ++ [message]))
      else (false, board.disconnect message.kind) := by
  rw [deliver, connected]
  cases found : board.mailboxes[number]? with
  | none => simp [isOpen, found]
  | some box =>
    obtain ⟨kind, opened, waiting⟩ := box
    cases opened with
    | false => simp [isOpen, found]
    | true => simp [isOpen, found, requeue]

theorem deliver_of_no_line {message : ArtifactMessage} (none : board.line message.kind = none) :
    board.deliver message = (false, board) := by
  rw [deliver, none]

theorem disconnect_of_no_line {kind : ArtifactKind} (none : board.line kind = none) :
    board.disconnect kind = board := by
  obtain ⟨mailboxes, explanation, testbench⟩ := board
  cases kind with
  | explanation => exact congrArg (Switchboard.mk mailboxes · testbench) none.symm
  | testbench => exact congrArg (Switchboard.mk mailboxes explanation ·) none.symm

/-! ### Taking messages out -/

theorem read_of_cons {number : Nat} {message : ArtifactMessage} {rest : List ArtifactMessage}
    (waits : board.waiting number = message :: rest) :
    board.read number = (.message message, board.requeue number fun _ => rest) := by
  rw [read, waits]
  rfl

theorem read_of_nil {number : Nat} (waits : board.waiting number = []) :
    board.read number = (.empty, board) ∨ board.read number = (.disconnected, board) := by
  rw [read, waits]
  dsimp only
  split
  · exact .inl rfl
  · exact .inr rfl

/-- What waits for a consumer, in the order in which it is taken. -/
def queue (consumer : Consumer) : List ArtifactMessage :=
  board.waiting consumer.explanation ++ board.waiting consumer.testbench

/-- Taking a message is reading the first of the two mailboxes in which something waits. -/
theorem take_cases {consumer : Consumer} (distinct : consumer.explanation ≠ consumer.testbench) :
    (∃ kind message rest, board.waiting (consumer.number kind) = message :: rest ∧
      board.take consumer =
        (some message, board.requeue (consumer.number kind) fun _ => rest) ∧
      board.queue consumer =
        message :: (board.requeue (consumer.number kind) fun _ => rest).queue consumer) ∨
    board.queue consumer = [] ∧ board.take consumer = (none, board) := by
  simp only [queue]
  -- The testbenches are looked at only when no explanation waits.
  cases explanations : board.waiting consumer.explanation with
  | cons message rest =>
    have inside := board.lt_length_of_waiting (by rw [explanations]; exact List.cons_ne_nil _ _)
    refine .inl ⟨.explanation, message, rest, explanations, ?_, ?_⟩
    · simp only [take, board.read_of_cons explanations]
      rfl
    · simp [Consumer.number, board.waiting_requeue inside, distinct.symm]
  | nil =>
    have first := board.read_of_nil explanations
    cases testbenches : board.waiting consumer.testbench with
    | cons message rest =>
      have inside := board.lt_length_of_waiting (by rw [testbenches]; exact List.cons_ne_nil _ _)
      refine .inl ⟨.testbench, message, rest, testbenches, ?_, ?_⟩
      · rcases first with empty | empty <;>
          simp only [take, empty, board.read_of_cons testbenches] <;> rfl
      · simp [Consumer.number, board.waiting_requeue inside, distinct, explanations]
    | nil =>
      refine .inr ⟨rfl, ?_⟩
      rcases first with first | first <;>
        rcases board.read_of_nil testbenches with second | second <;>
        simp only [take, first, second]

/-- Emptying the mailboxes takes out the whole queue, as long as it may take enough. -/
private theorem takeUpTo_spec {consumer : Consumer}
    (distinct : consumer.explanation ≠ consumer.testbench) (count : Nat) (board : Switchboard)
    (enough : (board.queue consumer).length ≤ count) :
    (board.takeUpTo count consumer).1 = board.queue consumer ∧
    (board.takeUpTo count consumer).2.queue consumer = [] := by
  induction count generalizing board with
  | zero =>
    have nothing : board.queue consumer = [] := List.length_eq_zero_iff.mp (by omega)
    exact ⟨nothing.symm, nothing⟩
  | succ count ih =>
    rcases board.take_cases distinct with ⟨kind, message, rest, _, taken, queued⟩ | ⟨nothing, taken⟩
    · -- One message is taken, and the rest of the queue is left for the other calls.
      rw [queued, List.length_cons] at enough
      obtain ⟨messages, emptied⟩ := ih _ (Nat.le_of_succ_le_succ enough)
      simp only [takeUpTo, taken]
      exact ⟨by rw [messages, queued], emptied⟩
    · simp only [takeUpTo, taken]
      exact ⟨nothing.symm, nothing⟩

theorem drain_spec {consumer : Consumer} (distinct : consumer.explanation ≠ consumer.testbench) :
    (board.drain consumer).1 = board.queue consumer ∧
    (board.drain consumer).2.queue consumer = [] :=
  takeUpTo_spec distinct _ board (Nat.le_of_eq List.length_append)

/-- What each message that is taken out keeps is kept by draining. -/
theorem drain_induct {consumer : Consumer} (distinct : consumer.explanation ≠ consumer.testbench)
    (kept : List ArtifactMessage → Switchboard → Prop)
    (step : ∀ before (reached : Switchboard) kind message rest,
      reached.waiting (consumer.number kind) = message :: rest → kept before reached →
      kept (before ++ [message]) (reached.requeue (consumer.number kind) fun _ => rest))
    (start : kept [] board) : kept (board.drain consumer).1 (board.drain consumer).2 := by
  -- The messages so far are kept in front of those that the rest of the calls take out.
  have calls (count : Nat) : ∀ (before : List ArtifactMessage) (reached : Switchboard),
      kept before reached →
      kept (before ++ (reached.takeUpTo count consumer).1) (reached.takeUpTo count consumer).2 := by
    induction count with
    | zero =>
      intro before reached holds
      simpa [takeUpTo] using holds
    | succ count ih =>
      intro before reached holds
      rcases reached.take_cases distinct with ⟨kind, message, rest, waits, taken, _⟩ | ⟨_, taken⟩
      · have next := ih _ _ (step before reached kind message rest waits holds)
        simpa [takeUpTo, taken] using next
      · simpa [takeUpTo, taken] using holds
  exact calls _ [] board start

end Switchboard

end HdlDesk
