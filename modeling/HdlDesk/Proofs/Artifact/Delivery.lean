import HdlDesk.Proofs.Artifact.Mailboxes

/-!
# Delivery to an attached consumer

As long as a consumer is attached, each kind of artifact has a mailbox that is open and his. What is
delivered then waits in the mailbox for its kind until he reads it, and nothing else happens to
either mailbox.
-/
namespace HdlDesk

namespace Switchboard

/-- The switchboard is connected to two open mailboxes of a consumer. -/
structure Attached (board : Switchboard) (consumer : Consumer) : Prop where
  line : ∀ kind, board.line kind = some (consumer.number kind)
  open_boxes : ∀ kind, ∃ box, board.mailboxes[consumer.number kind]? = some box ∧ box.isOpen = true
  distinct : consumer.explanation ≠ consumer.testbench

variable {board : Switchboard} {consumer : Consumer}

/-- The artifacts of a kind that wait for a consumer. -/
def waitingFor (board : Switchboard) (consumer : Consumer) (kind : ArtifactKind) :
    List ArtifactMessage :=
  board.waiting (consumer.number kind)

theorem attached_connectBoth :
    (({} : Switchboard).connectBoth).2.Attached (({} : Switchboard).connectBoth).1 where
  line kind := by cases kind <;> rfl
  open_boxes kind := by cases kind <;> exact ⟨_, rfl, rfl⟩
  distinct := by decide

namespace Attached

theorem number_injective (attached : board.Attached consumer) {kind other : ArtifactKind} :
    consumer.number kind = consumer.number other ↔ kind = other := by
  have distinct := attached.distinct
  cases kind <;> cases other <;> simp [Consumer.number, distinct, distinct.symm]

/-- Changing what waits in a mailbox keeps the consumer attached, and the other mailbox as it is. -/
theorem requeue (attached : board.Attached consumer) (kind : ArtifactKind)
    (change : List ArtifactMessage → List ArtifactMessage) :
    let next := board.requeue (consumer.number kind) change
    next.Attached consumer ∧ ∀ other, next.waitingFor consumer other =
      if other = kind then change (board.waitingFor consumer kind)
      else board.waitingFor consumer other := by
  intro next
  refine ⟨⟨fun other => ?_, fun other => ?_, attached.distinct⟩, fun other => ?_⟩
  · rw [line_requeue, attached.line]
  · obtain ⟨box, found, opened⟩ := attached.open_boxes other
    rw [getElem?_requeue, found]
    refine ⟨_, rfl, ?_⟩
    split <;> exact opened
  · obtain ⟨box, found, _⟩ := attached.open_boxes kind
    have inside := (List.getElem?_eq_some_iff.mp found).1
    simp only [waitingFor, next, waiting_requeue board inside, attached.number_injective]

/-- A delivered artifact waits behind those of its kind. -/
theorem deliver (attached : board.Attached consumer) (message : ArtifactMessage) :
    (board.deliver message).2.Attached consumer ∧
    ∀ kind, (board.deliver message).2.waitingFor consumer kind =
      board.waitingFor consumer kind ++ if kind = message.kind then [message] else [] := by
  obtain ⟨box, found, opened⟩ := attached.open_boxes message.kind
  obtain ⟨still, waits⟩ := attached.requeue message.kind (· ++ [message])
  have isOpen : board.isOpen (consumer.number message.kind) = true := by
    simp [Switchboard.isOpen, found, opened]
  rw [deliver_of_line board (attached.line _), if_pos isOpen]
  refine ⟨still, fun kind => (waits kind).trans ?_⟩
  split
  next same => rw [same]
  · rw [List.append_nil]

/-- Reading a mailbox takes out the artifact that has waited longest. -/
theorem read (attached : board.Attached consumer) {kind : ArtifactKind} {message : ArtifactMessage}
    {rest : List ArtifactMessage} (waits : board.waitingFor consumer kind = message :: rest) :
    ∃ next, board.read (consumer.number kind) = (.message message, next) ∧
      next.Attached consumer ∧ ∀ other, next.waitingFor consumer other =
        if other = kind then rest else board.waitingFor consumer other := by
  obtain ⟨still, after⟩ := attached.requeue kind fun _ => rest
  exact ⟨_, read_of_cons board waits, still, after⟩

theorem read_of_nil (attached : board.Attached consumer) {kind : ArtifactKind}
    (waits : board.waitingFor consumer kind = []) :
    board.read (consumer.number kind) = (.empty, board) := by
  have front : board.waiting (consumer.number kind) = [] := waits
  rw [Switchboard.read, front]
  refine if_pos ?_
  cases kind with
  | explanation => exact .inl (attached.line .explanation)
  | testbench => exact .inr (attached.line .testbench)

/-- Taking a message is reading one of the two mailboxes, unless nothing waits in either. -/
theorem take_cases (attached : board.Attached consumer) :
    (∃ kind message next, board.read (consumer.number kind) = (.message message, next) ∧
      board.take consumer = (some message, next) ∧ next.Attached consumer) ∨
    board.take consumer = (none, board) := by
  rcases Switchboard.take_cases board attached.distinct with
    ⟨kind, message, rest, waits, taken, _⟩ | ⟨_, taken⟩
  · exact .inl ⟨kind, message, _, read_of_cons board waits, taken, (attached.requeue kind _).1⟩
  · exact .inr taken

/-- Draining the mailboxes finds something if there is something. -/
theorem drain_ne_nil (attached : board.Attached consumer) {kind : ArtifactKind}
    (waits : board.waitingFor consumer kind ≠ []) : (board.drain consumer).1 ≠ [] := by
  intro nothing
  rw [(board.drain_spec attached.distinct).1, queue, List.append_eq_nil_iff] at nothing
  cases kind with
  | explanation => exact waits nothing.1
  | testbench => exact waits nothing.2

end Attached

end Switchboard

end HdlDesk
