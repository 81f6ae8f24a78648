import HdlDesk.Proofs.Desk.Reopened
import HdlDesk.Proofs.Work.Settling

/-!
# Sessions that go the same way

Two sessions whose desks are alike and which are the same otherwise stay so whatever they do: they
start the same tasks, find the same in their mailboxes, show the same and settle together. And a
session that was started, has carried out one action and has settled is again as it was started, but
for its desk, its mark of failure and what it has shown.
-/
namespace HdlDesk

variable {σ : Type} [KeyValueStore σ]

/-! ### Side by side -/

namespace Session

omit [KeyValueStore σ] in
private theorem foldl_perform_desk (effects : List Effect) (session : Session σ) (desk : Desk σ) :
    effects.foldl perform { session with desk := desk } =
      { effects.foldl perform session with desk := desk } := by
  induction effects generalizing session with
  | nil => rfl
  | cons effect effects ih =>
    have one : ({ session with desk := desk } : Session σ).perform effect =
        { session.perform effect with desk := desk } := by
      cases effect <;> rfl
    rw [List.foldl_cons, List.foldl_cons, one, ih]

/-- What an action does around the desk is told by its outcome alone. -/
private theorem apply_of_outcome (session : Session σ) {desk : Desk σ} {action : Action}
    (outcome : (session.desk.dispatch action).1 = (desk.dispatch action).1) :
    ({ session with desk := desk } : Session σ).apply action =
      { session.apply action with desk := (desk.dispatch action).2 } := by
  simp only [apply, outcome]
  exact foldl_perform_desk _ { session with
    desk := (session.desk.dispatch action).2
    failed := session.failed || (desk.dispatch action).1.error.isSome
    shown := session.shown ++
      ((desk.dispatch action).1.error.toList.filter DeskError.isMisuse).map .misuse } _

/-- The session once the entry of a file has been read. -/
def look (session : Session σ) (key : String) : Session σ :=
  { session with desk := session.desk.load key }

/-- The sessions are the same but for their desks, which are alike, and the desk of the second has
been reached from a given one. -/
structure Follows (first : Desk σ) (own live : Session σ) : Prop where
  alike : own.desk.Resembles live.desk
  rest : live = { own with desk := live.desk }
  reached : first.LeadsTo live.desk

namespace Follows

variable {first : Desk σ} {own live : Session σ}

/-- What leaves the desk alone, and does not look at it, keeps two sessions side by side. -/
private theorem around (follows : Follows first own live) (change : Session σ → Session σ)
    (desk : ∀ session, (change session).desk = session.desk)
    (blind : ∀ session desk, change { session with desk := desk } =
      { change session with desk := desk }) : Follows first (change own) (change live) where
  alike := by
    rw [desk, desk]
    exact follows.alike
  rest := by
    rw [desk, ← blind, ← follows.rest]
  reached := by
    rw [desk]
    exact follows.reached

theorem look (follows : Follows first own live) (key : String) :
    Follows first (own.look key) (live.look key) where
  alike := follows.alike.load key
  rest := congrArg (fun session : Session σ => { session with desk := live.desk.load key })
    follows.rest
  reached := follows.reached.after (.look key)

theorem finish (follows : Follows first own live) (work : Task → Answer) (index : Nat) :
    Follows first (own.finish work index) (live.finish work index) := by
  refine follows.around (Session.finish · work index) (fun session => ?_) fun session desk => ?_
  · simp only [Session.finish]
    split
    · rfl
    · split <;> rfl
  · simp only [Session.finish]
    split
    · rfl
    · split <;> rfl

variable [AtomicStore σ]

theorem apply (follows : Follows first own live) (action : Action) :
    Follows first (own.apply action) (live.apply action) := by
  obtain ⟨outcome, alike⟩ := follows.alike.dispatch action
  constructor
  · rwa [apply_desk, apply_desk]
  · rw [apply_desk, ← apply_of_outcome own outcome, ← follows.rest]
  · rw [apply_desk]
    exact follows.reached.after (.act action)

theorem takeArtifact (follows : Follows first own live) (message : ArtifactMessage) :
    Follows first (own.takeArtifact message) (live.takeArtifact message) :=
  (follows.around (fun session => { session with pending := session.pending - 1 })
    (fun _ => rfl) fun _ _ => rfl).apply (.artifactArrived message)

theorem readArtifacts (follows : Follows first own live) :
    Follows first own.readArtifacts live.readArtifacts := by
  have takeAll (messages : List ArtifactMessage) {own live : Session σ}
      (follows : Follows first own live) :
      Follows first (messages.foldl Session.takeArtifact own)
        (messages.foldl Session.takeArtifact live) := by
    induction messages generalizing own live with
    | nil => exact follows
    | cons message messages ih => exact ih (follows.takeArtifact message)
  have same : live.board.drain live.consumer = own.board.drain own.consumer := by
    rw [follows.rest]
  simp only [Session.readArtifacts, same]
  exact takeAll _ (follows.around
    (fun session => { session with board := (own.board.drain own.consumer).2 })
    (fun _ => rfl) fun _ _ => rfl)

theorem readReport (follows : Follows first own live) :
    Follows first own.readReport live.readReport := by
  have same : live.inbox = own.inbox := by rw [follows.rest]
  simp only [Session.readReport, same]
  -- Both read the same report, and it leads both to the same action.
  cases own.inbox with
  | nil => exact follows
  | cons report rest =>
    have opened := follows.around
      (fun session => { session with inbox := rest, pending := session.pending - 1 })
      (fun _ => rfl) fun _ _ => rfl
    dsimp only
    cases report.action? with
    | none => exact opened
    | some action => exact opened.apply action

theorem settleWithin (work : Task → Answer) (turns : Nat) (follows : Follows first own live) :
    Follows first (own.settleWithin work turns) (live.settleWithin work turns) := by
  -- Both expect the same number of answers, so they stop at the same turn.
  induction turns generalizing own live with
  | zero => exact follows
  | succ turns ih =>
    have same : live.pending = own.pending := by rw [follows.rest]
    simp only [Session.settleWithin, same]
    split
    · exact follows
    · exact ih (follows.finish work 0).readArtifacts.readReport

theorem settle (follows : Follows first own live) (work : Task → Answer) :
    Follows first (own.settle work) (live.settle work) := by
  have running : live.running = own.running := by rw [follows.rest]
  have inbox : live.inbox = own.inbox := by rw [follows.rest]
  simp only [Session.settle, running, inbox]
  exact follows.settleWithin work _

end Follows

end Session

/-! ### Settling is coming back to rest -/

/-- The switchboard of a session, with what waits in its two mailboxes. -/
def Switchboard.holding (explanations testbenches : List ArtifactMessage) : Switchboard where
  mailboxes := [⟨.explanation, true, explanations⟩, ⟨.testbench, true, testbenches⟩]
  explanation := some 0
  testbench := some 1

/-- The switchboard is a session's, whatever waits in its mailboxes. -/
def Switchboard.IsUsual (board : Switchboard) : Prop :=
  ∃ explanations testbenches, board = holding explanations testbenches

namespace Switchboard.IsUsual

theorem deliver (board : Switchboard) (message : ArtifactMessage) (usual : board.IsUsual) :
    (board.deliver message).2.IsUsual := by
  obtain ⟨explanations, testbenches, rfl⟩ := usual
  obtain ⟨kind, key, payload⟩ := message
  cases kind with
  | explanation => exact ⟨_, testbenches, rfl⟩
  | testbench => exact ⟨explanations, _, rfl⟩

theorem read (board : Switchboard) (kind : ArtifactKind) (usual : board.IsUsual) :
    (board.read ((⟨0, 1⟩ : Consumer).number kind)).2.IsUsual := by
  obtain ⟨explanations, testbenches, rfl⟩ := usual
  cases kind with
  | explanation =>
    cases explanations with
    | nil => exact ⟨[], testbenches, rfl⟩
    | cons message rest => exact ⟨rest, testbenches, rfl⟩
  | testbench =>
    cases testbenches with
    | nil => exact ⟨explanations, [], rfl⟩
    | cons message rest => exact ⟨explanations, rest, rfl⟩

end Switchboard.IsUsual

/-- The mailboxes are those that the session was started with. -/
def Session.IsConnected (session : Session σ) : Prop :=
  session.consumer = ⟨0, 1⟩ ∧ session.board.IsUsual

namespace Course

variable {course : Course σ}

theorem isConnected_step (connected : course.session.IsConnected) (move : Move) :
    (course.step move).session.IsConnected := by
  obtain ⟨consumer, usual⟩ := connected
  obtain ⟨same, after⟩ := step_board_induct Switchboard.IsUsual Switchboard.IsUsual.deliver
    (consumer ▸ Switchboard.IsUsual.read) usual move
  exact ⟨same.trans consumer, after⟩

theorem isConnected_run (connected : course.session.IsConnected) (moves : List Move) :
    (course.run moves).session.IsConnected := by
  induction moves generalizing course with
  | nil => exact connected
  | cons move moves ih => exact ih (isConnected_step connected move)

end Course

namespace Session

variable {config : DeskConfig}

/-- The session is as it was started, but for its desk, its mark of failure and what it has shown,
and no request is in flight. -/
structure Rests (config : DeskConfig) (session : Session σ) : Prop where
  same : session = { start config session.desk.storage with
    desk := session.desk, failed := session.failed, shown := session.shown }
  idle : session.desk.state.inFlight = .empty

theorem rests_start (config : DeskConfig) (storage : σ) : (start config storage).Rests config where
  same := rfl
  idle := rfl

theorem Rests.look {session : Session σ} (rests : session.Rests config) (key : String) :
    (session.look key).Rests config where
  same := congrArg (Session.look · key) rests.same
  idle := rests.idle

/-- What goes the same way as a session at rest is at rest. -/
theorem Rests.of_follows {first : Desk σ} {own live : Session σ} (rests : own.Rests config)
    (follows : Follows first own live) : live.Rests config where
  same := by
    rw [follows.rest]
    exact congrArg (fun session : Session σ => { session with desk := live.desk }) rests.same
  idle := follows.alike.inFlight.symm.trans rests.idle

theorem rests_settle_apply (config : DeskConfig) (storage : σ) (action : Action)
    (backend : Backend) (disk : Disk) (extensions : Extensions) :
    (((start config storage).apply action).settle
      (Task.answer backend disk extensions)).Rests config := by
  obtain ⟨moves, session, done⟩ :=
    Course.run_settle_begin config storage action backend disk extensions
  have accounted := (Course.accounted_begin config storage action).run moves
  have nothing := accounted.pending_eq_zero_iff.mp done
  have idle := accounted.inFlight_eq_empty nothing
  have connected : (Course.begin config storage action).session.IsConnected := by
    simp only [IsConnected, Course.begin, apply_board, apply_consumer]
    exact ⟨rfl, [], [], rfl⟩
  obtain ⟨consumer, explanations, testbenches, board⟩ := Course.isConnected_run connected moves
  simp only [Course.errands, Errand.all, List.append_eq_nil_iff, List.map_eq_nil_iff, board,
    consumer] at nothing
  -- With no errand under way every place that an errand can get to is as it was at the start.
  obtain ⟨⟨⟨running, inbox⟩, explained, benched⟩, -⟩ := nothing
  obtain rfl : explanations = [] := explained
  obtain rfl : testbenches = [] := benched
  have settles : ((start config storage).apply action).settle
      (Task.answer backend disk extensions) =
        ((Course.begin config storage action).run moves).session := session.symm
  rw [settles]
  generalize ((Course.begin config storage action).run moves).session = settled at *
  obtain ⟨desk, _, _, _, _, _, failed, shown⟩ := settled
  cases board
  cases consumer
  cases running
  cases inbox
  cases done
  exact ⟨rfl, idle⟩

end Session

end HdlDesk
