import HdlDesk.Proofs.Work.Course

/-!
# The accounts of a session

At every point of its course a session expects as many answers as there are errands under way, and
each request in flight has an errand that will end it. A move keeps the accounts: the errand that it
passes on is replaced by what comes of it, and all others stay.
-/
namespace HdlDesk

/-- The request in flight that an action ends. -/
def Action.settles? : Action → Option (ArtifactKind × String)
  | .artifactArrived message => some (message.kind, message.key)
  | .artifactFailed kind key _ => some (kind, key)
  | _ => none

namespace Desk

variable {σ : Type} [KeyValueStore σ] (desk : Desk σ)

/-- An action starts one task at most. -/
theorem tasks_dispatch (action : Action) :
    (desk.dispatch action).1.tasks =
      match action with
      | .openPath path => [.loadFile path]
      | .openFolder path => [.loadFolder path]
      | .openSingle name content => [.uploadFile name content]
      | .openProject files => if files = [] then [] else [.uploadFolder files]
      | .request kind =>
        if Text.isAllBlank desk.state.document.content then []
        else [.request kind desk.activeKey desk.state.document.content]
      | .clearAll => [.clearBackend]
      | _ => [] := by
  cases action with
  | openProject files => cases files <;> rfl
  | openRecent name =>
    simp only [dispatch, openRecent]
    split <;> rfl
  | switch index =>
    simp only [dispatch, switch]
    split <;> rfl
  | edit text =>
    simp only [dispatch, edit]
    split <;> rfl
  | setView view =>
    show (desk.setView view).1.tasks = []
    rw [setView_outcome]
    split <;> rfl
  | request kind =>
    simp only [dispatch, request]
    cases kind <;> split <;> rfl
  | copyExplanation =>
    simp only [dispatch, copyExplanation]
    split <;> rfl
  | _ => rfl

/-- Four actions change what is in flight. -/
theorem inFlight_dispatch (action : Action) :
    (desk.dispatch action).2.state.inFlight =
      match action with
      | .request kind =>
        if Text.isAllBlank desk.state.document.content then desk.state.inFlight
        else desk.state.inFlight.insert kind desk.activeKey
      | .artifactArrived message => desk.state.inFlight.erase message.kind message.key
      | .artifactFailed kind key _ => desk.state.inFlight.erase kind key
      | .clearAll => .empty
      | _ => desk.state.inFlight := by
  cases action with
  | request kind =>
    simp only [dispatch, request]
    split <;> rfl
  | openProject files =>
    simp only [dispatch, openProject]
    split <;> rfl
  | openRecent name =>
    simp only [dispatch, openRecent]
    split <;> rfl
  | switch index =>
    simp only [dispatch, switch]
    split <;> rfl
  | edit text =>
    simp only [dispatch, edit]
    split <;> rfl
  | setView view => exact congrArg (fun after => after.state.inFlight) (setView_eq_change desk view)
  | _ => rfl

/-- What is in flight after an action has been asked for by it, or was before and has not ended. -/
theorem awaited_of_dispatch {action : Action} {kind : ArtifactKind} {key : String}
    (awaited : (desk.dispatch action).2.state.inFlight.contains kind key = true) :
    (∃ source, Task.request kind key source ∈ (desk.dispatch action).1.tasks) ∨
    desk.state.inFlight.contains kind key = true ∧ action.settles? ≠ some (kind, key) := by
  have unsettled : none ≠ some (kind, key) := (Option.some_ne_none _).symm
  -- Two actions end a request, by an answer or by a failure.
  have settled {asked : ArtifactKind} {name : String}
      (held : (desk.state.inFlight.erase asked name).contains kind key = true) :
      desk.state.inFlight.contains kind key = true ∧ some (asked, name) ≠ some (kind, key) := by
    rw [InFlight.contains_erase, Bool.and_eq_true, decide_eq_true_eq] at held
    exact ⟨held.2, fun same => held.1 (Option.some.inj same).symm⟩
  rw [inFlight_dispatch] at awaited
  rw [tasks_dispatch]
  cases action with
  | request asked =>
    dsimp only at awaited ⊢
    split at awaited
    next blank => exact .inr ⟨awaited, unsettled⟩
    next text =>
      rw [if_neg text]
      rw [InFlight.contains_insert, Bool.or_eq_true, decide_eq_true_eq, Prod.mk.injEq] at awaited
      rcases awaited with ⟨rfl, rfl⟩ | held
      · exact .inl ⟨_, List.mem_singleton.mpr rfl⟩
      · exact .inr ⟨held, unsettled⟩
  | artifactArrived message => exact .inr (settled awaited)
  | artifactFailed asked name error => exact .inr (settled awaited)
  | clearAll => exact absurd (show false = true from awaited) Bool.false_ne_true
  | _ => exact .inr ⟨awaited, unsettled⟩

/-- The tasks that are started when a report is read. -/
def tasksAfter (report : Report) : List Task :=
  report.action?.elim [] fun action => (desk.dispatch action).1.tasks

theorem leads_tasksAfter (report : Report) :
    Errand.Leads (.reported report) true ((desk.tasksAfter report).map .running) := by
  cases report with
  | fileLoaded path file => exact .readFile path file
  | folderLoaded path files =>
    unfold tasksAfter
    simp only [Report.action?, Option.elim, tasks_dispatch]
    split
    · exact .read _
    · exact .readFolder path files
  | _ => exact .read _

end Desk

namespace Errand

variable {running later : List Task} {inbox unread : List Report}
  {waiting left : ArtifactKind → List ArtifactMessage} {hand kept : List ArtifactMessage}

theorem all_append_running (tasks : List Task) : (all (running ++ tasks) inbox waiting hand).Perm
    (tasks.map .running ++ all running inbox waiting hand) := by
  refine List.perm_iff_count.mpr fun errand => ?_
  simp only [all, List.map_append, List.count_append]
  omega

theorem all_running {task : Task} (perm : running.Perm (task :: later)) :
    (all running inbox waiting hand).Perm (.running task :: all later inbox waiting hand) := by
  simpa [all] using (perm.map Errand.running).append_right _

theorem all_reported {report : Report} (perm : inbox.Perm (report :: unread)) :
    (all running inbox waiting hand).Perm
      (.reported report :: all running unread waiting hand) := by
  refine List.perm_iff_count.mpr fun errand => ?_
  have count := (perm.map Errand.reported).count_eq errand
  simp only [all, List.map_cons, List.count_append, List.count_cons] at count ⊢
  omega

theorem all_delivered {message : ArtifactMessage} (kind : ArtifactKind)
    (perm : (waiting kind).Perm (message :: left kind))
    (others : ∀ other, other ≠ kind → waiting other = left other) :
    (all running inbox waiting hand).Perm (.delivered message :: all running inbox left hand) := by
  refine List.perm_iff_count.mpr fun errand => ?_
  have count := (perm.map Errand.delivered).count_eq errand
  cases kind with
  | explanation =>
    have same := others .testbench (by decide)
    simp only [all, same, List.map_append, List.map_cons, List.count_append,
      List.count_cons] at count ⊢
    omega
  | testbench =>
    have same := others .explanation (by decide)
    simp only [all, same, List.map_append, List.map_cons, List.count_append,
      List.count_cons] at count ⊢
    omega

theorem all_fetched {message : ArtifactMessage} (perm : hand.Perm (message :: kept)) :
    (all running inbox waiting hand).Perm (.fetched message :: all running inbox waiting kept) := by
  refine List.perm_iff_count.mpr fun errand => ?_
  have count := (perm.map Errand.fetched).count_eq errand
  simp only [all, List.map_cons, List.count_append, List.count_cons] at count ⊢
  omega

end Errand

namespace Course

variable {σ : Type} [KeyValueStore σ]

/-- A move passes on one errand of those under way: what comes of it is under way afterwards, and
the session has counted that. A request that ended with the errand has ended, unless it ends with
what has come of it. -/
structure Passes (before after : Course σ) (errand : Errand) (taken : Bool) (next : List Errand) :
    Prop where
  leads : errand.Leads taken next
  others : ∃ rest, before.errands.Perm (errand :: rest) ∧ after.errands.Perm (next ++ rest)
  pending : 0 < before.session.pending →
    after.session.pending + 1 = before.session.pending + next.length
  started : after.started.length + 1 = before.started.length + next.length + taken.toNat
  taken_eq : after.taken = before.taken + taken.toNat
  awaited : ∀ kind key, after.session.desk.state.inFlight.contains kind key = true →
    before.session.desk.state.inFlight.contains kind key = true ∧
    (errand.request? = some (kind, key) → ∃ heir ∈ next, heir.request? = some (kind, key))

omit [KeyValueStore σ] in
/-- A move by which no answer is taken in hands its errand on and leaves the desk alone. -/
private theorem passes_on {before after : Course σ} {errand heir : Errand}
    (leads : errand.Leads false [heir]) (request : heir.request? = errand.request?)
    (others : ∃ rest, before.errands.Perm (errand :: rest) ∧ after.errands.Perm (heir :: rest))
    (desk : after.session.desk = before.session.desk)
    (pending : after.session.pending = before.session.pending)
    (outcomes : after.outcomes = before.outcomes) (taken : after.taken = before.taken) :
    Passes before after errand false [heir] where
  leads := leads
  others := others
  pending _ := by rw [pending, List.length_singleton]
  started := by rw [started, started, outcomes, List.length_singleton, Bool.toNat_false]
  taken_eq := by rw [taken, Bool.toNat_false, Nat.add_zero]
  awaited kind key held :=
    ⟨desk ▸ held, fun same => ⟨heir, List.mem_singleton_self _, request.trans same⟩⟩

/-- A move by which an answer is taken in carries out an action, once the answer is out of its place
and the session expects one less. -/
private theorem passes_apply {before : Course σ} {errand : Errand} {action : Action}
    {session : Session σ} {hand : List ArtifactMessage}
    (leads : errand.Leads true ((before.session.desk.dispatch action).1.tasks.map .running))
    (request : errand.request? = action.settles?)
    (others : before.errands.Perm (errand :: Errand.all session.running session.inbox
      (session.board.waitingFor session.consumer) hand))
    (desk : session.desk = before.session.desk)
    (pending : session.pending = before.session.pending - 1) :
    let outcome := (before.session.desk.dispatch action).1
    let after : Course σ := {
      session := session.apply action
      hand := hand
      outcomes := before.outcomes ++ [outcome]
      taken := before.taken + 1 }
    Passes before after errand true (outcome.tasks.map .running) where
  leads := leads
  others := by
    refine ⟨_, others, ?_⟩
    simp only [errands, Session.apply_running, Session.apply_inbox, Session.apply_board,
      Session.apply_consumer, desk]
    exact Errand.all_append_running _
  pending some := by
    simp only [Session.apply_pending, List.length_map, desk, pending]
    omega
  started := by simp [started]
  taken_eq := rfl
  awaited kind key held := by
    simp only [Session.apply_desk, desk] at held
    rcases before.session.desk.awaited_of_dispatch held with ⟨source, member⟩ | ⟨old, different⟩
    · have heir := leads.request?_eq_none (List.mem_map_of_mem member)
      cases heir
    · exact ⟨old, fun same => absurd (request.symm.trans same) different⟩

theorem passes_takeIn {course : Course σ} {message : ArtifactMessage} {rest : List ArtifactMessage}
    (front : course.hand = message :: rest) :
    Passes course (course.step .takeIn) (.fetched message) true
      ((course.session.desk.dispatch (.artifactArrived message)).1.tasks.map .running) := by
  have stepped : course.step .takeIn = {
      session := course.session.takeArtifact message
      hand := rest
      outcomes := course.outcomes ++
        [(course.session.desk.dispatch (.artifactArrived message)).1]
      taken := course.taken + 1 } := by
    simp only [step, front]
  rw [stepped]
  have leads : Errand.Leads (.fetched message) true
      ((course.session.desk.dispatch (.artifactArrived message)).1.tasks.map .running) := by
    rw [course.session.desk.tasks_dispatch]
    exact .takeIn message
  exact passes_apply leads rfl (Errand.all_fetched (.of_eq front)) rfl rfl

theorem passes_read {course : Course σ} {report : Report} {rest : List Report}
    (front : course.session.inbox = report :: rest) :
    Passes course (course.step .read) (.reported report) true
      ((course.session.desk.tasksAfter report).map .running) := by
  have leads := course.session.desk.leads_tasksAfter report
  have stepped : course.step .read = { course with
      session := course.session.readReport
      outcomes := course.outcomes ++ report.action?.toList.map fun action =>
        (course.session.desk.dispatch action).1
      taken := course.taken + 1 } := by
    simp only [step, front]
  have request : (Errand.reported report).request? = report.action?.bind Action.settles? := by
    cases report <;> rfl
  unfold Desk.tasksAfter at leads ⊢
  rw [stepped, Session.readReport, front]
  dsimp only
  -- A report that asks for no action ends its errand and does nothing else.
  cases acts : report.action? with
  | none =>
    rw [acts] at leads request
    exact {
      leads
      others := ⟨_, Errand.all_reported (.of_eq front), .refl _⟩
      pending := fun some => by
        simp only [Option.elim_none, List.map_nil, List.length_nil]
        omega
      started := by simp [started]
      taken_eq := rfl
      awaited := fun kind key held => ⟨held, fun same => by rw [request] at same; cases same⟩ }
  | some action =>
    rw [acts] at leads request
    exact passes_apply leads request (Errand.all_reported (.of_eq front)) rfl rfl

/-- What delivering and reading keep of the switchboard is kept by every move, and the consumer stays
the same. -/
theorem step_board_induct {course : Course σ} (kept : Switchboard → Prop)
    (deliver : ∀ board message, kept board → kept (Switchboard.deliver board message).2)
    (read : ∀ board kind, kept board →
      kept (Switchboard.read board (course.session.consumer.number kind)).2)
    (before : kept course.session.board) (move : Move) :
    (course.step move).session.consumer = course.session.consumer ∧
    kept (course.step move).session.board := by
  cases move with
  | finish backend disk extensions index =>
    simp only [step, Session.finish]
    split
    · exact ⟨rfl, before⟩
    · split
      · exact ⟨rfl, before⟩
      next message _ => exact ⟨rfl, deliver _ message before⟩
  | fetch kind =>
    have after := read _ kind before
    simp only [step]
    split
    next message board found => exact ⟨rfl, by rwa [found] at after⟩
    · exact ⟨rfl, before⟩
  | takeIn =>
    simp only [step]
    split
    · exact ⟨rfl, before⟩
    · simpa [Session.takeArtifact] using before
  | read =>
    cases front : course.session.inbox with
    | nil => simpa [step, front] using before
    | cons report rest =>
      simp only [step, front, Session.readReport]
      cases report.action? <;> simpa using before

section Attached

variable {course : Course σ} (attached : course.session.board.Attached course.session.consumer)
include attached

theorem passes_finish (backend : Backend) (disk : Disk) (extensions : Extensions) {index : Nat}
    (within : index < course.session.running.length) :
    let task := course.session.running[index]
    Passes course (course.step (.finish backend disk extensions index)) (.running task) false
      [.ofAnswer (task.answer backend disk extensions)] := by
  intro task
  have found : course.session.running[index]? = some task := List.getElem?_eq_getElem within
  -- Any running task can be the one that ends, so errands are compared up to their order.
  have perm := (List.getElem_cons_eraseIdx_perm within).symm
  have leads := Errand.Leads.finish task backend disk extensions
  have request := (Errand.ofAnswer_answer task backend disk extensions).1
  cases answer : task.answer backend disk extensions with
  | report report =>
    have stepped : course.step (.finish backend disk extensions index) = { course with
        session.running := course.session.running.eraseIdx index
        session.inbox := course.session.inbox ++ [report] } := by
      simp only [step, Session.finish, found, answer]
    rw [answer] at leads request
    rw [stepped]
    refine passes_on leads request ⟨_, Errand.all_running perm, ?_⟩ rfl rfl rfl rfl
    exact Errand.all_reported (List.perm_append_singleton report _)
  | artifact message =>
    have stepped : course.step (.finish backend disk extensions index) = { course with
        session.running := course.session.running.eraseIdx index
        session.board := (course.session.board.deliver message).2 } := by
      simp only [step, Session.finish, found, answer]
    obtain ⟨_, waits⟩ := attached.deliver message
    rw [answer] at leads request
    rw [stepped]
    refine passes_on leads request ⟨_, Errand.all_running perm, ?_⟩ rfl rfl rfl rfl
    refine Errand.all_delivered message.kind ?_ fun other different => ?_
    · rw [waits, if_pos rfl]
      exact List.perm_append_singleton message _
    · rw [waits, if_neg different, List.append_nil]

theorem passes_fetch {kind : ArtifactKind} {message : ArtifactMessage}
    {rest : List ArtifactMessage}
    (waits : course.session.board.waitingFor course.session.consumer kind = message :: rest) :
    Passes course (course.step (.fetch kind)) (.delivered message) false [.fetched message] := by
  obtain ⟨board, read, _, after⟩ := attached.read waits
  have stepped : course.step (.fetch kind) = { course with
      session.board := board
      hand := course.hand ++ [message] } := by
    simp only [step, read]
  rw [stepped]
  refine passes_on (.fetch message) rfl ⟨_, Errand.all_delivered kind ?_ fun other different => ?_,
    Errand.all_fetched (List.perm_append_singleton message _)⟩ rfl rfl rfl rfl
  · rw [waits, after, if_pos rfl]
  · rw [after, if_neg different]

/-- A move for which there is nothing to be moved changes nothing. -/
theorem step_of_not_allows {move : Move} (not : course.allows move = false) :
    course.step move = course := by
  cases move with
  | finish backend disk extensions index =>
    have outside : course.session.running[index]? = none :=
      List.getElem?_eq_none (by simpa [allows] using not)
    simp only [step, Session.finish, outside]
  | fetch kind =>
    have empty : course.session.board.waitingFor course.session.consumer kind = [] := by
      simpa [allows] using not
    simp only [step, attached.read_of_nil empty]
  | takeIn =>
    have empty : course.hand = [] := by simpa [allows] using not
    simp only [step, empty]
  | read =>
    have empty : course.session.inbox = [] := by simpa [allows] using not
    simp only [step, empty]

theorem passes_step {move : Move} (allowed : course.allows move = true) :
    ∃ errand taken next, Passes course (course.step move) errand taken next := by
  cases move with
  | finish backend disk extensions index =>
    have within : index < course.session.running.length := by simpa [allows] using allowed
    exact ⟨_, _, _, passes_finish attached backend disk extensions within⟩
  | fetch kind =>
    have some : course.session.board.waitingFor course.session.consumer kind ≠ [] := by
      simpa [allows] using allowed
    obtain ⟨message, rest, waits⟩ := List.exists_cons_of_ne_nil some
    exact ⟨_, _, _, passes_fetch attached waits⟩
  | takeIn =>
    have some : course.hand ≠ [] := by simpa [allows] using allowed
    obtain ⟨message, rest, front⟩ := List.exists_cons_of_ne_nil some
    exact ⟨_, _, _, passes_takeIn front⟩
  | read =>
    have some : course.session.inbox ≠ [] := by simpa [allows] using allowed
    obtain ⟨report, rest, front⟩ := List.exists_cons_of_ne_nil some
    exact ⟨_, _, _, passes_read front⟩

theorem attached_step (move : Move) :
    (course.step move).session.board.Attached (course.step move).session.consumer := by
  have read (board : Switchboard) (kind : ArtifactKind)
      (attached : board.Attached course.session.consumer) :
      (board.read (course.session.consumer.number kind)).2.Attached course.session.consumer := by
    cases waits : board.waitingFor course.session.consumer kind with
    | nil => rwa [attached.read_of_nil waits]
    | cons message rest =>
      obtain ⟨next, read, still, _⟩ := attached.read waits
      rwa [read]
  obtain ⟨consumer, board⟩ := step_board_induct (·.Attached course.session.consumer)
    (fun _ message attached => (attached.deliver message).1) read attached move
  rw [consumer]
  exact board

end Attached

/-- The session is marked as failed if one of its actions was refused. -/
def MarksFailure (course : Course σ) : Prop :=
  course.session.failed = course.outcomes.any fun outcome => outcome.error.isSome

theorem marksFailure_step {course : Course σ} (marks : course.MarksFailure) (move : Move) :
    (course.step move).MarksFailure := by
  unfold MarksFailure at marks ⊢
  cases move with
  | finish backend disk extensions index =>
    simp only [step, Session.finish]
    split
    · exact marks
    · split <;> exact marks
  | fetch kind =>
    simp only [step]
    split <;> exact marks
  | takeIn =>
    simp only [step]
    split
    · exact marks
    · simp [Session.takeArtifact, marks]
  | read =>
    cases front : course.session.inbox with
    | nil => simpa [step, front] using marks
    | cons report rest =>
      simp only [step, front, Session.readReport]
      cases report.action? <;> simp [marks]

/-- The accounts of a session are in order. -/
structure Accounted (course : Course σ) : Prop where
  attached : course.session.board.Attached course.session.consumer
  pending : course.session.pending = course.errands.length
  started : course.started.length = course.session.pending + course.taken
  answers : course.taken + (course.errands.map Errand.answersLeft).sum ≤ 2
  awaited : ∀ kind key, course.session.desk.state.inFlight.contains kind key = true →
    ∃ errand ∈ course.errands, errand.request? = some (kind, key)
  failed : course.MarksFailure

namespace Accounted

theorem step {course : Course σ} (accounted : course.Accounted) (move : Move) :
    (course.step move).Accounted := by
  by_cases allowed : course.allows move = true
  · obtain ⟨errand, taken, next, passes⟩ := passes_step accounted.attached allowed
    obtain ⟨rest, before, after⟩ := passes.others
    have lengthBefore := before.length_eq
    have lengthAfter := after.length_eq
    have answersBefore := (before.map Errand.answersLeft).sum_nat
    have answersAfter := (after.map Errand.answersLeft).sum_nat
    have less := passes.leads.answersLeft_le
    have counted := accounted.pending
    have pending := passes.pending
    have started := passes.started
    have startedBefore := accounted.started
    have answers := accounted.answers
    have taken := passes.taken_eq
    -- The sums before and after are alike but for the errand that moved and its heirs.
    simp only [List.length_cons, List.length_append, List.map_cons, List.map_append, List.sum_cons,
      List.sum_append] at lengthBefore lengthAfter answersBefore answersAfter
    refine ⟨attached_step accounted.attached move, by omega, by omega, by omega, ?_,
      marksFailure_step accounted.failed move⟩
    intro kind key held
    obtain ⟨old, heirs⟩ := passes.awaited kind key held
    obtain ⟨other, member, about⟩ := accounted.awaited kind key old
    rcases List.mem_cons.mp (before.mem_iff.mp member) with rfl | elsewhere
    · obtain ⟨heir, among, same⟩ := heirs about
      exact ⟨heir, after.mem_iff.mpr (List.mem_append_left _ among), same⟩
    · exact ⟨other, after.mem_iff.mpr (List.mem_append_right _ elsewhere), about⟩
  · rwa [step_of_not_allows accounted.attached (Bool.not_eq_true _ ▸ allowed)]

end Accounted

end Course

end HdlDesk
