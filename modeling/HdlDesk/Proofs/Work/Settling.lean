import HdlDesk.Proofs.Work.Accounts

/-!
# How a session settles

A command starts one task at most, and what is started when the answer is read leads to one more
answer and no further. So whatever the order of moves, there are few of them before nothing is left
to be moved, and the session expects no answer exactly then. Turn by turn, as a session settles on
its own, is one such order.
-/
namespace HdlDesk

namespace Errand

theorem answersLeft_pos (errand : Errand) : 0 < errand.answersLeft := by
  unfold answersLeft
  split <;> decide

theorem answersLeft_le (errand : Errand) : errand.answersLeft ≤ 2 := by
  unfold answersLeft
  split <;> decide

theorem movesLeft_le (errand : Errand) : errand.movesLeft ≤ 4 := by
  unfold movesLeft
  split <;> decide

end Errand

theorem Desk.tasks_length_le {σ : Type} [KeyValueStore σ] (desk : Desk σ) (action : Action) :
    (desk.dispatch action).1.tasks.length ≤ 1 := by
  rw [tasks_dispatch]
  cases action with
  | openProject files =>
    dsimp only
    split <;> exact Nat.le_of_ble_eq_true rfl
  | request kind =>
    dsimp only
    split <;> exact Nat.le_of_ble_eq_true rfl
  | _ => exact Nat.le_of_ble_eq_true rfl

namespace Course

variable {σ : Type} [KeyValueStore σ]

/-! ### Any order of moves -/

section Begin

variable (config : DeskConfig) (storage : σ) (action : Action)

theorem running_begin : (begin config storage action).session.running =
    ((Session.start config storage).desk.dispatch action).1.tasks := by
  simp only [begin, Session.apply_running]
  exact List.nil_append _

theorem errands_begin : (begin config storage action).errands =
    (begin config storage action).session.running.map .running := by
  have inbox : (Session.start config storage).inbox = [] := rfl
  have waiting (kind : ArtifactKind) : (Session.start config storage).board.waitingFor
      (Session.start config storage).consumer kind = [] := by
    cases kind <;> rfl
  simp [errands, begin, Errand.all, inbox, waiting]

theorem length_errands_begin_le : (begin config storage action).errands.length ≤ 1 := by
  rw [errands_begin, List.length_map, running_begin]
  exact Desk.tasks_length_le _ action

private theorem sum_errands_begin_le {weight : Errand → Nat} {bound : Nat}
    (bounded : ∀ errand, weight errand ≤ bound) :
    ((begin config storage action).errands.map weight).sum ≤ bound := by
  have few := length_errands_begin_le config storage action
  match (begin config storage action).errands, few with
  | [], _ => exact Nat.zero_le _
  | [errand], _ => simpa using bounded errand

theorem accounted_begin : (begin config storage action).Accounted where
  attached := by
    simp only [begin, Session.apply_board, Session.apply_consumer]
    exact Switchboard.attached_connectBoth
  pending := by
    rw [errands_begin, List.length_map, running_begin]
    simp only [begin, Session.apply_pending]
    exact Nat.zero_add _
  started := by
    simp only [started, begin, Session.apply_pending, List.flatMap_cons, List.flatMap_nil,
      List.append_nil]
    exact (Nat.zero_add _).symm
  answers := by
    rw [show (begin config storage action).taken = 0 from rfl, Nat.zero_add]
    exact sum_errands_begin_le config storage action Errand.answersLeft_le
  awaited kind key held := by
    -- Nothing was awaited before the first action.
    simp only [begin, Session.apply_desk] at held
    rcases Desk.awaited_of_dispatch _ held with ⟨source, member⟩ | ⟨before, _⟩
    · rw [errands_begin, running_begin]
      exact ⟨_, List.mem_map_of_mem member, rfl⟩
    · exact absurd (show false = true from before) Bool.false_ne_true
  failed := by
    simp only [MarksFailure, begin, Session.apply_failed, List.any_cons, List.any_nil,
      Bool.or_false]
    exact Bool.false_or _

end Begin

theorem Accounted.run {course : Course σ} (accounted : course.Accounted) (moves : List Move) :
    (course.run moves).Accounted := by
  induction moves generalizing course with
  | nil => exact accounted
  | cons move moves ih => exact ih (accounted.step move)

/-- Each move that finds something to be moved leaves fewer moves to be made. -/
theorem made_add_movesLeft_le {course : Course σ} (accounted : course.Accounted)
    (moves : List Move) :
    course.made moves + ((course.run moves).errands.map Errand.movesLeft).sum ≤
      (course.errands.map Errand.movesLeft).sum := by
  induction moves generalizing course with
  | nil => exact Nat.le_of_eq (Nat.zero_add _)
  | cons move moves ih =>
    have later := ih (accounted.step move)
    show (course.allows move).toNat + (course.step move).made moves + _ ≤ _
    cases allowed : course.allows move with
    | false =>
      rw [step_of_not_allows accounted.attached allowed] at later
      rw [Bool.toNat_false, Nat.zero_add]
      simpa only [run, List.foldl_cons, step_of_not_allows accounted.attached allowed] using later
    | true =>
      obtain ⟨errand, taken, next, passes⟩ := passes_step accounted.attached allowed
      obtain ⟨rest, before, after⟩ := passes.others
      -- The heirs of an errand have fewer moves left than it had, and the rest have as many.
      have less := passes.leads.movesLeft_lt
      have sumBefore := (before.map Errand.movesLeft).sum_nat
      have sumAfter := (after.map Errand.movesLeft).sum_nat
      simp only [List.map_cons, List.map_append, List.sum_cons, List.sum_append]
        at sumBefore sumAfter
      rw [Bool.toNat_true]
      simp only [run, List.foldl_cons] at later ⊢
      omega

omit [KeyValueStore σ] in
/-- Nothing is left to be moved exactly when no errand is under way. -/
theorem errands_eq_nil_iff (course : Course σ) :
    course.errands = [] ↔ ∀ move, course.allows move = false := by
  simp only [errands, Errand.all, List.append_eq_nil_iff, List.map_eq_nil_iff]
  constructor
  · rintro ⟨⟨⟨running, inbox⟩, explanations, testbenches⟩, hand⟩ move
    cases move with
    | finish => simp [allows, running]
    | fetch kind => cases kind <;> simp [allows, explanations, testbenches]
    | takeIn => simp [allows, hand]
    | read => simp [allows, inbox]
  · intro still
    have running := still (.finish .offline .empty ⟨[]⟩ 0)
    have explanations := still (.fetch .explanation)
    have testbenches := still (.fetch .testbench)
    have hand := still .takeIn
    have inbox := still .read
    simp only [allows, Bool.not_eq_false', List.isEmpty_iff, decide_eq_false_iff_not, Nat.not_lt,
      Nat.le_zero, List.length_eq_zero_iff] at running explanations testbenches hand inbox
    exact ⟨⟨⟨running, inbox⟩, explanations, testbenches⟩, hand⟩

omit [KeyValueStore σ] in
theorem Accounted.inFlight_eq_empty {course : Course σ} (accounted : course.Accounted)
    (settled : course.errands = []) : course.session.desk.state.inFlight = .empty := by
  cases requests : course.session.desk.state.inFlight.requests with
  | nil => exact congrArg InFlight.mk requests
  | cons request rest =>
    have held : course.session.desk.state.inFlight.contains request.1 request.2 = true := by
      simp [InFlight.contains, requests]
    obtain ⟨errand, member, _⟩ := accounted.awaited _ _ held
    rw [settled] at member
    cases member

/-! ### Turn by turn -/

theorem run_append (course : Course σ) (first second : List Move) :
    course.run (first ++ second) = (course.run first).run second :=
  List.foldl_append

/-- Emptying the mailboxes is fetching one artifact after the other. -/
private theorem run_takeUpTo (count : Nat) {course : Course σ}
    (attached : course.session.board.Attached course.session.consumer) :
    let fetched := course.session.board.takeUpTo count course.session.consumer
    ∃ moves, course.run moves = { course with
      session.board := fetched.2
      hand := course.hand ++ fetched.1 } := by
  induction count generalizing course with
  | zero => exact ⟨[], by simp [run, Switchboard.takeUpTo]⟩
  | succ count ih =>
    rcases attached.take_cases with ⟨kind, message, board, read, take, still⟩ | take
    · let next : Course σ := { course with
        session.board := board
        hand := course.hand ++ [message] }
      have stepped : course.step (.fetch kind) = next := by simp only [step, read, next]
      have attachedNext : next.session.board.Attached next.session.consumer := still
      obtain ⟨moves, reached⟩ := ih attachedNext
      refine ⟨.fetch kind :: moves, ?_⟩
      rw [run, List.foldl_cons, stepped]
      refine reached.trans ?_
      simp [next, Switchboard.takeUpTo, take]
    · exact ⟨[], by simp [run, Switchboard.takeUpTo, take]⟩

/-- Taking in all that has been fetched. -/
private theorem run_takeIn (messages : List ArtifactMessage) {course : Course σ}
    (hand : course.hand = messages) :
    ∃ moves, (course.run moves).session = messages.foldl Session.takeArtifact course.session ∧
      (course.run moves).hand = [] ∧ (course.run moves).taken = course.taken + messages.length := by
  induction messages generalizing course with
  | nil => exact ⟨[], rfl, hand, rfl⟩
  | cons message rest ih =>
    have session : (course.step .takeIn).session = course.session.takeArtifact message := by
      simp only [step, hand]
    have left : (course.step .takeIn).hand = rest := by simp only [step, hand]
    have taken : (course.step .takeIn).taken = course.taken + 1 := by simp only [step, hand]
    obtain ⟨moves, reached, emptied, counted⟩ := ih left
    refine ⟨.takeIn :: moves, ?_, emptied, ?_⟩
    · exact reached.trans (by rw [session, List.foldl_cons])
    · refine counted.trans ?_
      rw [taken, List.length_cons]
      omega

private theorem step_read (course : Course σ) :
    (course.step .read).session = course.session.readReport ∧
    (course.step .read).hand = course.hand ∧
    (course.step .read).taken = course.taken + if course.session.inbox = [] then 0 else 1 := by
  cases inbox : course.session.inbox with
  | nil => simp [step, Session.readReport, inbox]
  | cons report rest => simp [step, inbox]

private theorem inbox_foldl_takeArtifact (messages : List ArtifactMessage) (session : Session σ) :
    (messages.foldl Session.takeArtifact session).inbox = session.inbox := by
  induction messages generalizing session with
  | nil => rfl
  | cons message rest ih => simp [ih, Session.takeArtifact]

omit [KeyValueStore σ] in
/-- Once the oldest task has been answered there is something to be taken in, if there was any
errand before. -/
private theorem ready_of_finish {course : Course σ}
    (attached : course.session.board.Attached course.session.consumer) (empty : course.hand = [])
    (work : Task → Answer) (busy : course.errands ≠ []) :
    let finished := course.session.finish work 0
    finished.inbox ≠ [] ∨
    ∃ kind, finished.board.waitingFor finished.consumer kind ≠ [] := by
  unfold Session.finish
  cases running : course.session.running with
  | nil =>
    -- Without a running task the errands can only be reports and waiting artifacts.
    by_contra nothing
    simp only [List.getElem?_nil, not_or, not_exists, ne_eq, not_not] at nothing
    exact busy (by simp [errands, Errand.all, running, empty, nothing])
  | cons task rest =>
    simp only [List.getElem?_cons_zero]
    cases work task with
    | report report => exact .inl (by simp)
    | artifact message =>
      refine .inr ⟨message.kind, ?_⟩
      simp [(attached.deliver message).2]

/-- A turn is a sequence of moves, and some answer is taken in unless none was expected. -/
theorem run_turn {course : Course σ}
    (attached : course.session.board.Attached course.session.consumer) (empty : course.hand = [])
    (backend : Backend) (disk : Disk) (extensions : Extensions) :
    ∃ moves,
      (course.run moves).session = course.session.turn (Task.answer backend disk extensions) ∧
      (course.run moves).hand = [] ∧
      (course.errands ≠ [] → course.taken < (course.run moves).taken) := by
  let finished := course.step (.finish backend disk extensions 0)
  have attachedThen : finished.session.board.Attached finished.session.consumer :=
    attached_step attached _
  let drained := finished.session.board.drain finished.session.consumer
  obtain ⟨fetches, fetched⟩ := run_takeUpTo _ attachedThen
  have hand : (finished.run fetches).hand = drained.1 := by
    rw [fetched]
    show course.hand ++ drained.1 = _
    rw [empty, List.nil_append]
  obtain ⟨takes, session, emptied, counted⟩ := run_takeIn _ hand
  obtain ⟨read, kept, last⟩ := step_read ((finished.run fetches).run takes)
  have artifacts : ((finished.run fetches).run takes).session =
      finished.session.readArtifacts := by
    rw [session, fetched]
    rfl
  -- The oldest task is answered, the mailboxes are emptied, all that was in them is taken in, and
  -- one report is read.
  refine ⟨.finish backend disk extensions 0 :: (fetches ++ (takes ++ [.read])), ?_⟩
  have reached : course.run (.finish backend disk extensions 0 ::
      (fetches ++ (takes ++ [.read]))) = ((finished.run fetches).run takes).step .read := by
    rw [run, List.foldl_cons, List.foldl_append, List.foldl_append]
    rfl
  rw [reached]
  refine ⟨read.trans (congrArg Session.readReport artifacts), kept.trans emptied, fun busy => ?_⟩
  have before : (finished.run fetches).taken = course.taken := by rw [fetched]; rfl
  rw [last, counted, before]
  rcases ready_of_finish attached empty (Task.answer backend disk extensions) busy with
    report | ⟨kind, waits⟩
  · have inbox : ((finished.run fetches).run takes).session.inbox ≠ [] := by
      rw [session, inbox_foldl_takeArtifact, fetched]
      exact report
    rw [if_neg inbox]
    omega
  · have some : drained.1 ≠ [] := attachedThen.drain_ne_nil waits
    have length := List.length_pos_iff.mpr some
    omega

omit [KeyValueStore σ] in
theorem Accounted.pending_eq_zero_iff {course : Course σ} (accounted : course.Accounted) :
    course.session.pending = 0 ↔ course.errands = [] := by
  rw [accounted.pending, List.length_eq_zero_iff]

/-- Two answers are the most that a session ever takes in, so as many turns are enough. -/
theorem run_settleWithin (backend : Backend) (disk : Disk) (extensions : Extensions) (turns : Nat)
    {course : Course σ} (accounted : course.Accounted) (empty : course.hand = [])
    (enough : course.errands ≠ [] → 2 ≤ turns + course.taken) :
    ∃ moves, (course.run moves).session =
        Session.settleWithin (Task.answer backend disk extensions) turns course.session ∧
      (course.run moves).session.pending = 0 := by
  induction turns generalizing course with
  | zero =>
    -- Two answers have been taken in, and any errand left would make it three.
    refine ⟨[], rfl, accounted.pending_eq_zero_iff.mpr ?_⟩
    by_contra busy
    obtain ⟨errand, rest, some⟩ := List.exists_cons_of_ne_nil busy
    have answers := accounted.answers
    have positive := errand.answersLeft_pos
    have taken := enough busy
    rw [some, List.map_cons, List.sum_cons] at answers
    omega
  | succ turns ih =>
    by_cases settled : course.session.pending = 0
    · exact ⟨[], (if_pos settled).symm, settled⟩
    have busy := mt accounted.pending_eq_zero_iff.mpr settled
    obtain ⟨turn, session, emptied, took⟩ :=
      run_turn accounted.attached empty backend disk extensions
    have more : 2 ≤ turns + (course.run turn).taken := by
      have before := enough busy
      have grown := took busy
      omega
    obtain ⟨moves, reached, done⟩ := ih (accounted.run turn) emptied fun _ => more
    rw [← run_append] at reached done
    refine ⟨turn ++ moves, reached.trans ?_, done⟩
    rw [session, Session.settleWithin, if_neg settled]

theorem run_settle_begin (config : DeskConfig) (storage : σ) (action : Action) (backend : Backend)
    (disk : Disk) (extensions : Extensions) :
    let begun := begin config storage action
    ∃ moves, (begun.run moves).session =
        begun.session.settle (Task.answer backend disk extensions) ∧
      (begun.run moves).session.pending = 0 := by
  intro begun
  refine run_settleWithin backend disk extensions _ (accounted_begin config storage action) rfl
    fun busy => ?_
  have running : begun.session.running ≠ [] := by
    rwa [ne_eq, errands_begin, List.map_eq_nil_iff] at busy
  have length := List.length_pos_iff.mpr running
  omega

end Course

/-- Whatever the order in which tasks are answered and answers are taken in, a session expects as
many answers as there are errands under way, which are the started tasks whose answers have not been
taken in. It takes in two answers at most, in four moves at most. When it expects no answer nothing
is under way and no request is in flight, and until then there is something to be moved. It is
marked as failed if one of its actions was refused. To settle turn by turn is one such order, and it
comes to an end. -/
theorem Course.run_accounts_for_answers {σ : Type} [KeyValueStore σ] (config : DeskConfig)
    (storage : σ) (action : Action) (moves : List Move) :
    let begun := begin config storage action
    let now := begun.run moves
    now.session.pending = now.errands.length ∧
    now.started.length = now.session.pending + now.taken ∧
    now.taken ≤ 2 ∧ begun.made moves ≤ 4 ∧
    (now.session.pending = 0 ↔ ∀ move, now.allows move = false) ∧
    (now.session.pending = 0 → now.errands = [] ∧ now.session.desk.state.inFlight = .empty) ∧
    (now.session.failed = true ↔ ∃ outcome ∈ now.outcomes, outcome.error.isSome = true) ∧
    ∀ backend disk extensions, ∃ order,
      (begun.run order).session = begun.session.settle (Task.answer backend disk extensions) ∧
      (begun.run order).session.pending = 0 := by
  intro begun now
  have start : begun.Accounted := accounted_begin config storage action
  have accounted : now.Accounted := start.run moves
  have few := made_add_movesLeft_le start moves
  have bound : (begun.errands.map Errand.movesLeft).sum ≤ 4 :=
    sum_errands_begin_le config storage action Errand.movesLeft_le
  have answers := accounted.answers
  refine ⟨accounted.pending, accounted.started, by omega, by omega, ?_, fun settled => ?_, ?_,
    run_settle_begin config storage action⟩
  · rw [accounted.pending_eq_zero_iff, errands_eq_nil_iff]
  · have nothing := accounted.pending_eq_zero_iff.mp settled
    exact ⟨nothing, accounted.inFlight_eq_empty nothing⟩
  · rw [show now.session.failed = _ from accounted.failed, List.any_eq_true]

/-- Both bounds are reached: a file is loaded, and then uploaded in vain. -/
example :
    let disk : Disk := ⟨.folder [("a.v", .file "module a;".toUTF8)], []⟩
    let begun := Course.begin {} (SortedMap.empty : Entries) (.openPath "a.v")
    let order : List Move :=
      [.finish .offline disk ⟨[".v"]⟩ 0, .read, .finish .offline disk ⟨[".v"]⟩ 0, .read]
    begun.made order = 4 ∧ (begun.run order).taken = 2 := by
  decide +kernel

end HdlDesk
