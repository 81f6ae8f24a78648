import HdlDesk.CommandLine.Run
import HdlDesk.Proofs.Storage.Reopening
import HdlDesk.Proofs.Storage.Unfailing
import HdlDesk.Proofs.Work.Resembling

/-!
# A process for each command

A session in a file can be carried on in one process, or in a process for each command that takes it
up from the file and leaves it there. As long as no save fails the two cannot be told apart by what
is printed, by the exit codes or by the file, but for one line: a file without name and text is not
there any more when the session is taken up again.
-/
namespace HdlDesk

namespace CommandLine

/-- A reader cannot tell two exits apart, unless the document is a file without name and text that
the first run does not have. -/
structure Exit.Agrees (own live : Exit) (document : Document) : Prop where
  code : own.code = live.code
  err : own.err = live.err
  out : own.out = live.out ∨ document = .single "" "" ∧ ∃ before after,
    own.out = lines (before ++ "workspace: empty" :: after) ∧
    live.out = lines (before ++ "file: <unnamed>" :: after)

section

variable {φ : Type} [FileSystem φ] (config : DeskConfig) (path : String)
    (work : φ → Task → Answer) (files : φ)

/-- How tasks are answered as long as the files are these. -/
def answering (config : DeskConfig) (backend : Backend) (view : φ → Disk) (files : φ) :
    Task → Answer :=
  Task.answer backend (view files) config.extensions

/-- Carries out a command in a process of its own. -/
def process (command : Command) : Exit × φ :=
  match StateFile.openAt files path with
  | .error refused => (stopped refused.message, files)
  | .ok storage =>
    let (exit, session) := (Session.start config storage).execute (work files) command
    (exit, session.desk.storage.files)

/-- What is left by some commands, each carried out in a process of its own. -/
def filesAfter (commands : List Command) : φ :=
  commands.foldl (fun files command => (process config path work files command).2) files

/-- One session that has carried out some commands. -/
def liveAfter (session : Session (StateFile φ)) (commands : List Command) :
    Session (StateFile φ) :=
  commands.foldl (fun reached command =>
    (reached.execute (work reached.desk.storage.files) command).2) session

end

theorem process_of_openAt {φ : Type} [FileSystem φ] {config : DeskConfig} {path : String}
    {work : φ → Task → Answer} {files : φ} {storage : StateFile φ}
    (opened : StateFile.openAt files path = .ok storage) (command : Command) :
    let done := (Session.start config storage).execute (work files) command
    process config path work files command = (done.1, done.2.desk.storage.files) := by
  simp only [process, opened]

/-- A run of the program on a session in a file is such a process, once the places are prepared and
the settings are read. -/
theorem invoke_eq_process {disk found : Disk} {environment : Environment} {invocation : Invocation}
    {settings : Settings} {path : String} (file : invocation.inMemory = false)
    (kept : settings.storage = .file) :
    let prepared := ((prepareLog disk environment).ensureSettings environment).2
    (prepared.settings? environment).getD {} = settings →
    findState prepared environment invocation.statePath = (.ok path, found) →
    invoke disk environment invocation =
      process settings.config path (answering settings.config .offline id) found
        invocation.command := by
  intro prepared set located
  simp only [invoke]
  rw [set, if_neg (by simp [file, kept]), located]
  simp only [process]
  cases StateFile.openAt found path <;> rfl

end CommandLine

namespace Desk

open CommandLine

variable {σ : Type} [KeyValueStore σ]

/-- Of desks that are alike the same is said, unless one has a file without name and text. -/
theorem Resembles.statusLines {own live : Desk σ} (alike : own.Resembles live) :
    statusLines own = statusLines live ∨ live.state.document = .single "" "" ∧
      ∃ after, CommandLine.statusLines own = "workspace: empty" :: after ∧
        CommandLine.statusLines live = "file: <unnamed>" :: after := by
  have key := alike.activeKey
  have entry := alike.entry live.activeKey
  have recent := alike.recent
  rcases alike with alike | ⟨nothing, alike⟩
  · have document := alike.outlook.document
    left
    simp only [CommandLine.statusLines, key, entry, recent, document]
  · have blank : Document.single "" "" = live.state.document := alike.outlook.document
    have unnamed : documentLines (.single "" "") = ["file: <unnamed>"] := by decide +kernel
    right
    refine ⟨blank.symm, ?_⟩
    simp only [CommandLine.statusLines, key, entry, recent, nothing, ← blank, unnamed]
    exact ⟨_, rfl, rfl⟩

end Desk

namespace Session

open CommandLine

variable {σ : Type} [KeyValueStore σ]

/-! ### The steps of a command -/

/-- The session with nothing shown and no failure. -/
def afresh (session : Session σ) : Session σ := { session with failed := false, shown := [] }

/-- The exit of a session that has settled. -/
def exit (session : Session σ) : Exit where
  code := if session.failed then 1 else 0
  out := lines (session.shown.filterMap outLine? ++ statusLines session.desk)
  err := lines (session.shown.filterMap errLine?)

/-- Carries out an action and all that follows from it. -/
def carryThrough (session : Session σ) (work : Task → Answer) (action : Action) : Session σ :=
  (session.afresh.apply action).settle work

theorem execute_status (session : Session σ) (work : Task → Answer) :
    let seen := session.look session.desk.activeKey
    session.execute work .status = ({ code := 0, out := lines (statusLines seen.desk) }, seen) :=
  rfl

theorem execute_act (session : Session σ) (work : Task → Answer) (action : Action) :
    let settled := session.carryThrough work action
    session.execute work (.act action) = (settled.exit, settled.look settled.desk.activeKey) :=
  rfl

theorem Follows.exit_agrees {first : Desk σ} {own live : Session σ}
    (follows : Follows first own live) : own.exit.Agrees live.exit live.desk.state.document := by
  have failed : own.failed = live.failed := by rw [follows.rest]
  have shown : own.shown = live.shown := by rw [follows.rest]
  simp only [exit, failed, shown]
  refine ⟨rfl, rfl, ?_⟩
  rcases follows.alike.statusLines with same | ⟨blank, after, fresh, old⟩
  · exact .inl (congrArg (fun said => lines (_ ++ said)) same)
  · exact .inr ⟨blank, _, after, by rw [fresh], by rw [old]⟩

/-! ### A session and one that takes it up -/

variable {config : DeskConfig} {storage : σ} {start : Entries} {live : Session σ}

/-- A session that is started on what another one has stored goes the same way as that. -/
theorem Rests.follows (rests : live.Rests config) (obeys : KeyValueStore.NeverFails storage)
    (entries : KeyValueStore.get? storage = KeyValueStore.get? start)
    (reached : (Desk.restore config storage).LeadsTo live.desk) :
    Follows (Desk.restore config storage) (Session.start config live.desk.storage)
      live.afresh where
  alike := by
    -- Every part would be shown by a restart, and taking up the session is one.
    obtain ⟨steps, run⟩ := reached
    obtain ⟨same, shown⟩ := Desk.shown_run config obeys entries steps
    rw [run] at same shown
    have alike := Desk.resembles_restore shown rests.idle
    rwa [same] at alike
  rest := congrArg afresh rests.same
  reached := reached

/-- One command, carried out by a session and by one that is started on what it has stored. -/
theorem Rests.execute [AtomicStore σ] (rests : live.Rests config)
    (obeys : KeyValueStore.NeverFails storage)
    (entries : KeyValueStore.get? storage = KeyValueStore.get? start)
    (reached : (Desk.restore config storage).LeadsTo live.desk)
    (backend : Backend) (disk : Disk) (extensions : Extensions) (command : Command) :
    let work := Task.answer backend disk extensions
    let own := (Session.start config live.desk.storage).execute work command
    let kept := live.execute work command
    own.1.Agrees kept.1 kept.2.desk.state.document ∧
    own.2.desk.storage = kept.2.desk.storage ∧ kept.2.Rests config ∧
    (Desk.restore config storage).LeadsTo kept.2.desk := by
  intro work own kept
  have follows := rests.follows obeys entries reached
  cases command with
  | status =>
    -- The status asks for the entry of the active file, which is the same file for both.
    have key : (Session.start config live.desk.storage).desk.activeKey = live.desk.activeKey :=
      follows.alike.activeKey
    have seen := follows.look live.desk.activeKey
    simp only [own, kept, execute_status, key]
    refine ⟨⟨rfl, rfl, ?_⟩, rfl, rests.look _, seen.reached⟩
    rcases seen.alike.statusLines with same | ⟨blank, after, fresh, old⟩
    · exact .inl (congrArg lines same)
    · exact .inr ⟨blank, [], after, congrArg lines fresh, congrArg lines old⟩
  | listRecent =>
    have recent : (Session.start config live.desk.storage).desk.state.recent =
        live.desk.state.recent := follows.alike.recent
    refine ⟨⟨rfl, rfl, .inl ?_⟩, rfl, rests, reached⟩
    simp only [own, kept, Session.execute, recent]
  | act action =>
    -- Both settle side by side. The one that was just started is at rest then, so the other is.
    have settled : Follows (Desk.restore config storage)
        ((Session.start config live.desk.storage).carryThrough work action)
        (live.carryThrough work action) := (follows.apply action).settle work
    have still : ((Session.start config live.desk.storage).carryThrough work action).Rests config :=
      rests_settle_apply config live.desk.storage action backend disk extensions
    have key := settled.alike.activeKey
    simp only [own, kept, execute_act, key]
    have seen := settled.look (live.carryThrough work action).desk.activeKey
    exact ⟨settled.exit_agrees, seen.alike.storage, (still.of_follows settled).look _,
      seen.reached⟩

end Session

namespace CommandLine

variable {φ : Type} [FileSystem φ] {path : String} {sound : φ → Prop} {config : DeskConfig}
    {storage : StateFile φ} {left : φ} {live : Session (StateFile φ)}

/-- A session between two commands, and the files that processes have left in its place. -/
structure Tracks (config : DeskConfig) (storage : StateFile φ) (left : φ)
    (live : Session (StateFile φ)) : Prop where
  rests : live.Rests config
  reached : (Desk.restore config storage).LeadsTo live.desk
  files : live.desk.storage.files = left

namespace Tracks

theorem openAt_left (unfailing : Unfailing φ path sound) (used : storage.InUse path sound)
    (tracks : Tracks config storage left live) :
    StateFile.openAt left path = .ok live.desk.storage := by
  -- The session has written nothing but through the calls of its run, which were all accepted.
  obtain ⟨steps, run⟩ := tracks.reached
  have now : live.desk.storage.InUse path sound := by
    rw [← run]
    exact Desk.run_storage_induct (fun reached : StateFile φ => reached.InUse path sound)
      (fun _ call used => used.write unfailing call) _ used steps
  rw [← tracks.files]
  exact now.openAt_eq

/-- One command, in a process and in the session. -/
theorem command (unfailing : Unfailing φ path sound) (used : storage.InUse path sound)
    (tracks : Tracks config storage left live) (backend : Backend) (view : φ → Disk)
    (command : Command) :
    let work := answering config backend view
    let own := process config path work left command
    let kept := live.execute (work live.desk.storage.files) command
    own.1.Agrees kept.1 kept.2.desk.state.document ∧ Tracks config storage own.2 kept.2 := by
  intro work own kept
  have obeys := StateFile.neverFails_of_unfailing unfailing used.toServes
  have entries : KeyValueStore.get? storage = KeyValueStore.get? storage.entries := rfl
  obtain ⟨agrees, stored, rests, reached⟩ := tracks.rests.execute obeys entries tracks.reached
    backend (view live.desk.storage.files) config.extensions command
  simp only [own, process_of_openAt (tracks.openAt_left unfailing used), ← tracks.files]
  exact ⟨agrees, rests, reached, (congrArg StateFile.files stored).symm⟩

/-- All commands so far, each in a process of its own and in the session. -/
theorem commands (unfailing : Unfailing φ path sound) (used : storage.InUse path sound)
    (backend : Backend) (view : φ → Disk) (commands : List Command)
    (tracks : Tracks config storage left live) :
    let work := answering config backend view
    Tracks config storage (filesAfter config path work left commands)
      (liveAfter work live commands) := by
  intro work
  induction commands generalizing left live with
  | nil => exact tracks
  | cons command commands ih => exact ih (tracks.command unfailing used backend view command).2

end Tracks

/-- A session in a file can be cut into processes. Whatever text the file starts from, or none, and
whatever commands have been carried out: a process that carries out the next one ends with the code
and the output of the one session that has gone on all along, but for the line about a file without
name and text, and leaves a file in which the stored entries of that session are found. Asking for
the status or for the recent files leaves everything as it is. -/
theorem process_for_each_command (unfailing : Unfailing φ path sound) {files : φ}
    (start : sound files)
    (readable : FileSystem.readText files path = .error .notFound ∨
      ∃ text, FileSystem.readText files path = .ok text)
    (config : DeskConfig) (backend : Backend) (view : φ → Disk) :
    let work := answering config backend view
    ∃ storage, StateFile.openAt files path = .ok storage ∧ ∀ earlier command,
      let left := filesAfter config path work files earlier
      let live := liveAfter work (Session.start config storage) earlier
      let own := process config path work left command
      let kept := live.execute (work live.desk.storage.files) command
      own.1.Agrees kept.1 kept.2.desk.state.document ∧
      StateFile.openAt own.2 path = .ok kept.2.desk.storage ∧
      (command = .status ∨ command = .listRecent → own.2 = left) := by
  intro work
  obtain ⟨storage, opened, _⟩ := StateFile.openAt_of_readable readable
  have used := StateFile.inUse_openAt start opened
  refine ⟨storage, opened, fun earlier command => ?_⟩
  have first : Tracks config storage files (Session.start config storage) :=
    ⟨Session.rests_start config storage, ⟨[], rfl⟩, (StateFile.openAt_eq_ok.mp opened).2.1⟩
  have tracks := first.commands unfailing used backend view earlier
  obtain ⟨agrees, next⟩ := tracks.command unfailing used backend view command
  refine ⟨agrees, next.openAt_left unfailing used, fun reads => ?_⟩
  have taken := tracks.openAt_left unfailing used
  rw [process_of_openAt taken]
  rcases reads with rfl | rfl
  · exact (StateFile.openAt_eq_ok.mp taken).2.1
  · exact (StateFile.openAt_eq_ok.mp taken).2.1

/-- A file that is typed and emptied again has neither name nor text. The next process does not have
it any more, and that is all the difference. The state file is no JSON to begin with. -/
theorem emptied_file_is_gone_in_next_process :
    let disk : Disk := ⟨.folder [("state.json", .file "no JSON".toUTF8)], []⟩
    let config : DeskConfig := {}
    let work := answering config .offline id
    let typed : List Command := [.act (.edit "x"), .act (.edit "")]
    ∃ storage, StateFile.openAt disk "state.json" = .ok storage ∧
      let left := filesAfter config "state.json" work disk typed
      let live := liveAfter work (Session.start config storage) typed
      let own := process config "state.json" work left .status
      let kept := live.execute (work live.desk.storage.files) .status
      own.1.code = kept.1.code ∧ own.1.err = kept.1.err ∧ own.2 = left ∧
      kept.2.desk.state.document = .single "" "" ∧
      ∃ before after, own.1.out = lines (before ++ "workspace: empty" :: after) ∧
        kept.1.out = lines (before ++ "file: <unnamed>" :: after) := by
  intro disk config work typed
  have clear : Disk.Clear "state.json" disk [("state.json", .file "no JSON".toUTF8)] := {
    working := rfl
    file := .inr ⟨_, rfl⟩
    draft := .inl (by decide +kernel) }
  obtain ⟨storage, opened, follows⟩ := process_for_each_command
    (Disk.unfailing_of_inWorkingFolder Disk.inWorkingFolder_stateFile) ⟨_, clear⟩
    (.inr ⟨"no JSON", by decide +kernel⟩) config .offline id
  obtain rfl : storage = ⟨"state.json", .empty, disk⟩ := by
    have same : StateFile.openAt disk "state.json" = .ok ⟨"state.json", .empty, disk⟩ := rfl
    exact Except.ok.inj (opened.symm.trans same)
  have told := follows typed .status
  refine ⟨_, opened, ?_⟩
  dsimp only [work] at told ⊢
  obtain ⟨agrees, _, unchanged⟩ := told
  exact ⟨agrees.code, agrees.err, unchanged (.inl rfl), agrees.out.resolve_left (by decide +kernel)⟩

end CommandLine

end HdlDesk
