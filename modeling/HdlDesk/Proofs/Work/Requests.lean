import HdlDesk.Proofs.Work.Accounts

/-!
# Loading and unanswered requests

A desk remembers which artifacts it waits for, but not how many requests for each it has sent. So
the first answer ends the waiting for an artifact, even if another request for the same one has not
been answered. In terms of a log of all that happens to requests: an artifact is in flight exactly
when it has been asked for since the last clearing and no answer to a request for it has come after
that. Such a request is unanswered; the other direction holds as long as no artifact is asked for
while a request for it is unanswered, and fails exactly when the last word on an artifact is the
answer to another request than the one that is unanswered.
-/
namespace HdlDesk

/-- What can happen to requests. -/
inductive RequestEvent where
  | sent (kind : ArtifactKind) (key : String)
  /-- The request that was sent at a place of the log is answered. -/
  | answered (place : Nat)
  /-- Everything is cleared. -/
  | cleared
  deriving DecidableEq, Repr

/-- All that has happened to requests, oldest first. -/
abbrev RequestLog := List RequestEvent

namespace RequestLog

variable (log : RequestLog) (kind : ArtifactKind) (key : String)

/-- The request that was sent at a place has not been answered, nor has everything been cleared
since. -/
def WaitsAt (place : Nat) : Prop :=
  log[place]? = some (.sent kind key) ∧
  ∀ later, place < later → log[later]? ≠ some .cleared ∧ log[later]? ≠ some (.answered place)

/-- A request that was sent since the last clearing has not been answered. -/
def Unanswered : Prop := ∃ place, WaitsAt log kind key place

/-- A request was sent since the last clearing, and no answer to any for the same artifact has come
after it. -/
def SentLast : Prop :=
  ∃ place : Nat, log[place]? = some (.sent kind key) ∧
    ∀ later, place < later → log[later]? ≠ some .cleared ∧
      ∀ other, log[later]? = some (.answered other) → log[other]? ≠ some (.sent kind key)

/-- A request was sent while another one for the same artifact was unanswered. -/
def Overlaps : Prop :=
  ∃ place later : Nat, place < later ∧
    log[place]? = some (.sent kind key) ∧ log[later]? = some (.sent kind key) ∧
    ∀ between, place < between → between < later → log[between]? ≠ some (.answered place)

/-- An unanswered request has been overtaken: an answer to another one for the same artifact has
come after it, and none has been sent since. -/
def Overtaken : Prop :=
  ∃ place answer other : Nat, WaitsAt log kind key place ∧ place < answer ∧
    log[answer]? = some (.answered other) ∧ log[other]? = some (.sent kind key) ∧
    ∀ later, answer < later → log[later]? ≠ some (.sent kind key)

/-- Every answer comes after its request, and there is no second one. -/
structure Orderly : Prop where
  earlier : ∀ later place : Nat, log[later]? = some (.answered place) → place < later
  once : ∀ first second place : Nat, log[first]? = some (.answered place) →
    log[second]? = some (.answered place) → first = second

variable {log kind key}

/-! ### Logs that grow -/

theorem at_append {event found : RequestEvent} {place : Nat} :
    (log ++ [event])[place]? = some found ↔
      log[place]? = some found ∨ place = log.length ∧ event = found := by
  rcases Nat.lt_trichotomy place log.length with before | own | beyond
  · rw [List.getElem?_append_left before]
    simp [Nat.ne_of_lt before]
  · subst own
    simp
  · simp [Nat.ne_of_gt beyond, Nat.le_of_lt beyond, beyond]

theorem orderly_nil : Orderly [] := ⟨by simp, by simp⟩

theorem Orderly.append (orderly : Orderly log) {event : RequestEvent}
    (answers : ∀ place, event = .answered place → place < log.length ∧ event ∉ log) :
    Orderly (log ++ [event]) where
  earlier later place answered := by
    rcases at_append.mp answered with old | ⟨rfl, own⟩
    · exact orderly.earlier later place old
    · exact (answers place own).1
  once first second place one other := by
    rcases at_append.mp one with old | ⟨rfl, own⟩
    · rcases at_append.mp other with again | ⟨_, own⟩
      · exact orderly.once first second place old again
      · exact absurd (own ▸ List.mem_of_getElem? old) (answers place own).2
    · rcases at_append.mp other with again | ⟨rfl, _⟩
      · exact absurd (own ▸ List.mem_of_getElem? again) (answers place own).2
      · rfl

theorem not_sentLast_nil : ¬SentLast [] kind key := by
  rintro ⟨place, sent, _⟩
  simp at sent

theorem sentLast_append_self : SentLast (log ++ [.sent kind key]) kind key := by
  refine ⟨log.length, at_append.mpr (.inr ⟨rfl, rfl⟩), fun later beyond => ?_⟩
  have nothing : (log ++ [RequestEvent.sent kind key])[later]? = none :=
    List.getElem?_eq_none (by simpa using beyond)
  simp [nothing]

theorem SentLast.append (last : SentLast log kind key) (orderly : Orderly log)
    {event : RequestEvent} (keeps : event ≠ .cleared)
    (apart : ∀ place, event = .answered place → log[place]? ≠ some (.sent kind key)) :
    SentLast (log ++ [event]) kind key := by
  obtain ⟨place, sent, after⟩ := last
  refine ⟨place, at_append.mpr (.inl sent), fun later follows => ⟨fun gone => ?_, ?_⟩⟩
  · rcases at_append.mp gone with old | ⟨_, own⟩
    · exact (after later follows).1 old
    · exact keeps own
  · intro other answered same
    rcases at_append.mp answered with old | ⟨_, own⟩
    · -- An old answer is to an old request.
      have before := orderly.earlier later other old
      obtain ⟨inside, _⟩ := List.getElem?_eq_some_iff.mp old
      rw [List.getElem?_append_left (before.trans inside)] at same
      exact (after later follows).2 other old same
    · rcases at_append.mp same with mine | ⟨_, asks⟩
      · exact apart other own mine
      · rw [own] at asks
        cases asks

/-- The last word on an artifact is a request if that is the newest event, or if it was before and
the newest event neither clears everything nor answers a request for the artifact. -/
theorem sentLast_append (orderly : Orderly log) {event : RequestEvent} :
    SentLast (log ++ [event]) kind key ↔
      event = .sent kind key ∨
      SentLast log kind key ∧ event ≠ .cleared ∧
        ∀ place, event = .answered place → log[place]? ≠ some (.sent kind key) := by
  constructor
  · rintro ⟨place, sent, after⟩
    rcases at_append.mp sent with old | ⟨_, own⟩
    · have newest : (log ++ [event])[log.length]? = some event := at_append.mpr (.inr ⟨rfl, rfl⟩)
      obtain ⟨inside, _⟩ := List.getElem?_eq_some_iff.mp old
      obtain ⟨keeps, apart⟩ := after log.length inside
      refine .inr ⟨⟨place, old, fun later follows => ?_⟩, ?_, ?_⟩
      · obtain ⟨kept, others⟩ := after later follows
        exact ⟨fun gone => kept (at_append.mpr (.inl gone)), fun other answered same =>
          others other (at_append.mpr (.inl answered)) (at_append.mpr (.inl same))⟩
      · rintro rfl
        exact keeps newest
      · rintro answer rfl same
        exact apart answer newest (at_append.mpr (.inl same))
    · exact .inl own
  · rintro (rfl | ⟨last, keeps, apart⟩)
    · exact sentLast_append_self
    · exact last.append orderly keeps apart

/-! ### Waiting for one answer and for all -/

theorem SentLast.unanswered (last : SentLast log kind key) : Unanswered log kind key := by
  obtain ⟨place, sent, after⟩ := last
  refine ⟨place, sent, fun later follows => ?_⟩
  obtain ⟨kept, others⟩ := after later follows
  exact ⟨kept, fun own => others place own sent⟩

/-- A request that is unanswered is the last word, unless another one has overlapped it. -/
theorem WaitsAt.sentLast (orderly : Orderly log) {place : Nat}
    (waits : WaitsAt log kind key place) (serial : ¬Overlaps log kind key) :
    SentLast log kind key := by
  obtain ⟨sent, after⟩ := waits
  refine ⟨place, sent, fun later follows => ⟨(after later follows).1, ?_⟩⟩
  intro other answered same
  apply serial
  rcases Nat.lt_trichotomy place other with behind | own | before
  · exact ⟨place, other, behind, sent, same, fun between past _ => (after between past).2⟩
  · subst own
    exact absurd answered (after later follows).2
  · -- The other request was sent before, and its only answer comes too late.
    refine ⟨other, place, before, same, sent, fun between _ within replied => ?_⟩
    have once := orderly.once between later other replied answered
    omega

theorem Overtaken.not_sentLast (overtaken : Overtaken log kind key) : ¬SentLast log kind key := by
  obtain ⟨place, answer, other, waits, follows, answered, same, final⟩ := overtaken
  rintro ⟨last, sent, after⟩
  rcases Nat.lt_trichotomy last answer with before | own | behind
  · exact (after answer before).2 other answered same
  · subst own
    rw [sent] at answered
    cases answered
  · exact final last behind sent

/-- An unanswered request that is not the last word has been overtaken. -/
theorem WaitsAt.overtaken {place : Nat} (waits : WaitsAt log kind key place)
    (past : ¬SentLast log kind key) : Overtaken log kind key := by
  obtain ⟨sent, after⟩ := id waits
  -- Some answer must have come after the last of the requests.
  let last := Nat.findGreatest (fun place => log[place]? = some (.sent kind key)) log.length
  have inside : place ≤ log.length := Nat.le_of_lt (List.getElem?_eq_some_iff.mp sent).1
  have lastSent : log[last]? = some (.sent kind key) :=
    Nat.findGreatest_spec (P := fun place => log[place]? = some (.sent kind key)) inside sent
  have reaches : place ≤ last := Nat.le_findGreatest inside sent
  have final (later : Nat) (follows : last < later) : log[later]? ≠ some (.sent kind key) := by
    by_cases within : later ≤ log.length
    · exact Nat.findGreatest_is_greatest follows within
    · rw [List.getElem?_eq_none (Nat.le_of_not_le within)]
      simp
  by_contra none
  refine past ⟨last, lastSent, fun later follows =>
    ⟨(after later (by omega)).1, fun other answered same => none ?_⟩⟩
  exact ⟨place, later, other, waits, by omega, answered, same,
    fun more beyond => final more (by omega)⟩

end RequestLog

/-- The request that a task makes. -/
def Task.request? : Task → Option (ArtifactKind × String)
  | .request kind key _ => some (kind, key)
  | _ => none

namespace Desk

variable {σ : Type} [KeyValueStore σ]

/-- The requests that an action sends. -/
def requests (desk : Desk σ) (action : Action) : List (ArtifactKind × String) :=
  (desk.dispatch action).1.tasks.filterMap Task.request?

/-- A desk can be reached from a storage with a log of its requests: whatever is done at the desk,
each artifact that arrives or fails is the first answer to a request that was sent before. -/
inductive Logged (config : DeskConfig) (storage : σ) : Desk σ → RequestLog → Prop
  | restored : Logged config storage (restore config storage) []
  | look {desk : Desk σ} {log : RequestLog} (logged : Logged config storage desk log)
      (key : String) : Logged config storage (desk.load key) log
  | act {desk : Desk σ} {log : RequestLog} (logged : Logged config storage desk log)
      (action : Action) (asks : action.settles? = none) (keeps : action ≠ .clearAll) :
      Logged config storage (desk.dispatch action).2
        (log ++ (desk.requests action).map fun request => .sent request.1 request.2)
  | clear {desk : Desk σ} {log : RequestLog} (logged : Logged config storage desk log) :
      Logged config storage (desk.dispatch .clearAll).2 (log ++ [.cleared])
  | answer {desk : Desk σ} {log : RequestLog} (logged : Logged config storage desk log)
      (action : Action) {kind : ArtifactKind} {key : String} {place : Nat}
      (settles : action.settles? = some (kind, key))
      (sent : log[place]? = some (.sent kind key)) (first : .answered place ∉ log) :
      Logged config storage (desk.dispatch action).2 (log ++ [.answered place])

theorem requests_dispatch (desk : Desk σ) (action : Action) :
    desk.requests action =
      match action with
      | .request kind =>
        if Text.isAllBlank desk.state.document.content then [] else [(kind, desk.activeKey)]
      | _ => [] := by
  unfold requests
  rw [tasks_dispatch]
  cases action with
  | request kind =>
    dsimp only
    split <;> rfl
  | openProject files =>
    dsimp only
    split <;> rfl
  | _ => rfl

/-- A request puts its artifact in flight, and nothing else that asks for no answer changes what is
in flight. -/
theorem requests_cases (desk : Desk σ) {action : Action} (asks : action.settles? = none)
    (keeps : action ≠ .clearAll) :
    (desk.requests action = [] ∧
      (desk.dispatch action).2.state.inFlight = desk.state.inFlight) ∨
    ∃ kind key, desk.requests action = [(kind, key)] ∧
      (desk.dispatch action).2.state.inFlight = desk.state.inFlight.insert kind key := by
  rw [requests_dispatch, inFlight_dispatch]
  cases action with
  | request kind =>
    dsimp only
    split
    · exact .inl ⟨rfl, rfl⟩
    · exact .inr ⟨kind, desk.activeKey, rfl, rfl⟩
  | artifactArrived message => cases asks
  | artifactFailed kind key error => cases asks
  | clearAll => exact absurd rfl keeps
  | _ => exact .inl ⟨rfl, rfl⟩

theorem inFlight_of_settles (desk : Desk σ) {action : Action} {kind : ArtifactKind} {key : String}
    (settles : action.settles? = some (kind, key)) :
    (desk.dispatch action).2.state.inFlight = desk.state.inFlight.erase kind key := by
  cases action with
  | artifactArrived message =>
    cases settles
    rfl
  | artifactFailed asked name error =>
    cases settles
    rfl
  | _ => cases settles

namespace Logged

variable {config : DeskConfig} {storage : σ} {desk : Desk σ} {log : RequestLog}

theorem orderly (logged : Logged config storage desk log) : log.Orderly := by
  induction logged with
  | restored => exact RequestLog.orderly_nil
  | look _ key ih => exact ih
  | @act desk log logged action asks keeps ih =>
    rcases desk.requests_cases asks keeps with ⟨silent, _⟩ | ⟨kind, key, sends, _⟩
    · rwa [silent, List.map_nil, List.append_nil]
    · rw [sends]
      exact ih.append nofun
  | clear _ ih => exact ih.append nofun
  | answer _ action settles sent first ih =>
    obtain ⟨inside, _⟩ := List.getElem?_eq_some_iff.mp sent
    refine ih.append ?_
    rintro _ ⟨⟩
    exact ⟨inside, first⟩

/-- Every step keeps the agreement of what is in flight with the log. -/
theorem contains_iff (logged : Logged config storage desk log) (kind : ArtifactKind)
    (key : String) :
    desk.state.inFlight.contains kind key = true ↔ RequestLog.SentLast log kind key := by
  induction logged with
  | restored => exact iff_of_false Bool.false_ne_true RequestLog.not_sentLast_nil
  | look _ other ih => exact ih
  | @act desk log logged action asks keeps ih =>
    rcases desk.requests_cases asks keeps with ⟨silent, same⟩ | ⟨asked, name, sends, inserted⟩
    · rwa [silent, same, List.map_nil, List.append_nil]
    · rw [sends, inserted, InFlight.contains_insert, Bool.or_eq_true, decide_eq_true_eq, ih]
      refine .trans ?_ (RequestLog.sentLast_append logged.orderly).symm
      simp [eq_comm]
  | clear logged ih =>
    refine iff_of_false Bool.false_ne_true fun last => ?_
    simpa using (RequestLog.sentLast_append logged.orderly).mp last
  | answer logged action settles sent first ih =>
    rw [inFlight_of_settles _ settles, InFlight.contains_erase, Bool.and_eq_true,
      decide_eq_true_eq, ih]
    refine .trans ?_ (RequestLog.sentLast_append logged.orderly).symm
    simp [sent, and_comm, eq_comm]

end Logged

/-- An artifact is in flight exactly when it was asked for since the last clearing and no answer to
a request for it has come after that; then a request is unanswered. The other way round, an artifact
of which a request is unanswered is in flight if no two requests for it ever overlapped, and is not
exactly when the unanswered request has been overtaken. -/
theorem inFlight_iff_sentLast {config : DeskConfig} {storage : σ} {desk : Desk σ}
    {log : RequestLog} (logged : Logged config storage desk log) (kind : ArtifactKind)
    (key : String) :
    let awaited := desk.state.inFlight.contains kind key
    (awaited = true ↔ RequestLog.SentLast log kind key) ∧
    (key = desk.activeKey → desk.isLoading kind = awaited) ∧
    (awaited = true → RequestLog.Unanswered log kind key) ∧
    (¬RequestLog.Overlaps log kind key →
      (awaited = true ↔ RequestLog.Unanswered log kind key)) ∧
    (RequestLog.Unanswered log kind key ∧ awaited = false ↔
      RequestLog.Overtaken log kind key) := by
  intro awaited
  have agrees : awaited = true ↔ RequestLog.SentLast log kind key := logged.contains_iff kind key
  have sound (held : awaited = true) : RequestLog.Unanswered log kind key :=
    (agrees.mp held).unanswered
  refine ⟨agrees, ?_, sound, fun serial => ⟨sound, ?_⟩, ?_, ?_⟩
  · rintro rfl
    rfl
  · rintro ⟨place, waits⟩
    exact agrees.mpr (waits.sentLast logged.orderly serial)
  · rintro ⟨⟨place, waits⟩, gone⟩
    refine waits.overtaken fun last => ?_
    rw [agrees.mpr last] at gone
    cases gone
  · intro overtaken
    obtain ⟨place, answer, other, waits, _⟩ := id overtaken
    refine ⟨⟨place, waits⟩, Bool.eq_false_iff.mpr fun held => ?_⟩
    exact overtaken.not_sentLast (agrees.mp held)

/-- Two requests for one explanation are sent, and the first answer arrives: the second request is
unanswered, and nothing is loading. -/
theorem first_answer_ends_loading :
    let desk := (restore {} (SortedMap.empty : Entries)).run
      [.act (.openSingle "a.v" "module a;"), .act (.request .explanation),
        .act (.request .explanation), .act (.artifactArrived ⟨.explanation, "a.v", "A module."⟩)]
    let log : RequestLog := [.sent .explanation "a.v", .sent .explanation "a.v", .answered 0]
    Logged {} SortedMap.empty desk log ∧ RequestLog.Unanswered log .explanation "a.v" ∧
    desk.isLoading .explanation = false := by
  intro desk log
  have start : Logged {} (SortedMap.empty : Entries) _ _ := .restored
  have opened := start.act (.openSingle "a.v" "module a;") rfl nofun
  have asked := (opened.act (.request .explanation) rfl nofun).act (.request .explanation) rfl nofun
  have sent : Logged {} (SortedMap.empty : Entries) _
      [.sent .explanation "a.v", .sent .explanation "a.v"] := asked
  have first : RequestEvent.answered 0 ∉
      [RequestEvent.sent .explanation "a.v", .sent .explanation "a.v"] := by decide
  have logged : Logged {} (SortedMap.empty : Entries) desk log :=
    sent.answer (.artifactArrived ⟨.explanation, "a.v", "A module."⟩) rfl rfl first
  -- The second request waits, but the last event is the answer to the first.
  have waits : RequestLog.WaitsAt log .explanation "a.v" 1 := ⟨rfl, by grind⟩
  have overtaken : RequestLog.Overtaken log .explanation "a.v" :=
    ⟨1, 2, 0, waits, by decide, rfl, rfl, by grind⟩
  obtain ⟨_, loading, _, _, exactly⟩ := inFlight_iff_sentLast logged .explanation "a.v"
  obtain ⟨unanswered, gone⟩ := exactly.mpr overtaken
  exact ⟨logged, unanswered, (loading (by decide +kernel)).trans gone⟩

end Desk

end HdlDesk
