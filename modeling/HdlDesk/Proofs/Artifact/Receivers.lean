import HdlDesk.Proofs.Artifact.Mailboxes

/-!
# Each artifact reaches one receiver, once and in order

Whoever connects to the switchboard gets a receiver: one mailbox, or one of each kind. From then on
anything can happen in any order: others connect in his place, lines are disconnected, receivers are
dropped, artifacts are delivered and taken out. Who listens at a point is told by the history alone,
so the artifacts that a mailbox should have had are known without looking at the switchboard. The
account says that it has had just these: they were returned in order, or wait in order behind those
that were, or were lost with the receiver when it was dropped.
-/
namespace HdlDesk

/-- What somebody who connects gets. -/
inductive Receiver where
  | one (number : Nat)
  | both (consumer : Consumer)

namespace Receiver

def numbers : Receiver → List Nat
  | .one number => [number]
  | .both consumer => [consumer.explanation, consumer.testbench]

end Receiver

/-- What is done at a switchboard. Receivers are counted in the order in which they were given out;
nothing is done for one that was not. -/
inductive Handling where
  | connect (kind : ArtifactKind)
  | connectBoth
  | disconnect (kind : ArtifactKind)
  | drop (who : Nat)
  | deliver (message : ArtifactMessage)
  | take (who : Nat)
  | drain (who : Nat)

/-- The messages of one mailbox, from a list in which each stands with the number of its mailbox. -/
def messagesOf (number : Nat) (log : List (Nat × ArtifactMessage)) : List ArtifactMessage :=
  (log.filter fun entry => entry.1 = number).map Prod.snd

/-! ### The switchboard in use -/

/-- A switchboard with the receivers that were given out, the messages that were returned to them,
and those that were lost with a receiver. -/
structure Traffic where
  board : Switchboard := {}
  receivers : List Receiver := []
  returned : List (Nat × ArtifactMessage) := []
  lost : List (Nat × ArtifactMessage) := []

namespace Traffic

def closeBox (traffic : Traffic) (number : Nat) : Traffic :=
  { traffic with
    board := traffic.board.close number
    lost := traffic.lost ++ (traffic.board.waiting number).map fun message => (number, message) }

/-- A message comes out of a mailbox. -/
def returns (traffic : Traffic) (number : Nat) (message : ArtifactMessage) (board : Switchboard) :
    Traffic :=
  { traffic with board := board, returned := traffic.returned ++ [(number, message)] }

def takeFrom (traffic : Traffic) : Receiver → Traffic
  | .one number =>
    match traffic.board.read number with
    | (.message message, board) => traffic.returns number message board
    | _ => traffic
  | .both consumer =>
    match traffic.board.take consumer with
    | (some message, board) => traffic.returns (consumer.number message.kind) message board
    | (none, board) => { traffic with board := board }

/-- Takes everything out of the mailboxes of a consumer, if a receiver is one. -/
def drainFrom (traffic : Traffic) : Receiver → Traffic
  | .one _ => traffic
  | .both consumer =>
    let (messages, board) := traffic.board.drain consumer
    { traffic with
      board := board
      returned := traffic.returned ++
        messages.map fun message => (consumer.number message.kind, message) }

def after (traffic : Traffic) : Handling → Traffic
  | .connect kind =>
    let (number, board) := traffic.board.connect kind
    { traffic with board := board, receivers := traffic.receivers ++ [.one number] }
  | .connectBoth =>
    let (consumer, board) := traffic.board.connectBoth
    { traffic with board := board, receivers := traffic.receivers ++ [.both consumer] }
  | .disconnect kind => { traffic with board := traffic.board.disconnect kind }
  | .drop who =>
    match traffic.receivers[who]? with
    | some receiver => receiver.numbers.foldl closeBox traffic
    | none => traffic
  | .deliver message => { traffic with board := (traffic.board.deliver message).2 }
  | .take who => (traffic.receivers[who]?).elim traffic traffic.takeFrom
  | .drain who => (traffic.receivers[who]?).elim traffic traffic.drainFrom

end Traffic

/-! ### Who listens, by the history alone -/

/-- What the history says: the receivers that were given out, the kind of each mailbox that was made
for them, which mailbox was connected last at a point and has not been disconnected, which mailboxes
were dropped, and for each message that somebody was there for, the mailbox that was to have it. -/
structure Audience where
  receivers : List Receiver := []
  kinds : List ArtifactKind := []
  listener : ArtifactKind → Option Nat := fun _ => none
  dropped : List Nat := []
  sent : List (Nat × ArtifactMessage) := []

namespace Audience

def connect (audience : Audience) (kind : ArtifactKind) : Audience :=
  { audience with
    kinds := audience.kinds ++ [kind]
    listener := fun other =>
      if other = kind then some audience.kinds.length else audience.listener other }

def disconnect (audience : Audience) (kind : ArtifactKind) : Audience :=
  { audience with
    listener := fun other => if other = kind then none else audience.listener other }

/-- The number of the mailbox that is to have the next message of a kind: the one that listens,
unless it was dropped. -/
def addressee? (audience : Audience) (kind : ArtifactKind) : Option Nat :=
  (audience.listener kind).filter fun number => number ∉ audience.dropped

def after (audience : Audience) : Handling → Audience
  | .connect kind =>
    { audience.connect kind with
      receivers := audience.receivers ++ [.one audience.kinds.length] }
  | .connectBoth =>
    { (audience.connect .explanation).connect .testbench with
      receivers := audience.receivers ++
        [.both ⟨audience.kinds.length, audience.kinds.length + 1⟩] }
  | .disconnect kind => audience.disconnect kind
  | .drop who =>
    { audience with
      dropped := audience.dropped ++ (audience.receivers[who]?).elim [] Receiver.numbers }
  | .deliver message =>
    { audience with
      sent := audience.sent ++
        (audience.addressee? message.kind).toList.map fun number => (number, message) }
  | .take _ | .drain _ => audience

end Audience

/-! ### The switchboard agrees with the history -/

@[simp] theorem messagesOf_append (number : Nat) (log more : List (Nat × ArtifactMessage)) :
    messagesOf number (log ++ more) = messagesOf number log ++ messagesOf number more := by
  simp [messagesOf]

theorem messagesOf_map_mk (number other : Nat) (messages : List ArtifactMessage) :
    messagesOf number (messages.map fun message => (other, message)) =
      if number = other then messages else [] := by
  by_cases same : number = other
  · simp [messagesOf, same, List.filter_map, Function.comp_def]
  · simp [messagesOf, same, Ne.symm same, List.filter_map, Function.comp_def]

theorem messagesOf_singleton (number other : Nat) (message : ArtifactMessage) :
    messagesOf number [(other, message)] = if number = other then [message] else [] :=
  messagesOf_map_mk number other [message]

theorem mem_messagesOf {number : Nat} {message : ArtifactMessage}
    {log : List (Nat × ArtifactMessage)} :
    message ∈ messagesOf number log ↔ (number, message) ∈ log := by
  simp [messagesOf]

namespace Audience

variable {audience : Audience}

theorem addressee?_eq_some {kind : ArtifactKind} {number : Nat} :
    audience.addressee? kind = some number ↔
      audience.listener kind = some number ∧ number ∉ audience.dropped := by
  simp [addressee?, Option.filter_eq_some_iff]

theorem addressee?_congr {next : Audience} {kind : ArtifactKind}
    (listener : next.listener kind = audience.listener kind)
    (dropped : next.dropped = audience.dropped) :
    next.addressee? kind = audience.addressee? kind := by
  rw [addressee?, listener, dropped, addressee?]

/-- A receiver has mailboxes that were made, and of a consumer's two each is for its kind. -/
def Fits (audience : Audience) : Receiver → Prop
  | .one number => number < audience.kinds.length
  | .both consumer => ∀ kind, audience.kinds[consumer.number kind]? = some kind

theorem Fits.lt_length {receiver : Receiver} (fits : audience.Fits receiver) {number : Nat}
    (mine : number ∈ receiver.numbers) : number < audience.kinds.length := by
  cases receiver with
  | one other =>
    rw [List.mem_singleton.mp mine]
    exact fits
  | both consumer =>
    have inside (kind : ArtifactKind) : consumer.number kind < audience.kinds.length :=
      (List.getElem?_eq_some_iff.mp (fits kind)).1
    rcases List.mem_pair.mp mine with rfl | rfl
    · exact inside .explanation
    · exact inside .testbench

theorem Fits.distinct {consumer : Consumer} (fits : audience.Fits (.both consumer)) :
    consumer.explanation ≠ consumer.testbench := by
  intro same
  have explanation : audience.kinds[consumer.explanation]? = some .explanation := fits .explanation
  have testbench : audience.kinds[consumer.testbench]? = some .testbench := fits .testbench
  rw [same, testbench] at explanation
  contradiction

theorem Fits.connect {receiver : Receiver} (fits : audience.Fits receiver) (kind : ArtifactKind) :
    (audience.connect kind).Fits receiver := by
  cases receiver with
  | one number =>
    have inside : number < audience.kinds.length := fits
    simp only [Fits, Audience.connect, List.length_append, List.length_singleton]
    omega
  | both consumer =>
    intro other
    rw [Audience.connect, List.getElem?_append_left (fits.lt_length (by cases other <;> simp
      [Receiver.numbers, Consumer.number]))]
    exact fits other

end Audience

/-- The switchboard in use is as the history says. A point where nobody listens may still be
connected to a closed mailbox, and one with a closed mailbox may have been disconnected. -/
structure Traffic.Agrees (traffic : Traffic) (audience : Audience) : Prop where
  receivers : traffic.receivers = audience.receivers
  length : traffic.board.mailboxes.length = audience.kinds.length
  open_iff : ∀ number, traffic.board.isOpen number = true ↔
    number < audience.kinds.length ∧ number ∉ audience.dropped
  line : ∀ kind, traffic.board.line kind = audience.listener kind ∨
    traffic.board.line kind = none ∧ audience.addressee? kind = none
  listener : ∀ kind number, audience.listener kind = some number →
    audience.kinds[number]? = some kind
  fits : ∀ receiver ∈ audience.receivers, audience.Fits receiver
  dropped : ∀ number ∈ audience.dropped, number < audience.kinds.length ∧
    traffic.board.waiting number = []
  held : ∀ number, number ∉ audience.dropped → messagesOf number traffic.lost = []
  sent : ∀ number message, (number, message) ∈ audience.sent →
    audience.kinds[number]? = some message.kind
  account : ∀ number, messagesOf number traffic.returned ++
    (traffic.board.waiting number ++ messagesOf number traffic.lost) =
      messagesOf number audience.sent

namespace Traffic.Agrees

variable {traffic : Traffic} {audience : Audience}

theorem init : Agrees {} {} where
  receivers := rfl
  length := rfl
  open_iff number := by simp [Switchboard.isOpen]
  line kind := by cases kind <;> exact .inl rfl
  listener kind number listens := by contradiction
  fits receiver given := by contradiction
  dropped number gone := by contradiction
  held _ _ := rfl
  sent _ _ was := by contradiction
  account _ := rfl

/-- What waits in a mailbox is of its kind. -/
theorem kind_of_waiting (agrees : traffic.Agrees audience) {number : Nat}
    {message : ArtifactMessage} (waits : message ∈ traffic.board.waiting number) :
    audience.kinds[number]? = some message.kind := by
  refine agrees.sent number message (mem_messagesOf.mp ?_)
  rw [← agrees.account]
  simp [waits]

theorem connect (agrees : traffic.Agrees audience) (kind : ArtifactKind) :
    Agrees { traffic with board := (traffic.board.connect kind).2 } (audience.connect kind) where
  receivers := agrees.receivers
  length := by
    simp [Switchboard.mailboxes_connect, Audience.connect, agrees.length]
  open_iff number := by
    -- Numbers are never reused, so the new mailbox cannot be among the dropped ones.
    have fresh : audience.kinds.length ∉ audience.dropped := fun gone =>
      Nat.lt_irrefl _ (agrees.dropped _ gone).1
    rw [Switchboard.isOpen_connect, Bool.or_eq_true, decide_eq_true_eq, agrees.open_iff,
      agrees.length]
    simp only [Audience.connect, List.length_append, List.length_singleton]
    constructor
    · rintro (rfl | ⟨inside, alive⟩)
      · exact ⟨Nat.lt_succ_self _, fresh⟩
      · exact ⟨Nat.lt_succ_of_lt inside, alive⟩
    · rintro ⟨inside, alive⟩
      rcases Nat.lt_succ_iff_lt_or_eq.mp inside with inside | same
      · exact .inr ⟨inside, alive⟩
      · exact .inl same
  line other := by
    rw [Switchboard.line_connect, agrees.length]
    by_cases same : other = kind
    · exact .inl (by simp [Audience.connect, same])
    · have kept : (audience.connect kind).listener other = audience.listener other := if_neg same
      rw [if_neg same, Audience.addressee?_congr kept rfl, kept]
      exact agrees.line other
  listener other number listens := by
    by_cases same : other = kind
    · simp only [Audience.connect, same, if_pos, Option.some.injEq] at listens
      simp [Audience.connect, same, ← listens]
    · simp only [Audience.connect, same, if_neg, not_false_eq_true] at listens
      have found := agrees.listener other number listens
      rw [Audience.connect, List.getElem?_append_left (List.getElem?_eq_some_iff.mp found).1]
      exact found
  fits receiver given := (agrees.fits receiver given).connect kind
  dropped number gone := by
    obtain ⟨inside, emptied⟩ := agrees.dropped number gone
    refine ⟨?_, (traffic.board.waiting_connect kind number).trans emptied⟩
    simp only [Audience.connect, List.length_append, List.length_singleton]
    omega
  held := agrees.held
  sent number message was := by
    have found := agrees.sent number message was
    rw [Audience.connect, List.getElem?_append_left (List.getElem?_eq_some_iff.mp found).1]
    exact found
  account number := by
    rw [Switchboard.waiting_connect]
    exact agrees.account number

/-- A receiver is given out. -/
theorem give (agrees : traffic.Agrees audience) {receiver : Receiver}
    (fits : audience.Fits receiver) :
    Agrees { traffic with receivers := traffic.receivers ++ [receiver] }
      { audience with receivers := audience.receivers ++ [receiver] } :=
  { agrees with
    receivers := by rw [agrees.receivers]
    fits := by
      intro other given
      rcases List.mem_append.mp given with given | given
      · exact agrees.fits other given
      · rw [List.mem_singleton.mp given]
        exact fits }

theorem disconnect (agrees : traffic.Agrees audience) (kind : ArtifactKind) :
    Agrees { traffic with board := traffic.board.disconnect kind } (audience.disconnect kind) where
  receivers := agrees.receivers
  length := (congrArg List.length (traffic.board.mailboxes_disconnect kind)).trans agrees.length
  open_iff number := by
    rw [Switchboard.isOpen_disconnect]
    exact agrees.open_iff number
  line other := by
    rw [Switchboard.line_disconnect]
    by_cases same : other = kind
    · exact .inl (by simp [Audience.disconnect, same])
    · have kept : (audience.disconnect kind).listener other = audience.listener other :=
        if_neg same
      rw [if_neg same, Audience.addressee?_congr kept rfl, kept]
      exact agrees.line other
  listener other number listens := by
    by_cases same : other = kind
    · simp [Audience.disconnect, same] at listens
    · simp only [Audience.disconnect, same, if_neg, not_false_eq_true] at listens
      exact agrees.listener other number listens
  fits := agrees.fits
  dropped number gone := by
    rw [Switchboard.waiting_disconnect]
    exact agrees.dropped number gone
  held := agrees.held
  sent := agrees.sent
  account number := by
    rw [Switchboard.waiting_disconnect]
    exact agrees.account number

/-- One mailbox of a receiver is dropped. -/
theorem closeBox (agrees : traffic.Agrees audience) {number : Nat}
    (inside : number < audience.kinds.length) :
    Agrees (traffic.closeBox number) { audience with dropped := audience.dropped ++ [number] } where
  receivers := agrees.receivers
  length := (traffic.board.length_close number).trans agrees.length
  open_iff other := by
    simp [Traffic.closeBox, Switchboard.isOpen_close, agrees.open_iff, and_assoc]
  line kind := by
    simp only [Traffic.closeBox, Switchboard.line_close]
    rcases agrees.line kind with same | ⟨off, nobody⟩
    · exact .inl same
    · -- A point that was off stays off: to drop a mailbox finds nobody a listener.
      refine .inr ⟨off, Option.eq_none_iff_forall_ne_some.mpr fun other listens => ?_⟩
      obtain ⟨listens, alive⟩ := Audience.addressee?_eq_some.mp listens
      have listened : audience.addressee? kind = some other :=
        Audience.addressee?_eq_some.mpr ⟨listens, fun gone => alive (by simp [gone])⟩
      rw [nobody] at listened
      contradiction
  listener := agrees.listener
  fits := agrees.fits
  dropped other gone := by
    simp only [Traffic.closeBox, Switchboard.waiting_close]
    rcases List.mem_append.mp gone with gone | gone
    · obtain ⟨inside, emptied⟩ := agrees.dropped other gone
      exact ⟨inside, by rw [emptied, ite_self]⟩
    · rw [List.mem_singleton.mp gone]
      exact ⟨inside, if_pos rfl⟩
  held other alive := by
    rw [List.mem_append, not_or, List.mem_singleton] at alive
    simp [Traffic.closeBox, messagesOf_map_mk, alive.2, agrees.held other alive.1]
  sent := agrees.sent
  account other := by
    have account := agrees.account other
    simp only [Traffic.closeBox, Switchboard.waiting_close, messagesOf_append, messagesOf_map_mk]
    by_cases same : other = number
    · -- A mailbox that was dropped before has nothing left to lose.
      subst same
      by_cases gone : other ∈ audience.dropped
      · simpa [(agrees.dropped other gone).2] using account
      · simpa [agrees.held other gone] using account
    · simpa [same] using account

theorem closeBoxes (agrees : traffic.Agrees audience) (numbers : List Nat)
    (inside : ∀ number ∈ numbers, number < audience.kinds.length) :
    Agrees (numbers.foldl Traffic.closeBox traffic)
      { audience with dropped := audience.dropped ++ numbers } := by
  induction numbers generalizing traffic audience with
  | nil => simpa using agrees
  | cons number rest ih =>
    have next := agrees.closeBox (inside number List.mem_cons_self)
    simpa using ih next fun other mine => inside other (List.mem_cons_of_mem _ mine)

/-- A message goes to the mailbox that is to have it, and with nobody there for it the point is
left disconnected. -/
theorem deliver_cases (agrees : traffic.Agrees audience) (message : ArtifactMessage) :
    (∃ number, audience.addressee? message.kind = some number ∧
      traffic.board.deliver message =
        (true, traffic.board.requeue number (· ++ [message]))) ∨
    audience.addressee? message.kind = none ∧
      traffic.board.deliver message = (false, traffic.board.disconnect message.kind) := by
  rcases agrees.line message.kind with same | ⟨off, nobody⟩
  · cases listens : audience.listener message.kind with
    | none =>
      -- Nothing was connected, so there is nothing to disconnect either.
      rw [listens] at same
      refine .inr ⟨by simp [Audience.addressee?, listens], ?_⟩
      rw [Switchboard.deliver_of_no_line _ same, Switchboard.disconnect_of_no_line _ same]
    | some number =>
      rw [listens] at same
      have inside := (List.getElem?_eq_some_iff.mp (agrees.listener _ _ listens)).1
      -- A mailbox that was dropped is found closed, and that disconnects it.
      by_cases gone : number ∈ audience.dropped
      · have closed : ¬traffic.board.isOpen number = true := fun opened =>
          ((agrees.open_iff number).mp opened).2 gone
        refine .inr ⟨by simp [Audience.addressee?, listens, gone], ?_⟩
        rw [Switchboard.deliver_of_line _ same, if_neg closed]
      · have opened := (agrees.open_iff number).mpr ⟨inside, gone⟩
        refine .inl ⟨number, Audience.addressee?_eq_some.mpr ⟨listens, gone⟩, ?_⟩
        rw [Switchboard.deliver_of_line _ same, if_pos opened]
  · refine .inr ⟨nobody, ?_⟩
    rw [Switchboard.deliver_of_no_line _ off, Switchboard.disconnect_of_no_line _ off]

theorem deliver (agrees : traffic.Agrees audience) (message : ArtifactMessage) :
    Agrees (traffic.after (.deliver message)) (audience.after (.deliver message)) := by
  rcases agrees.deliver_cases message with ⟨number, addressed, delivered⟩ | ⟨nobody, refused⟩
  · obtain ⟨listens, alive⟩ := Audience.addressee?_eq_some.mp addressed
    have kind := agrees.listener _ _ listens
    have inside : number < traffic.board.mailboxes.length :=
      agrees.length ▸ (List.getElem?_eq_some_iff.mp kind).1
    simp only [Traffic.after, Audience.after, delivered, addressed, Option.toList_some,
      List.map_singleton]
    exact
      { agrees with
        length := by simpa using agrees.length
        open_iff := by simpa using agrees.open_iff
        line := by simpa [Audience.addressee?] using agrees.line
        dropped := by
          intro other gone
          have others : other ≠ number := fun same => alive (same ▸ gone)
          rw [Switchboard.waiting_requeue _ inside, if_neg others]
          exact agrees.dropped other gone
        sent := by
          intro other sent was
          rcases List.mem_append.mp was with was | was
          · exact agrees.sent other sent was
          · obtain ⟨rfl, rfl⟩ := Prod.mk.inj (List.mem_singleton.mp was)
            exact kind
        account := by
          -- The message is the last that waits, and nothing behind it has been lost.
          intro other
          have account := agrees.account other
          rw [Switchboard.waiting_requeue _ inside, messagesOf_append, messagesOf_singleton,
            ← account]
          by_cases same : other = number
          · subst same
            simp [agrees.held other alive]
          · simp [same] }
  · simp only [Traffic.after, Audience.after, refused, nobody, Option.toList_none, List.map_nil,
      List.append_nil]
    exact
      { agrees with
        length := by simpa using agrees.length
        open_iff := by simpa using agrees.open_iff
        line := by
          intro other
          rw [Switchboard.line_disconnect]
          by_cases same : other = message.kind
          · exact .inr ⟨if_pos same, same ▸ nobody⟩
          · rw [if_neg same]
            exact agrees.line other
        dropped := by simpa using agrees.dropped
        account := by simpa using agrees.account }

/-- The message that has waited longest is returned. -/
theorem returns (agrees : traffic.Agrees audience) {number : Nat} {message : ArtifactMessage}
    {rest : List ArtifactMessage} (waits : traffic.board.waiting number = message :: rest) :
    Agrees (traffic.returns number message (traffic.board.requeue number fun _ => rest))
      audience := by
  have inside := traffic.board.lt_length_of_waiting (by rw [waits]; exact List.cons_ne_nil _ _)
  exact
    { agrees with
      length := by simpa [Traffic.returns] using agrees.length
      open_iff := by simpa [Traffic.returns] using agrees.open_iff
      line := by simpa [Traffic.returns] using agrees.line
      dropped := by
        intro other gone
        obtain ⟨made, emptied⟩ := agrees.dropped other gone
        -- A dropped mailbox is empty, so it is not the one that is read.
        have others : other ≠ number := by
          rintro rfl
          rw [waits] at emptied
          contradiction
        simp only [Traffic.returns, Switchboard.waiting_requeue _ inside, if_neg others]
        exact ⟨made, emptied⟩
      account := by
        intro other
        rw [← agrees.account other]
        simp only [Traffic.returns, Switchboard.waiting_requeue _ inside, messagesOf_append,
          messagesOf_singleton]
        by_cases same : other = number
        · subst same
          simp [waits]
        · simp [same] }

/-- A consumer's message comes from his mailbox for its kind. -/
theorem returns_both (agrees : traffic.Agrees audience) {consumer : Consumer}
    (fits : audience.Fits (.both consumer)) {kind : ArtifactKind} {message : ArtifactMessage}
    {rest : List ArtifactMessage}
    (waits : traffic.board.waiting (consumer.number kind) = message :: rest) :
    Agrees (traffic.returns (consumer.number message.kind) message
      (traffic.board.requeue (consumer.number kind) fun _ => rest)) audience := by
  have found := agrees.kind_of_waiting (waits ▸ List.mem_cons_self)
  rw [fits kind] at found
  rw [← Option.some.inj found]
  exact agrees.returns waits

theorem takeFrom (agrees : traffic.Agrees audience) {receiver : Receiver}
    (fits : audience.Fits receiver) : Agrees (traffic.takeFrom receiver) audience := by
  cases receiver with
  | one number =>
    cases waits : traffic.board.waiting number with
    | nil =>
      rcases traffic.board.read_of_nil waits with empty | empty <;>
        simpa only [Traffic.takeFrom, empty] using agrees
    | cons message rest =>
      simpa only [Traffic.takeFrom, traffic.board.read_of_cons waits] using agrees.returns waits
  | both consumer =>
    rcases traffic.board.take_cases fits.distinct with
      ⟨kind, message, rest, waits, taken, _⟩ | ⟨_, nothing⟩
    · simpa only [Traffic.takeFrom, taken] using agrees.returns_both fits waits
    · simpa only [Traffic.takeFrom, nothing] using agrees

theorem drainFrom (agrees : traffic.Agrees audience) {receiver : Receiver}
    (fits : audience.Fits receiver) : Agrees (traffic.drainFrom receiver) audience := by
  cases receiver with
  | one number => exact agrees
  | both consumer =>
    -- The messages that are out already count as returned.
    let out (messages : List ArtifactMessage) (board : Switchboard) : Traffic :=
      { traffic with
        board := board
        returned := traffic.returned ++
          messages.map fun message => (consumer.number message.kind, message) }
    refine traffic.board.drain_induct fits.distinct
      (fun messages board => (out messages board).Agrees audience)
      (fun before reached kind message rest waits agrees => ?_) ?_
    · simpa [out, Traffic.returns] using agrees.returns_both fits waits
    · simpa [out] using agrees

theorem after (agrees : traffic.Agrees audience) (handling : Handling) :
    Agrees (traffic.after handling) (audience.after handling) := by
  cases handling with
  | connect kind =>
    have fits : (audience.connect kind).Fits (.one audience.kinds.length) := by
      simp [Audience.Fits, Audience.connect]
    have number : (traffic.board.connect kind).1 = audience.kinds.length := agrees.length
    simp only [Traffic.after, Audience.after, number]
    exact (agrees.connect kind).give fits
  | connectBoth =>
    have fits : ((audience.connect .explanation).connect .testbench).Fits
        (.both ⟨audience.kinds.length, audience.kinds.length + 1⟩) := by
      intro kind
      cases kind <;> simp [Audience.connect, Consumer.number]
    have explanation : (traffic.board.connect .explanation).1 = audience.kinds.length :=
      agrees.length
    -- The second mailbox is made with the first one there already.
    have testbench : ((traffic.board.connect .explanation).2.connect .testbench).1 =
        audience.kinds.length + 1 := by
      rw [← agrees.length]
      exact List.length_append
    simp only [Traffic.after, Audience.after, Switchboard.connectBoth, explanation, testbench]
    exact ((agrees.connect .explanation).connect .testbench).give fits
  | disconnect kind => exact agrees.disconnect kind
  | drop who =>
    simp only [Traffic.after, Audience.after, agrees.receivers]
    cases given : audience.receivers[who]? with
    | none => simpa using agrees
    | some receiver =>
      have fits := agrees.fits receiver (List.mem_of_getElem? given)
      exact agrees.closeBoxes receiver.numbers fun number mine => fits.lt_length mine
  | deliver message => exact agrees.deliver message
  | take who =>
    simp only [Traffic.after, Audience.after, agrees.receivers]
    cases given : audience.receivers[who]? with
    | none => exact agrees
    | some receiver => exact agrees.takeFrom (agrees.fits receiver (List.mem_of_getElem? given))
  | drain who =>
    simp only [Traffic.after, Audience.after, agrees.receivers]
    cases given : audience.receivers[who]? with
    | none => exact agrees
    | some receiver => exact agrees.drainFrom (agrees.fits receiver (List.mem_of_getElem? given))

theorem run (agrees : traffic.Agrees audience) (history : List Handling) :
    Agrees (history.foldl Traffic.after traffic) (history.foldl Audience.after audience) := by
  induction history generalizing traffic audience with
  | nil => exact agrees
  | cons handling rest ih => exact ih (agrees.after handling)

end Traffic.Agrees

/-- After any history each mailbox has had just the messages that were delivered at its point while
it listened there and was not dropped, in order and each once: they were returned, or wait, or were
lost when it was dropped. The next message is accepted just if somebody listens who was not dropped,
and a refused one changes no mailbox and leaves its point disconnected. Draining the mailboxes of a
consumer empties both and returns what waited, explanations first. -/
theorem Traffic.delivers_once (history : List Handling) :
    let traffic := history.foldl Traffic.after {}
    let audience := history.foldl Audience.after {}
    traffic.receivers = audience.receivers ∧
    (∀ number,
      messagesOf number traffic.returned ++
        (traffic.board.waiting number ++ messagesOf number traffic.lost) =
          messagesOf number audience.sent ∧
      (number ∉ audience.dropped → messagesOf number traffic.lost = []) ∧
      ∀ message ∈ messagesOf number audience.sent,
        audience.kinds[number]? = some message.kind) ∧
    (∀ message : ArtifactMessage,
      let next := traffic.board.deliver message
      (next.1 = true ↔
        ∃ number, audience.listener message.kind = some number ∧ number ∉ audience.dropped) ∧
      (next.1 = false → (∀ number, next.2.waiting number = traffic.board.waiting number) ∧
        next.2.isConnected message.kind = false)) ∧
    ∀ consumer, .both consumer ∈ traffic.receivers →
      (traffic.board.drain consumer).1 =
        traffic.board.waiting consumer.explanation ++ traffic.board.waiting consumer.testbench ∧
      (traffic.board.drain consumer).2.waiting consumer.explanation = [] ∧
      (traffic.board.drain consumer).2.waiting consumer.testbench = [] := by
  intro traffic audience
  have agrees : traffic.Agrees audience := Agrees.init.run history
  refine ⟨agrees.receivers, fun number => ⟨agrees.account number, agrees.held number, ?_⟩, ?_, ?_⟩
  · intro message was
    exact agrees.sent number message (mem_messagesOf.mp was)
  · intro message next
    simp only [← Audience.addressee?_eq_some]
    rcases agrees.deliver_cases message with ⟨number, addressed, delivered⟩ | ⟨nobody, refused⟩
    · have accepted : next.1 = true := congrArg Prod.fst delivered
      exact ⟨⟨fun _ => ⟨number, addressed⟩, fun _ => accepted⟩, by simp [accepted]⟩
    · have refusal : next = (false, traffic.board.disconnect message.kind) := refused
      simp [refusal, nobody, Switchboard.isConnected, Switchboard.line_disconnect]
  · intro consumer given
    have fits := agrees.fits (.both consumer) (agrees.receivers ▸ given)
    obtain ⟨messages, emptied⟩ := traffic.board.drain_spec fits.distinct
    exact ⟨messages, List.append_eq_nil_iff.mp emptied⟩

end HdlDesk
