import Mathlib.Data.List.Pairwise
import HdlDesk.Proofs.Desk.Exchange

/-!
# The order of late arrivals does not matter

Work that was started ends whenever it ends, so artifacts and failures come in any order and between
any two actions of the user. As long as they are taken in under the keys they were asked for, the
order shows in nothing: deeds for different files can be exchanged, and for one file that is not
active so can the two kinds of artifact. Only what comes for the active file has to stay in its
place, because it is shown at once.
-/
namespace HdlDesk

/-- The display key of the request that an action ends. -/
def Action.lateKey? : Action → Option String
  | .artifactArrived message => some message.key
  | .artifactFailed _ key _ => some key
  | _ => none

namespace Desk

variable {σ : Type} [KeyValueStore σ]

/-- Artifacts arrive one after the other. -/
def receive (desk : Desk σ) (messages : List ArtifactMessage) : Desk σ :=
  desk.run (messages.map fun message => .act (.artifactArrived message))

/-! ### Artifacts among themselves -/

/-- The deeds for an artifact that is taken in under its own key. -/
def arrivalDeeds (isActive : Bool) (message : ArtifactMessage) : List Deed :=
  [.change message.key fun entry => entry.withArtifact message.kind message.payload isActive,
    .settle message.kind message.key]

omit [KeyValueStore σ] in
theorem target_originating (desk : Desk σ) (originating : desk.config.responseBinding = .originating)
    (message : ArtifactMessage) : desk.target message = message.key := by
  unfold target
  rw [originating]

omit [KeyValueStore σ] in
theorem deeds_artifactArrived {desk : Desk σ}
    (originating : desk.config.responseBinding = .originating) (message : ArtifactMessage) :
    desk.deeds (.artifactArrived message) =
      arrivalDeeds (message.key = desk.activeKey) message := by
  simp only [deeds, target_originating desk originating]
  rfl

/-- The artifacts answer different requests, and not both are for the active file. -/
def Unrelated (active : String) (message other : ArtifactMessage) : Prop :=
  (message.kind, message.key) ≠ (other.kind, other.key) ∧
  ¬(message.key = active ∧ other.key = active)

theorem Unrelated.symm {active : String} {message other : ArtifactMessage}
    (unrelated : Unrelated active message other) : Unrelated active other message :=
  ⟨unrelated.1.symm, fun both => unrelated.2 both.symm⟩

instance (active : String) : Std.Symm (Unrelated active) := ⟨fun _ _ => Unrelated.symm⟩

theorem Unrelated.of_distinct {active : String} {messages : List ArtifactMessage}
    (distinct : messages.Pairwise fun message other =>
      (message.kind, message.key) ≠ (other.kind, other.key))
    (single : messages.countP (fun message => message.key = active) ≤ 1) :
    messages.Pairwise (Unrelated active) := by
  induction messages with
  | nil => exact .nil
  | cons message messages ih =>
    obtain ⟨first, rest⟩ := List.pairwise_cons.mp distinct
    rw [List.countP_cons] at single
    refine List.pairwise_cons.mpr ⟨fun other member => ⟨first other member, ?_⟩, ih rest (by omega)⟩
    -- Otherwise the first message is counted, and so is the other one among the rest.
    rintro ⟨here, there⟩
    have counted : 0 < messages.countP fun message => message.key = active :=
      List.countP_pos_iff.mpr ⟨other, member, by simpa using there⟩
    simp only [here, decide_true, if_true] at single
    omega

theorem exchange_arrivals {active : String} {message other : ArtifactMessage}
    (unrelated : Unrelated active message other) :
    ∀ deed ∈ arrivalDeeds (message.key = active) message,
      ∀ later ∈ arrivalDeeds (other.key = active) other, deed.Exchange later := by
  obtain ⟨requests, inactive⟩ := unrelated
  simp only [arrivalDeeds, List.forall_mem_cons, List.not_mem_nil, false_implies, implies_true,
    and_true]
  refine ⟨⟨?changes, ?changeSettle⟩, ?settleChange, ?settles⟩
  case changes =>
    by_cases same : message.key = other.key
    · -- For one file the kinds differ, and the file is not active.
      have kinds : message.kind ≠ other.kind := fun kind => requests (by rw [kind, same])
      have late : other.key ≠ active := fun here => inactive ⟨same.trans here, here⟩
      rw [same, decide_eq_false late]
      exact Deed.exchange_kinds kinds other.key message.payload other.payload
    · exact Deed.exchange_change (show Deed.Spares other.key (.change message.key _) from same) _
  case changeSettle => exact (Deed.exchange_settle_change _ _ _ _).symm
  case settleChange => exact Deed.exchange_settle_change _ _ _ _
  case settles => exact Deed.exchange_settle_settle _ _ _ _

theorem receive_eq (desk : Desk Contents)
    (originating : desk.config.responseBinding = .originating) (messages : List ArtifactMessage) :
    desk.receive messages = messages.foldl (fun reached message =>
      (arrivalDeeds (message.key = desk.activeKey) message).foldl carryOut reached) desk := by
  induction messages generalizing desk with
  | nil => rfl
  | cons message messages ih =>
    have next : (desk.dispatch (.artifactArrived message)).2 =
        (arrivalDeeds (message.key = desk.activeKey) message).foldl carryOut desk := by
      rw [dispatch_eq_deeds, deeds_artifactArrived originating]
    -- The arrival changes neither the settings nor the active file.
    have rest := ih (desk.dispatch (.artifactArrived message)).2 originating
    rw [List.foldl_cons, ← next]
    exact rest

theorem receive_perm (desk : Desk Contents)
    (originating : desk.config.responseBinding = .originating)
    {messages order : List ArtifactMessage} (same : messages.Perm order)
    (unrelated : messages.Pairwise (Unrelated desk.activeKey)) :
    desk.receive messages = desk.receive order := by
  rw [receive_eq desk originating, receive_eq desk originating]
  -- Any two of the messages can be exchanged, wherever in the run they follow each other.
  refine same.foldl_eq' (fun message inside other member reached => ?_) desk
  by_cases equal : message = other
  · rw [equal]
  · have apart : Unrelated desk.activeKey message other :=
      unrelated.forall inside member equal
    exact foldl_exchange (exchange_arrivals apart) reached

/-- An arrival is answered as if the other had not come before. -/
theorem outcome_arrival_after [AtomicStore σ] (desk : Desk σ)
    (originating : desk.config.responseBinding = .originating) {message other : ArtifactMessage}
    (unrelated : Unrelated desk.activeKey message other) :
    ((desk.dispatch (.artifactArrived other)).2.dispatch (.artifactArrived message)).1 =
      (desk.dispatch (.artifactArrived message)).1 := by
  let later := (desk.dispatch (.artifactArrived other)).2
  have awaited : later.state.inFlight.contains message.kind message.key =
      desk.state.inFlight.contains message.kind message.key := by
    show (desk.state.inFlight.erase other.kind other.key).contains _ _ = _
    rw [InFlight.contains_erase, decide_eq_true unrelated.1, Bool.true_and]
  have isNew (isActive : Bool) :
      ((later.entry message.key).withArtifact message.kind message.payload isActive).isSome =
        ((desk.entry message.key).withArtifact message.kind message.payload isActive).isSome := by
    by_cases same : message.key = other.key
    · -- The other artifact has changed the entry, but not what this one is compared with.
      have kinds : message.kind ≠ other.kind := fun kind => unrelated.1 (by rw [kind, same])
      have held := desk.entry_artifactArrived other
      rw [target_originating desk originating, ← same] at held
      rw [held]
      exact ArtifactEntry.isSome_withArtifact_after _ kinds _ _ _ _
    · have foreign : Component.artifacts message.key ∉ desk.ownParts (.artifactArrived other) := by
        simpa [ownParts, target_originating desk originating] using same
      have kept : KeptTo _ desk later := .dispatch desk (by simp)
      rw [kept.entries message.key foreign]
  show (later.artifactArrived message).1 = (desk.artifactArrived message).1
  rw [artifactArrived_outcome, artifactArrived_outcome, awaited, target_originating desk originating,
    target_originating later originating, isNew]
  rfl

theorem outcome_receive [AtomicStore σ] (desk : Desk σ)
    (originating : desk.config.responseBinding = .originating) (message : ArtifactMessage)
    {before : List ArtifactMessage}
    (unrelated : ∀ other ∈ before, Unrelated desk.activeKey message other) :
    ((desk.receive before).dispatch (.artifactArrived message)).1 =
      (desk.dispatch (.artifactArrived message)).1 := by
  -- The first of the earlier messages is taken away on the left, then the others one by one.
  induction before generalizing desk with
  | nil => rfl
  | cons other before ih =>
    have first := outcome_arrival_after desk originating (unrelated other List.mem_cons_self)
    have rest := ih (desk.dispatch (.artifactArrived other)).2 originating
      fun earlier member => unrelated earlier (List.mem_cons_of_mem _ member)
    exact rest.trans first

/-! ### An artifact or a failure, and an action of the user -/

/-- The deeds of an action that ends a request of a file which is not active. -/
def lateDeeds : Action → List Deed
  | .artifactArrived message => arrivalDeeds false message
  | .artifactFailed kind key _ => [.settle kind key]
  | _ => []

omit [KeyValueStore σ] in
theorem deeds_late (desk : Desk σ) (originating : desk.config.responseBinding = .originating)
    {late : Action} {key : String} (about : late.lateKey? = some key)
    (inactive : key ≠ desk.activeKey) : desk.deeds late = lateDeeds late := by
  cases late with
  | artifactArrived message =>
    cases about
    rw [deeds_artifactArrived originating, decide_eq_false inactive]
    rfl
  | artifactFailed kind key error => rfl
  | _ => cases about

/-- What is done for a request of a file can be exchanged with every deed that spares the file. -/
theorem exchange_late {late : Action} {key : String} (about : late.lateKey? = some key) {deed : Deed}
    (spares : deed.Spares key) : ∀ later ∈ lateDeeds late, deed.Exchange later := by
  cases late with
  | artifactArrived message =>
    cases about
    simp only [lateDeeds, arrivalDeeds, List.forall_mem_cons, List.not_mem_nil, false_implies,
      implies_true, and_true]
    exact ⟨Deed.exchange_change spares _, Deed.exchange_settle spares _⟩
  | artifactFailed kind key error =>
    cases about
    simp only [lateDeeds, List.forall_mem_cons, List.not_mem_nil, false_implies, implies_true,
      and_true]
    exact Deed.exchange_settle spares _
  | _ => cases about

/-- An action of the user that begins and ends with other files active has nothing to do with the
artifacts of a file. -/
theorem user_keeps_off (desk : Desk σ) {action : Action} {key : String}
    (user : action.lateKey? = none) (before : key ≠ desk.activeKey)
    (after : key ≠ (desk.dispatch action).2.activeKey) :
    Component.artifacts key ∉ desk.ownParts action ∧ key ∉ desk.askedKeys action := by
  cases action with
  | artifactArrived message => cases user
  | artifactFailed kind name error => cases user
  | switch index => exact ⟨by simp [ownParts], by simpa [askedKeys] using after⟩
  | _ => simp [ownParts, askedKeys, before]

theorem spares_user (desk : Desk σ) {action : Action} {key : String}
    (user : action.lateKey? = none) (kept : action ≠ .clearAll) (before : key ≠ desk.activeKey)
    (after : key ≠ (desk.dispatch action).2.activeKey) :
    ∀ deed ∈ desk.deeds action, deed.Spares key := by
  obtain ⟨foreign, unasked⟩ := user_keeps_off desk user before after
  exact fun deed member => (desk.deeds_within kept deed member).spares foreign unasked

theorem config_dispatch (desk : Desk σ) (action : Action) :
    (desk.dispatch action).2.config = desk.config := by
  refine dispatch_induct (fun reached => reached.config = desk.config)
    (fun reached deed _ same => ?_) rfl
  cases deed <;> exact same

theorem contains_dispatch (desk : Desk σ) {action : Action} {key : String}
    (spare : ∀ deed ∈ desk.deeds action, deed.Spares key) (kind : ArtifactKind) :
    (desk.dispatch action).2.state.inFlight.contains kind key =
      desk.state.inFlight.contains kind key := by
  refine dispatch_induct (fun reached => reached.state.inFlight.contains kind key =
    desk.state.inFlight.contains kind key) (fun reached deed member same => ?_) rfl
  have spares := spare deed member
  cases deed with
  | await asked other =>
    have different : (kind, key) ≠ (asked, other) := fun equal => spares (Prod.mk.inj equal).2.symm
    show (reached.state.inFlight.insert asked other).contains kind key = _
    rw [InFlight.contains_insert, decide_eq_false different, Bool.false_or, same]
  | settle asked other =>
    have different : (kind, key) ≠ (asked, other) := fun equal => spares (Prod.mk.inj equal).2.symm
    show (reached.state.inFlight.erase asked other).contains kind key = _
    rw [InFlight.contains_erase, decide_eq_true different, Bool.true_and, same]
  | clear => exact absurd spares id
  | _ => exact same

theorem outlook_late (desk : Desk σ) {late : Action} {key : String}
    (about : late.lateKey? = some key) : SameOutlook (desk.dispatch late).2 desk := by
  cases late with
  | artifactArrived message => exact ⟨rfl, rfl, rfl⟩
  | artifactFailed kind key error => exact ⟨rfl, rfl, rfl⟩
  | _ => cases about

section
variable [AtomicStore σ] (desk : Desk σ) (originating : desk.config.responseBinding = .originating)
  {late action : Action} {key : String} (about : late.lateKey? = some key)
  (user : action.lateKey? = none) (kept : action ≠ .clearAll) (before : key ≠ desk.activeKey)
  (after : key ≠ (desk.dispatch action).2.activeKey)
include originating about user

include before in
theorem outcome_user_after_late :
    ((desk.dispatch late).2.dispatch action).1 = (desk.dispatch action).1 := by
  refine outcome_congr (outlook_late desk about) ?entry fun message arrives => ?awaited
  case entry =>
    -- The action looks at the active file, and that is not the one that the request was for.
    have subject : (desk.dispatch late).2.subject action = desk.activeKey := by
      cases action with
      | artifactArrived message => cases user
      | _ => exact congrArg Document.key (outlook_late desk about).document
    have other : Component.artifacts desk.activeKey ∉ desk.ownParts late := by
      cases late with
      | artifactArrived message =>
        cases about
        simpa [ownParts, target_originating desk originating] using before.symm
      | artifactFailed kind key error => simp [ownParts]
      | _ => cases about
    have notClear : late ≠ .clearAll := by
      rintro rfl
      cases about
    rw [subject]
    exact (KeptTo.dispatch desk notClear).entries desk.activeKey other
  case awaited =>
    cases arrives
    cases user

include kept before after in
theorem outcome_late_after_user :
    ((desk.dispatch action).2.dispatch late).1 = (desk.dispatch late).1 := by
  cases late with
  | artifactArrived message =>
    cases about
    let later := (desk.dispatch action).2
    have config : later.config.responseBinding = .originating := by
      rw [show later.config = desk.config from config_dispatch desk action, originating]
    obtain ⟨foreign, _⟩ := user_keeps_off desk user before after
    have entry : later.entry message.key = desk.entry message.key :=
      (KeptTo.dispatch desk kept).entries message.key foreign
    have awaited : later.state.inFlight.contains message.kind message.key = _ :=
      contains_dispatch desk (spares_user desk user kept before after) message.kind
    show (later.artifactArrived message).1 = (desk.artifactArrived message).1
    rw [artifactArrived_outcome, artifactArrived_outcome, target_originating desk originating,
      target_originating later config, entry, awaited, decide_eq_false before, decide_eq_false after]
  | artifactFailed kind key error => rfl
  | _ => cases about

end

theorem late_user_comm (desk : Desk Contents)
    (originating : desk.config.responseBinding = .originating) {late action : Action} {key : String}
    (about : late.lateKey? = some key) (user : action.lateKey? = none) (kept : action ≠ .clearAll)
    (before : key ≠ desk.activeKey) (after : key ≠ (desk.dispatch action).2.activeKey) :
    ((desk.dispatch late).2.dispatch action).2 = ((desk.dispatch action).2.dispatch late).2 := by
  have config : (desk.dispatch action).2.config.responseBinding = .originating := by
    rw [config_dispatch, originating]
  -- Both orders are runs of the same two lists of deeds.
  have lateFirst : ((desk.dispatch late).2.dispatch action).2 =
      (desk.deeds action).foldl carryOut ((lateDeeds late).foldl carryOut desk) := by
    rw [dispatch_eq_deeds, deeds_congr (outlook_late desk about), dispatch_eq_deeds,
      deeds_late desk originating about before]
  have userFirst : ((desk.dispatch action).2.dispatch late).2 =
      (lateDeeds late).foldl carryOut ((desk.deeds action).foldl carryOut desk) := by
    rw [dispatch_eq_deeds, deeds_late _ config about after, dispatch_eq_deeds]
  rw [lateFirst, userFirst]
  refine (foldl_exchange (fun deed member later follows reached => ?_) desk).symm
  exact exchange_late about (spares_user desk user kept before after deed member) later follows
    reached

/-! ### Over every storage that never fails -/

theorem contents_receive {desk : Desk σ} (obeys : KeyValueStore.NeverFails desk.storage)
    (messages : List ArtifactMessage) :
    (desk.receive messages).contents = desk.contents.receive messages := by
  induction messages generalizing desk with
  | nil => rfl
  | cons message messages ih =>
    have rest := ih (neverFails_dispatch obeys (.artifactArrived message))
    rw [contents_dispatch obeys] at rest
    exact rest

/-- Let artifacts be taken in under their own keys, and let no call fail. Artifacts for different
requests, of which one at most is for the active file, lead to the same memory and the same answers
of the storage in every order, and each is answered as it would be at once. An artifact or a failure
for a file that is active neither before nor after an action of the user can come before or after
that action, with the same answers to both and the same result. -/
theorem late_arrivals_in_any_order (desk : Desk σ)
    (originating : desk.config.responseBinding = .originating)
    (obeys : KeyValueStore.NeverFails desk.storage) :
    (∀ messages order : List ArtifactMessage,
      messages.Pairwise (fun message other =>
        (message.kind, message.key) ≠ (other.kind, other.key)) →
      messages.countP (fun message => message.key = desk.activeKey) ≤ 1 →
      messages.Perm order →
      (desk.receive messages).contents = (desk.receive order).contents ∧
      ∀ before message after, order = before ++ message :: after →
        ((desk.receive before).dispatch (.artifactArrived message)).1 =
          (desk.dispatch (.artifactArrived message)).1) ∧
    ∀ late action key, late.lateKey? = some key → action.lateKey? = none → action ≠ .clearAll →
      key ≠ desk.activeKey → key ≠ (desk.dispatch action).2.activeKey →
      ((desk.dispatch late).2.dispatch action).2.contents =
        ((desk.dispatch action).2.dispatch late).2.contents ∧
      ((desk.dispatch late).2.dispatch action).1 = (desk.dispatch action).1 ∧
      ((desk.dispatch action).2.dispatch late).1 = (desk.dispatch late).1 := by
  constructor
  · intro messages order distinct single same
    have unrelated : messages.Pairwise (Unrelated desk.activeKey) :=
      Unrelated.of_distinct distinct single
    constructor
    · rw [contents_receive obeys, contents_receive obeys]
      exact receive_perm desk.contents originating same unrelated
    · -- Any two messages are unrelated in this order as well, those before the message among them.
      rintro before message after rfl
      have ordered := (same.pairwise_iff Unrelated.symm).mp unrelated
      have apart : ∀ other ∈ before, Unrelated desk.activeKey message other := fun other member =>
        ((List.pairwise_append.mp ordered).2.2 other member message List.mem_cons_self).symm
      rw [← outcome_contents (desk.receive before), ← outcome_contents desk, contents_receive obeys]
      exact outcome_receive desk.contents originating message apart
  · -- All three statements are carried over from the desk over look-ups.
    intro late action key about user kept before after
    have active : key ≠ (desk.contents.dispatch action).2.activeKey := by
      rw [← contents_dispatch obeys]
      exact after
    refine ⟨?_, ?_, ?_⟩
    · rw [contents_dispatch (neverFails_dispatch obeys late), contents_dispatch obeys,
        contents_dispatch (neverFails_dispatch obeys action), contents_dispatch obeys]
      exact late_user_comm desk.contents originating about user kept before active
    · rw [← outcome_contents (desk.dispatch late).2, ← outcome_contents desk,
        contents_dispatch obeys]
      exact outcome_user_after_late desk.contents originating about user before
    · rw [← outcome_contents (desk.dispatch action).2, ← outcome_contents desk,
        contents_dispatch obeys]
      exact outcome_late_after_user desk.contents originating about user kept before active

/-- Two artifacts of a file that is no longer active and one of the active file arrive in two orders;
one of them could also have come before the user went on typing. -/
theorem arrivals_for_two_files :
    let desk := (restore {} (SortedMap.empty : Entries)).run
      [.act (.openSingle "a.v" "module a;"), .act (.request .testbench),
        .act (.openSingle "b.v" "module b;")]
    let first : ArtifactMessage := ⟨.explanation, "a.v", "A module."⟩
    let second : ArtifactMessage := ⟨.testbench, "a.v", "initial begin end"⟩
    let third : ArtifactMessage := ⟨.explanation, "b.v", "Another."⟩
    (desk.receive [first, second, third]).contents =
      (desk.receive [third, second, first]).contents ∧
    ((desk.receive [third, second]).dispatch (.artifactArrived first)).1 =
      (desk.dispatch (.artifactArrived first)).1 ∧
    ((desk.dispatch (.artifactArrived second)).2.dispatch (.edit "module c;")).2.contents =
      ((desk.dispatch (.edit "module c;")).2.dispatch (.artifactArrived second)).2.contents := by
  intro desk first second third
  obtain ⟨permuted, exchanged⟩ := late_arrivals_in_any_order desk (by decide +kernel)
    (KeyValueStore.neverFails_entries desk.storage)
  have distinct : [first, second, third].Pairwise fun message other =>
      (message.kind, message.key) ≠ (other.kind, other.key) := by decide
  obtain ⟨same, answers⟩ := permuted _ [third, second, first] distinct (by decide +kernel)
    (by decide)
  have late := exchanged (.artifactArrived second) (.edit "module c;") "a.v" rfl rfl (by simp)
    (by decide +kernel) (by decide +kernel)
  exact ⟨same, answers [third, second] first [] rfl, late.1⟩

end Desk

end HdlDesk
