import HdlDesk.Proofs.Artifact.Arrivals
import HdlDesk.Proofs.Desk.Contents
import HdlDesk.Proofs.Desk.Ownership

/-!
# Deeds that can be exchanged

Over bare look-ups, two deeds can be exchanged when doing them in either order leads to equal desks.
What is done for the artifacts of one file, a change of its entry or the end of a request, can be
exchanged with every deed that spares that file. For one and the same file the two kinds of artifact
can be exchanged as long as neither is shown on arrival, because each sets fields of its own.
-/
namespace HdlDesk

namespace Deed

/-- The order of the two deeds does not matter. -/
def Exchange (deed other : Deed) : Prop :=
  ∀ desk : Desk Contents, (desk.carryOut deed).carryOut other = (desk.carryOut other).carryOut deed

/-- The deed has nothing to do with the artifacts of a file, nor with requests for them. -/
def Spares (key : String) : Deed → Prop
  | .putDocument _ | .touchRecent _ _ => True
  | .load other | .change other _ | .await _ other | .settle _ other => other ≠ key
  | .clear => False

theorem Within.spares {parts : List Component} {keys : List String} {deed : Deed} {key : String}
    (within : deed.Within parts keys) (foreign : .artifacts key ∉ parts) (unasked : key ∉ keys) :
    deed.Spares key := by
  cases deed with
  | putDocument document => trivial
  | touchRecent name content => trivial
  | change other how =>
    rintro rfl
    exact foreign within
  | clear => exact within
  | _ =>
    rintro rfl
    exact unasked within

end Deed

namespace Desk

/-! ### Changes of an entry -/

/-- A change of memory that leaves the cache alone, or holds an entry of another file. -/
theorem change_remember {σ : Type} [KeyValueStore σ] (desk : Desk σ) (key : String)
    (how : ArtifactEntry → Option ArtifactEntry) (update : DeskState → DeskState)
    (spares : ∀ state entry,
      update { state with artifacts := state.artifacts.insert key entry } =
        { update state with artifacts := (update state).artifacts.insert key entry })
    (same : (update desk.state).artifacts.get? key = desk.state.artifacts.get? key) :
    ({ desk with state := update desk.state } : Desk σ).change key how =
      { desk.change key how with state := update (desk.change key how).state } := by
  have entry : ({ desk with state := update desk.state } : Desk σ).entry key = desk.entry key :=
    ArtifactCache.entry_congr same fun _ _ => rfl
  rw [change_eq, change_eq, entry]
  unfold persist
  rw [spares]

theorem change_persist (desk : Desk Contents) (key : String)
    (how : ArtifactEntry → Option ArtifactEntry) {part : Component} {calls : List Write}
    (owns : part.Owns calls) (apart : part ≠ .artifacts key) :
    (desk.persist calls).change key how = (desk.change key how).persist calls := by
  have entry : (desk.persist calls).entry key = desk.entry key :=
    ArtifactCache.entry_congr rfl (KeyValueStore.sameRecords_writeAll desk.storage owns apart)
  rw [change_eq, change_eq, entry]
  exact congrArg (Desk.mk desk.config _)
    (Contents.writeAll_comm desk.storage owns (Component.owns_entryWrites key _) apart)

/-- Holding an entry of another file can be exchanged with a change. -/
theorem change_hold {σ : Type} [KeyValueStore σ] (desk : Desk σ) {key other : String}
    (different : other ≠ key) (how : ArtifactEntry → Option ArtifactEntry) (entry : ArtifactEntry) :
    ({ desk with state.artifacts := desk.state.artifacts.insert other entry } : Desk σ).change key
        how =
      { desk.change key how with
        state.artifacts := (desk.change key how).state.artifacts.insert other entry } := by
  refine change_remember desk key how
    (fun state => { state with artifacts := state.artifacts.insert other entry }) ?_ ?_
  · intro state held
    simp only [SortedMap.insert_comm state.artifacts different]
  · exact (SortedMap.get?_insert _ other key entry).trans (if_neg different.symm)

/-- Two changes of one entry are one change: of the two records the last stays. -/
theorem change_change (desk : Desk Contents) (key : String)
    (how other : ArtifactEntry → Option ArtifactEntry) :
    (desk.change key how).change key other = desk.change key (ArtifactEntry.inTurn how other) := by
  rw [change_eq (desk.change key how), entry_change_self, change_eq desk key how,
    change_eq desk key (ArtifactEntry.inTurn how other)]
  unfold ArtifactEntry.inTurn persist
  -- By what the changes find to do; only when both find something are two records written.
  cases how (desk.entry key) with
  | none =>
    simp only [Option.getD_none, SortedMap.insert_insert]
    rfl
  | some next =>
    simp only [Option.getD_some, SortedMap.insert_insert]
    cases other next with
    | none => rfl
    | some last =>
      have rewritten := Write.applyTo_set_set (RecordKey.artifact key) (Stored.print next)
        (Stored.print last) desk.storage.get
      exact congrArg (fun held => Desk.mk desk.config _ (Contents.mk held)) rewritten

end Desk

namespace Deed

theorem Exchange.symm {deed other : Deed} (exchange : Exchange deed other) : Exchange other deed :=
  fun desk => (exchange desk).symm

/-- The two kinds of artifact arrive for one file, and neither is shown. -/
theorem exchange_kinds {kind other : ArtifactKind} (different : kind ≠ other)
    (key payload text : String) :
    Exchange (.change key fun entry => entry.withArtifact kind payload false)
      (.change key fun entry => entry.withArtifact other text false) := by
  intro desk
  show (desk.change key _).change key _ = (desk.change key _).change key _
  rw [Desk.change_change, Desk.change_change,
    ArtifactEntry.inTurn_withArtifact different payload text]

theorem exchange_settle_change (kind : ArtifactKind) (key other : String)
    (how : ArtifactEntry → Option ArtifactEntry) : Exchange (.settle kind key) (.change other how) :=
  fun _ => rfl

theorem exchange_settle_settle (kind other : ArtifactKind) (key name : String) :
    Exchange (.settle kind key) (.settle other name) := by
  intro desk
  have same := desk.state.inFlight.erase_comm kind other key name
  unfold Desk.carryOut Desk.putInFlight
  simp only [same]

theorem exchange_settle {deed : Deed} {key : String} (spares : deed.Spares key)
    (kind : ArtifactKind) : Exchange deed (.settle kind key) := by
  cases deed with
  | putDocument document => exact fun _ => rfl
  | touchRecent name content => exact fun _ => rfl
  | load other => exact fun _ => rfl
  | change other how => exact (exchange_settle_change kind key other how).symm
  | await asked other =>
    intro desk
    have different : (asked, other) ≠ (kind, key) := fun same => spares (Prod.mk.inj same).2
    have same := desk.state.inFlight.insert_erase_comm different
    unfold Desk.carryOut Desk.putInFlight
    simp only [same]
  | settle asked other => exact exchange_settle_settle asked kind other key
  | clear => exact absurd spares id

theorem exchange_change {deed : Deed} {key : String} (spares : deed.Spares key)
    (how : ArtifactEntry → Option ArtifactEntry) : Exchange deed (.change key how) := by
  intro desk
  cases deed with
  | putDocument document =>
    have written := Desk.change_persist { desk with state.document := document } key how
      (Component.owns_documentWrites document) nofun
    have remembered := desk.change_remember key how
      (fun state => { state with document := document }) (fun _ _ => rfl) rfl
    exact written.trans (congrArg (Desk.persist · document.writes) remembered)
  | touchRecent name content =>
    let recent := (desk.state.recent.touch name content).2
    have written := Desk.change_persist { desk with state.recent := recent } key how
      (Component.owns_recentWrites recent) nofun
    have remembered := desk.change_remember key how
      (fun state => { state with recent := recent }) (fun _ _ => rfl) rfl
    exact written.trans (congrArg (Desk.persist · recent.writes) remembered)
  | load other =>
    have held := desk.change_hold spares how (desk.entry other)
    show (desk.load other).change key how = (desk.change key how).load other
    -- The entry that is loaded is the same on both sides.
    rw [Desk.load_eq, Desk.load_eq, Desk.entry_change_of_ne desk spares how]
    exact held
  | change other change =>
    show (desk.change other change).change key how = (desk.change key how).change other change
    rw [Desk.change_eq desk other, Desk.change_eq _ other, Desk.entry_change_of_ne desk spares how]
    have apart : Component.artifacts other ≠ .artifacts key :=
      fun same => spares (Component.artifacts.inj same)
    -- The other entry is held first and its record written then; each step is passed in turn.
    rw [Desk.change_persist _ key how (Component.owns_entryWrites other _) apart,
      Desk.change_hold desk spares how]
  | await kind other => rfl
  | settle kind other => rfl
  | clear => exact absurd spares id

end Deed

end HdlDesk
