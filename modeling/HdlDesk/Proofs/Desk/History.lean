import HdlDesk.Proofs.Desk.Moves

/-!
# The open document is what the history says

A desk does much more than keep a document: it writes records, loads entries and tells others what
to do. None of that shows in the document. An account keeps only what is open and the recent files,
as plain data, and says in a few lines what each action makes of them; a run of the desk agrees with
its account from any storage on, whether its write calls succeed or not.
-/
namespace HdlDesk

/-- What is open, without the promise that the active index is one of a file. -/
inductive Sheet where
  | empty
  | single (name content : String)
  | project (files : List SourceFile) (active : Nat) (content : String)
  deriving DecidableEq, Repr

def Sheet.files : Sheet → List SourceFile
  | .project files _ _ => files
  | _ => []

def Document.sheet : Document → Sheet
  | .empty => .empty
  | .single name content => .single name content
  | .project opened => .project opened.files opened.active opened.content

/-- What is open and what was opened last. -/
structure Account where
  sheet : Sheet
  recent : RecentFiles
  deriving DecidableEq, Repr

namespace Account

/-- A file is opened, and the sheet shows it from now on. -/
def opens (account : Account) (name content : String) (sheet : Sheet) : Account :=
  ⟨sheet, (account.recent.touch name content).2⟩

def openRecent (account : Account) (name : String) : Account :=
  match account.recent.get? name with
  | some file => account.opens name file.content (.single name file.content)
  | none => account

def openProject (account : Account) : List SourceFile → Account
  | [] => account
  | first :: rest =>
    account.opens first.name first.content (.project (first :: rest) 0 first.content)

/-- Takes the file at an index into the editor as it was loaded, also if it is there already. -/
def switch (account : Account) (index : Nat) : Account :=
  match account.sheet with
  | .project files _ _ =>
    match files[index]? with
    | some file => account.opens file.name file.content (.project files index file.content)
    | none => account
  | _ => account

/-- Only the text in the editor changes; text that is typed while nothing is open makes a file. -/
def edit (account : Account) (text : String) : Account where
  sheet := match account.sheet with
    | .empty => if text = "" then .empty else .single "" text
    | .single name _ => .single name text
    | .project files active _ => .project files active text
  recent := account.recent

/-- What a step makes of an account; a step that is not listed leaves it alone. -/
def after (account : Account) : Desk.Step → Account
  | .act .clearAll => ⟨.empty, account.recent.clear⟩
  | .act (.openSingle name content) => account.opens name content (.single name content)
  | .act .newFile => account.opens "untitled.sv" "" (.single "untitled.sv" "")
  | .act (.openRecent name) => account.openRecent name
  | .act (.openProject files) => account.openProject files
  | .act (.switch index) => account.switch index.toNat
  | .act (.edit text) => account.edit text
  | _ => account

end Account

namespace Desk

variable {σ : Type} [KeyValueStore σ]

def account (desk : Desk σ) : Account := ⟨desk.state.document.sheet, desk.state.recent⟩

/-! ### What the parts of an action do to the account -/

@[simp] theorem account_putDocument (desk : Desk σ) (document : Document) :
    (desk.putDocument document).account = ⟨document.sheet, desk.state.recent⟩ := rfl

@[simp] theorem account_touchRecent (desk : Desk σ) (name content : String) :
    (desk.touchRecent name content).2.account = desk.account.opens name content desk.account.sheet :=
  rfl

@[simp] theorem account_load (desk : Desk σ) (key : String) :
    (desk.load key).account = desk.account := rfl

@[simp] theorem account_openSingle (desk : Desk σ) (name content : String) :
    (desk.openSingle name content).2.account =
      desk.account.opens name content (.single name content) := by
  rw [openSingle, account_touchRecent, account_putDocument]
  rfl

theorem account_openProject (desk : Desk σ) (files : List SourceFile) :
    (desk.openProject files).2.account = desk.account.openProject files := by
  cases files with
  | nil => rfl
  | cons first rest => rfl

theorem account_openRecent (desk : Desk σ) (name : String) :
    (desk.openRecent name).2.account = desk.account.openRecent name := by
  have held : desk.account.recent.get? name = desk.state.recent.get? name := rfl
  rw [openRecent, Account.openRecent, held]
  cases found : desk.state.recent.get? name with
  | none => rfl
  | some file =>
    -- The account speaks of the name that was asked for, the desk of the one that was found.
    have called : file.name = name := by simpa using List.find?_some found
    rw [← called]
    rfl

theorem account_switch (desk : Desk σ) (index : UInt64) :
    (desk.switch index).2.account = desk.account.switch index.toNat := by
  have shown : desk.account.sheet = desk.state.document.sheet := rfl
  rw [switch, Account.switch, shown]
  cases desk.state.document with
  | empty => rfl
  | single name content => rfl
  | project opened =>
    simp only [Document.switch, Document.sheet]
    by_cases inside : index.toNat < opened.files.length
    · rw [dif_pos inside, List.getElem?_eq_getElem inside]
      rfl
    · rw [dif_neg inside, List.getElem?_eq_none (Nat.le_of_not_lt inside)]

theorem account_edit (desk : Desk σ) (text : String) :
    (desk.edit text).2.account = desk.account.edit text := by
  have shown : desk.account = ⟨desk.state.document.sheet, desk.state.recent⟩ := rfl
  rw [edit, Account.edit, shown]
  unfold Document.edit
  by_cases same : desk.state.document.content = text
  · -- The desk turns the edit down, and typing the text that is there changes nothing.
    rw [if_pos same]
    subst same
    cases document : desk.state.document with
    | empty => simp [account, document, Document.sheet, Document.content]
    | single name content => simp [account, document, Document.sheet, Document.content]
    | project opened => simp [account, document, Document.sheet, Document.content]
  · rw [if_neg same]
    cases document : desk.state.document with
    | empty =>
      have typed : text ≠ "" := fun none => same (by rw [document, none]; rfl)
      simp [Document.sheet, typed]
    | single name content => simp [Document.sheet]
    | project opened => simp [Document.sheet]

/-- Changing an entry shows neither in the document nor in the recent files. -/
theorem account_change (desk : Desk σ) (key : String)
    (how : ArtifactEntry → Option ArtifactEntry) : (desk.change key how).account = desk.account :=
  rfl

theorem account_dispatch (desk : Desk σ) (action : Action) :
    (desk.dispatch action).2.account = desk.account.after (.act action) := by
  cases action with
  | openPath path => rfl
  | openFolder path => rfl
  | openSingle name content => exact account_openSingle desk name content
  | openProject files => exact account_openProject desk files
  | newFile => exact account_openSingle desk Document.untitledName ""
  | openRecent name => exact account_openRecent desk name
  | switch index => exact account_switch desk index
  | edit text => exact account_edit desk text
  | setView view =>
    show (desk.setView view).2.account = desk.account
    rw [setView_eq_change]
    exact account_change desk desk.activeKey _
  | request kind =>
    show (desk.request kind).2.account = desk.account
    unfold request
    dsimp only
    split <;> rfl
  | resetTestbench => rfl
  | copyExplanation => rfl
  | artifactArrived message => rfl
  | artifactFailed kind key error => rfl
  | loadFailed path error => rfl
  | clearAll => rfl

theorem account_after (desk : Desk σ) (step : Step) :
    (desk.after step).account = desk.account.after step := by
  cases step with
  | act action => exact account_dispatch desk action
  | look key => exact account_load desk key

theorem account_run (desk : Desk σ) (steps : List Step) :
    (desk.run steps).account = steps.foldl Account.after desk.account := by
  induction steps generalizing desk with
  | nil => rfl
  | cons step steps ih =>
    -- The first step is taken on both sides; the rest of the run starts from where it leads.
    have rest := ih (desk.after step)
    rw [account_after] at rest
    exact rest

/-! ### The files of a project -/

/-- The step may put something else in the place of what is open. -/
def Step.replaces : Step → Bool
  | .act .clearAll | .act .newFile => true
  | .act (.openSingle _ _) | .act (.openRecent _) | .act (.openProject _) => true
  | _ => false

theorem files_after {account : Account} {step : Step} (keeps : step.replaces = false) :
    (account.after step).sheet.files = account.sheet.files := by
  obtain ⟨sheet, recent⟩ := account
  cases step with
  | look key => rfl
  | act action =>
    cases action with
    | openSingle name content => cases keeps
    | openProject files => cases keeps
    | newFile => cases keeps
    | openRecent name => cases keeps
    | clearAll => cases keeps
    | switch index =>
      cases sheet with
      | empty => rfl
      | single name content => rfl
      | project files active content =>
        simp only [Account.after, Account.switch]
        split <;> rfl
    | edit text =>
      cases sheet with
      | empty =>
        simp only [Account.after, Account.edit]
        split <;> rfl
      | single name content => rfl
      | project files active content => rfl
    | _ => rfl

theorem files_foldl (account : Account) {steps : List Step}
    (keep : ∀ step ∈ steps, step.replaces = false) :
    (steps.foldl Account.after account).sheet.files = account.sheet.files := by
  induction steps generalizing account with
  | nil => rfl
  | cons step steps ih =>
    have rest := ih (account.after step)
      fun other member => keep other (List.mem_cons_of_mem _ member)
    exact rest.trans (files_after (keep step List.mem_cons_self))

/-- The active index of a sheet that shows a document is the index of a file. -/
theorem selected_of_sheet {document : Document} {files : List SourceFile} {active : Nat}
    {content : String} (shown : document.sheet = .project files active content) :
    ∃ inside : active < files.length, document.fileName = files[active].name := by
  cases document with
  | empty => cases shown
  | single name content => cases shown
  | project opened =>
    cases shown
    exact ⟨opened.active_lt, rfl⟩

/-- Whatever a storage holds at the start and whatever becomes of the write calls, the document is
the one that the history gives, and so are the recent files. A project has its active file at every
point, and only a step that replaces it changes its files. -/
theorem run_follows_history (config : DeskConfig) (storage : σ) (steps : List Step) :
    let desk := (restore config storage).run steps
    let told := steps.foldl Account.after
      ⟨(Document.restore storage).sheet, .restore storage config.recentCapacity⟩
    desk.state.document.sheet = told.sheet ∧ desk.state.recent = told.recent ∧
    (∀ files active content, told.sheet = .project files active content →
      ∃ inside : active < files.length, desk.state.document.fileName = files[active].name) ∧
    ∀ later : List Step, (∀ step ∈ later, step.replaces = false) →
      (desk.run later).state.document.sheet.files = told.sheet.files := by
  intro desk told
  have agree : desk.account = told := account_run (restore config storage) steps
  have sheet : desk.state.document.sheet = told.sheet := congrArg Account.sheet agree
  refine ⟨sheet, congrArg Account.recent agree, ?_, ?_⟩
  · intro files active content shown
    exact selected_of_sheet (sheet.trans shown)
  · intro later keep
    have grown : (desk.run later).account = later.foldl Account.after told := by
      rw [account_run, agree]
    have same := congrArg Account.sheet grown
    rw [← files_foldl told keep, ← same]
    rfl

/-- Switching drops the edits, also when the file is active already. -/
example :
    ([.act (.openProject [⟨"a.v", "", "A"⟩, ⟨"b.v", "", "B"⟩]), .act (.switch 1), .act (.edit "C"),
        .act (.switch 1)].foldl Account.after ⟨.empty, .ofCapacity 15⟩).sheet =
      .project [⟨"a.v", "", "A"⟩, ⟨"b.v", "", "B"⟩] 1 "B" := by decide

end Desk

end HdlDesk
