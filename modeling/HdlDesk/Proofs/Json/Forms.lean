import Mathlib.Data.List.Nodup
import HdlDesk.Proofs.Json.Entries
import HdlDesk.Settings

/-!
# Records in other forms

A record need not be written as the desk writes it: the fields can stand in any order, and those
with the value that they are read as when they are missing can be left out. Any text of any such form
is read as the value that the desk would have written, and whatever text a value was read from, the
text that is written for it is read as the value again.
-/
namespace HdlDesk

/-- A field of a record with the value it is written with. It may be left out if it would then be
read as that value. -/
structure RecordField where
  name : String
  value : Json
  mayBeLeftOut : Prop

namespace RecordField

def member (field : RecordField) : String × Json := (field.name, field.value)

/-- An object of the fields in any order, without some of those that may be left out. -/
def Form (fields : List RecordField) (json : Json) : Prop :=
  ∃ (leftOut : List String) (members : List (String × Json)),
    (∀ field ∈ fields, field.name ∈ leftOut → field.mayBeLeftOut) ∧
    members.Perm ((fields.filter fun field => field.name ∉ leftOut).map member) ∧
    json = .object (members.map fun member => (some member.1, member.2))

/-- What the reader finds for a field. -/
def found (leftOut : List String) (field : RecordField) : Option Json :=
  if field.name ∈ leftOut then none else some field.value

end RecordField

/-! ### Members in any order -/

theorem lookup_eq_some_of_mem {members : List (String × Json)}
    (distinct : (members.map Prod.fst).Nodup) {name : String} {value : Json}
    (inside : (name, value) ∈ members) : members.lookup name = some value := by
  induction members with
  | nil => contradiction
  | cons member members ih =>
    obtain ⟨fresh, distinct⟩ := List.nodup_cons.mp distinct
    rcases List.mem_cons.mp inside with rfl | later
    · simp
    · have different : (name == member.1) = false :=
        beq_eq_false_iff_ne.mpr fun same => fresh (same ▸ List.mem_map_of_mem later)
      rw [List.lookup_cons, different]
      exact ih distinct later

theorem length_filter_le_one {members : List (String × Json)}
    (distinct : (members.map Prod.fst).Nodup) (name : String) :
    (members.filter fun member => member.1 == name).length ≤ 1 := by
  have once := List.nodup_iff_count_le_one.mp distinct name
  rwa [List.count, List.countP_map, List.countP_eq_length_filter] at once

/-- The reader finds each field that was not left out, wherever it stands. -/
theorem RecordField.Form.fields? {fields : List RecordField}
    (distinct : (fields.map RecordField.name).Nodup) {json : Json}
    (form : RecordField.Form fields json) :
    ∃ leftOut, (∀ field ∈ fields, field.name ∈ leftOut → field.mayBeLeftOut) ∧
      json.fields? (fields.map RecordField.name) = some (fields.map (RecordField.found leftOut)) := by
  obtain ⟨leftOut, members, allowed, order, rfl⟩ := form
  refine ⟨leftOut, allowed, ?_⟩
  have names : (members.map Prod.fst).Nodup := by
    rw [(order.map Prod.fst).nodup_iff, List.map_map]
    exact distinct.sublist (List.filter_sublist.map RecordField.name)
  have once : ((fields.map RecordField.name).all fun name =>
      (members.filter fun member => member.1 == name).length ≤ 1) = true := by
    simp [length_filter_le_one names]
  have looked : (fields.map RecordField.name).map (fun name => members.lookup name) =
      fields.map (RecordField.found leftOut) := by
    rw [List.map_map]
    refine List.map_congr_left fun field listed => ?_
    -- A field that was left out is nowhere, and any other stands there once.
    by_cases gone : field.name ∈ leftOut
    · have absent : ∀ member ∈ members, field.name ≠ member.1 := by
        intro member inside same
        obtain ⟨other, kept, rfl⟩ := List.mem_map.mp (order.subset inside)
        have written : other.name ∉ leftOut := by simpa using (List.mem_filter.mp kept).2
        have sameName : field.name = other.name := same
        exact written (sameName ▸ gone)
      simpa [RecordField.found, gone, List.lookup_eq_none_iff] using absent
    · have kept : field ∈ fields.filter fun field => field.name ∉ leftOut := by
        simp [listed, gone]
      have written := order.symm.subset (List.mem_map_of_mem kept)
      simpa [RecordField.found, gone] using lookup_eq_some_of_mem names written
  simp only [Json.fields?, namedMembers?_named, Option.bind_eq_bind, Option.bind_some]
  rw [if_pos once, looked]

theorem RecordField.Form.plain {fields : List RecordField}
    (every : ∀ field ∈ fields, field.value.Plain) {json : Json}
    (form : RecordField.Form fields json) : json.Plain := by
  obtain ⟨leftOut, members, _, order, rfl⟩ := form
  refine .object (fun member inside => ?_) fun member inside => ?_
  · obtain ⟨written, _, rfl⟩ := List.mem_map.mp inside
    exact Option.some_ne_none _
  · obtain ⟨written, listed, rfl⟩ := List.mem_map.mp inside
    obtain ⟨field, kept, rfl⟩ := List.mem_map.mp (order.subset listed)
    exact every field (List.mem_filter.mp kept).1

/-- All fields in order of declaration are a form, and so is leaving some out. -/
theorem RecordField.form_filter (fields : List RecordField) (leftOut : List String)
    (allowed : ∀ field ∈ fields, field.name ∈ leftOut → field.mayBeLeftOut) :
    RecordField.Form fields (.object
      (((fields.filter fun field => field.name ∉ leftOut).map RecordField.member).map
        fun member => (some member.1, member.2))) :=
  ⟨leftOut, _, allowed, .refl _, rfl⟩

/-! ### Types whose values have forms -/

/-- The values that fit can be written in any of their forms, the one that the desk writes is among
these, and each form is read as its value. Only values that fit are ever read. -/
structure Formed (α : Type) [Stored α] (fits : α → Prop) (form : α → Json → Prop) : Prop where
  own : ∀ value, form value (Stored.toJson value)
  plain : ∀ {value json}, form value json → json.Plain
  reads : ∀ {value json}, fits value → form value json → Stored.ofJson? json = some value
  fits_of_reads : ∀ {json value}, Stored.ofJson? json = some value → fits value

/-- The only form is the one that is written. -/
def OwnForm {α : Type} [Stored α] (value : α) (json : Json) : Prop := json = Stored.toJson value

/-- Each item of an array is in a form of its value. -/
def ItemForms {α : Type} (form : α → Json → Prop) (values : List α) (json : Json) : Prop :=
  ∃ items, List.Forall₂ form values items ∧ json = .array items

theorem LawfulStored.formed {α : Type} [Stored α] [LawfulStored α] :
    Formed α (fun _ => True) OwnForm where
  own _ := rfl
  plain := by
    rintro value _ rfl
    exact LawfulStored.plain value
  reads := by
    rintro value _ _ rfl
    exact LawfulStored.ofJson?_toJson value
  fits_of_reads _ := trivial

theorem Formed.list {α : Type} [Stored α] {form : α → Json → Prop}
    (formed : Formed α (fun _ => True) form) :
    Formed (List α) (fun _ => True) (ItemForms form) where
  own values := by
    refine ⟨values.map Stored.toJson, ?_, rfl⟩
    exact List.forall₂_map_right_iff.mpr (List.forall₂_same.mpr fun value _ => formed.own value)
  plain := by
    rintro values _ ⟨items, each, rfl⟩
    refine .array ?_
    induction each with
    | nil => simp
    | cons form _ ih => exact List.forall_mem_cons.mpr ⟨formed.plain form, ih⟩
  reads := by
    rintro values _ _ ⟨items, each, rfl⟩
    have read : items.mapM Stored.ofJson? = some values := by
      induction each with
      | nil => rfl
      | cons form _ ih => simp [List.mapM_cons, formed.reads trivial form, ih]
    exact read
  fits_of_reads _ := trivial

/-! ### The records -/

/-- A field that may be left out is read as its value whether it stands there or not. -/
private theorem optional?_ite {α : Type} [Stored α] (json : Json) {value fallback : α}
    {gone : Prop} [Decidable gone] (missing : gone → value = fallback)
    (given : Stored.ofJson? json = some value) :
    Json.optional? fallback (if gone then none else some json) = some value := by
  split
  next left => exact congrArg some (missing left).symm
  · exact given

private theorem required?_ite {α : Type} [Stored α] (json : Json) {value : α} {gone : Prop}
    [Decidable gone] (kept : ¬gone) (given : Stored.ofJson? json = some value) :
    Json.required? (if gone then none else some json) = some value := by
  rw [if_neg kept]
  exact given

namespace RecentFile

def fields (file : RecentFile) : List RecordField :=
  [⟨"name", .text file.name, False⟩, ⟨"content", .text file.content, file.content = ""⟩]

theorem formed : Formed RecentFile (fun _ => True) fun file => RecordField.Form file.fields where
  own file := RecordField.form_filter file.fields [] (by simp)
  plain := RecordField.Form.plain (by simp [fields, Json.Plain.text])
  reads := by
    intro file json _ form
    obtain ⟨leftOut, allowed, found⟩ := form.fields? (by simp [fields])
    simp only [fields, List.forall_mem_cons, List.map_cons, List.map_nil, RecordField.found]
      at allowed found
    have name : Json.required? _ = some file.name :=
      required?_ite (.text file.name) allowed.1 rfl
    have content := optional?_ite (.text file.content) allowed.2.1 rfl
    simp only [Stored.ofJson?, found, name, content]
    rfl
  fits_of_reads _ := trivial

end RecentFile

namespace SourceFile

def fields (file : SourceFile) : List RecordField :=
  [⟨"name", .text file.name, False⟩, ⟨"path", .text file.givenPath, file.givenPath = ""⟩,
    ⟨"content", .text file.content, file.content = ""⟩]

theorem formed : Formed SourceFile (fun _ => True) fun file => RecordField.Form file.fields where
  own file := by
    -- An empty path is left out even by the desk itself.
    by_cases missing : file.givenPath = ""
    · have form := RecordField.form_filter file.fields ["path"]
        (by simp [fields, missing])
      simpa [fields, RecordField.member, Stored.toJson, missing] using form
    · have form := RecordField.form_filter file.fields [] (by simp)
      simpa [fields, RecordField.member, Stored.toJson, missing] using form
  plain := RecordField.Form.plain (by simp [fields, Json.Plain.text])
  reads := by
    intro file json _ form
    obtain ⟨leftOut, allowed, found⟩ := form.fields? (by simp [fields])
    simp only [fields, List.forall_mem_cons, List.map_cons, List.map_nil, RecordField.found]
      at allowed found
    have name : Json.required? _ = some file.name :=
      required?_ite (.text file.name) allowed.1 rfl
    have path := optional?_ite (.text file.givenPath) allowed.2.1 rfl
    have content := optional?_ite (.text file.content) allowed.2.2.1 rfl
    simp only [Stored.ofJson?, found, name, path, content]
    rfl
  fits_of_reads _ := trivial

end SourceFile

namespace ArtifactEntry

def fields (entry : ArtifactEntry) : List RecordField :=
  [⟨"explanation", .text entry.explanation, entry.explanation = ""⟩,
    ⟨"testbench", .text entry.testbench, entry.testbench = ""⟩,
    ⟨"testbenchEnabled", .bool entry.testbenchEnabled, entry.testbenchEnabled = false⟩,
    ⟨"activeTabView", .text entry.view.name, entry.view = .code⟩]

theorem formed :
    Formed ArtifactEntry (fun _ => True) fun entry => RecordField.Form entry.fields where
  own entry := RecordField.form_filter entry.fields [] (by simp)
  plain := RecordField.Form.plain (by simp [fields, Json.Plain.text, Json.Plain.bool])
  reads := by
    intro entry json _ form
    obtain ⟨leftOut, allowed, found⟩ := form.fields? (by simp [fields])
    simp only [fields, List.forall_mem_cons, List.map_cons, List.map_nil, RecordField.found]
      at allowed found
    have explanation := optional?_ite (.text entry.explanation) allowed.1 rfl
    have testbench := optional?_ite (.text entry.testbench) allowed.2.1 rfl
    have enabled := optional?_ite (.bool entry.testbenchEnabled) allowed.2.2.1 rfl
    have view := optional?_ite (.text entry.view.name) allowed.2.2.2.1
      (LawfulStored.ofJson?_toJson entry.view)
    simp only [Stored.ofJson?, found, explanation, testbench, enabled, view]
    rfl
  fits_of_reads _ := trivial

end ArtifactEntry

/-! ### The settings -/

instance : LawfulStored ResponseBinding where
  plain binding := .text binding.name
  ofJson?_toJson binding := by cases binding <;> rfl

instance : LawfulStored StorageKind where
  plain kind := .text kind.name
  ofJson?_toJson kind := by cases kind <;> rfl

namespace Settings

def fields (settings : Settings) : List RecordField :=
  [⟨"recent_capacity", .natural settings.recentCapacity,
      settings.recentCapacity = RecentFiles.defaultCapacity⟩,
    ⟨"accepted_extensions", Stored.toJson settings.acceptedExtensions,
      settings.acceptedExtensions = Extensions.defaultList⟩,
    ⟨"response_binding", .text settings.responseBinding.name,
      settings.responseBinding = .originating⟩,
    ⟨"storage", .text settings.storage.name, settings.storage = .file⟩]

/-- The capacity is a number of at most 64 bits. -/
def Fits (settings : Settings) : Prop := settings.recentCapacity < Text.indexBound

/-- A capacity that is read is in bounds, and so is the one that stands for a missing field. -/
private theorem fits_of_capacity {field : Option Json} {capacity : Capacity}
    (read : Json.optional? ⟨RecentFiles.defaultCapacity⟩ field = some capacity) :
    capacity.value < Text.indexBound := by
  cases field with
  | none =>
    cases read
    decide
  | some json =>
    obtain ⟨value, natural, rfl⟩ := Option.map_eq_some_iff.mp read
    cases json <;> simp only [Json.asNatural?, reduceCtorEq, Option.ite_none_right_eq_some] at natural
    obtain ⟨inside, same⟩ := natural
    exact Option.some.inj same ▸ inside

theorem formed : Formed Settings Fits fun settings => RecordField.Form settings.fields where
  own settings := RecordField.form_filter settings.fields [] (by simp)
  plain := RecordField.Form.plain (by
    simp [fields, Json.Plain.text, Json.Plain.natural, LawfulStored.plain])
  reads := by
    intro settings json fits form
    obtain ⟨leftOut, allowed, found⟩ := form.fields? (by simp [fields])
    simp only [fields, List.forall_mem_cons, List.map_cons, List.map_nil, RecordField.found]
      at allowed found
    have read : Stored.ofJson? (.natural settings.recentCapacity) =
        some (Capacity.mk settings.recentCapacity) := by
      have inside : settings.recentCapacity < Text.indexBound := fits
      simp [Stored.ofJson?, Json.asNatural?, inside]
    -- A field that was left out has its default, so every field reads back, left out or not.
    have capacity := optional?_ite (.natural settings.recentCapacity)
      (fun gone => congrArg Capacity.mk (allowed.1 gone)) read
    have extensions := optional?_ite (Stored.toJson settings.acceptedExtensions) allowed.2.1
      (LawfulStored.ofJson?_toJson settings.acceptedExtensions)
    have binding := optional?_ite (.text settings.responseBinding.name) allowed.2.2.1
      (LawfulStored.ofJson?_toJson settings.responseBinding)
    have storage := optional?_ite (.text settings.storage.name) allowed.2.2.2.1
      (LawfulStored.ofJson?_toJson settings.storage)
    simp only [Stored.ofJson?, found, capacity, extensions, binding, storage]
    rfl
  fits_of_reads := by
    intro json settings read
    simp only [Stored.ofJson?] at read
    split at read
    next capacity extensions binding storage _ =>
      obtain ⟨held, first, read⟩ := Option.bind_eq_some_iff.mp read
      have inside := fits_of_capacity first
      obtain ⟨_, _, read⟩ := Option.bind_eq_some_iff.mp read
      obtain ⟨_, _, read⟩ := Option.bind_eq_some_iff.mp read
      obtain ⟨_, _, read⟩ := Option.bind_eq_some_iff.mp read
      rw [← Option.some.inj read]
      exact inside
    · contradiction

end Settings

/-! ### Entries -/

/-- An object of the pairs in any order. -/
def EntriesForm (entries : Entries) (json : Json) : Prop :=
  ∃ pairs : List (String × String), pairs.Perm entries.pairs ∧
    json = .object (pairs.map fun pair => (some pair.1, .text pair.2))

theorem formed_entries : Formed Entries (fun _ => True) EntriesForm where
  own entries := ⟨entries.pairs, .refl _, rfl⟩
  plain := by
    rintro entries _ ⟨pairs, _, rfl⟩
    exact plain_pairs pairs
  reads := by
    rintro entries _ _ ⟨pairs, order, rfl⟩
    have distinct : (pairs.map Prod.fst).Nodup :=
      (order.map Prod.fst).nodup_iff.mpr (SortedMap.nodup_keys entries)
    rw [ofJson?_pairs, SortedMap.ofList_perm order distinct, SortedMap.ofList_pairs]
  fits_of_reads _ := trivial

/-! ### What is read -/

/-- Values that fit are read back: from the record that is written for them, from the spread text,
and from every text of every form. A value that was read from a record can be written back: the
record is then read as the same value, and writing it again leaves it as it is. -/
structure ReadsBack (α : Type) [Stored α] (fits : α → Prop) (form : α → Json → Prop) : Prop where
  record : ∀ value, fits value → ∀ (entries : Entries) (key : String),
    readRecord? (entries.apply (.record key value)) key = .ok (some value)
  spread : ∀ value, fits value → Stored.read? (Stored.printSpread value) = some value
  forms : ∀ value json text, fits value → form value json → json.Spells text →
    Stored.read? (String.ofList text) = some value
  again : ∀ (entries : Entries) (key : String) (value : α),
    readRecord? entries key = .ok (some value) →
    let written := entries.apply (.record key value)
    readRecord? written key = .ok (some value) ∧ written.apply (.record key value) = written

private theorem read?_of_readRecord? {σ α : Type} [KeyValueStore σ] [Stored α] {storage : σ}
    {key : String} {value : α} (read : readRecord? storage key = .ok (some value)) :
    ∃ text, KeyValueStore.get? storage key = some text ∧ Stored.read? text = some value := by
  unfold readRecord? at read
  split at read
  · simp at read
  next text held =>
    split at read
    next found accepted =>
      obtain rfl := Option.some.inj (Except.ok.inj read)
      exact ⟨text, held, accepted⟩
    · contradiction

theorem Formed.readsBack {α : Type} [Stored α] {fits : α → Prop} {form : α → Json → Prop}
    (formed : Formed α fits form) : ReadsBack α fits form := by
  have forms (value : α) (json : Json) (text : List Char) (fit : fits value)
      (inForm : form value json) (spells : json.Spells text) :
      Stored.read? (String.ofList text) = some value := by
    rw [Stored.read?, Json.parse?_spells spells]
    exact formed.reads fit inForm
  have record (value : α) (fit : fits value) (entries : Entries) (key : String) :
      readRecord? (entries.apply (.record key value)) key = .ok (some value) := by
    have held : KeyValueStore.get? (entries.apply (.record key value)) key =
        some (Stored.print value) := (SortedMap.get?_insert entries key key _).trans (if_pos rfl)
    have own := formed.own value
    have read : Stored.read? (Stored.print value) = some value :=
      forms value _ _ fit own (Json.compact_spells (formed.plain own))
    rw [readRecord?, held]
    simp only [read]
  refine ⟨record, fun value fit => ?_, forms, fun entries key value read => ?_⟩
  · have own := formed.own value
    exact forms value _ _ fit own (Json.spread_spells (formed.plain own) 0)
  · obtain ⟨text, _, accepted⟩ := read?_of_readRecord? read
    obtain ⟨json, _, accepted⟩ := Option.bind_eq_some_iff.mp accepted
    have fit : fits value := formed.fits_of_reads accepted
    exact ⟨record value fit entries key, SortedMap.insert_insert entries key _ _⟩

/-- Everything that outlives a session is read back as it was written, with the fields of its records
in any order and without those that have their default. -/
theorem stored_values_read_back :
    ReadsBack (List SourceFile) (fun _ => True)
      (ItemForms fun file => RecordField.Form file.fields) ∧
    ReadsBack (List RecentFile) (fun _ => True)
      (ItemForms fun file => RecordField.Form file.fields) ∧
    ReadsBack ArtifactEntry (fun _ => True) (fun entry => RecordField.Form entry.fields) ∧
    ReadsBack Settings Settings.Fits (fun settings => RecordField.Form settings.fields) ∧
    ReadsBack View (fun _ => True) OwnForm ∧
    ReadsBack ResponseBinding (fun _ => True) OwnForm ∧
    ReadsBack StorageKind (fun _ => True) OwnForm ∧
    ReadsBack Entries (fun _ => True) EntriesForm :=
  ⟨SourceFile.formed.list.readsBack, RecentFile.formed.list.readsBack,
    ArtifactEntry.formed.readsBack, Settings.formed.readsBack, LawfulStored.formed.readsBack,
    LawfulStored.formed.readsBack, LawfulStored.formed.readsBack, formed_entries.readsBack⟩

end HdlDesk
