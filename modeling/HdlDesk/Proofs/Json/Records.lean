import HdlDesk.Artifact.Basic
import HdlDesk.Proofs.Json.Reading
import HdlDesk.Recent
import HdlDesk.Source.File

/-!
# Records read back

A type is lawful when each of its values is stored as a JSON value that can be written down and that
is read as the same value. Then the stored text is read as the value, in either layout. The parts of
a session that are kept from one run to the next are lawful.
-/
namespace HdlDesk

class LawfulStored (α : Type) [Stored α] : Prop where
  plain (value : α) : (Stored.toJson value).Plain
  ofJson?_toJson (value : α) : Stored.ofJson? (Stored.toJson value) = some value

namespace Stored

variable {α : Type} [Stored α]

theorem read?_print [LawfulStored α] (value : α) : read? (print value) = some value := by
  rw [read?, print, Json.parse?_render (LawfulStored.plain value)]
  exact LawfulStored.ofJson?_toJson value

theorem read?_printSpread [LawfulStored α] (value : α) :
    read? (printSpread value) = some value := by
  rw [read?, printSpread, Json.parse?_renderSpread (LawfulStored.plain value)]
  exact LawfulStored.ofJson?_toJson value

end Stored

instance : LawfulStored String where
  plain := .text
  ofJson?_toJson _ := rfl

instance : LawfulStored Bool where
  plain := .bool
  ofJson?_toJson _ := rfl

private theorem mapM_toJson {α : Type} [Stored α] [LawfulStored α] (values : List α) :
    (values.map Stored.toJson).mapM Stored.ofJson? = some values := by
  induction values with
  | nil => rfl
  | cons value values ih =>
    rw [List.map_cons, List.mapM_cons, LawfulStored.ofJson?_toJson, ih]
    rfl

instance {α : Type} [Stored α] [LawfulStored α] : LawfulStored (List α) where
  plain values := by
    refine .array fun item member => ?_
    obtain ⟨value, _, rfl⟩ := List.mem_map.mp member
    exact LawfulStored.plain value
  ofJson?_toJson values := mapM_toJson values

instance : LawfulStored View where
  plain view := .text view.name
  ofJson?_toJson view := by cases view <;> rfl

private theorem plain_object (members : List (String × Json))
    (every : ∀ member ∈ members, member.2.Plain) :
    (Json.object (members.map fun member => (some member.1, member.2))).Plain := by
  refine .object (fun member inside => ?_) fun member inside => ?_
  · obtain ⟨known, _, rfl⟩ := List.mem_map.mp inside
    exact Option.some_ne_none _
  · obtain ⟨known, listed, rfl⟩ := List.mem_map.mp inside
    exact every known listed

instance : LawfulStored RecentFile where
  plain file := plain_object [("name", .text file.name), ("content", .text file.content)]
    (by simp [Json.Plain.text])
  ofJson?_toJson file := rfl

instance : LawfulStored SourceFile where
  plain file := by
    by_cases missing : file.givenPath = ""
    · simpa [Stored.toJson, missing] using
        plain_object [("name", .text file.name), ("content", .text file.content)]
          (by simp [Json.Plain.text])
    · simpa [Stored.toJson, missing] using
        plain_object [("name", .text file.name), ("path", .text file.givenPath),
          ("content", .text file.content)] (by simp [Json.Plain.text])
  ofJson?_toJson file := by
    obtain ⟨name, path, content⟩ := file
    by_cases missing : path = ""
    · subst missing
      rfl
    · simp only [Stored.toJson, missing, if_false]
      rfl

instance : LawfulStored ArtifactEntry where
  plain entry := plain_object [("explanation", .text entry.explanation),
      ("testbench", .text entry.testbench), ("testbenchEnabled", .bool entry.testbenchEnabled),
      ("activeTabView", .text entry.view.name)]
    (by simp [Json.Plain.text, Json.Plain.bool])
  ofJson?_toJson entry := by
    obtain ⟨explanation, testbench, enabled, view⟩ := entry
    cases view <;> rfl

end HdlDesk
