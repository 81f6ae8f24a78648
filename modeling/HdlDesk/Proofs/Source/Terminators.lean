import HdlDesk.Proofs.Text.LineEnds
import HdlDesk.Source.Extensions

/-!
# Line terminators of a file that is opened alone

A line is ended by a line feed or by a carriage return and a line feed. Each text is in exactly one
way some kept text and the terminators behind it, where a carriage return goes with the line feed
that follows it and is no terminator by itself. A file that is opened alone loses the terminators at
its end. If a carriage return stands right before them, it is lost as well, with all line feeds and
carriage returns in front of it; so the file is left with the kept text exactly if that does not end
in a carriage return.
-/
namespace HdlDesk

namespace Text

inductive Terminator
  | feed
  | returnAndFeed
  deriving DecidableEq, Repr

def Terminator.chars : Terminator → List Char
  | feed => ['\n']
  | returnAndFeed => ['\r', '\n']

/-- A text is some kept text and terminators behind it. The kept text ends in no terminator, and
no terminator is the second half of another one. -/
structure Terminated (text kept : List Char) (ends : List Terminator) : Prop where
  whole : text = kept ++ ends.flatMap Terminator.chars
  complete : ∀ terminator : Terminator, ¬terminator.chars <:+ kept
  uncut : kept.getLast? = some '\r' → ends.head? ≠ some .feed

/-- Drops the terminators that a text ends in; the text is given from its end. -/
def dropTerminators : List Char → List Char
  | '\n' :: '\r' :: rest => dropTerminators rest
  | '\n' :: rest => dropTerminators rest
  | rest => rest

/-- What is left of a text without the terminators at its end. -/
def unterminated (text : List Char) : List Char :=
  (dropTerminators text.reverse).reverse

/-! ### Terminators at the end of a text -/

/-- The end of a text as the function reads it. -/
theorem getLast?_ne_some_iff {text : List Char} {c : Char} :
    text.getLast? ≠ some c ↔ ∀ rest, text.reverse ≠ c :: rest := by
  rw [← List.head?_reverse, ne_eq, List.head?_eq_some_iff, not_exists]

theorem Terminator.getLast?_chars (terminator : Terminator) (text : List Char) :
    (text ++ terminator.chars).getLast? = some '\n' := by
  cases terminator <;> simp [chars]

theorem Terminator.isLineEnd_of_mem {terminator : Terminator} {c : Char}
    (member : c ∈ terminator.chars) : isLineEnd c = true := by
  cases terminator with
  | feed =>
    rw [chars, List.mem_singleton] at member
    rw [member]
    rfl
  | returnAndFeed =>
    rw [chars, List.mem_pair] at member
    rcases member with rfl | rfl <;> rfl

theorem exists_suffix_iff (text : List Char) :
    (∃ terminator : Terminator, terminator.chars <:+ text) ↔ text.getLast? = some '\n' := by
  constructor
  · rintro ⟨terminator, front, rfl⟩
    exact terminator.getLast?_chars front
  · intro last
    obtain ⟨front, rfl⟩ := List.getLast?_eq_some_iff.mp last
    exact ⟨.feed, front, rfl⟩

theorem unterminated_append (terminator : Terminator) {text : List Char}
    (uncut : text.getLast? = some '\r' → terminator ≠ .feed) :
    unterminated (text ++ terminator.chars) = unterminated text := by
  rw [unterminated, List.reverse_append, unterminated]
  cases terminator with
  | returnAndFeed => rfl
  | feed =>
    -- Behind a carriage return the line feed would be taken together with it.
    have other := getLast?_ne_some_iff.mp fun last => uncut last rfl
    change (dropTerminators ('\n' :: text.reverse)).reverse = _
    rw [dropTerminators]
    exact other

theorem unterminated_of_complete {text : List Char} (complete : text.getLast? ≠ some '\n') :
    unterminated text = text := by
  have other := getLast?_ne_some_iff.mp complete
  rw [unterminated, dropTerminators, List.reverse_reverse]
  · exact fun rest => other _
  · exact other

/-! ### The one way to take a text apart -/

theorem Terminated.getLast? {text kept : List Char} {ends : List Terminator}
    (terminated : Terminated text kept ends) : kept.getLast? ≠ some '\n' := by
  rw [ne_eq, ← exists_suffix_iff]
  exact not_exists.mpr terminated.complete

theorem terminated_self {text : List Char} (complete : text.getLast? ≠ some '\n') :
    Terminated text text [] where
  whole := (List.append_nil _).symm
  complete := by
    rw [ne_eq, ← exists_suffix_iff] at complete
    exact not_exists.mp complete
  uncut _ := nofun

theorem Terminated.append {text kept : List Char} {ends : List Terminator}
    (terminated : Terminated text kept ends) (terminator : Terminator)
    (uncut : text.getLast? = some '\r' → terminator ≠ .feed) :
    Terminated (text ++ terminator.chars) kept (ends ++ [terminator]) where
  whole := by
    rw [terminated.whole, List.flatMap_append, List.flatMap_singleton, List.append_assoc]
  complete := terminated.complete
  uncut last := by
    cases ends with
    | nil =>
      have same : text = kept := terminated.whole.trans (List.append_nil _)
      simpa using uncut (same ▸ last)
    | cons first rest => exact terminated.uncut last

theorem exists_terminated (text : List Char) :
    ∃ ends, Terminated text (unterminated text) ends := by
  suffices taken : ∀ back : List Char,
      ∃ ends, Terminated back.reverse (dropTerminators back).reverse ends by
    simpa [unterminated] using taken text.reverse
  intro back
  fun_induction dropTerminators back with
  | case1 rest ih =>
    obtain ⟨ends, terminated⟩ := ih
    have longer := terminated.append .returnAndFeed (fun _ => nofun)
    exact ⟨_, by simpa [Terminator.chars] using longer⟩
  | case2 rest other ih =>
    obtain ⟨ends, terminated⟩ := ih
    have uncut : rest.reverse.getLast? ≠ some '\r' := by
      rw [getLast?_ne_some_iff, List.reverse_reverse]
      exact other
    have longer := terminated.append .feed (fun last => absurd last uncut)
    exact ⟨_, by simpa [Terminator.chars] using longer⟩
  | case3 rest _ other =>
    refine ⟨[], terminated_self ?_⟩
    rw [getLast?_ne_some_iff, List.reverse_reverse]
    exact other

theorem Terminated.eq_unterminated {text kept : List Char} {ends : List Terminator}
    (terminated : Terminated text kept ends) : kept = unterminated text := by
  -- The terminators are taken off from the end, as the function does.
  induction ends using List.reverseRecOn generalizing text with
  | nil =>
    have same : text = kept := terminated.whole.trans (List.append_nil _)
    rw [same, unterminated_of_complete terminated.getLast?]
  | append_singleton front terminator ih =>
    obtain ⟨whole, complete, uncut⟩ := terminated
    rw [List.flatMap_append, List.flatMap_singleton, ← List.append_assoc] at whole
    have shorter : Terminated (kept ++ front.flatMap Terminator.chars) kept front := by
      refine ⟨rfl, complete, fun last begins => uncut last ?_⟩
      rw [List.head?_append, begins]
      rfl
    rw [whole, unterminated_append terminator, ← ih shorter]
    -- Behind a terminator there is no carriage return; behind the kept text there may be one.
    intro last
    cases front using List.reverseRecOn with
    | nil =>
      intro feed
      exact uncut (by simpa using last) (by rw [feed]; rfl)
    | append_singleton front before =>
      rw [List.flatMap_append, List.flatMap_singleton, ← List.append_assoc,
        before.getLast?_chars] at last
      exact absurd last (by decide)

/-! ### What trimming does to the kept text -/

/-- Trimming sees no terminators at the end of a text. -/
theorem rdropWhile_unterminated (text : List Char) :
    (unterminated text).rdropWhile isLineEnd = text.rdropWhile isLineEnd := by
  obtain ⟨ends, terminated⟩ := exists_terminated text
  have every : ∀ c ∈ (ends.flatMap Terminator.chars).reverse, isLineEnd c = true := by
    intro c member
    obtain ⟨terminator, _, inside⟩ := List.mem_flatMap.mp (List.mem_reverse.mp member)
    exact Terminator.isLineEnd_of_mem inside
  conv_rhs =>
    rw [terminated.whole, List.rdropWhile, List.reverse_append,
      List.dropWhile_append_of_pos every, ← List.rdropWhile]

theorem not_isLineEnd_of_getLast? {text : List Char} {c : Char}
    (last : (text.rdropWhile isLineEnd).getLast? = some c) : isLineEnd c = false := by
  have left : text.rdropWhile isLineEnd ≠ [] := by
    intro none
    rw [none] at last
    nomatch last
  rw [List.getLast?_eq_some_getLast left, Option.some.injEq] at last
  rw [← last]
  exact eq_false_of_ne_true (List.rdropWhile_last_not isLineEnd text left)

/-- What trimming takes from the kept text is a run up to a carriage return. -/
theorem exists_stray (text : List Char) :
    ∃ stray, unterminated text = text.rdropWhile isLineEnd ++ stray ∧
      (∀ c ∈ stray, isLineEnd c = true) ∧ (stray = [] ∨ stray.getLast? = some '\r') := by
  have parts : unterminated text = text.rdropWhile isLineEnd ++
      (unterminated text).rtakeWhile isLineEnd := by
    rw [← rdropWhile_unterminated, List.rdropWhile_append_rtakeWhile]
  have every : ∀ c ∈ (unterminated text).rtakeWhile isLineEnd, isLineEnd c = true :=
    fun c => List.mem_rtakeWhile_imp
  refine ⟨_, parts, every, ?_⟩
  cases last : ((unterminated text).rtakeWhile isLineEnd).getLast? with
  | none => exact .inl (List.getLast?_eq_none_iff.mp last)
  | some c =>
    -- The run ends where the kept text ends, which is never in a line feed.
    have ended : (unterminated text).getLast? = some c := by
      rw [parts, List.getLast?_append, last]
      rfl
    obtain ⟨_, terminated⟩ := exists_terminated text
    have noFeed : c ≠ '\n' := by
      rintro rfl
      exact terminated.getLast? ended
    have isEnd := every c (List.mem_of_getLast? last)
    simp only [isLineEnd, Bool.or_eq_true, decide_eq_true_eq] at isEnd
    exact .inr (congrArg some (isEnd.resolve_left noFeed))

/-- Trimming leaves the kept text whole exactly if no carriage return is at its end. -/
theorem terminated_rdropWhile_iff (text : List Char) :
    (∃ ends, Terminated text (text.rdropWhile isLineEnd) ends) ↔
      (unterminated text).getLast? ≠ some '\r' := by
  constructor
  · -- A trimmed text that is the kept one ends in no carriage return.
    rintro ⟨ends, terminated⟩ last
    rw [← terminated.eq_unterminated] at last
    exact absurd (not_isLineEnd_of_getLast? last) (by decide)
  · intro noReturn
    -- Whatever trimming took from the kept text would end in a carriage return.
    obtain ⟨stray, parts, _, rfl | last⟩ := exists_stray text
    · rw [List.append_nil] at parts
      exact parts ▸ exists_terminated text
    · rw [parts, List.getLast?_append, last] at noReturn
      exact absurd rfl noReturn

end Text

namespace Extensions

open Text

/-- An accepted file that is opened alone keeps its name, and loses all line feeds and carriage
returns at the end of its text, which are those at the end of its bytes. Beyond the terminators
these are nothing or a run that ends in a carriage return, and nothing exactly if the text without
its terminators does not end in a carriage return. Trimming what is left changes nothing. -/
theorem readSingle_drops_line_ends {extensions : Extensions} {raw : RawSource}
    (accepted : extensions.accepts raw.name = true) :
    let text := (decodeLossy raw.bytes).toList
    let kept := unterminated text
    ∃ content : String,
      extensions.readSingle raw = .ok (.standalone raw.name content) ∧
      (∀ other, (∃ ends, Terminated text other ends) ↔ other = kept) ∧
      (∃ stray, kept = content.toList ++ stray ∧ (∀ c ∈ stray, isLineEnd c = true) ∧
        (stray = [] ∨ stray.getLast? = some '\r')) ∧
      (∀ c, content.toList.getLast? = some c → isLineEnd c = false) ∧
      ((∃ ends, Terminated text content.toList ends) ↔ kept.getLast? ≠ some '\r') ∧
      trimLineEnds content = content ∧
      content = decodeLossy (dropLineEndBytes raw.bytes) := by
  intro text kept
  have trimmed := toList_trimLineEnds (decodeLossy raw.bytes)
  refine ⟨trimLineEnds (decodeLossy raw.bytes), if_pos accepted, fun other => ?_, ?_, ?_, ?_, ?_,
    trimLineEnds_decodeLossy raw.bytes⟩
  · constructor
    · rintro ⟨ends, terminated⟩
      exact terminated.eq_unterminated
    · rintro rfl
      exact exists_terminated text
  · rw [trimmed]
    exact exists_stray text
  · rw [trimmed]
    exact fun c => not_isLineEnd_of_getLast?
  · rw [trimmed]
    exact terminated_rdropWhile_iff text
  · rw [← String.toList_inj, toList_trimLineEnds, trimmed, List.rdropWhile_idempotent]

/-- A carriage return that ends no line is lost when it is the last character. -/
theorem lone_return_is_lost :
    let raw : RawSource := ⟨"top.v", "top.v", "module top;\r".toUTF8⟩
    let text := (decodeLossy raw.bytes).toList
    default.accepts raw.name = true ∧
    default.readSingle raw = .ok (.standalone "top.v" "module top;") ∧
    (∃ ends, Terminated text "module top;\r".toList ends) ∧
    ¬∃ ends, Terminated text "module top;".toList ends := by
  intro raw text
  have accepted : default.accepts raw.name = true := by decide +kernel
  obtain ⟨content, read, only, _, _, whole, _, rfl⟩ := readSingle_drops_line_ends accepted
  have shape : unterminated text = "module top;\r".toList := by decide +kernel
  have left : decodeLossy (dropLineEndBytes raw.bytes) = "module top;" := by decide +kernel
  rw [left] at read whole
  refine ⟨accepted, read, (only _).mpr shape.symm, fun complete => ?_⟩
  exact absurd (whole.mp complete) (by rw [shape]; decide +kernel)

end Extensions

end HdlDesk
