import Mathlib.Data.List.TakeWhile
import HdlDesk.Settings

/-!
# Extensions as they are configured

An extension counts by what is left of it when the blanks around it are gone, its letters are
lowered and a dot stands in front. So neither the blanks nor the case of the letters matter, and
neither do the order and the repetitions in the list. An extension of which nothing is left, or
nothing but a dot, is dropped. The defaults step in for a list that is empty, but not for one of
which nothing is left: such a list accepts no name at all.
-/
namespace HdlDesk

namespace Text

/-- What holds of the capitals and of every character that lowering keeps holds of all. -/
theorem toLower_cases {P : Char → Prop} (capitals : ∀ k < 26, P (Char.ofNat (65 + k)))
    (others : ∀ c : Char, c.toLower = c → P c) (c : Char) : P c := by
  by_cases capital : c.val ≥ 'A'.val ∧ c.val ≤ 'Z'.val
  · have low : 65 ≤ c.toNat := UInt32.le_iff_toNat_le.mp capital.1
    have high : c.toNat ≤ 90 := UInt32.le_iff_toNat_le.mp capital.2
    have holds := capitals (c.toNat - 65) (by omega)
    rwa [Nat.add_sub_cancel' low, Char.ofNat_toNat] at holds
  · exact others c (dif_neg capital)

/-- No letter is blank, so lowering a character does not make it one. -/
theorem isBlank_toLower (c : Char) : isBlank c.toLower = isBlank c :=
  toLower_cases (P := fun c => isBlank c.toLower = isBlank c) (by decide)
    (fun c same => by rw [same]) c

theorem toLower_toLower (c : Char) : c.toLower.toLower = c.toLower :=
  toLower_cases (P := fun c => c.toLower.toLower = c.toLower) (by decide)
    (fun c same => by rw [same, same]) c

theorem toLower_eq_dot_iff (c : Char) : c.toLower = '.' ↔ c = '.' :=
  toLower_cases (P := fun c => c.toLower = '.' ↔ c = '.') (by decide)
    (fun c same => by rw [same]) c

theorem trimChars_map_toLower (cs : List Char) :
    trimChars (cs.map Char.toLower) = (trimChars cs).map Char.toLower := by
  have blind : isBlank ∘ Char.toLower = isBlank := funext isBlank_toLower
  rw [trimChars, List.dropWhile_map, ← List.map_reverse, List.dropWhile_map, blind,
    ← List.map_reverse, trimChars]

/-- Some characters with blanks before and behind them. -/
def Pads (text core : List Char) : Prop :=
  ∃ before after : List Char, before.all isBlank = true ∧ after.all isBlank = true ∧
    text = before ++ core ++ after

/-- Trimming does not see the blanks around a text. -/
theorem trimChars_of_pads {text core : List Char} (pads : Pads text core) :
    trimChars text = trimChars core := by
  obtain ⟨before, after, blankBefore, blankAfter, rfl⟩ := pads
  rw [List.all_eq_true] at blankBefore
  have dropped : after.dropWhile isBlank = [] :=
    List.dropWhile_eq_nil_iff.mpr (List.all_eq_true.mp blankAfter)
  have blankBehind : ∀ c ∈ after.reverse, isBlank c = true := by
    rw [← List.all_reverse] at blankAfter
    exact List.all_eq_true.mp blankAfter
  rw [trimChars, List.append_assoc, List.dropWhile_append_of_pos blankBefore, List.dropWhile_append,
    trimChars]
  split
  next none =>
    rw [dropped, List.isEmpty_iff.mp none]
  next some =>
    rw [List.reverse_append, List.dropWhile_append_of_pos blankBehind]

end Text

namespace Extensions

open Text

/-- Trimming leaves more of the extension than a dot. -/
def IsUsable (extension : String) : Prop := trim extension ≠ "" ∧ trim extension ≠ "."

instance (extension : String) : Decidable (IsUsable extension) :=
  inferInstanceAs (Decidable (_ ∧ _))

/-- Some characters with a dot in front, which is supplied where it is missing. -/
def dotted : List Char → List Char
  | '.' :: rest => '.' :: rest
  | cs => '.' :: cs

/-- The lowered name ends in the extension, trimmed, lowered and with a dot in front. -/
def EndsIn (name extension : String) : Prop :=
  dotted (lowerAscii (trim extension)).toList <:+ (lowerAscii name).toList

/-- The same extension but for the blanks around it and the case of its letters. -/
def Respells (extension other : String) : Prop :=
  ∃ core otherCore, Pads extension.toList core ∧ Pads other.toList otherCore ∧
    core.map Char.toLower = otherCore.map Char.toLower

theorem lowerAscii_trim_of_respells {extension other : String}
    (respells : Respells extension other) :
    lowerAscii (trim extension) = lowerAscii (trim other) := by
  obtain ⟨core, otherCore, pads, otherPads, same⟩ := respells
  rw [← String.toList_inj, lowerAscii, lowerAscii, String.toList_map, String.toList_map, trim, trim,
    String.toList_ofList, String.toList_ofList, trimChars_of_pads pads, trimChars_of_pads otherPads,
    ← trimChars_map_toLower, same, trimChars_map_toLower]

theorem endsIn_of_respells {extension other : String} (respells : Respells extension other)
    (name : String) : EndsIn name extension ↔ EndsIn name other := by
  rw [EndsIn, EndsIn, lowerAscii_trim_of_respells respells]

theorem toList_clean (extension : String) :
    (clean extension).toList = dotted (lowerAscii (trim extension)).toList := by
  unfold clean
  dsimp only
  split
  next leads =>
    obtain ⟨rest, shape⟩ := List.head?_eq_some_iff.mp leads
    rw [shape, dotted]
  next other =>
    rw [String.toList_append]
    unfold dotted
    split
    next rest shape => exact absurd (by rw [shape]; rfl) other
    · rfl

private theorem dotted_eq_dot_iff {cs : List Char} : dotted cs = ['.'] ↔ cs = [] ∨ cs = ['.'] := by
  unfold dotted
  split
  · simp
  · simp only [List.cons.injEq, true_and]
    exact ⟨.inl, fun small => small.resolve_right (by simp_all)⟩

private theorem lowered_eq_dot_iff {cs : List Char} : cs.map Char.toLower = ['.'] ↔ cs = ['.'] := by
  rw [List.map_eq_singleton_iff]
  constructor
  · rintro ⟨c, rfl, lowered⟩
    rw [(toLower_eq_dot_iff c).mp lowered]
  · rintro rfl
    exact ⟨'.', rfl, rfl⟩

/-- What is dropped from a list is what is not usable. -/
theorem clean_eq_dot_iff (extension : String) : clean extension = "." ↔ ¬IsUsable extension := by
  have empty : trim extension = "" ↔ (trim extension).toList = [] := by
    rw [← String.toList_inj, String.toList_empty]
  have dot : trim extension = "." ↔ (trim extension).toList = ['.'] := by
    rw [← String.toList_inj]
    rfl
  have cleaned : clean extension = "." ↔ (clean extension).toList = ['.'] := by
    rw [← String.toList_inj]
    rfl
  rw [cleaned, toList_clean, dotted_eq_dot_iff, lowerAscii, String.toList_map, lowered_eq_dot_iff,
    List.map_eq_nil_iff, IsUsable, ne_eq, ne_eq, empty, dot, not_and_or, not_not, not_not]

theorem isUsable_of_respells {extension other : String} (respells : Respells extension other) :
    IsUsable extension ↔ IsUsable other := by
  have same : clean extension = clean other := by
    rw [clean, clean, lowerAscii_trim_of_respells respells]
  rw [← not_iff_not, ← clean_eq_dot_iff, same, clean_eq_dot_iff]

theorem accepts_ofList_iff (extensions : List String) (name : String) :
    (ofList extensions).accepts name = true ↔
      ∃ extension ∈ extensions, IsUsable extension ∧ EndsIn name extension := by
  simp only [accepts, ofList, List.any_eq_true, List.mem_filter, List.mem_map, decide_eq_true_eq,
    ne_eq, endsIn_iff]
  constructor
  · rintro ⟨_, ⟨⟨extension, member, rfl⟩, kept⟩, ends⟩
    rw [clean_eq_dot_iff, not_not] at kept
    rw [toList_clean] at ends
    exact ⟨extension, member, kept, ends⟩
  · rintro ⟨extension, member, usable, ends⟩
    refine ⟨clean extension, ⟨⟨extension, member, rfl⟩, ?_⟩, ?_⟩
    · rwa [clean_eq_dot_iff, not_not]
    · rwa [toList_clean]

private theorem map_toLower_dotted (cs : List Char) :
    (dotted cs).map Char.toLower = dotted (cs.map Char.toLower) := by
  cases cs with
  | nil => rfl
  | cons c rest =>
    by_cases dot : c = '.'
    · subst dot
      rfl
    · have lowered : c.toLower ≠ '.' := mt (toLower_eq_dot_iff c).mp dot
      rw [List.map_cons, dotted, dotted]
      · rfl
      · simp [lowered]
      · simp [dot]

/-- The cleaned form of an extension is a name that ends in it. -/
theorem endsIn_clean (extension : String) : EndsIn (clean extension) extension := by
  have again : (lowerAscii (clean extension)).toList = (clean extension).toList := by
    have idempotent : Char.toLower ∘ Char.toLower = Char.toLower := funext toLower_toLower
    rw [lowerAscii, String.toList_map, toList_clean, map_toLower_dotted, lowerAscii,
      String.toList_map, List.map_map, idempotent]
  exact ⟨[], (again.trans (toList_clean extension)).symm⟩

theorem exists_accepted_iff (extensions : List String) :
    (∃ name, (ofList extensions).accepts name = true) ↔
      ∃ extension ∈ extensions, IsUsable extension := by
  constructor
  · rintro ⟨name, accepted⟩
    obtain ⟨extension, member, usable, _⟩ := (accepts_ofList_iff extensions name).mp accepted
    exact ⟨extension, member, usable⟩
  · rintro ⟨extension, member, usable⟩
    exact ⟨clean extension, (accepts_ofList_iff extensions _).mpr
      ⟨extension, member, usable, endsIn_clean extension⟩⟩

/-- Some ending is left exactly if some name is accepted. -/
theorem endings_ne_nil_iff (extensions : List String) :
    (ofList extensions).endings ≠ [] ↔ ∃ extension ∈ extensions, IsUsable extension := by
  rw [ofList, ne_eq, List.filter_eq_nil_iff]
  simp [clean_eq_dot_iff]

/-- Lists whose usable extensions are respellings of each other accept the same names. -/
theorem accepts_of_respells {extensions others : List String}
    (there : ∀ extension ∈ extensions, IsUsable extension → ∃ other ∈ others,
      Respells extension other)
    (back : ∀ other ∈ others, IsUsable other → ∃ extension ∈ extensions,
      Respells other extension) (name : String) :
    (ofList extensions).accepts name = (ofList others).accepts name := by
  rw [Bool.eq_iff_iff, accepts_ofList_iff, accepts_ofList_iff]
  constructor
  · rintro ⟨extension, member, usable, ends⟩
    obtain ⟨other, found, respells⟩ := there extension member usable
    exact ⟨other, found, (isUsable_of_respells respells).mp usable,
      (endsIn_of_respells respells name).mp ends⟩
  · rintro ⟨other, member, usable, ends⟩
    obtain ⟨extension, found, respells⟩ := back other member usable
    exact ⟨extension, found, (isUsable_of_respells respells).mp usable,
      (endsIn_of_respells respells name).mp ends⟩

end Extensions

namespace Settings

open Extensions

private theorem accepts_defaultList_iff (name : String) :
    (ofList defaultList).accepts name = true ↔ EndsIn name ".v" ∨ EndsIn name ".sv" := by
  have usable : IsUsable ".v" ∧ IsUsable ".sv" := by decide +kernel
  rw [accepts_ofList_iff]
  simp [defaultList, usable]

/-- The extensions that count, before they are cleaned. -/
theorem extensions_config (settings : Settings) :
    settings.config.extensions = ofList
      (if settings.acceptedExtensions = [] then defaultList else settings.acceptedExtensions) :=
  rfl

private theorem usable_counts_iff (given : List String) :
    (∃ extension ∈ if given = [] then defaultList else given, IsUsable extension) ↔
      given = [] ∨ ∃ extension ∈ given, IsUsable extension := by
  by_cases none : given = []
  · have usable : ∃ extension ∈ defaultList, IsUsable extension :=
      ⟨".v", List.mem_cons_self, by decide +kernel⟩
    simp only [none, if_true, usable, true_or]
  · simp only [none, if_false, false_or]

/-- What is configured keeps at least one recent file. If no extension is given, the defaults are
accepted, and else exactly the usable ones, however they are spelled. So some name is accepted,
unless extensions are given and none of them is usable. -/
theorem config_accepts_usable (settings : Settings) :
    let given := settings.acceptedExtensions
    let extensions := settings.config.extensions
    1 ≤ settings.config.recentCapacity ∧
    (given = [] → ∀ name, extensions.accepts name = true ↔ EndsIn name ".v" ∨ EndsIn name ".sv") ∧
    (given ≠ [] → ∀ name, extensions.accepts name = true ↔
      ∃ extension ∈ given, IsUsable extension ∧ EndsIn name extension) ∧
    (extensions.endings ≠ [] ↔ given = [] ∨ ∃ extension ∈ given, IsUsable extension) ∧
    ((∃ name, extensions.accepts name = true) ↔
      given = [] ∨ ∃ extension ∈ given, IsUsable extension) ∧
    ∀ other : Settings, (∃ extension ∈ given, IsUsable extension) →
      (∀ extension ∈ given, IsUsable extension →
        ∃ held ∈ other.acceptedExtensions, Respells extension held) →
      (∀ held ∈ other.acceptedExtensions, IsUsable held →
        ∃ extension ∈ given, Respells held extension) →
      ∀ name, extensions.accepts name = other.config.extensions.accepts name := by
  intro given extensions
  have counts : extensions = ofList (if given = [] then defaultList else given) :=
    extensions_config settings
  refine ⟨Nat.le_max_right _ _, fun none name => ?_, fun some name => ?_, ?_, ?_,
    fun other ⟨extension, member, usable⟩ there back => ?_⟩
  · rw [counts, if_pos none]
    exact accepts_defaultList_iff name
  · rw [counts, if_neg some]
    exact accepts_ofList_iff given name
  · rw [counts, endings_ne_nil_iff, usable_counts_iff]
  · rw [counts, exists_accepted_iff, usable_counts_iff]
  · -- Both lists hold something usable, so neither is replaced by the defaults.
    obtain ⟨held, found, _⟩ := there extension member usable
    rw [counts, if_neg (List.ne_nil_of_mem member), extensions_config other,
      if_neg (List.ne_nil_of_mem found)]
    exact accepts_of_respells there back

/-- Settings whose only extension is a dot are read, and accept nothing. -/
theorem lone_dot_accepts_nothing :
    ∃ settings : Settings,
      Stored.read? "\x7b\"accepted_extensions\":[\".\"]\x7d" = some settings ∧
      settings.config.extensions.endings = [] ∧
      ∀ name, settings.config.extensions.accepts name = false := by
  have unusable : ¬∃ extension ∈ ["."], IsUsable extension := by decide +kernel
  obtain ⟨_, _, _, ending, accepted, _⟩ :=
    config_accepts_usable { acceptedExtensions := ["."] }
  refine ⟨{ acceptedExtensions := ["."] }, by decide +kernel, ?_, fun name => ?_⟩
  · by_contra some
    exact unusable ((ending.mp some).resolve_left nofun)
  · by_contra some
    have accepts := eq_true_of_ne_false some
    exact unusable ((accepted.mp ⟨name, accepts⟩).resolve_left nofun)

end Settings

end HdlDesk
