import LayerTiming.Capture.Facts
import LayerTiming.Proofs.Text.Cutting
import LayerTiming.Proofs.Text.Search

/-!
# Announced models

The model of a capture is the word of its first announcement. Where a text begins like an
announcement and does not go on like one, the search goes on right behind the first character, so an
announcement that begins inside of a failed one is found as well.

## Main result

`announcedModel?_first`: the word of the first announcement is found, and none only if there is no
announcement at all.
-/
namespace LayerTiming.Capture
open Text

/-- A text in which a word is announced behind `front`. -/
structure Announces (text front word : List Char) : Prop where
  some_char : word ≠ []
  word_chars : ∀ c ∈ word, isWordChar c = true
  spelled : ∃ back, text = front ++ ("Tests for ".toList ++ (word ++ (" model".toList ++ back)))

/-- An announcement with none further to the left. -/
structure IsFirst (text front word : List Char) : Prop where
  announces : Announces text front word
  none_before : ∀ shorter other, shorter.length < front.length → ¬ Announces text shorter other

variable {text front rest word : List Char}

/-- The blank behind an announced word ends it. -/
theorem takeWhile_announced (word_chars : ∀ c ∈ word, isWordChar c = true) (back : List Char) :
    (word ++ (" model".toList ++ back)).takeWhile isWordChar = word ∧
      (word ++ (" model".toList ++ back)).dropWhile isWordChar = " model".toList ++ back := by
  refine takeWhile_kind word_chars fun c first => ?_
  obtain rfl : ' ' = c := Option.some.inj first
  decide

theorem announcedHere?_eq_some_iff : announcedHere? text = some word ↔ Announces text [] word := by
  constructor
  · intro found
    simp only [announcedHere?, Option.bind_eq_bind, Option.bind_eq_some_iff] at found
    obtain ⟨tail, begins, found⟩ := found
    -- All characters up to the first one of another kind are the word, if there are any.
    split at found
    · cases found
    next some_char =>
      obtain ⟨back, ends, rfl⟩ := Option.map_eq_some_iff.mp found
      refine ⟨some_char, fun c member => List.mem_takeWhile_imp member, back, ?_⟩
      rw [← (after?_eq_some_iff _ _ _).mp ends, List.takeWhile_append_dropWhile, List.nil_append]
      exact (after?_eq_some_iff _ _ _).mp begins
  · rintro ⟨some_char, word_chars, back, rfl⟩
    obtain ⟨taken, left⟩ := takeWhile_announced word_chars back
    rw [announcedHere?, List.nil_append, after?_append]
    simp only [Option.bind_eq_bind, Option.bind_some, taken, left, if_neg some_char, after?_append,
      Option.map_some]

/-- What is announced further on is announced at the start of the rest. -/
theorem announces_append_iff : Announces (front ++ rest) front word ↔ Announces rest [] word := by
  constructor
  · rintro ⟨some_char, word_chars, back, spelled⟩
    exact ⟨some_char, word_chars, back, List.append_cancel_left spelled⟩
  · rintro ⟨some_char, word_chars, back, spelled⟩
    exact ⟨some_char, word_chars, back, congrArg (front ++ ·) spelled⟩

theorem Announces.exists_rest (announces : Announces text front word) :
    ∃ rest, text = front ++ rest ∧ announcedHere? rest = some word := by
  obtain ⟨back, rfl⟩ := announces.spelled
  exact ⟨_, rfl, announcedHere?_eq_some_iff.mpr (announces_append_iff.mp announces)⟩

theorem announcedModel?_eq_some_iff {name : String} :
    announcedModel? text = some name ↔ ∃ front, IsFirst text front name.toList := by
  have as_chars : announcedModel? text = some name ↔
      leftmost? announcedHere? text = some name.toList := by
    rw [announcedModel?, Option.map_eq_some_iff]
    constructor
    · rintro ⟨word, found, rfl⟩
      rwa [String.toList_ofList]
    · exact fun found => ⟨name.toList, found, String.ofList_toList⟩
  -- The leftmost match and the first announcement are at one place, with nothing in front of it.
  rw [as_chars, leftmost?_eq_some_iff]
  constructor
  · rintro ⟨front, rest, rfl, here, nothing⟩
    refine ⟨front, announces_append_iff.mpr (announcedHere?_eq_some_iff.mp here), ?_⟩
    intro shorter word less announces
    obtain ⟨other, shape, there⟩ := announces.exists_rest
    rw [nothing shorter other shape less] at there
    cases there
  · rintro ⟨front, announces, none_before⟩
    obtain ⟨rest, rfl, here⟩ := announces.exists_rest
    refine ⟨front, rest, rfl, here, fun shorter other shape less => ?_⟩
    rw [Option.eq_none_iff_forall_ne_some]
    intro word there
    refine none_before shorter word less ?_
    rw [shape]
    exact announces_append_iff.mpr (announcedHere?_eq_some_iff.mp there)

theorem announcedModel?_eq_none_iff :
    announcedModel? text = none ↔ ∀ front word, ¬ Announces text front word := by
  rw [announcedModel?, Option.map_eq_none_iff, leftmost?_eq_none_iff]
  constructor
  · intro nothing front word announces
    obtain ⟨rest, shape, here⟩ := announces.exists_rest
    rw [nothing front rest shape] at here
    cases here
  · intro nothing front rest shape
    rw [Option.eq_none_iff_forall_ne_some]
    intro word here
    refine nothing front word ?_
    rw [shape]
    exact announces_append_iff.mpr (announcedHere?_eq_some_iff.mp here)

/-- No announcement is hidden: the model that is found stands there or further to the left. -/
theorem Announces.exists_model (announces : Announces text front word) :
    ∃ name earlier, announcedModel? text = some name ∧ IsFirst text earlier name.toList ∧
      earlier.length ≤ front.length := by
  cases found : announcedModel? text with
  | none => exact absurd announces (announcedModel?_eq_none_iff.mp found front word)
  | some name =>
    obtain ⟨earlier, first⟩ := announcedModel?_eq_some_iff.mp found
    refine ⟨name, earlier, rfl, first, Nat.le_of_not_lt fun less => ?_⟩
    exact first.none_before front word less announces

/-- The model of a capture is the word of its first announcement. -/
theorem announcedModel?_first (text : List Char) :
    (∀ name, announcedModel? text = some name ↔ ∃ front, IsFirst text front name.toList) ∧
      (announcedModel? text = none ↔ ∀ front word, ¬ Announces text front word) ∧
      ∀ front word, Announces text front word →
        ∃ name earlier, announcedModel? text = some name ∧ IsFirst text earlier name.toList ∧
          earlier.length ≤ front.length :=
  ⟨fun _ => announcedModel?_eq_some_iff, announcedModel?_eq_none_iff,
    fun _ _ announces => announces.exists_model⟩

example : announcedModel? "Tests for Tests for x model".toList = some "x" := by decide

end LayerTiming.Capture
