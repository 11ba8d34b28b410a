import LayerTiming.Proofs.Capture.LastBoot

/-!
# The cut at the last boot

There is one place at which a text with a boot marker can be cut between two lines such that the
first line behind the cut holds the marker and no later line does. What stands behind this place is
the text since the last boot.

## Main result

* `sinceLastBoot_only_cut`: the text since the last boot is the only tail of that kind. Nothing more
  is cut from it, and whole lines in front of the text change nothing.
-/
namespace LayerTiming
open Text

namespace Capture

/-- A cut between two lines, behind which the first line holds the boot marker and no later one
does. -/
structure BeginsAtLastBoot (stale fresh : List Char) : Prop where
  whole_lines : EndsLine stale
  marked : bootMarker <:+: fresh.takeWhile (· ≠ '\n')
  unmarked : ¬ bootMarker <:+: (fresh.dropWhile (· ≠ '\n')).tail

section Cuts
variable {stale fresh older longer gap : List Char}

theorem passes_line {line : List Char} (unbroken : '\n' ∉ line) :
    ∀ c ∈ line, decide (c ≠ '\n') = true := by
  intro c member
  apply decide_eq_true
  rintro rfl
  exact unbroken member

theorem endsLine_append (front : EndsLine older) (back : EndsLine gap) :
    EndsLine (older ++ gap) := by
  rcases back with rfl | last
  · rwa [List.append_nil]
  · obtain ⟨text, rfl⟩ := List.getLast?_eq_some_iff.mp last
    exact .inr (by simp)

theorem CutsAtLastBoot.begins (cut : CutsAtLastBoot stale fresh) :
    BeginsAtLastBoot stale fresh := by
  obtain ⟨before, after, rfl, unbroken, last⟩ := cut.marked
  have passed := passes_line (List.not_mem_append unbroken (by decide : '\n' ∉ bootMarker))
  refine ⟨cut.whole_lines, ?_, ?_⟩
  · rw [← List.append_assoc, List.takeWhile_append_of_pos passed]
    exact ⟨before, after.takeWhile (· ≠ '\n'), rfl⟩
  · rw [← List.append_assoc, List.dropWhile_append_of_pos passed]
    intro again
    have behind := again.trans ((List.tail_suffix _).trans (List.dropWhile_suffix _)).isInfix
    rw [← occurs_iff_infix, last] at behind
    cases behind

/-- What stands behind a line break stands behind the first line. -/
theorem suffix_behind_first_line (broken : '\n' ∈ gap) (rest : List Char) :
    rest <:+ ((gap ++ rest).dropWhile (· ≠ '\n')).tail := by
  obtain ⟨line, others, rfl, unbroken⟩ := List.eq_append_cons_of_mem broken
  rw [List.append_assoc, List.dropWhile_append_of_pos (passes_line unbroken)]
  simp

/-- A later cut leaves a marked line behind the first line of an earlier cut, so there is none. -/
theorem BeginsAtLastBoot.gap_eq_nil (here : BeginsAtLastBoot (older ++ gap) fresh)
    (earlier : BeginsAtLastBoot older (gap ++ fresh)) : gap = [] := by
  by_contra some_char
  have last : gap.getLast? = some '\n' := by
    rcases here.whole_lines with nothing | ends
    · exact absurd (List.append_eq_nil_iff.mp nothing).2 some_char
    · rwa [List.getLast?_append_of_ne_nil _ some_char] at ends
  have broken : '\n' ∈ gap := List.mem_of_getLast? last
  have first_line : fresh.takeWhile (· ≠ '\n') <:+: fresh := (List.takeWhile_prefix _).isInfix
  apply earlier.unmarked
  exact here.marked.trans (first_line.trans (suffix_behind_first_line broken fresh).isInfix)

theorem BeginsAtLastBoot.unique (here : BeginsAtLastBoot stale fresh)
    (there : BeginsAtLastBoot older longer) (same : stale ++ fresh = older ++ longer) :
    fresh = longer := by
  rcases List.append_eq_append_iff.mp same with ⟨gap, rfl, rfl⟩ | ⟨gap, rfl, rfl⟩
  · rw [there.gap_eq_nil here, List.nil_append]
  · rw [here.gap_eq_nil there, List.nil_append]

end Cuts

theorem exists_begins {text : List Char} (marked : bootMarker <:+: text) :
    ∃ stale, text = stale ++ sinceLastBoot text ∧ BeginsAtLastBoot stale (sinceLastBoot text) := by
  obtain ⟨stale, shape, cut | ⟨_, unmarked⟩⟩ := exists_cut text
  · exact ⟨stale, shape, cut.begins⟩
  · rw [← occurs_iff_infix, unmarked] at marked
    cases marked

theorem sinceLastBoot_eq_self {text : List Char} (unmarked : ¬ bootMarker <:+: text) :
    sinceLastBoot text = text := by
  obtain ⟨stale, shape, cut | ⟨rfl, _⟩⟩ := exists_cut text
  · obtain ⟨before, after, rest, _⟩ := cut.marked
    apply absurd _ unmarked
    rw [shape, rest]
    exact ⟨stale ++ before, after, by simp⟩
  · exact shape.symm

theorem eq_sinceLastBoot_iff {text fresh : List Char} (marked : bootMarker <:+: text) :
    fresh = sinceLastBoot text ↔ ∃ stale, text = stale ++ fresh ∧ BeginsAtLastBoot stale fresh := by
  constructor
  · rintro rfl
    exact exists_begins marked
  · rintro ⟨older, shape, begins⟩
    obtain ⟨stale, whole, cut⟩ := exists_begins marked
    exact begins.unique cut (shape.symm.trans whole)

/-- The text since the last boot is the only tail of a text that begins with a line of its own and
holds the boot marker in this line and in no later one. A text without the marker is kept, what is kept is
kept again, and whole lines in front of a text with the marker do not count. -/
theorem sinceLastBoot_only_cut (text : List Char) :
    (bootMarker <:+: text → ∀ fresh, fresh = sinceLastBoot text ↔
      ∃ stale, text = stale ++ fresh ∧ BeginsAtLastBoot stale fresh) ∧
    (¬ bootMarker <:+: text → sinceLastBoot text = text) ∧
    sinceLastBoot (sinceLastBoot text) = sinceLastBoot text ∧
    (bootMarker <:+: text → ∀ front, EndsLine front →
      sinceLastBoot (front ++ text) = sinceLastBoot text) := by
  refine ⟨fun marked fresh => eq_sinceLastBoot_iff marked, sinceLastBoot_eq_self, ?_, ?_⟩
  · by_cases marked : bootMarker <:+: text
    · -- Without anything in front, what is left is cut where it begins.
      obtain ⟨stale, _, begins⟩ := exists_begins marked
      have first_line := begins.marked.trans (List.takeWhile_prefix _).isInfix
      apply Eq.symm
      apply (eq_sinceLastBoot_iff first_line).mpr
      exact ⟨[], rfl, .inl rfl, begins.marked, begins.unmarked⟩
    · rw [sinceLastBoot_eq_self marked, sinceLastBoot_eq_self marked]
  · intro marked front ended
    -- The same tail is left if whole lines stand in front of the text.
    obtain ⟨stale, shape, begins⟩ := exists_begins marked
    have still_marked : bootMarker <:+: front ++ text :=
      marked.trans (List.suffix_append _ _).isInfix
    apply Eq.symm
    apply (eq_sinceLastBoot_iff still_marked).mpr
    refine ⟨front ++ stale, ?_, ?_, begins.marked, begins.unmarked⟩
    · rw [List.append_assoc, ← shape]
    · exact endsLine_append ended begins.whole_lines

end Capture
end LayerTiming
