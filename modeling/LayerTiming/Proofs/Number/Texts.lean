import LayerTiming.Number.Decimal
import LayerTiming.Proofs.Text.Digits

/-!
# Texts of doubles

What the text of a double is made of: it is never empty, and with a fixed number of places it holds
digits, a point, a sign or the letters of what is no number, but no blank and no comma.
-/
namespace LayerTiming.Number
open Text

theorem signed_ne_nil (negative : Bool) {text : List Char} (some_text : text ≠ []) :
    signed negative text ≠ [] := by
  unfold signed
  split
  · exact List.cons_ne_nil _ _
  · exact some_text

theorem pointed_zero (n : Nat) : pointed n 0 = numeral n := by
  have some_digit := List.length_pos_iff.mpr (numeral_ne_nil n)
  have none : 0 + 1 - (numeral n).length = 0 := by omega
  rw [pointed, if_pos rfl, none, List.replicate_zero, List.nil_append, Nat.sub_zero, List.take_length]

/-- With zeros in front, a number has digits before its last ones. -/
theorem pointed_eq_append (n : Nat) {places : Nat} (some_place : places ≠ 0) :
    ∃ whole fraction, pointed n places = whole ++ '.' :: fraction ∧ whole ≠ [] ∧
      fraction.length = places ∧ (∀ c ∈ whole ++ fraction, isAsciiDigit c = true) ∧
      digitsValue (whole ++ fraction) = n := by
  unfold pointed
  extract_lets digits padded whole
  have longer : places + 1 ≤ padded.length := by
    simp only [padded, List.length_append, List.length_replicate]
    omega
  have parted : whole ++ padded.drop (padded.length - places) = padded := List.take_append_drop _ _
  refine ⟨whole, padded.drop (padded.length - places), if_neg some_place, ?_, ?_, ?_, ?_⟩
  · rw [← List.length_pos_iff, List.length_take]
    omega
  · rw [List.length_drop]
    omega
  · rw [parted, List.forall_mem_append]
    refine ⟨fun c member => ?_, isAsciiDigit_of_mem_numeral n⟩
    rw [List.eq_of_mem_replicate member]
    decide
  · rw [parted, digitsValue_append, digitsValue_zeros, Nat.zero_mul, Nat.zero_add]
    exact digitsValue_numeral n

theorem pointed_ne_nil (n places : Nat) : pointed n places ≠ [] := by
  by_cases some_place : places = 0
  · rw [some_place, pointed_zero]
    exact numeral_ne_nil n
  · obtain ⟨whole, fraction, text, some_digit, _⟩ := pointed_eq_append n some_place
    rw [text]
    exact List.append_ne_nil_of_left_ne_nil some_digit _

theorem fixed_ne_nil (places : Nat) (x : Float) : fixed places x ≠ [] := by
  unfold fixed
  split
  · decide
  · exact signed_ne_nil _ (by decide)
  · exact signed_ne_nil _ (pointed_ne_nil _ _)

theorem plain_ne_nil (x : Float) : plain x ≠ [] := by
  unfold plain
  split
  · decide
  · exact signed_ne_nil _ (by decide)
  · refine signed_ne_nil _ ?_
    unfold Decimal.positional
    split
    · exact List.append_ne_nil_of_left_ne_nil (numeral_ne_nil _) _
    · exact pointed_ne_nil _ _

theorem mem_signed {negative : Bool} {text : List Char} {c : Char}
    (member : c ∈ signed negative text) : c = '-' ∨ c ∈ text := by
  unfold signed at member
  split at member
  · exact List.mem_cons.mp member
  · exact .inr member

theorem mem_pointed {n places : Nat} {c : Char} (member : c ∈ pointed n places) :
    c = '.' ∨ isAsciiDigit c = true := by
  by_cases some_place : places = 0
  · rw [some_place, pointed_zero] at member
    exact .inr (isAsciiDigit_of_mem_numeral n c member)
  · obtain ⟨whole, fraction, text, _, _, latin, _⟩ := pointed_eq_append n some_place
    obtain ⟨latin_whole, latin_fraction⟩ := List.forall_mem_append.mp latin
    rw [text] at member
    rcases List.mem_append.mp member with front | back
    · exact .inr (latin_whole c front)
    · exact (List.mem_cons.mp back).imp_right (latin_fraction c)

/-- A character that is no digit is in no text with fixed places, unless it is one of a few. -/
theorem not_mem_fixed {c : Char} (places : Nat) (x : Float) (other : isAsciiDigit c = false)
    (unused : c ∉ "-.NaNinf".toList) : c ∉ fixed places x := by
  intro member
  simp at unused
  obtain ⟨dash, point, upper, lower, i, n, f⟩ := unused
  unfold fixed at member
  split at member
  · simp_all
  · rcases mem_signed member with sign | letter
    · exact dash sign
    · simp_all
  · rcases mem_signed member with sign | rest
    · exact dash sign
    · rcases mem_pointed rest with at_point | digit
      · exact point at_point
      · rw [other] at digit
        cases digit

theorem mem_positional {value : Decimal} {c : Char} (member : c ∈ value.positional) :
    c = '.' ∨ isAsciiDigit c = true := by
  unfold Decimal.positional at member
  split at member
  · rcases List.mem_append.mp member with digit | zero
    · exact .inr (isAsciiDigit_of_mem_numeral _ c digit)
    · rw [List.eq_of_mem_replicate zero]
      exact .inr (by decide)
  · exact mem_pointed member

/-- The shortest text holds the same characters as one with fixed places. -/
theorem not_mem_plain {c : Char} (x : Float) (other : isAsciiDigit c = false)
    (unused : c ∉ "-.NaNinf".toList) : c ∉ plain x := by
  intro member
  simp at unused
  obtain ⟨dash, point, upper, lower, i, n, f⟩ := unused
  unfold plain at member
  split at member
  · simp_all
  · rcases mem_signed member with sign | letter
    · exact dash sign
    · simp_all
  · rcases mem_signed member with sign | rest
    · exact dash sign
    · rcases mem_positional rest with at_point | digit
      · exact point at_point
      · rw [other] at digit
        cases digit

end LayerTiming.Number
