import LayerTiming.Text.Numeral

/-!
# Numerals read back

A printed numeral is a string of digits of the basic Latin block, and reading it gives the number
that was printed. Counter values read back up to the last one.
-/
namespace LayerTiming.Text

theorem isAsciiDigit_iff (c : Char) :
    isAsciiDigit c = true ↔ 48 ≤ c.toNat ∧ c.toNat ≤ 57 := by
  simp only [isAsciiDigit, Bool.and_eq_true, decide_eq_true_eq, Char.le_def]
  rfl

theorem isAsciiDigit_of_mem_numeral (n : Nat) (c : Char) (member : c ∈ numeral n) :
    isAsciiDigit c = true := by
  have digit : c.isDigit = true := Nat.isDigit_of_mem_toDigits (by omega) (by omega) member
  simp only [Char.isDigit, ge_iff_le, Bool.and_eq_true, decide_eq_true_eq] at digit
  exact (isAsciiDigit_iff c).mpr digit

theorem numeral_ne_nil (n : Nat) : numeral n ≠ [] := Nat.toDigits_ne_nil

theorem exists_numeral_eq_cons (n : Nat) :
    ∃ c rest, numeral n = c :: rest ∧ isAsciiDigit c = true := by
  obtain ⟨c, rest, shape⟩ := List.exists_cons_of_ne_nil (numeral_ne_nil n)
  exact ⟨c, rest, shape, isAsciiDigit_of_mem_numeral n c (shape ▸ List.mem_cons_self)⟩

/-- A numeral begins with a zero only if it is the zero. -/
theorem head?_numeral {n : Nat} (positive : 0 < n) :
    ∃ c rest, numeral n = c :: rest ∧ c ≠ '0' := by
  induction n using Nat.strongRecOn with
  | ind n ih =>
    by_cases small : n < 10
    · refine ⟨n.digitChar, [], Nat.toDigits_of_lt_base small, ?_⟩
      have checked : ∀ d < 10, 0 < d → d.digitChar ≠ '0' := by decide
      exact checked n small positive
    · -- The last digit leaves a smaller number in front of it.
      obtain ⟨c, rest, shape, leading⟩ := ih (n / 10) (by omega) (by omega)
      have parted : numeral (n / 10) ++ numeral (n % 10) = numeral n := by
        have joined := Nat.toDigits_append_toDigits (b := 10) (n := n / 10) (d := n % 10)
          (by omega) (by omega) (by omega)
        rwa [Nat.div_add_mod] at joined
      exact ⟨c, rest ++ numeral (n % 10), by rw [← parted, shape, List.cons_append], leading⟩

theorem not_mem_numeral (n : Nat) (c : Char) (other : isAsciiDigit c = false) : c ∉ numeral n := by
  intro member
  simp [isAsciiDigit_of_mem_numeral n c member] at other

theorem mem_groupDigits {c : Char} {digits : List Char} (member : c ∈ groupDigits digits) :
    c = ',' ∨ c ∈ digits := by
  induction digits with
  | nil => cases member
  | cons d rest ih =>
    simp only [groupDigits] at member
    -- A comma is put behind some of the digits, and all of them stay.
    split at member
    · simp only [List.mem_cons] at member ⊢
      rcases member with first | comma | later
      · exact .inr (.inl first)
      · exact .inl comma
      · exact (ih later).imp_right .inr
    · simp only [List.mem_cons] at member ⊢
      rcases member with first | later
      · exact .inr (.inl first)
      · exact (ih later).imp_right .inr

theorem not_mem_grouped (n : Nat) {c : Char} (no_comma : c ≠ ',') (no_digit : isAsciiDigit c = false) :
    c ∉ grouped n := by
  intro member
  rcases mem_groupDigits member with comma | digit
  · exact no_comma comma
  · exact not_mem_numeral n c no_digit digit

/-- Without its commas a grouped number is its numeral. -/
theorem filter_grouped (n : Nat) : (grouped n).filter (· ≠ ',') = numeral n :=
  filter_groupDigits _ (not_mem_numeral n ',' (by decide))

theorem digitsValue_numeral (n : Nat) : digitsValue (numeral n) = n := by
  have flipped : digitsValue = fun digits => Nat.ofDigitChars 10 digits 0 := by
    funext digits
    simp only [digitsValue, Nat.ofDigitChars_eq_foldl, digitValue, Nat.mul_comm]
  rw [flipped]
  exact Nat.ofDigitChars_ten_toDigits

theorem numeral_inj {m n : Nat} : numeral m = numeral n ↔ m = n := by
  refine ⟨fun same => ?_, congrArg numeral⟩
  rw [← digitsValue_numeral m, same, digitsValue_numeral]

theorem readNumeral?_digits {digits : List Char} (some_digit : digits ≠ [])
    (latin : ∀ c ∈ digits, isAsciiDigit c = true) :
    readNumeral? digits = some (digitsValue digits) :=
  if_pos ⟨some_digit, List.all_eq_true.mpr latin⟩

theorem readNumeral?_numeral (n : Nat) : readNumeral? (numeral n) = some n := by
  rw [readNumeral?_digits (numeral_ne_nil n) (isAsciiDigit_of_mem_numeral n), digitsValue_numeral]

/-- Every counter value is read back from its numeral. -/
theorem readWord?_numeral (n : UInt64) : readWord? (numeral n.toNat) = some n := by
  have below : n.toNat < wordLimit := n.toNat_lt
  simp only [readWord?, readNumeral?_numeral, if_pos below, UInt64.ofNat_toNat]

theorem isSpace_of_isAsciiDigit (c : Char) (digit : isAsciiDigit c = true) :
    isSpace c = false := by
  have bounds := (isAsciiDigit_iff c).mp digit
  simp only [isSpace, inRanges, spaceRanges, List.any_cons, List.any_nil, Bool.or_eq_false_iff,
    Bool.and_eq_false_iff, decide_eq_false_iff_not, and_true]
  omega

theorem isDecimalDigit_of_isAsciiDigit (c : Char) (digit : isAsciiDigit c = true) :
    isDecimalDigit c = true := by
  have bounds := (isAsciiDigit_iff c).mp digit
  simp only [isDecimalDigit, List.any_eq_true]
  refine ⟨0x30, List.mem_cons_self, ?_⟩
  simp only [Bool.and_eq_true, decide_eq_true_eq]
  omega

end LayerTiming.Text
