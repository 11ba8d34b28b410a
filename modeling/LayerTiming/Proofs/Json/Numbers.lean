import LayerTiming.Json.Scientific
import LayerTiming.Proofs.Text.Cutting
import LayerTiming.Proofs.Text.Numerals

/-!
# Numbers of documents read back

What is written of a counter value or of a double is a proper number: no zero stands in front of
other digits, and only digits stand before and after the point. A proper number is read back as it
was written.
-/
namespace LayerTiming.Json.Scientific
open Number Text

/-- A number that documents may hold. -/
structure IsProper (number : Scientific) : Prop where
  whole : isWhole number.whole = true
  whole_digits : ∀ c ∈ number.whole, isAsciiDigit c = true
  fraction_digits : ∀ c ∈ number.fraction, isAsciiDigit c = true

theorem isWhole_cons {c : Char} {rest : List Char} (leading : c ≠ '0') :
    isWhole (c :: rest) = true := by
  cases rest <;> simp [isWhole, leading]

theorem isProper_ofNat (n : Nat) : (ofNat n).IsProper := by
  constructor
  case whole =>
    by_cases zero : n = 0
    · subst zero
      decide
    · obtain ⟨c, rest, shape, leading⟩ := head?_numeral (Nat.pos_of_ne_zero zero)
      rw [ofNat, shape]
      exact isWhole_cons leading
  case whole_digits => exact isAsciiDigit_of_mem_numeral n
  case fraction_digits => exact fun c member => absurd member List.not_mem_nil

/-- The number of a double is proper, whatever its digits are. -/
theorem isProper_ofBinary (value : Binary) : (ofBinary value).IsProper := by
  have zero : isAsciiDigit '0' = true := by decide
  unfold ofBinary
  extract_lets shortest digits point negative
  have digit : ∀ c ∈ digits, isAsciiDigit c = true := isAsciiDigit_of_mem_numeral _
  split
  · exact ⟨rfl, by simp [zero], by simp [zero]⟩
  next nonzero =>
    obtain ⟨c, rest, shape, leading⟩ := head?_numeral (Nat.pos_of_ne_zero nonzero)
    have begins : digits = c :: rest := shape
    have filled (n : Nat) : ∀ c ∈ List.replicate n '0', isAsciiDigit c = true :=
      fun c member => List.eq_of_mem_replicate member ▸ zero
    -- The digits stand before the point, around it, behind it, or in front of an exponent.
    split
    · refine ⟨?_, List.forall_mem_append.mpr ⟨digit, filled _⟩, by simp [zero]⟩
      rw [begins]
      exact isWhole_cons leading
    split
    next bounds =>
      have taken : point.toNat ≠ 0 := by omega
      refine ⟨?_, fun d member => digit d (List.mem_of_mem_take member),
        fun d member => digit d (List.mem_of_mem_drop member)⟩
      obtain ⟨n, count⟩ := Nat.exists_eq_succ_of_ne_zero taken
      rw [begins, count]
      exact isWhole_cons leading
    split
    · exact ⟨rfl, by simp [zero], List.forall_mem_append.mpr ⟨filled _, digit⟩⟩
    · refine ⟨?_, fun d member => digit d (List.mem_of_mem_take member),
        fun d member => digit d (List.mem_of_mem_drop member)⟩
      rw [begins]
      exact isWhole_cons leading

/-- A text that does not go on with a digit. -/
def EndsDigits (text : List Char) : Prop := ∀ c ∈ text.head?, isAsciiDigit c = false

theorem readExponent?_exponentText (n : Int) : readExponent? (exponentText n) = some n := by
  unfold exponentText
  split
  next below =>
    have same : -(n.natAbs : Int) = n := by omega
    rw [readExponent?, readNumeral?_numeral]
    exact congrArg some same
  next above =>
    have same : (n.natAbs : Int) = n := by omega
    rw [readExponent?, readNumeral?_numeral]
    exact congrArg some same

/-- The exponent as it is written, or nothing. -/
def tailText : Option Int → List Char
  | none => []
  | some exponent => 'e' :: exponentText exponent

theorem readTail?_tailText (exponent : Option Int) :
    readTail? (tailText exponent) = some exponent := by
  cases exponent with
  | none => rfl
  | some exponent => simp [tailText, readTail?, readExponent?_exponentText]

theorem endsDigits_tailText (exponent : Option Int) : EndsDigits (tailText exponent) := by
  cases exponent with
  | none => exact fun c member => nomatch member
  | some exponent =>
    intro c member
    obtain rfl := Option.mem_some.mp member
    decide

theorem write_eq (number : Scientific) :
    number.write = signed number.negative (number.whole ++
      ((if number.fraction = [] then [] else '.' :: number.fraction) ++
        tailText number.exponent)) := by
  rw [← List.append_assoc]
  obtain ⟨negative, whole, fraction, _ | exponent⟩ := number <;> rfl

theorem splitSign_signed (negative : Bool) {body : List Char} (unsigned : body.head? ≠ some '-') :
    splitSign (signed negative body) = (negative, body) := by
  cases negative with
  | true => rfl
  | false =>
    cases body with
    | nil => rfl
    | cons c rest =>
      have other : c ≠ '-' := by simpa using unsigned
      simp [signed, splitSign, other]

/-- A proper number is read back as it was written. -/
theorem read?_write {number : Scientific} (proper : number.IsProper) :
    read? number.write = some number := by
  obtain ⟨negative, whole, fraction, exponent⟩ := number
  obtain ⟨whole_proper, whole_digits, fraction_digits⟩ := proper
  dsimp only at whole_proper whole_digits fraction_digits
  -- A run of digits ends at the sign or letter of the next part, or at the end.
  have tail_ends := endsDigits_tailText exponent
  have unsigned (rest : List Char) : (whole ++ rest).head? ≠ some '-' := by
    cases whole with
    | nil => cases whole_proper
    | cons c digits =>
      have digit := whole_digits c List.mem_cons_self
      rintro ⟨⟩
      cases digit
  rw [write_eq, read?, splitSign_signed negative (unsigned _)]
  dsimp only
  by_cases without : fraction = []
  · subst without
    obtain ⟨taken, left⟩ := takeWhile_kind whole_digits tail_ends
    rw [if_pos rfl, List.nil_append, taken, left, if_pos whole_proper]
    cases exponent with
    | none => rfl
    | some exponent =>
      have tail_read := readTail?_tailText (some exponent)
      change (readTail? (tailText (some exponent))).map _ = _
      rw [tail_read, Option.map_some]
  · -- Each run of digits ends at the sign that begins the next part.
    have point : EndsDigits ('.' :: fraction ++ tailText exponent) := by
      intro c member
      obtain rfl := Option.mem_some.mp member
      decide
    obtain ⟨taken, left⟩ := takeWhile_kind whole_digits point
    obtain ⟨fraction_taken, fraction_left⟩ := takeWhile_kind fraction_digits tail_ends
    rw [if_neg without, taken, left, if_pos whole_proper, List.cons_append]
    change (if List.takeWhile _ (fraction ++ _) = [] then none else _) = _
    rw [fraction_taken, fraction_left, if_neg without, readTail?_tailText, Option.map_some]

theorem counter?_ofNat {n : Nat} (small : n < wordLimit) : (ofNat n).counter? = some n := by
  simp only [ofNat, counter?, digitsValue_numeral, if_pos small]

end LayerTiming.Json.Scientific
