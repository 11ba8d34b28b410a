import Mathlib.Data.Char
import Mathlib.Data.List.Induction
import Mathlib.Data.Nat.Digits.Defs
import Mathlib.Tactic.Ring
import LayerTiming.Proofs.Text.Numerals

/-!
# Values of digits

What digits are worth: behind other digits, behind zeros, and place by place. As many digits are
ordered as their values are, and without a zero in front there is one numeral for each number. A text
is read as a counter value exactly if it is a numeral of a number below the limit, however long it is.
-/
namespace LayerTiming.Text

/-- Digits put behind a number. -/
def continued (start : Nat) (digits : List Char) : Nat :=
  digits.foldl (fun value c => value * 10 + digitValue c) start

theorem continued_eq (start : Nat) (digits : List Char) :
    continued start digits = start * 10 ^ digits.length + digitsValue digits := by
  induction digits using List.reverseRecOn with
  | nil => simp [continued, digitsValue]
  | append_singleton digits c ih =>
    have parted (start : Nat) :
        continued start (digits ++ [c]) = continued start digits * 10 + digitValue c := by
      simp [continued]
    rw [digitsValue, ← continued, parted, parted, ih, List.length_append, List.length_singleton,
      pow_succ]
    rw [digitsValue, ← continued]
    ring

theorem continued_append (start : Nat) (front back : List Char) :
    continued start (front ++ back) = continued (continued start front) back :=
  List.foldl_append

theorem le_continued (start : Nat) (digits : List Char) : start ≤ continued start digits := by
  rw [continued_eq]
  exact Nat.le_add_right_of_le (Nat.le_mul_of_pos_right _ (Nat.pow_pos (by decide)))

theorem digitsValue_append (front back : List Char) :
    digitsValue (front ++ back) = digitsValue front * 10 ^ back.length + digitsValue back := by
  rw [digitsValue, ← continued, continued_append, continued_eq]
  rfl

theorem digitsValue_zeros (n : Nat) : digitsValue (List.replicate n '0') = 0 := by
  induction n with
  | zero => rfl
  | succ n ih => rw [List.replicate_succ', digitsValue_append, ih]; rfl

theorem digitsValue_lt {digits : List Char} (all : ∀ c ∈ digits, isAsciiDigit c = true) :
    digitsValue digits < 10 ^ digits.length := by
  -- The value grows at the last digit, so the induction is from behind.
  induction digits using List.reverseRecOn with
  | nil => decide
  | append_singleton front c ih =>
    obtain ⟨before, last⟩ := List.forall_mem_append.mp all
    have bounds := (isAsciiDigit_iff c).mp (last c List.mem_cons_self)
    have digit : digitsValue [c] ≤ 9 := by
      change 0 * 10 + (c.toNat - 48) ≤ 9
      omega
    have front_less := ih before
    have more : 10 ^ (front.length + 1) = 10 ^ front.length * 10 := pow_succ _ _
    rw [digitsValue_append, List.length_append, List.length_singleton, pow_one, more]
    omega

/-! ### Order -/

theorem digitValue_lt_iff {c d : Char} (c_digit : isAsciiDigit c = true)
    (d_digit : isAsciiDigit d = true) : digitValue c < digitValue d ↔ c < d := by
  have c_bounds := (isAsciiDigit_iff c).mp c_digit
  have d_bounds := (isAsciiDigit_iff d).mp d_digit
  change c.toNat - 48 < d.toNat - 48 ↔ c.toNat < d.toNat
  omega

theorem digitsValue_cons (c : Char) (digits : List Char) :
    digitsValue (c :: digits) = digitValue c * 10 ^ digits.length + digitsValue digits := by
  have alone : digitsValue [c] = digitValue c := Nat.zero_add _
  rw [← List.singleton_append, digitsValue_append, alone]

/-- A digit in front counts more than all digits behind it. -/
theorem digitsValue_lt_of_head_lt {c d : Char} {rest others : List Char}
    (same : rest.length = others.length) (latin : ∀ x ∈ c :: rest, isAsciiDigit x = true)
    (other_digit : isAsciiDigit d = true) (less : c < d) :
    digitsValue (c :: rest) < digitsValue (d :: others) := by
  obtain ⟨digit, rest_latin⟩ := List.forall_mem_cons.mp latin
  have more : digitValue c + 1 ≤ digitValue d := (digitValue_lt_iff digit other_digit).mpr less
  rw [digitsValue_cons, digitsValue_cons, ← same]
  calc digitValue c * 10 ^ rest.length + digitsValue rest
      < digitValue c * 10 ^ rest.length + 10 ^ rest.length :=
        Nat.add_lt_add_left (digitsValue_lt rest_latin) _
    _ = (digitValue c + 1) * 10 ^ rest.length := (Nat.succ_mul _ _).symm
    _ ≤ digitValue d * 10 ^ rest.length := Nat.mul_le_mul_right _ more
    _ ≤ digitValue d * 10 ^ rest.length + digitsValue others := Nat.le_add_right _ _

/-- Of as many digits, the text that comes first has the smaller value. -/
theorem digitsValue_lt_iff {first second : List Char} (same : first.length = second.length)
    (first_latin : ∀ c ∈ first, isAsciiDigit c = true)
    (second_latin : ∀ c ∈ second, isAsciiDigit c = true) :
    digitsValue first < digitsValue second ↔ first < second := by
  induction first generalizing second with
  | nil =>
    obtain rfl : second = [] := List.eq_nil_of_length_eq_zero same.symm
    exact iff_of_false (lt_irrefl _) (List.not_lt_nil [])
  | cons c rest ih =>
    cases second with
    | nil => cases same
    | cons d others =>
      have tails : rest.length = others.length := Nat.succ.inj same
      obtain ⟨c_digit, rest_latin⟩ := List.forall_mem_cons.mp first_latin
      obtain ⟨d_digit, others_latin⟩ := List.forall_mem_cons.mp second_latin
      -- The first digits decide if they differ, and else the digits behind them.
      rcases lt_trichotomy c d with less | rfl | greater
      · have below := digitsValue_lt_of_head_lt tails first_latin d_digit less
        exact iff_of_true below (List.cons_lt_cons_iff.mpr (.inl less))
      · rw [digitsValue_cons, digitsValue_cons, tails, Nat.add_lt_add_iff_left,
          ih tails rest_latin others_latin, List.cons_lt_cons_self]
      · have above := digitsValue_lt_of_head_lt tails.symm second_latin c_digit greater
        exact iff_of_false above.asymm (List.lt_asymm (List.cons_lt_cons_iff.mpr (.inl greater)))

theorem numeral_lt_iff {m n : Nat} (same : (numeral m).length = (numeral n).length) :
    numeral m < numeral n ↔ m < n := by
  rw [← digitsValue_lt_iff same (isAsciiDigit_of_mem_numeral m) (isAsciiDigit_of_mem_numeral n),
    digitsValue_numeral, digitsValue_numeral]

/-- As many digits of one value are the same digits. -/
theorem digitsValue_inj {first second : List Char} (same : first.length = second.length)
    (first_latin : ∀ c ∈ first, isAsciiDigit c = true)
    (second_latin : ∀ c ∈ second, isAsciiDigit c = true)
    (value : digitsValue first = digitsValue second) : first = second := by
  have not_before := (digitsValue_lt_iff same first_latin second_latin).not.mp value.not_lt
  have not_behind := (digitsValue_lt_iff same.symm second_latin first_latin).not.mp value.not_gt
  exact List.le_antisymm not_behind not_before

/-! ### Numerals -/

/-- A numeral and its number: one or more digits of the basic Latin block, of which each counts ten
times as much as the one behind it. -/
structure IsNumeral (digits : List Char) (n : Nat) : Prop where
  ne_nil : digits ≠ []
  latin : ∀ c ∈ digits, '0' ≤ c ∧ c ≤ '9'
  value : Nat.ofDigits 10 (digits.reverse.map digitValue) = n

theorem digitsValue_eq_ofDigits (digits : List Char) :
    digitsValue digits = Nat.ofDigits 10 (digits.reverse.map digitValue) := by
  induction digits using List.reverseRecOn with
  | nil => rfl
  | append_singleton front c ih =>
    rw [List.reverse_append, List.reverse_singleton, List.singleton_append, List.map_cons,
      Nat.ofDigits_cons, ← ih, digitsValue, List.foldl_append, ← digitsValue]
    simp only [List.foldl_cons, List.foldl_nil]
    ring

theorem readNumeral?_eq_some_iff {text : List Char} {n : Nat} :
    readNumeral? text = some n ↔ IsNumeral text n := by
  have latin : text.all isAsciiDigit = true ↔ ∀ c ∈ text, '0' ≤ c ∧ c ≤ '9' := by
    simp only [List.all_eq_true, isAsciiDigit, Bool.and_eq_true, decide_eq_true_eq]
  unfold readNumeral?
  split
  next fits =>
    rw [Option.some.injEq, digitsValue_eq_ofDigits]
    exact ⟨fun value => ⟨fits.1, latin.mp fits.2, value⟩, fun numeral => numeral.value⟩
  next fails =>
    refine iff_of_false (Option.some_ne_none n).symm fun numeral => ?_
    exact fails ⟨numeral.ne_nil, latin.mpr numeral.latin⟩

theorem isNumeral_numeral (n : Nat) : IsNumeral (numeral n) n :=
  readNumeral?_eq_some_iff.mp (readNumeral?_numeral n)

namespace IsNumeral
variable {digits : List Char} {n : Nat}

theorem isAsciiDigit (told : IsNumeral digits n) : ∀ c ∈ digits, isAsciiDigit c = true := by
  simpa only [Text.isAsciiDigit, Bool.and_eq_true, decide_eq_true_eq] using told.latin

theorem not_mem (told : IsNumeral digits n) {c : Char} (other : Text.isAsciiDigit c = false) :
    c ∉ digits := by
  intro member
  simp [told.isAsciiDigit c member] at other

theorem digitsValue_eq (told : IsNumeral digits n) : digitsValue digits = n :=
  (digitsValue_eq_ofDigits digits).trans told.value

/-- Without a zero in front the digits are those of the number, place by place. -/
theorem digits_eq (told : IsNumeral digits n) (leading : digits.head? ≠ some '0') :
    Nat.digits 10 n = digits.reverse.map digitValue := by
  have bounds : ∀ c ∈ digits, 48 ≤ c.toNat ∧ c.toNat ≤ 57 :=
    fun c member => (isAsciiDigit_iff c).mp (told.isAsciiDigit c member)
  rw [← told.value]
  refine Nat.digits_ofDigits 10 (by decide) _ ?small fun nonempty => ?last
  case small =>
    intro value member
    obtain ⟨c, among, rfl⟩ := List.mem_map.mp member
    have bound := bounds c (List.mem_reverse.mp among)
    change c.toNat - 48 < 10
    omega
  case last =>
    -- The digit in front stands for the last place.
    obtain ⟨c, rest, rfl⟩ := List.exists_cons_of_ne_nil told.ne_nil
    have bound := bounds c List.mem_cons_self
    rw [List.getLast_map, List.getLast_reverse, List.head_cons]
    intro zero
    have code : c.toNat = '0'.toNat := Nat.le_antisymm (Nat.sub_eq_zero_iff_le.mp zero) bound.1
    exact leading (congrArg some (Char.toNat_inj.mp code))

/-- A numeral has no zero in front unless it is the zero: there is one for each number. -/
theorem eq_numeral (told : IsNumeral digits n) (leading : digits.head? = some '0' → digits = ['0']) :
    digits = numeral n := by
  by_cases zero : digits.head? = some '0'
  · obtain rfl := leading zero
    rw [← told.digitsValue_eq]
    rfl
  · have places := told.digits_eq zero
    have positive : 0 < n := by
      refine Nat.pos_of_ne_zero ?_
      rintro rfl
      simp [told.ne_nil] at places
    obtain ⟨c, rest, shape, c_ne⟩ := head?_numeral positive
    have printed : Nat.digits 10 n = (numeral n).reverse.map digitValue :=
      (isNumeral_numeral n).digits_eq (by simpa [shape] using c_ne)
    -- The places are those of the number, so there are as many digits in both.
    have same : digits.length = (numeral n).length := by
      simpa using congrArg List.length (places.symm.trans printed)
    refine digitsValue_inj same told.isAsciiDigit (isAsciiDigit_of_mem_numeral n) ?_
    rw [told.digitsValue_eq, digitsValue_numeral]

end IsNumeral

theorem readWord?_eq_some_iff {text : List Char} {word : UInt64} :
    readWord? text = some word ↔ ∃ n, IsNumeral text n ∧ n < wordLimit ∧ word = UInt64.ofNat n := by
  unfold readWord?
  cases found : readNumeral? text with
  | none =>
    refine iff_of_false (Option.some_ne_none word).symm ?_
    rintro ⟨n, numeral, _⟩
    rw [readNumeral?_eq_some_iff.mpr numeral] at found
    cases found
  | some m =>
    have numeral := readNumeral?_eq_some_iff.mp found
    have unique : ∀ n, IsNumeral text n → n = m := fun n other => other.value.symm.trans numeral.value
    constructor
    · intro read
      obtain ⟨small, same⟩ : m < wordLimit ∧ UInt64.ofNat m = word := by simpa using read
      exact ⟨m, numeral, small, same.symm⟩
    · rintro ⟨n, other, small, rfl⟩
      obtain rfl := unique n other
      exact if_pos small

/-- Zeros in front of a numeral do not make it greater, and so they do not make it overflow. -/
theorem readWord?_zeros (zeros : Nat) {digits : List Char} (some_digit : digits ≠ []) :
    readWord? (List.replicate zeros '0' ++ digits) = readWord? digits := by
  have latin : (List.replicate zeros '0' ++ digits).all isAsciiDigit = digits.all isAsciiDigit := by
    have zeros_latin : (List.replicate zeros '0').all isAsciiDigit = true := by
      rw [List.all_eq_true]
      intro c member
      rw [List.eq_of_mem_replicate member]
      decide
    rw [List.all_append, zeros_latin, Bool.true_and]
  have value : digitsValue (List.replicate zeros '0' ++ digits) = digitsValue digits := by
    rw [digitsValue_append, digitsValue_zeros, Nat.zero_mul, Nat.zero_add]
  have longer : List.replicate zeros '0' ++ digits ≠ [] :=
    List.append_ne_nil_of_right_ne_nil _ some_digit
  simp only [readWord?, readNumeral?, latin, value, longer, some_digit, ne_eq, not_false_eq_true,
    true_and]

end LayerTiming.Text
