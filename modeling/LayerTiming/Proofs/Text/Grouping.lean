import LayerTiming.Proofs.Text.Cutting
import LayerTiming.Proofs.Text.Digits

/-!
# Numbers in groups of three digits

Where a comma stands is told by how many digits there are behind it. So the digits are cut into groups
from the right, and only the first group can be shorter than three. A number is written like this in
one way, its text gives it back, and texts with as many digits are ordered as their numbers are.

## Main result

`grouped_in_threes`: all this, for every two numbers.
-/
namespace LayerTiming.Text

/-! ### Groups of three -/

/-- Groups that are counted off from the right: three characters in each, and what is left, one to
three, in the first. -/
structure InThrees (first : List Char) (others : List (List Char)) : Prop where
  first_pos : 0 < first.length
  first_le : first.length ≤ 3
  others_eq : ∀ group ∈ others, group.length = 3

namespace InThrees
variable {first other : List Char} {others rest : List (List Char)}

theorem map_length (threes : InThrees first others) :
    (first :: others).map List.length = first.length :: List.replicate others.length 3 := by
  rw [List.map_cons, List.map_eq_replicate_iff.mpr threes.others_eq]

theorem length_flatten (threes : InThrees first others) :
    (first :: others).flatten.length = first.length + 3 * others.length := by
  rw [List.length_flatten, threes.map_length, List.sum_cons, List.sum_replicate_nat, Nat.mul_comm]

/-- The first group is full exactly if whole groups hold everything. -/
theorem first_eq_iff (threes : InThrees first others) :
    first.length = 3 ↔ (first :: others).flatten.length % 3 = 0 := by
  have bounds := And.intro threes.first_pos threes.first_le
  rw [threes.length_flatten]
  omega

/-- There is one way to set characters in groups of three. -/
theorem unique (threes : InThrees first others) (again : InThrees other rest)
    (same : (first :: others).flatten = (other :: rest).flatten) :
    first :: others = other :: rest := by
  have total : first.length + 3 * others.length = other.length + 3 * rest.length := by
    rw [← threes.length_flatten, same, again.length_flatten]
  -- The first group has what is left of the total by threes, but never nothing.
  have bounds := And.intro threes.first_pos threes.first_le
  have other_bounds := And.intro again.first_pos again.first_le
  have heads : first.length = other.length := by omega
  have counts : others.length = rest.length := by omega
  refine List.eq_iff_flatten_eq.mpr ⟨same, ?_⟩
  rw [threes.map_length, again.map_length, heads, counts]

theorem single (c : Char) : InThrees [c] [] := by
  constructor <;> simp

/-- In front of a full group a character is a group of its own. -/
theorem opened (threes : InThrees first others) (full : first.length = 3) (c : Char) :
    InThrees [c] (first :: others) where
  first_pos := Nat.one_pos
  first_le := by simp
  others_eq := List.forall_mem_cons.mpr ⟨full, threes.others_eq⟩

/-- In front of a group with room for it a character goes to this group. -/
theorem pushed (threes : InThrees first others) (room : first.length ≠ 3) (c : Char) :
    InThrees (c :: first) others where
  first_pos := Nat.succ_pos _
  first_le := Nat.lt_of_le_of_ne threes.first_le room
  others_eq := threes.others_eq

theorem ne_nil (threes : InThrees first others) {group : List Char}
    (member : group ∈ first :: others) : group ≠ [] := by
  rcases List.mem_cons.mp member with rfl | later
  · exact List.length_pos_iff.mp threes.first_pos
  · exact List.ne_nil_of_length_eq_add_one (threes.others_eq group later)

/-- A text with such pieces neither begins nor ends with the separator. -/
theorem separator_not_at_ends {separator : Char} {text : List Char} (threes : InThrees first others)
    (cut : pieces separator text = first :: others) :
    text.head? ≠ some separator ∧ text.getLast? ≠ some separator := by
  have no_empty : [] ∉ pieces separator text := fun member => threes.ne_nil (cut ▸ member) rfl
  constructor
  · intro head
    obtain ⟨behind, rfl⟩ := List.head?_eq_some_iff.mp head
    exact no_empty (by simp [pieces])
  · intro last
    obtain ⟨front, rfl⟩ := List.getLast?_eq_some_iff.mp last
    exact no_empty (by simp [pieces_append_cons, pieces])

end InThrees

/-- The pieces of grouped digits are groups of three. -/
theorem exists_groups {digits : List Char} (some_digit : digits ≠ []) (free : ',' ∉ digits) :
    ∃ first others, pieces ',' (groupDigits digits) = first :: others ∧ InThrees first others := by
  induction digits with
  | nil => exact absurd rfl some_digit
  | cons c rest ih =>
    have kept : c ≠ ',' := fun same => free (by simp [same])
    have rest_free : ',' ∉ rest := fun member => free (List.mem_cons_of_mem c member)
    by_cases alone : rest = []
    · subst alone
      exact ⟨[c], [], by simp [groupDigits, pieces, kept], .single c⟩
    · obtain ⟨first, others, cut, threes⟩ := ih alone rest_free
      -- The digits behind tell by their number whether the group in front of them is full.
      have full : first.length = 3 ↔ rest.length % 3 = 0 := by
        rw [threes.first_eq_iff, ← cut, flatten_pieces, filter_groupDigits rest rest_free]
      by_cases whole : rest.length % 3 = 0
      · refine ⟨[c], first :: others, ?_, threes.opened (full.mpr whole) c⟩
        simp [groupDigits, alone, whole, pieces, kept, cut]
      · refine ⟨c :: first, others, ?_, threes.pushed (mt full.mp whole) c⟩
        simp [groupDigits, whole, pieces, kept, cut]

/-! ### From left to right -/

/-- A digit at its place among so many, with a comma in front of it if it is not the first and whole
groups reach from it to the end. -/
def markDigit (total : Nat) (digit : Char × Nat) : List Char :=
  if 0 < digit.2 ∧ (total - digit.2) % 3 = 0 then [',', digit.1] else [digit.1]

/-- The digits marked one after the other, from the left. -/
def markDigits (digits : List Char) : List Char :=
  digits.zipIdx.flatMap (markDigit digits.length)

/-- Behind a digit the marking goes on as the grouping does: the place and the digits that are left
add up to the total. -/
theorem cons_flatMap_markDigit {total place : Nat} (c : Char) (rest : List Char)
    (started : 0 < place) (reach : place + rest.length = total) :
    c :: (rest.zipIdx place).flatMap (markDigit total) = groupDigits (c :: rest) := by
  induction rest generalizing c place with
  | nil => rfl
  | cons d rest ih =>
    -- What is counted from the right is the length of the rest, of which the recursion knows.
    have left : total - place = (d :: rest).length := by omega
    have later := ih d (Nat.succ_pos place) (by rw [← reach, List.length_cons]; omega)
    rw [List.zipIdx_cons, List.flatMap_cons, groupDigits, ← later, markDigit, left]
    simp only [started, true_and, ne_eq, reduceCtorEq, not_false_eq_true]
    split <;> rfl

theorem markDigits_eq_groupDigits (digits : List Char) : markDigits digits = groupDigits digits := by
  cases digits with
  | nil => rfl
  | cons c rest =>
    have unmarked : markDigit (c :: rest).length (c, 0) = [c] := if_neg (by simp)
    rw [← cons_flatMap_markDigit c rest Nat.one_pos (Nat.add_comm 1 rest.length), markDigits,
      List.zipIdx_cons, List.flatMap_cons, unmarked]
    rfl

/-! ### Grouped numbers -/

/-- A text of a number in groups: without its commas it is a numeral of the number, with no zero in
front of another digit, and cut at the commas it has three digits in each piece but the first. -/
structure IsGrouped (text : List Char) (n : Nat) : Prop where
  numeral : IsNumeral (text.filter (· ≠ ',')) n
  leading : (text.filter (· ≠ ',')).head? = some '0' → text.filter (· ≠ ',') = ['0']
  groups : ∃ first others, pieces ',' text = first :: others ∧ InThrees first others

theorem exists_groups_grouped (n : Nat) :
    ∃ first others, pieces ',' (grouped n) = first :: others ∧ InThrees first others :=
  exists_groups (numeral_ne_nil n) (not_mem_numeral n ',' (by decide))

theorem isGrouped_grouped (n : Nat) : IsGrouped (grouped n) n := by
  refine ⟨?numeral, ?leading, exists_groups_grouped n⟩ <;> rw [filter_grouped]
  case numeral => exact isNumeral_numeral n
  case leading =>
    intro zero
    by_cases positive : 0 < n
    · obtain ⟨c, rest, shape, other⟩ := head?_numeral positive
      simp [shape, other] at zero
    · obtain rfl := Nat.eq_zero_of_not_pos positive
      rfl

/-- A number is written in groups in one way. -/
theorem isGrouped_iff {text : List Char} {n : Nat} : IsGrouped text n ↔ text = grouped n := by
  constructor
  · intro told
    obtain ⟨first, others, cut, threes⟩ := told.groups
    obtain ⟨first', others', cut', threes'⟩ := exists_groups_grouped n
    have digits : text.filter (· ≠ ',') = numeral n := told.numeral.eq_numeral told.leading
    -- The pieces hold the same digits in groups of three, and so they are the same pieces.
    have same : pieces ',' text = pieces ',' (grouped n) := by
      rw [cut, cut']
      apply threes.unique threes'
      rw [← cut, ← cut', flatten_pieces, flatten_pieces, digits, filter_grouped]
    rw [← joinPieces_pieces ',' text, same, joinPieces_pieces]
  · rintro rfl
    exact isGrouped_grouped n

theorem grouped_inj {m n : Nat} : grouped m = grouped n ↔ m = n := by
  refine ⟨fun same => ?_, congrArg grouped⟩
  rw [← numeral_inj, ← filter_grouped m, same, filter_grouped]

/-- Among as many digits the commas stand at the same places, so the first difference is at a digit. -/
theorem groupDigits_lt_iff {digits others : List Char} (same : digits.length = others.length) :
    groupDigits digits < groupDigits others ↔ digits < others := by
  induction digits generalizing others with
  | nil =>
    obtain rfl : others = [] := List.eq_nil_of_length_eq_zero same.symm
    rfl
  | cons c rest ih =>
    cases others with
    | nil => cases same
    | cons d others =>
      have tails : rest.length = others.length := Nat.succ.inj same
      -- Whether a comma follows the first digit depends on the number of digits behind it alone.
      have empty : rest = [] ↔ others = [] := by
        rw [← List.length_eq_zero_iff, tails, List.length_eq_zero_iff]
      simp only [groupDigits, tails, ne_eq, empty]
      split <;> simp [List.cons_lt_cons_iff, ih tails]

theorem grouped_lt_iff {m n : Nat} (same : (numeral m).length = (numeral n).length) :
    grouped m < grouped n ↔ m < n := by
  rw [grouped, grouped, groupDigits_lt_iff same, numeral_lt_iff same]

/-- A number has one text with its digits in groups of three, with a comma between each two groups
and nowhere else, and the texts of numbers with as many digits are ordered as the numbers are. -/
theorem grouped_in_threes (m n : Nat) :
    grouped n = markDigits (numeral n) ∧
      (∀ text, IsGrouped text n ↔ text = grouped n) ∧
      ((grouped n).head? ≠ some ',' ∧ (grouped n).getLast? ≠ some ',') ∧
      (grouped m = grouped n ↔ m = n) ∧
      ((numeral m).length = (numeral n).length → (grouped m < grouped n ↔ m < n)) := by
  obtain ⟨first, others, cut, threes⟩ := exists_groups_grouped n
  exact ⟨(markDigits_eq_groupDigits _).symm, fun _ => isGrouped_iff,
    threes.separator_not_at_ends cut, grouped_inj, grouped_lt_iff⟩

/-- Two numbers of seven digits that differ first behind a comma. -/
theorem grouped_in_threes_millions :
    (numeral 1234567).length = (numeral 1235067).length ∧ grouped 1234567 < grouped 1235067 := by
  have counted : (numeral 1234567).length = (numeral 1235067).length := by decide
  obtain ⟨_, _, _, _, ordered⟩ := grouped_in_threes 1234567 1235067
  exact ⟨counted, (ordered counted).mpr (by decide)⟩

example : grouped 1234567 = "1,234,567".toList := by decide

end LayerTiming.Text
