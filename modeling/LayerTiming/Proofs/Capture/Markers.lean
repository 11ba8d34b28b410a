import LayerTiming.Capture.Line
import LayerTiming.Proofs.Text.Cutting
import LayerTiming.Proofs.Text.Digits
import LayerTiming.Proofs.Text.Search

/-!
# End-to-end markers

The sample of a line is the number of the first marker that stands in it. Two markers never overlap, so
parentheses in front of a marker do not hide it, whether they are closed or not. A first marker whose
number is no counter value hides all markers behind it.
-/
namespace LayerTiming
open Text

/-- An end-to-end marker: decimal digits of any script in parentheses, then the words. White space may
stand around the digits and has to stand in front of the words. -/
structure Marker where
  /-- Between the opening parenthesis and the digits. -/
  lead : List Char
  digits : List Char
  /-- Between the digits and the closing parenthesis. -/
  trail : List Char
  /-- Between the closing parenthesis and the words. -/
  gap : List Char
  lead_blank : ∀ c ∈ lead, isSpace c = true
  some_digit : digits ≠ []
  decimal : ∀ c ∈ digits, isDecimalDigit c = true
  trail_blank : ∀ c ∈ trail, isSpace c = true
  gap_blank : ∀ c ∈ gap, isSpace c = true
  some_gap : gap ≠ []

namespace Marker

/-- What stands behind the opening parenthesis of a marker. -/
def inside (marker : Marker) : List Char :=
  marker.lead ++ (marker.digits ++ (marker.trail ++ ')' :: (marker.gap ++ markerWords)))

def text (marker : Marker) : List Char := '(' :: marker.inside

/-! ### Reading a marker -/

theorem digits_apart_from_spaces :
    ∀ first ∈ digitZeros, ∀ range ∈ spaceRanges, first + 9 < range.1 ∨ range.2 < first := by
  decide

theorem isSpace_of_isDecimalDigit {c : Char} (digit : isDecimalDigit c = true) :
    isSpace c = false := by
  simp only [isDecimalDigit, List.any_eq_true, Bool.and_eq_true, decide_eq_true_eq] at digit
  -- The digit stands in a row of ten, and no range of white space reaches into such a row.
  obtain ⟨first, row, low, high⟩ := digit
  simp only [isSpace, inRanges, List.any_eq_false, Bool.and_eq_true, decide_eq_true_eq]
  rintro range listed ⟨above, below⟩
  have apart := digits_apart_from_spaces first row range listed
  omega

theorem head?_append_digits (marker : Marker) (rest : List Char) :
    ∀ c ∈ (marker.digits ++ rest).head?, isSpace c = false := by
  intro c first
  apply isSpace_of_isDecimalDigit
  apply marker.decimal
  rw [List.head?_append_of_ne_nil _ marker.some_digit] at first
  exact List.mem_of_head? first

/-- White space and the closing parenthesis end the digits. -/
theorem head?_trail (marker : Marker) (rest : List Char) :
    ∀ c ∈ (marker.trail ++ ')' :: rest).head?, isDecimalDigit c = false := by
  intro c first
  cases shape : marker.trail with
  | nil =>
    rw [shape] at first
    obtain rfl : ')' = c := Option.some.inj first
    decide
  | cons d trail =>
    rw [shape] at first
    obtain rfl : d = c := Option.some.inj first
    have blank : isSpace d = true := marker.trail_blank d (by rw [shape]; exact List.mem_cons_self)
    rw [Bool.eq_false_iff]
    intro digit
    rw [isSpace_of_isDecimalDigit digit] at blank
    cases blank

theorem markerHere?_text (marker : Marker) (back : List Char) :
    markerHere? (marker.text ++ back) = some marker.digits := by
  have shape : marker.inside ++ back =
      marker.lead ++ (marker.digits ++ (marker.trail ++ ')' ::
        (marker.gap ++ (markerWords ++ back)))) := by
    simp only [inside, List.append_assoc, List.cons_append]
  have words_begin : ∀ c ∈ (markerWords ++ back).head?, isSpace c = false := by
    intro c first
    obtain rfl : 'c' = c := Option.some.inj first
    decide
  obtain ⟨gap, words⟩ := takeWhile_kind marker.gap_blank words_begin
  -- Each run of skipped or taken characters ends where the next one begins.
  generalize marker.gap ++ (markerWords ++ back) = tail at shape gap words
  have closes : ∀ c ∈ (')' :: tail).head?, isSpace c = false := by
    intro c first
    obtain rfl : ')' = c := Option.some.inj first
    decide
  obtain ⟨_, closing⟩ := takeWhile_kind marker.trail_blank closes
  obtain ⟨digits, trail⟩ := takeWhile_kind marker.decimal (marker.head?_trail tail)
  obtain ⟨_, inner⟩ := takeWhile_kind marker.lead_blank
    (marker.head?_append_digits (marker.trail ++ ')' :: tail))
  change markerHere? ('(' :: (marker.inside ++ back)) = _
  simp only [markerHere?, shape, inner, digits, trail, closing, gap, words, marker.some_digit,
    marker.some_gap, or_self, if_false, after?_append, Option.map_some]

/-- A marker is found where one begins, and nowhere else. -/
theorem markerHere?_eq_some_iff {text digits : List Char} :
    markerHere? text = some digits ↔
      ∃ (marker : Marker) (back : List Char), text = marker.text ++ back ∧
        marker.digits = digits := by
  constructor
  · intro found
    unfold markerHere? at found
    split at found
    next rest =>
      dsimp only at found
      split at found
      next tail closing =>
        split at found
        · cases found
        next filled =>
          obtain ⟨some_digit, some_gap⟩ := not_or.mp filled
          obtain ⟨back, words, same⟩ := Option.map_eq_some_iff.mp found
          have words_stand := (after?_eq_some_iff _ _ _).mp words
          -- The parts of the marker are what was skipped and taken on the way.
          refine ⟨{
            lead := rest.takeWhile isSpace
            digits := (rest.dropWhile isSpace).takeWhile isDecimalDigit
            trail := ((rest.dropWhile isSpace).dropWhile isDecimalDigit).takeWhile isSpace
            gap := tail.takeWhile isSpace
            lead_blank := fun c member => List.mem_takeWhile_imp member
            some_digit := some_digit
            decimal := fun c member => List.mem_takeWhile_imp member
            trail_blank := fun c member => List.mem_takeWhile_imp member
            gap_blank := fun c member => List.mem_takeWhile_imp member
            some_gap := some_gap }, back, ?_, same⟩
          simp only [Marker.text, inside, List.cons_append, List.append_assoc, ← words_stand,
            List.takeWhile_append_dropWhile, ← closing]
      · cases found
    · cases found
  · rintro ⟨marker, back, rfl, rfl⟩
    exact marker.markerHere?_text back

/-! ### Where markers stand -/

/-- The parenthesis that opens a marker is the only one of its kind in it. -/
theorem not_mem_inside (marker : Marker) : '(' ∉ marker.inside := by
  have no_space {text : List Char} (blank : ∀ c ∈ text, isSpace c = true) : '(' ∉ text :=
    fun member => absurd (blank '(' member) (by decide)
  have no_digit : '(' ∉ marker.digits :=
    fun member => absurd (marker.decimal '(' member) (by decide)
  have no_word : '(' ∉ markerWords := by decide
  simp [inside, no_space marker.lead_blank, no_space marker.trail_blank,
    no_space marker.gap_blank, no_digit, no_word]

theorem getLast?_text (marker : Marker) : marker.text.getLast? = some 'l' := by
  have front : marker.text =
      '(' :: (marker.lead ++ (marker.digits ++ (marker.trail ++ ')' :: marker.gap))) ++
        markerWords := by
    simp only [text, inside, List.append_assoc, List.cons_append]
  have words : markerWords ≠ [] := by decide
  rw [front, List.getLast?_append_of_ne_nil _ words]
  decide

/-- The words of a marker stand in every text with a marker. -/
theorem occurs_markerWords (marker : Marker) (front back : List Char) :
    occurs markerWords (front ++ (marker.text ++ back)) = true := by
  refine occurs_eq_true_iff.mpr ⟨front ++ '(' :: (marker.lead ++ (marker.digits ++
    (marker.trail ++ ')' :: marker.gap))), back, ?_⟩
  simp only [text, inside, List.append_assoc, List.cons_append]

/-- A text with no marker in it. -/
def Free (text : List Char) : Prop :=
  ∀ front (marker : Marker) back, text ≠ front ++ (marker.text ++ back)

/-- A marker of a text that no marker stands in front of: none begins further left. -/
structure IsFirst (text front : List Char) (marker : Marker) (back : List Char) : Prop where
  shape : text = front ++ (marker.text ++ back)
  least : ∀ shorter (other : Marker) rest, text = shorter ++ (other.text ++ rest) →
    front.length ≤ shorter.length

theorem free_of_no_words {text : List Char} (absent : occurs markerWords text = false) :
    Free text := by
  rintro front marker back rfl
  rw [marker.occurs_markerWords] at absent
  cases absent

/-- Markers do not overlap, so what stands in front of a marker hides it only if a whole marker is in
it. -/
theorem Free.isFirst {front : List Char} (free : Free front) (marker : Marker) (back : List Char) :
    IsFirst (front ++ (marker.text ++ back)) front marker back := by
  refine ⟨rfl, fun shorter other rest same => ?_⟩
  by_contra less
  rcases List.append_eq_append_iff.mp same with ⟨gap, longer, _⟩ | ⟨gap, rfl, shared⟩
  · rw [longer, List.length_append] at less
    omega
  · -- The other marker begins in the front, at `gap`.
    rcases List.append_eq_append_iff.mp shared with ⟨tail, inside_gap, _⟩ | ⟨tail, cut, behind⟩
    · exact free shorter other tail (congrArg (shorter ++ ·) inside_gap)
    · cases tail with
      | nil =>
        rw [List.append_nil] at cut
        apply free shorter other []
        rw [List.append_nil, cut]
      | cons c tail =>
        -- It reaches into the marker, so its inside holds the parenthesis that opens the marker.
        obtain rfl : '(' = c := (List.cons.inj behind).1
        cases gap with
        | nil =>
          rw [List.append_nil] at less
          exact less (Nat.le_refl _)
        | cons d gap =>
          have within : other.inside = gap ++ '(' :: tail := (List.cons.inj cut).2
          apply other.not_mem_inside
          rw [within]
          exact List.mem_append_right _ List.mem_cons_self

theorem leftmost?_markerHere?_eq_some_iff {text digits : List Char} :
    leftmost? markerHere? text = some digits ↔
      ∃ front marker back, IsFirst text front marker back ∧ marker.digits = digits := by
  rw [leftmost?_eq_some_iff]
  constructor
  · rintro ⟨front, rest, shape, here, nothing⟩
    obtain ⟨marker, back, rfl, same⟩ := markerHere?_eq_some_iff.mp here
    refine ⟨front, marker, back, ⟨shape, fun shorter other behind also => ?_⟩, same⟩
    by_contra less
    have none_there := nothing shorter _ also (Nat.not_le.mp less)
    rw [other.markerHere?_text] at none_there
    cases none_there
  · rintro ⟨front, marker, back, first, rfl⟩
    refine ⟨front, marker.text ++ back, first.shape, marker.markerHere?_text back, ?_⟩
    intro shorter other also less
    by_contra found
    obtain ⟨digits, here⟩ := Option.ne_none_iff_exists'.mp found
    obtain ⟨further, rest, rfl, _⟩ := markerHere?_eq_some_iff.mp here
    exact absurd (first.least shorter further rest also) (Nat.not_le.mpr less)

theorem leftmost?_markerHere?_eq_none_iff {text : List Char} :
    leftmost? markerHere? text = none ↔ Free text := by
  rw [leftmost?_eq_none_iff]
  constructor
  · rintro nothing front marker back shape
    have none_here := nothing front _ shape
    rw [marker.markerHere?_text] at none_here
    cases none_here
  · intro free front rest shape
    by_contra found
    obtain ⟨digits, here⟩ := Option.ne_none_iff_exists'.mp found
    obtain ⟨marker, back, rfl, _⟩ := markerHere?_eq_some_iff.mp here
    exact free front marker back shape

/-! ### The sample of a line -/

theorem IsFirst.readSample? {text front back : List Char} {marker : Marker}
    (first : IsFirst text front marker back) : readSample? text = readWord? marker.digits := by
  have found := leftmost?_markerHere?_eq_some_iff.mpr ⟨front, marker, back, first, rfl⟩
  rw [LayerTiming.readSample?, found, Option.bind_some]

theorem readSample?_eq_some_iff {text : List Char} {cycles : UInt64} :
    readSample? text = some cycles ↔
      ∃ front marker back, IsFirst text front marker back ∧
        readWord? marker.digits = some cycles := by
  rw [LayerTiming.readSample?, Option.bind_eq_some_iff]
  constructor
  · rintro ⟨digits, found, read⟩
    obtain ⟨front, marker, back, first, rfl⟩ := leftmost?_markerHere?_eq_some_iff.mp found
    exact ⟨front, marker, back, first, read⟩
  · rintro ⟨front, marker, back, first, read⟩
    exact ⟨marker.digits, leftmost?_markerHere?_eq_some_iff.mpr ⟨front, marker, back, first, rfl⟩,
      read⟩

theorem Free.readSample? {text : List Char} (free : Free text) : readSample? text = none := by
  rw [LayerTiming.readSample?, leftmost?_markerHere?_eq_none_iff.mpr free, Option.bind_none]

/-- The sample of a text is the number of its first marker. If the digits of that marker are not all of
the basic Latin block, or their value is past the counters, then there is no sample, whatever stands
behind it. Nothing in front of a marker hides it but a whole marker. -/
theorem readSample?_of_first_marker :
    (∀ text cycles, readSample? text = some cycles ↔
      ∃ front marker back n, IsFirst text front marker back ∧ IsNumeral marker.digits n ∧
        n < wordLimit ∧ cycles = UInt64.ofNat n) ∧
    (∀ text front marker back, IsFirst text front marker back →
      (∀ n, IsNumeral marker.digits n → wordLimit ≤ n) → readSample? text = none) ∧
    ∀ front (marker : Marker) back, Free front →
      readSample? (front ++ (marker.text ++ back)) = readWord? marker.digits := by
  refine ⟨fun text cycles => ?_, ?_, fun front marker back free => ?_⟩
  · simp only [readSample?_eq_some_iff, readWord?_eq_some_iff]
    constructor
    · rintro ⟨front, marker, back, first, n, numeral, small, same⟩
      exact ⟨front, marker, back, n, first, numeral, small, same⟩
    · rintro ⟨front, marker, back, n, first, numeral, small, same⟩
      exact ⟨front, marker, back, first, n, numeral, small, same⟩
  · intro text front marker back first refused
    rw [first.readSample?, Option.eq_none_iff_forall_ne_some]
    intro cycles read
    obtain ⟨n, numeral, small, _⟩ := readWord?_eq_some_iff.mp read
    exact absurd small (Nat.not_lt.mpr (refused n numeral))
  · exact (free.isFirst marker back).readSample?

/-- Open parentheses with digits do not hide a marker, and a marker with a digit of another script hides
the one behind it. -/
theorem readSample?_of_crowded_markers :
    let digit (c : Char) (decimal : isDecimalDigit c = true) : Marker :=
      { lead := [], digits := [c], trail := [], gap := [' ']
        lead_blank := List.forall_mem_nil _
        some_digit := List.cons_ne_nil c []
        decimal := List.forall_mem_singleton.mpr decimal
        trail_blank := List.forall_mem_nil _
        gap_blank := List.forall_mem_singleton.mpr rfl
        some_gap := List.cons_ne_nil ' ' [] }
    let seven := digit '7' rfl
    let three := digit '٣' rfl
    Free "((1 (2) (".toList ∧ IsFirst (three.text ++ seven.text) [] three seven.text ∧
      readSample? ("((1 (2) (".toList ++ (seven.text ++ [])) = some 7 ∧
      readSample? (three.text ++ seven.text) = none := by
  intro digit seven three
  obtain ⟨_, refused, hidden⟩ := readSample?_of_first_marker
  have front : Free "((1 (2) (".toList := free_of_no_words (by decide)
  have nothing : Free [] := free_of_no_words (by decide)
  have first := nothing.isFirst three seven.text
  refine ⟨front, first, ?_, ?_⟩
  · rw [hidden _ seven [] front]
    decide
  · apply refused _ [] three seven.text first
    intro n numeral
    exact absurd (numeral.latin '٣' List.mem_cons_self) (by decide)

end Marker
end LayerTiming
