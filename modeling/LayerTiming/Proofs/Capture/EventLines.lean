import LayerTiming.Proofs.Capture.Printing
import LayerTiming.Proofs.Text.Digits

/-!
# Lines that are events

A line is read as an event exactly if it is a numeral, a tag and a numeral, parted by commas, and both
numbers are counter values. Digits of other scripts, signs, white space, line breaks and more parts
make it something else, and so does a number past the counters, but leading zeros do not.
-/
namespace LayerTiming
open Text

/-- The text of an event whose numbers have these digits. -/
def Event.spelled (id tag ticks : List Char) : List Char := id ++ ',' :: (tag ++ ',' :: ticks)

theorem Text.IsNumeral.not_mem_comma {digits : List Char} {n : Nat} (numeral : IsNumeral digits n) :
    ',' ∉ digits :=
  numeral.not_mem (by decide)

namespace Event

/-- Only a comma in the tag makes further pieces. -/
theorem pieces_spelled {id ticks : List Char} (id_free : ',' ∉ id) (ticks_free : ',' ∉ ticks)
    (tag : List Char) : pieces ',' (spelled id tag ticks) = id :: (pieces ',' tag ++ [ticks]) := by
  rw [spelled, pieces_append_cons, pieces_append_cons, pieces_eq_singleton ',' id id_free,
    pieces_eq_singleton ',' ticks ticks_free, List.singleton_append]

theorem read?_eq_some_iff_pieces {text : List Char} {found : Event} :
    read? text = some found ↔
      ∃ id ticks, pieces ',' text = [id, found.operation.toList, ticks] ∧
        IsTag found.operation.toList ∧ readWord? id = some found.id ∧
        readWord? ticks = some found.ticks := by
  -- The definition is split where it is: three pieces or another number of them, then the tag.
  unfold read?
  split
  next id tag ticks cut =>
    constructor
    · intro read
      split at read
      next tagged =>
        obtain ⟨id_word, id_read, later⟩ := Option.bind_eq_some_iff.mp read
        obtain ⟨ticks_word, ticks_read, made⟩ := Option.bind_eq_some_iff.mp later
        cases made
        rw [String.toList_ofList]
        exact ⟨id, ticks, cut, ⟨tagged.1, List.all_eq_true.mp tagged.2⟩, id_read, ticks_read⟩
      · cases read
    · rintro ⟨_, _, same, tagged, id_read, ticks_read⟩
      cases cut.symm.trans same
      rw [if_pos ⟨tagged.1, List.all_eq_true.mpr tagged.2⟩, id_read, ticks_read,
        String.ofList_toList]
      rfl
  next other =>
    refine iff_of_false nofun ?_
    rintro ⟨id, ticks, cut, _⟩
    exact other _ _ _ cut

theorem read?_spelled_eq_some_iff {id ticks : List Char} (id_free : ',' ∉ id)
    (ticks_free : ',' ∉ ticks) (tag : List Char) (found : Event) :
    read? (spelled id tag ticks) = some found ↔
      pieces ',' tag = [found.operation.toList] ∧ IsTag found.operation.toList ∧
        readWord? id = some found.id ∧ readWord? ticks = some found.ticks := by
  rw [read?_eq_some_iff_pieces, pieces_spelled id_free ticks_free]
  constructor
  · rintro ⟨_, other, cut, tagged, id_read, ticks_read⟩
    obtain ⟨rfl, rest⟩ := List.cons_eq_cons.mp cut
    have parted : pieces ',' tag ++ [ticks] = [found.operation.toList] ++ [other] := rest
    obtain ⟨whole, last⟩ := List.append_inj' parted rfl
    cases last
    exact ⟨whole, tagged, id_read, ticks_read⟩
  · rintro ⟨whole, tagged, id_read, ticks_read⟩
    exact ⟨id, ticks, by rw [whole]; rfl, tagged, id_read, ticks_read⟩

theorem read?_eq_some_iff_spelled {text : List Char} {found : Event} :
    read? text = some found ↔
      ∃ id ticks m n, text = spelled id found.operation.toList ticks ∧
        IsTag found.operation.toList ∧ IsNumeral id m ∧ IsNumeral ticks n ∧
        m < wordLimit ∧ n < wordLimit ∧
        found.id = UInt64.ofNat m ∧ found.ticks = UInt64.ofNat n := by
  constructor
  · intro read
    obtain ⟨id, ticks, cut, tagged, id_read, ticks_read⟩ := read?_eq_some_iff_pieces.mp read
    obtain ⟨m, id_numeral, m_small, id_eq⟩ := readWord?_eq_some_iff.mp id_read
    obtain ⟨n, ticks_numeral, n_small, ticks_eq⟩ := readWord?_eq_some_iff.mp ticks_read
    have joined := joinPieces_pieces ',' text
    rw [cut] at joined
    exact ⟨id, ticks, m, n, joined.symm, tagged, id_numeral, ticks_numeral, m_small, n_small,
      id_eq, ticks_eq⟩
  · rintro ⟨id, ticks, m, n, rfl, tagged, id_numeral, ticks_numeral, m_small, n_small, id_eq,
      ticks_eq⟩
    have tag_free : ',' ∉ found.operation.toList := Item.not_mem_tag _ tagged ',' (by decide)
    rw [read?_spelled_eq_some_iff id_numeral.not_mem_comma ticks_numeral.not_mem_comma]
    exact ⟨pieces_eq_singleton ',' _ tag_free, tagged,
      readWord?_eq_some_iff.mpr ⟨m, id_numeral, m_small, id_eq⟩,
      readWord?_eq_some_iff.mpr ⟨n, ticks_numeral, n_small, ticks_eq⟩⟩

/-- A text that is no event has no such parts, or one of its numbers is past the counters. -/
theorem read?_eq_none_iff_spelled {text : List Char} :
    read? text = none ↔
      ∀ id tag ticks m n, text = spelled id tag ticks → IsTag tag → IsNumeral id m →
        IsNumeral ticks n → wordLimit ≤ m ∨ wordLimit ≤ n := by
  rw [Option.eq_none_iff_forall_ne_some]
  constructor
  · intro nothing id tag ticks m n spells tagged id_numeral ticks_numeral
    -- Were both numbers counter values, the text would be the event that they make.
    by_contra small
    obtain ⟨m_small, n_small⟩ := not_or.mp small
    apply nothing ⟨UInt64.ofNat m, String.ofList tag, UInt64.ofNat n⟩
    rw [read?_eq_some_iff_spelled]
    simp only [String.toList_ofList]
    exact ⟨id, ticks, m, n, spells, tagged, id_numeral, ticks_numeral, Nat.not_le.mp m_small,
      Nat.not_le.mp n_small, rfl, rfl⟩
  · intro overflows found read
    obtain ⟨id, ticks, m, n, spells, tagged, id_numeral, ticks_numeral, m_small, n_small, _⟩ :=
      read?_eq_some_iff_spelled.mp read
    rcases overflows id _ ticks m n spells tagged id_numeral ticks_numeral with past | past
    · exact absurd m_small (Nat.not_lt.mpr past)
    · exact absurd n_small (Nat.not_lt.mpr past)

theorem read?_zeros {id ticks : List Char} {m n : Nat} (id_numeral : IsNumeral id m)
    (ticks_numeral : IsNumeral ticks n) (zeros more : Nat) (tag : List Char) :
    read? (spelled (List.replicate zeros '0' ++ id) tag (List.replicate more '0' ++ ticks)) =
      read? (spelled id tag ticks) := by
  have free {digits : List Char} {k : Nat} (numeral : IsNumeral digits k) (zeros : Nat) :
      ',' ∉ List.replicate zeros '0' ++ digits := by
    simp [numeral.not_mem_comma]
  -- Zeros are no commas, so the pieces stay, and each number is read as without them.
  apply Option.ext
  intro found
  rw [read?_spelled_eq_some_iff (free id_numeral zeros) (free ticks_numeral more),
    read?_spelled_eq_some_iff id_numeral.not_mem_comma ticks_numeral.not_mem_comma,
    readWord?_zeros zeros id_numeral.ne_nil, readWord?_zeros more ticks_numeral.ne_nil]

/-- The grammar of events. A text is read as an event exactly if it spells one: a numeral, a tag and a
numeral with commas between them, both numerals below the limit of counters. Nothing else is read, a
number past the limit included, and zeros in front of a number change nothing. -/
theorem read?_exactly_spelled :
    (∀ text found, read? text = some found ↔
      ∃ id ticks m n, text = spelled id found.operation.toList ticks ∧
        IsTag found.operation.toList ∧ IsNumeral id m ∧ IsNumeral ticks n ∧
        m < wordLimit ∧ n < wordLimit ∧
        found.id = UInt64.ofNat m ∧ found.ticks = UInt64.ofNat n) ∧
    (∀ text, read? text = none ↔
      ∀ id tag ticks m n, text = spelled id tag ticks → IsTag tag → IsNumeral id m →
        IsNumeral ticks n → wordLimit ≤ m ∨ wordLimit ≤ n) ∧
    ∀ id tag ticks m n, IsNumeral id m → IsNumeral ticks n → ∀ zeros more,
      read? (spelled (List.replicate zeros '0' ++ id) tag (List.replicate more '0' ++ ticks)) =
        read? (spelled id tag ticks) := by
  refine ⟨fun text found => read?_eq_some_iff_spelled, fun text => read?_eq_none_iff_spelled, ?_⟩
  intro id tag ticks m n id_numeral ticks_numeral zeros more
  exact read?_zeros id_numeral ticks_numeral zeros more tag

/-- The greatest counter value is read behind forty zeros. -/
theorem read?_padded_greatest :
    let greatest := numeral 18446744073709551615
    IsNumeral (numeral 7) 7 ∧ IsNumeral greatest 18446744073709551615 ∧ IsTag "ADD".toList ∧
      read? (spelled (List.replicate 40 '0' ++ numeral 7) "ADD".toList
        (List.replicate 40 '0' ++ greatest)) = some ⟨7, "ADD", 18446744073709551615⟩ := by
  intro greatest
  have seven := isNumeral_numeral 7
  have most := isNumeral_numeral 18446744073709551615
  have letters : "ADD".toList.all isTagChar = true := by decide
  have tagged : IsTag "ADD".toList := ⟨by decide, List.all_eq_true.mp letters⟩
  obtain ⟨read_iff, _, zeros⟩ := read?_exactly_spelled
  refine ⟨seven, most, tagged, ?_⟩
  rw [zeros _ _ _ _ _ seven most, read_iff]
  exact ⟨_, _, _, _, rfl, tagged, seven, most, by decide, by decide, rfl, rfl⟩

example : read? "0,ADD,18446744073709551616".toList = none := by decide

example : read? "0,ADD,٣".toList = none := by decide

end Event
end LayerTiming
