import LayerTiming.Proofs.Capture.EventLines
import LayerTiming.Proofs.Capture.Markers

/-!
# Kinds of lines

No line is of two kinds. So the order in which the kinds are tried decides nothing, and neither does the
search for the words of a marker before a sample is read. White space around a line neither makes nor
breaks a marker, so a sample is read from the line as it stands.
-/
namespace LayerTiming
open Text

namespace Marker

theorem free_of_no_parenthesis {text : List Char} (absent : '(' ∉ text) : Free text := by
  rintro front marker back rfl
  apply absent
  simp [Marker.text]

/-! ### White space around markers -/

variable {padding : List Char}

/-- A marker ends with a letter, so it ends in front of white space at the end. -/
theorem markerHere?_append_spaces (text : List Char) (blank : ∀ c ∈ padding, isSpace c = true) :
    markerHere? (text ++ padding) = markerHere? text := by
  apply Option.ext
  intro digits
  rw [markerHere?_eq_some_iff, markerHere?_eq_some_iff]
  constructor
  · rintro ⟨marker, back, shape, same⟩
    rcases List.append_eq_append_iff.mp shape with ⟨gap, longer, rfl⟩ | ⟨gap, rfl, _⟩
    · -- The marker ends in the padding, and its last letter would be white space.
      cases gap using List.reverseRecOn with
      | nil => exact ⟨marker, [], by rw [longer, List.append_nil, List.append_nil], same⟩
      | append_singleton gap c =>
        have last := marker.getLast?_text
        rw [longer, ← List.append_assoc, List.getLast?_concat] at last
        obtain rfl : c = 'l' := Option.some.inj last
        exact absurd (blank 'l' (by simp)) (by decide)
    · exact ⟨marker, gap, rfl, same⟩
  · rintro ⟨marker, back, rfl, same⟩
    exact ⟨marker, back ++ padding, List.append_assoc _ _ _, same⟩

theorem leftmost?_append_spaces (text : List Char) (blank : ∀ c ∈ padding, isSpace c = true) :
    leftmost? markerHere? (text ++ padding) = leftmost? markerHere? text := by
  induction text with
  | nil =>
    have free : Free padding := by
      apply free_of_no_parenthesis
      exact fun member => absurd (blank '(' member) (by decide)
    exact leftmost?_markerHere?_eq_none_iff.mpr free
  | cons c text ih =>
    have here := markerHere?_append_spaces (c :: text) blank
    rw [List.cons_append] at here ⊢
    rw [leftmost?, leftmost?, here, ih]

/-- A marker begins with a parenthesis, so it does not begin in white space. -/
theorem leftmost?_spaces_append (blank : ∀ c ∈ padding, isSpace c = true) (text : List Char) :
    leftmost? markerHere? (padding ++ text) = leftmost? markerHere? text := by
  induction padding with
  | nil => rfl
  | cons c padding ih =>
    obtain ⟨first, others⟩ := List.forall_mem_cons.mp blank
    have nothing : markerHere? (c :: (padding ++ text)) = none := by
      rw [Option.eq_none_iff_forall_ne_some]
      intro digits found
      obtain ⟨marker, back, shape, _⟩ := markerHere?_eq_some_iff.mp found
      obtain rfl : c = '(' := (List.cons.inj shape).1
      exact absurd first (by decide)
    rw [List.cons_append, leftmost?, nothing]
    exact ih others

theorem readSample?_trim (text : List Char) : readSample? (trim text) = readSample? text := by
  obtain ⟨front, back, shape, front_blank, back_blank⟩ := exists_padding text
  have searched : leftmost? markerHere? text = leftmost? markerHere? (trim text) := by
    conv_lhs => rw [shape]
    rw [leftmost?_spaces_append front_blank, leftmost?_append_spaces _ back_blank]
  rw [LayerTiming.readSample?, LayerTiming.readSample?, searched]

end Marker

/-! ### One kind for each line -/

theorem Event.not_mem_of_read? {text : List Char} {found : Event}
    (read : Event.read? text = some found) : '(' ∉ text := by
  obtain ⟨id, ticks, m, n, rfl, tagged, id_numeral, ticks_numeral, _⟩ :=
    Event.read?_eq_some_iff_spelled.mp read
  have no_digit : isAsciiDigit '(' = false := by decide
  have no_tag := Item.not_mem_tag _ tagged '(' (by decide)
  simp [Event.spelled, id_numeral.not_mem no_digit, ticks_numeral.not_mem no_digit, no_tag]

theorem readSample?_of_no_parenthesis {text : List Char} (absent : '(' ∉ trim text) :
    readSample? text = none := by
  rw [← Marker.readSample?_trim]
  exact (Marker.free_of_no_parenthesis absent).readSample?

theorem occurs_of_readSample? {text : List Char} {cycles : UInt64}
    (read : readSample? text = some cycles) : occurs markerWords text = true := by
  obtain ⟨front, marker, back, first, _⟩ := Marker.readSample?_eq_some_iff.mp read
  rw [first.shape]
  exact marker.occurs_markerWords front back

namespace Line

/-- The words of a marker need not be searched before a sample is read. -/
theorem ofText_eq (text : List Char) :
    ofText text =
      if trim text = headerText then .header
      else match Event.read? (trim text) with
        | some found => .event found
        | none =>
          match readSample? text with
          | some cycles => .sample cycles
          | none => .noise := by
  rw [ofText, ofTrimmed, ← Marker.readSample?_trim text]
  split
  · rfl
  cases Event.read? (trim text) with
  | some found => rfl
  | none =>
    cases read : readSample? (trim text) with
    | some cycles => simp only [occurs_of_readSample? read, if_true]
    | none => simp only [ite_self]

/-- All that can be said of a line: what it is read as, and that it is read as nothing else. -/
theorem ofText_cases (text : List Char) :
    (ofText text = .header ∧ trim text = headerText ∧ Event.read? (trim text) = none ∧
      readSample? text = none) ∨
    (∃ found, ofText text = .event found ∧ trim text ≠ headerText ∧
      Event.read? (trim text) = some found ∧ readSample? text = none) ∨
    (∃ cycles, ofText text = .sample cycles ∧ trim text ≠ headerText ∧
      Event.read? (trim text) = none ∧ readSample? text = some cycles) ∨
    (ofText text = .noise ∧ trim text ≠ headerText ∧ Event.read? (trim text) = none ∧
      readSample? text = none) := by
  rw [ofText_eq]
  by_cases header : trim text = headerText
  · -- A header is cut at its commas like an event, but no part of an event holds a quote.
    have no_event : Event.read? headerText = none := by decide
    have no_parenthesis : '(' ∉ headerText := by decide
    left
    rw [if_pos header, header]
    exact ⟨rfl, rfl, no_event, readSample?_of_no_parenthesis (header ▸ no_parenthesis)⟩
  right
  rw [if_neg header]
  cases event : Event.read? (trim text) with
  | some found =>
    -- There is no parenthesis in an event, so no marker begins in it.
    left
    exact ⟨found, rfl, header, rfl, readSample?_of_no_parenthesis (Event.not_mem_of_read? event)⟩
  | none =>
    right
    cases sample : readSample? text with
    | some cycles => exact .inl ⟨cycles, rfl, header, rfl, rfl⟩
    | none => exact .inr ⟨rfl, header, rfl, rfl⟩

/-- A line is of a kind exactly if it is read as such, whatever else holds of it: a header and an event
from what is left between white space, a sample from the line as it stands. No line is read in two
ways, and the words of a marker stand in every line with a sample. -/
theorem ofText_kinds (text : List Char) :
    (ofText text = .header ↔ trim text = headerText) ∧
    (∀ found, ofText text = .event found ↔ Event.read? (trim text) = some found) ∧
    (∀ cycles, ofText text = .sample cycles ↔ readSample? text = some cycles) ∧
    (ofText text = .noise ↔
      trim text ≠ headerText ∧ Event.read? (trim text) = none ∧ readSample? text = none) ∧
    (∀ cycles, readSample? text = some cycles → occurs markerWords (trim text) = true) ∧
    (trim text = headerText → Event.read? (trim text) = none ∧ readSample? text = none) ∧
    ∀ found, Event.read? (trim text) = some found → readSample? text = none := by
  have words (cycles : UInt64) (read : readSample? text = some cycles) :
      occurs markerWords (trim text) = true := by
    rw [← Marker.readSample?_trim] at read
    exact occurs_of_readSample? read
  rcases ofText_cases text with ⟨said, header, event, sample⟩ | ⟨found, said, header, event, sample⟩ |
    ⟨cycles, said, header, event, sample⟩ | ⟨said, header, event, sample⟩
  · rw [header] at event ⊢
    simp [said, event, sample]
  · simp [said, header, event, sample]
  · simp [said, header, event, sample, words cycles sample]
  · simp [said, header, event, sample]

/-- A padded line with an event behind a marker's words is no event, and its sample is read. -/
theorem ofText_kinds_padded :
    let text := "\t 0,ADD,5 (\u00a07 )\tcycles total ".toList
    readSample? text = some 7 ∧ ofText text = .sample 7 ∧
      occurs markerWords (trim text) = true := by
  intro text
  obtain ⟨_, _, sample, _, words, _⟩ := ofText_kinds text
  have read : readSample? text = some 7 := by decide
  exact ⟨read, (sample 7).mpr read, words 7 read⟩

end Line
end LayerTiming
