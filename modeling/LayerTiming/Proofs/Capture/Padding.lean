import Mathlib.Data.List.Forall2
import LayerTiming.Proofs.Capture.Printing

/-!
# White space around lines

A recording follows from what the pieces between line feeds say, and white space around a piece says
nothing. So it does not matter how lines are indented, whether a carriage return stands in front of a
line feed, and whether the last line is ended.
-/
namespace LayerTiming
open Text

/-- White space that does not break a line. -/
def IsPadding (text : List Char) : Prop := ∀ c ∈ text, isSpace c = true ∧ c ≠ '\n'

/-- The second line is the first one with padding put in front and behind. -/
def Padded (line padded : List Char) : Prop :=
  ∃ front back, IsPadding front ∧ IsPadding back ∧ padded = front ++ (line ++ back)

/-- A text with a carriage return put in front of every line feed. -/
def withReturns (text : List Char) : List Char :=
  text.flatMap fun c => if c = '\n' then ['\r', '\n'] else [c]

theorem IsPadding.blank {padding : List Char} (pads : IsPadding padding) :
    ∀ c ∈ padding, isSpace c = true :=
  fun c member => (pads c member).1

theorem IsPadding.unbroken {padding : List Char} (pads : IsPadding padding) : '\n' ∉ padding :=
  fun member => (pads '\n' member).2 rfl

theorem isPadding_nil : IsPadding [] := List.forall_mem_nil _

theorem LineBreak.isPadding (ending : LineBreak) : IsPadding ending.padding := by
  cases ending with
  | feed => exact isPadding_nil
  | returnFeed => exact List.forall_mem_singleton.mpr (by decide)

theorem Padded.refl (line : List Char) : Padded line line :=
  ⟨[], [], isPadding_nil, isPadding_nil, (List.append_nil line).symm⟩

theorem Padded.behind (line : List Char) {padding : List Char} (pads : IsPadding padding) :
    Padded line (line ++ padding) :=
  ⟨[], padding, isPadding_nil, pads, rfl⟩

theorem Padded.unbroken {line padded : List Char} (pads : Padded line padded)
    (free : '\n' ∉ line) : '\n' ∉ padded := by
  obtain ⟨front, back, front_pads, back_pads, rfl⟩ := pads
  simp [front_pads.unbroken, back_pads.unbroken, free]

theorem Padded.ofText_eq {line padded : List Char} (pads : Padded line padded) :
    Line.ofText padded = Line.ofText line := by
  obtain ⟨front, back, front_pads, back_pads, rfl⟩ := pads
  rw [Line.ofText, trim_padded front_pads.blank back_pads.blank, ← Line.ofText]

namespace Recording

/-! ### Noise -/

theorem runsFrom_filter_noise (current : Option (List Event)) (lines : List Line) :
    runsFrom current (lines.filter (· ≠ .noise)) = runsFrom current lines := by
  induction lines generalizing current with
  | nil => rfl
  | cons line rest ih =>
    cases line with
    | header => simpa [runsFrom] using ih (some [])
    | event found =>
      cases current with
      | none => simpa [runsFrom] using ih none
      | some events => simpa [runsFrom] using ih (some (found :: events))
    | sample cycles => simpa [runsFrom] using ih current
    | noise => simpa [runsFrom] using ih current

/-- Lines that say nothing may be left out. -/
theorem ofLines_filter_noise (policy : LeadingEvents) (lines : List Line) :
    ofLines policy (lines.filter (· ≠ .noise)) = ofLines policy lines := by
  have samples : (lines.filter (· ≠ .noise)).filterMap sample? = lines.filterMap sample? := by
    rw [List.filterMap_filter]
    apply List.filterMap_congr
    intro line _
    cases line <;> rfl
  rw [ofLines, ofLines, runsFrom_filter_noise, samples]

theorem ofLines_eq_of_filter {policy : LeadingEvents} {left right : List Line}
    (same : left.filter (· ≠ .noise) = right.filter (· ≠ .noise)) :
    ofLines policy left = ofLines policy right := by
  rw [← ofLines_filter_noise policy left, same, ofLines_filter_noise]

/-! ### Pieces between line feeds -/

/-- The lines of a text say what its pieces say. The piece behind the last line feed, if it is empty, is
no line, and says nothing. -/
theorem filter_map_ofText_lines (parts : List (List Char)) :
    ((linesOfPieces parts).map Line.ofText).filter (· ≠ .noise) =
      (parts.map Line.ofText).filter (· ≠ .noise) := by
  induction parts with
  | nil => rfl
  | cons part others ih =>
    by_cases more : others = []
    · subst more
      by_cases empty : part = []
      · subst empty
        decide
      · rw [linesOfPieces, if_neg empty]
    · -- A piece in front of another is a line but for a carriage return, and trimming takes that away.
      have said : Line.ofText (dropReturn part) = Line.ofText part := by
        rw [Line.ofText, trim_dropReturn, ← Line.ofText]
      rw [linesOfPieces_cons part others more, List.map_cons, List.map_cons, said,
        List.filter_cons, List.filter_cons, ih]

theorem ofText_eq_pieces (policy : LeadingEvents) (text : List Char) :
    ofText policy text = ofLines policy ((pieces '\n' text).map Line.ofText) :=
  ofLines_eq_of_filter (filter_map_ofText_lines (pieces '\n' text))

theorem unbroken_of_pads {parts padded : List (List Char)} (pads : List.Forall₂ Padded parts padded)
    (free : ∀ part ∈ parts, '\n' ∉ part) : ∀ part ∈ padded, '\n' ∉ part := by
  induction pads with
  | nil => exact List.forall_mem_nil _
  | cons here _ ih =>
    obtain ⟨first, others⟩ := List.forall_mem_cons.mp free
    exact List.forall_mem_cons.mpr ⟨here.unbroken first, ih others⟩

theorem map_ofText_of_pads {parts padded : List (List Char)}
    (pads : List.Forall₂ Padded parts padded) :
    padded.map Line.ofText = parts.map Line.ofText := by
  induction pads with
  | nil => rfl
  | cons here _ ih => rw [List.map_cons, List.map_cons, here.ofText_eq, ih]

theorem ofText_joinPieces (policy : LeadingEvents) {text : List Char} {padded : List (List Char)}
    (pads : List.Forall₂ Padded (pieces '\n' text) padded) :
    ofText policy (joinPieces '\n' padded) = ofText policy text := by
  have unbroken : ∀ part ∈ padded, '\n' ∉ part :=
    unbroken_of_pads pads fun part member => not_mem_of_mem_pieces member
  have some_part : padded ≠ [] := by
    rintro rfl
    exact pieces_ne_nil '\n' text (List.forall₂_nil_right_iff.mp pads)
  rw [ofText_eq_pieces, ofText_eq_pieces, pieces_joinPieces '\n' some_part unbroken,
    map_ofText_of_pads pads]

/-! ### Line breaks -/

theorem withReturns_of_unbroken {part : List Char} (free : '\n' ∉ part) :
    withReturns part = part := by
  induction part with
  | nil => rfl
  | cons c rest ih =>
    simp only [List.mem_cons, not_or] at free
    simp only [withReturns, List.flatMap_cons, if_neg (Ne.symm free.1)] at ih ⊢
    rw [ih free.2, List.singleton_append]

/-- In front of each line feed stands the end of a piece, and a carriage return there is padding. -/
theorem exists_padded_returns {parts : List (List Char)} (free : ∀ part ∈ parts, '\n' ∉ part) :
    ∃ padded, List.Forall₂ Padded parts padded ∧
      joinPieces '\n' padded = withReturns (joinPieces '\n' parts) := by
  induction parts with
  | nil => exact ⟨[], .nil, rfl⟩
  | cons part others ih =>
    obtain ⟨part_free, others_free⟩ := List.forall_mem_cons.mp free
    by_cases more : others = []
    · subst more
      exact ⟨[part], .cons (.refl part) .nil, (withReturns_of_unbroken part_free).symm⟩
    · obtain ⟨padded, pads, joined⟩ := ih others_free
      have padded_more : padded ≠ [] := by
        rintro rfl
        exact more (List.forall₂_nil_right_iff.mp pads)
      have here : Padded part (part ++ ['\r']) := .behind part LineBreak.returnFeed.isPadding
      refine ⟨(part ++ ['\r']) :: padded, .cons here pads, ?_⟩
      rw [joinPieces_cons '\n' _ padded_more, joinPieces_cons '\n' part more, joined, withReturns,
        withReturns, List.flatMap_append, List.flatMap_cons, ← withReturns, ← withReturns,
        withReturns_of_unbroken part_free]
      simp

theorem ofText_withReturns (policy : LeadingEvents) (text : List Char) :
    ofText policy (withReturns text) = ofText policy text := by
  obtain ⟨padded, pads, joined⟩ :=
    exists_padded_returns fun part (member : part ∈ pieces '\n' text) => not_mem_of_mem_pieces member
  rw [joinPieces_pieces] at joined
  rw [← joined, ofText_joinPieces policy pads]

/-- Padding behind a text is padding of its last piece. -/
theorem ofText_append_padding (policy : LeadingEvents) (text : List Char) {padding : List Char}
    (pads : IsPadding padding) : ofText policy (text ++ padding) = ofText policy text := by
  have whole := joinPieces_pieces '\n' text
  cases cut : pieces '\n' text using List.reverseRecOn with
  | nil => exact absurd cut (pieces_ne_nil '\n' text)
  | append_singleton front last =>
    have padded : List.Forall₂ Padded (pieces '\n' text) (front ++ [last ++ padding]) := by
      rw [cut]
      apply List.rel_append
      · exact List.forall₂_same.mpr fun part _ => .refl part
      · exact .cons (.behind last pads) .nil
    have longer : joinPieces '\n' (front ++ [last ++ padding]) = text ++ padding := by
      rw [cut, joinPieces_append front (List.cons_ne_nil _ _)] at whole
      rw [joinPieces_append front (List.cons_ne_nil _ _), ← whole, List.append_assoc]
      rfl
    rw [← longer, ofText_joinPieces policy padded]

/-- Ending the last line leaves an empty piece behind the line feed, and that says nothing. -/
theorem ofText_append_break (policy : LeadingEvents) (text : List Char) (ending : LineBreak) :
    ofText policy (text ++ (ending.padding ++ ['\n'])) = ofText policy text := by
  have said : (pieces '\n' (text ++ ending.padding ++ ['\n'])).map Line.ofText =
      (pieces '\n' (text ++ ending.padding)).map Line.ofText ++ [.noise] := by
    rw [pieces_append_cons, List.map_append]
    rfl
  rw [← ofText_append_padding policy text ending.isPadding, ← List.append_assoc, ofText_eq_pieces,
    ofText_eq_pieces, said]
  apply ofLines_eq_of_filter
  rw [List.filter_append]
  exact List.append_nil _

/-- A recording does not depend on the white space around the pieces between line feeds, so neither
does it on carriage returns in front of line feeds or on a line break at the end. -/
theorem ofText_padded (policy : LeadingEvents) (text : List Char) :
    (∀ padded, List.Forall₂ Padded (pieces '\n' text) padded →
      ofText policy (joinPieces '\n' padded) = ofText policy text) ∧
    ofText policy (withReturns text) = ofText policy text ∧
    ∀ ending : LineBreak,
      ofText policy (text ++ (ending.padding ++ ['\n'])) = ofText policy text :=
  ⟨fun _ pads => ofText_joinPieces policy pads, ofText_withReturns policy text,
    ofText_append_break policy text⟩

/-- An event between a no-break space and a tab is the event of a line without them. -/
theorem ofText_padded_event :
    let padded := [headerText ++ ['\r'], "\u00a00,ADD,5\t".toList]
    List.Forall₂ Padded (pieces '\n' (headerText ++ '\n' :: "0,ADD,5".toList)) padded ∧
      (ofText .leftOut (joinPieces '\n' padded)).runs = [[⟨0, "ADD", 5⟩]] := by
  intro padded
  have cut : pieces '\n' (headerText ++ '\n' :: "0,ADD,5".toList) =
      [headerText, "0,ADD,5".toList] := by decide
  have pads : List.Forall₂ Padded (pieces '\n' (headerText ++ '\n' :: "0,ADD,5".toList)) padded := by
    rw [cut]
    refine .cons (.behind _ LineBreak.returnFeed.isPadding) (.cons ?_ .nil)
    exact ⟨['\u00a0'], ['\t'], List.forall_mem_singleton.mpr (by decide),
      List.forall_mem_singleton.mpr (by decide), rfl⟩
  refine ⟨pads, ?_⟩
  rw [(ofText_padded .leftOut _).1 padded pads]
  decide

end Recording
end LayerTiming
