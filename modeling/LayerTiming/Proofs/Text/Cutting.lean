import Mathlib.Data.List.DropRight
import LayerTiming.Text.Lines

/-!
# Cutting and trimming

How pieces and lines of a joined text follow from those of its parts, and what trimming does not
see. The white space around a line and the form of its line break leave the trimmed line as it is.
-/
namespace LayerTiming.Text

theorem pieces_eq_splitOn (separator : Char) (text : List Char) :
    pieces separator text = text.splitOn separator := by
  induction text with
  | nil => rfl
  | cons c rest ih =>
    rw [List.splitOn_cons_eq_if_modifyHead, ← ih]
    simp only [pieces, beq_iff_eq]
    split
    · rfl
    · cases found : pieces separator rest with
      | nil => exact absurd found (pieces_ne_nil separator rest)
      | cons piece others => rfl

/-- A separator parts the pieces in front of it from the pieces behind it. -/
theorem pieces_append_cons (separator : Char) (front back : List Char) :
    pieces separator (front ++ separator :: back) =
      pieces separator front ++ pieces separator back := by
  simp only [pieces_eq_splitOn, List.splitOn_append_cons_self]

theorem pieces_eq_singleton (separator : Char) (text : List Char) (free : separator ∉ text) :
    pieces separator text = [text] := by
  rw [pieces_eq_splitOn, List.splitOn_eq_singleton free]

theorem not_mem_of_mem_pieces {separator : Char} {text piece : List Char}
    (member : piece ∈ pieces separator text) : separator ∉ piece := by
  induction text generalizing piece with
  | nil => simp_all [pieces]
  | cons c rest ih =>
    by_cases same : c = separator
    · simp only [pieces, if_pos same, List.mem_cons] at member
      rcases member with rfl | later
      · exact List.not_mem_nil
      · exact ih later
    · cases found : pieces separator rest with
      | nil => exact absurd found (pieces_ne_nil separator rest)
      | cons first others =>
        -- The character goes to the first piece; the others stay as they are.
        simp only [pieces, if_neg same, found, List.mem_cons] at member
        rcases member with rfl | later
        · have free : separator ∉ first := ih (found ▸ List.mem_cons_self)
          simp [free, Ne.symm same]
        · exact ih (found ▸ List.mem_cons_of_mem first later)

/-- Cutting takes the separators away and nothing else. -/
theorem flatten_pieces (separator : Char) (text : List Char) :
    (pieces separator text).flatten = text.filter (· ≠ separator) := by
  induction text with
  | nil => rfl
  | cons c rest ih =>
    by_cases same : c = separator
    · simpa [pieces, same] using ih
    · cases found : pieces separator rest with
      | nil => exact absurd found (pieces_ne_nil separator rest)
      | cons piece others =>
        rw [found] at ih
        simpa [pieces, same, found] using ih

theorem joinPieces_cons (separator : Char) (piece : List Char) {others : List (List Char)}
    (more : others ≠ []) :
    joinPieces separator (piece :: others) = piece ++ separator :: joinPieces separator others := by
  cases others with
  | nil => exact absurd rfl more
  | cons _ _ => rfl

theorem joinPieces_append {separator : Char} (front : List (List Char)) {back : List (List Char)}
    (more : back ≠ []) :
    joinPieces separator (front ++ back) =
      front.flatMap (· ++ [separator]) ++ joinPieces separator back := by
  induction front with
  | nil => rfl
  | cons piece front ih =>
    have later : front ++ back ≠ [] := List.append_ne_nil_of_right_ne_nil front more
    simp only [List.cons_append, joinPieces_cons separator piece later, ih, List.flatMap_cons,
      List.append_assoc, List.nil_append]

theorem mem_joinPieces {separator : Char} {parts : List (List Char)} {c : Char}
    (member : c ∈ joinPieces separator parts) : c = separator ∨ ∃ part ∈ parts, c ∈ part := by
  induction parts with
  | nil => cases member
  | cons part others ih =>
    cases others with
    | nil => exact .inr ⟨part, List.mem_cons_self, member⟩
    | cons next others =>
      rw [joinPieces_cons separator part (List.cons_ne_nil next others), List.mem_append,
        List.mem_cons] at member
      rcases member with here | same | behind
      · exact .inr ⟨part, List.mem_cons_self, here⟩
      · exact .inl same
      · refine (ih behind).imp_right fun ⟨other, among, inside⟩ => ?_
        exact ⟨other, List.mem_cons_of_mem part among, inside⟩

theorem head?_joinPieces {separator : Char} {parts : List (List Char)} {c : Char}
    (first : c ∈ (joinPieces separator parts).head?) :
    c = separator ∨ ∃ part ∈ parts, c ∈ part.head? := by
  cases parts with
  | nil => cases first
  | cons part others =>
    by_cases more : others = []
    · subst more
      exact .inr ⟨part, List.mem_cons_self, first⟩
    · rw [joinPieces_cons separator part more] at first
      cases part with
      | nil => exact .inl (Option.some.inj first).symm
      | cons d rest => exact .inr ⟨d :: rest, List.mem_cons_self, first⟩

/-- Pieces without a separator are found again in what they make. -/
theorem pieces_joinPieces (separator : Char) {parts : List (List Char)} (some_part : parts ≠ [])
    (free : ∀ part ∈ parts, separator ∉ part) :
    pieces separator (joinPieces separator parts) = parts := by
  induction parts with
  | nil => exact absurd rfl some_part
  | cons part others ih =>
    have part_free : separator ∉ part := free part List.mem_cons_self
    by_cases more : others = []
    · subst more
      exact pieces_eq_singleton separator part part_free
    · have others_free : ∀ other ∈ others, separator ∉ other :=
        fun other member => free other (List.mem_cons_of_mem part member)
      rw [joinPieces_cons separator part more, pieces_append_cons,
        pieces_eq_singleton separator part part_free, ih more others_free]
      rfl

theorem linesOfPieces_cons (piece : List Char) (others : List (List Char)) (more : others ≠ []) :
    linesOfPieces (piece :: others) = dropReturn piece :: linesOfPieces others := by
  cases others with
  | nil => exact absurd rfl more
  | cons _ _ => rfl

/-- A line feed ends the first line. -/
theorem lines_append_feed (line rest : List Char) (free : '\n' ∉ line) :
    lines (line ++ '\n' :: rest) = dropReturn line :: lines rest := by
  rw [lines, pieces_append_cons, pieces_eq_singleton '\n' line free, List.singleton_append]
  exact linesOfPieces_cons line _ (pieces_ne_nil '\n' rest)

/-- Lines that are printed with a line feed behind each are the lines of the print. -/
theorem lines_flatMap_feed (printed : List (List Char)) (free : ∀ line ∈ printed, '\n' ∉ line) :
    lines (printed.flatMap (· ++ ['\n'])) = printed.map dropReturn := by
  induction printed with
  | nil => rfl
  | cons line rest ih =>
    have line_free : '\n' ∉ line := free line List.mem_cons_self
    have rest_free : ∀ other ∈ rest, '\n' ∉ other :=
      fun other member => free other (List.mem_cons_of_mem line member)
    rw [List.flatMap_cons, List.append_assoc, List.singleton_append,
      lines_append_feed line _ line_free, ih rest_free, List.map_cons]

theorem linesOfPieces_append (front : List (List Char)) {back : List (List Char)}
    (more : back ≠ []) :
    linesOfPieces (front ++ back) = front.map dropReturn ++ linesOfPieces back := by
  induction front with
  | nil => rfl
  | cons piece front ih =>
    have later : front ++ back ≠ [] := List.append_ne_nil_of_right_ne_nil front more
    rw [List.cons_append, linesOfPieces_cons piece _ later, ih, List.map_cons, List.cons_append]

/-- A text of whole lines: nothing stands behind its last line feed. -/
def EndsLine (text : List Char) : Prop := text = [] ∨ text.getLast? = some '\n'

theorem lines_append {front : List Char} (ended : EndsLine front) (back : List Char) :
    lines (front ++ back) = lines front ++ lines back := by
  rcases ended with rfl | last
  · rfl
  · obtain ⟨text, rfl⟩ := List.getLast?_eq_some_iff.mp last
    have cut (rest : List Char) :
        lines (text ++ '\n' :: rest) = (pieces '\n' text).map dropReturn ++ lines rest := by
      rw [lines, pieces_append_cons, linesOfPieces_append _ (pieces_ne_nil '\n' rest), lines]
    -- The empty piece behind the last line feed is no line.
    have alone : lines (text ++ ['\n']) = (pieces '\n' text).map dropReturn := by
      rw [cut []]
      exact List.append_nil _
    rw [List.append_assoc, List.singleton_append, cut, alone]

/-- Characters of one kind reach up to the first one of another kind. -/
theorem takeWhile_kind {test : Char → Bool} {kind rest : List Char}
    (all : ∀ c ∈ kind, test c = true) (ends : ∀ c ∈ rest.head?, test c = false) :
    (kind ++ rest).takeWhile test = kind ∧ (kind ++ rest).dropWhile test = rest := by
  rw [List.takeWhile_append_of_pos all, List.dropWhile_append_of_pos all]
  cases rest with
  | nil => simp
  | cons c rest => simp [ends c rfl]

theorem trim_eq_rdropWhile (text : List Char) :
    trim text = (text.dropWhile isSpace).rdropWhile isSpace := rfl

/-- White space behind a text is not seen. -/
theorem trim_append_spaces (text padding : List Char) (blank : ∀ c ∈ padding, isSpace c = true) :
    trim (text ++ padding) = trim text := by
  induction padding using List.reverseRecOn with
  | nil => rw [List.append_nil]
  | append_singleton padding c ih =>
    have last_blank : isSpace c = true := blank c (by simp)
    rw [← ih (fun d member => blank d (List.mem_append_left [c] member)), ← List.append_assoc]
    generalize text ++ padding = front
    -- The last blank goes with the front if nothing else is left of it.
    simp only [trim_eq_rdropWhile, List.dropWhile_append]
    split
    next empty =>
      have nothing : front.dropWhile isSpace = [] := by simpa using empty
      simp [nothing, last_blank]
    · rw [List.rdropWhile_concat_pos isSpace _ c last_blank]

/-- White space in front of a text is not seen. -/
theorem trim_spaces_append {padding : List Char} (blank : ∀ c ∈ padding, isSpace c = true)
    (text : List Char) : trim (padding ++ text) = trim text := by
  rw [trim_eq_rdropWhile, List.dropWhile_append_of_pos blank, ← trim_eq_rdropWhile]

theorem trim_padded {front back : List Char} (front_blank : ∀ c ∈ front, isSpace c = true)
    (back_blank : ∀ c ∈ back, isSpace c = true) (text : List Char) :
    trim (front ++ (text ++ back)) = trim text := by
  rw [trim_spaces_append front_blank, trim_append_spaces text back back_blank]

/-- Trimming takes white space away and nothing else. -/
theorem exists_padding (text : List Char) :
    ∃ front back, text = front ++ (trim text ++ back) ∧ (∀ c ∈ front, isSpace c = true) ∧
      ∀ c ∈ back, isSpace c = true := by
  refine ⟨text.takeWhile isSpace, (text.dropWhile isSpace).rtakeWhile isSpace, ?_, ?_, ?_⟩
  · rw [trim_eq_rdropWhile, List.rdropWhile_append_rtakeWhile, List.takeWhile_append_dropWhile]
  · exact fun c member => List.mem_takeWhile_imp member
  · exact fun c member => List.mem_rtakeWhile_imp member

theorem trim_dropReturn (line : List Char) : trim (dropReturn line) = trim line := by
  unfold dropReturn
  split
  next ends =>
    obtain ⟨front, rfl⟩ := List.getLast?_eq_some_iff.mp ends
    rw [List.dropLast_concat]
    have blank : ∀ c ∈ ['\r'], isSpace c = true := List.forall_mem_singleton.mpr (by decide)
    exact (trim_append_spaces front ['\r'] blank).symm
  · rfl

/-- A text without white space at its ends is trimmed already. -/
theorem trim_eq_self (text : List Char) (head : ∀ c ∈ text.head?, isSpace c = false)
    (last : ∀ c ∈ text.getLast?, isSpace c = false) : trim text = text := by
  have front : text.dropWhile isSpace = text := by
    cases text with
    | nil => rfl
    | cons c rest => simp [head c rfl]
  rw [trim_eq_rdropWhile, front, List.rdropWhile_eq_self_iff]
  intro nonempty
  simp [last (text.getLast nonempty) (List.getLast?_eq_some_getLast nonempty)]

end LayerTiming.Text
