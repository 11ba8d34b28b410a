import LayerTiming.Text.CharClass

/-!
# Pieces, lines and searches

A text is cut at a separator into pieces, at line breaks into lines, and searched for the leftmost
place where something stands. All of it works on the list of a text's characters.
-/
namespace LayerTiming.Text

/-- The pieces between the separators: always one more than there are separators. -/
def pieces (separator : Char) : List Char → List (List Char)
  | [] => [[]]
  | c :: rest =>
    if c = separator then [] :: pieces separator rest
    else match pieces separator rest with
      | [] => [[c]]
      | piece :: others => (c :: piece) :: others

/-- Put the pieces together again with a separator between each two. -/
def joinPieces (separator : Char) : List (List Char) → List Char
  | [] => []
  | [piece] => piece
  | piece :: others => piece ++ separator :: joinPieces separator others

theorem pieces_ne_nil (separator : Char) (text : List Char) : pieces separator text ≠ [] := by
  cases text with
  | nil => simp [pieces]
  | cons c rest =>
    simp only [pieces]
    split
    · simp
    · split <;> simp

/-- Cutting loses nothing. -/
theorem joinPieces_pieces (separator : Char) (text : List Char) :
    joinPieces separator (pieces separator text) = text := by
  induction text with
  | nil => rfl
  | cons c rest ih =>
    cases found : pieces separator rest with
    | nil => exact absurd found (pieces_ne_nil separator rest)
    | cons piece others =>
      rw [found] at ih
      by_cases same : c = separator
      · simp [pieces, same, found, joinPieces, ih]
      · cases others <;> simpa [pieces, same, found, joinPieces] using ih

/-- Drop one carriage return at the end, if there is one. -/
def dropReturn (line : List Char) : List Char :=
  if line.getLast? = some '\r' then line.dropLast else line

/-- The lines among the pieces of a text. A carriage return before a line feed belongs to the line
break; the last piece is a line only if it holds something, and keeps its carriage return. -/
def linesOfPieces : List (List Char) → List (List Char)
  | [] => []
  | [last] => if last = [] then [] else [last]
  | piece :: others => dropReturn piece :: linesOfPieces others

def lines (text : List Char) : List (List Char) := linesOfPieces (pieces '\n' text)

def trim (text : List Char) : List Char :=
  ((text.dropWhile isSpace).reverse.dropWhile isSpace).reverse

/-- What follows `lead`, if the text begins with it. -/
def after? : List Char → List Char → Option (List Char)
  | [], text => some text
  | _ :: _, [] => none
  | c :: lead, d :: text => if c = d then after? lead text else none

theorem after?_append (lead text : List Char) : after? lead (lead ++ text) = some text := by
  induction lead with
  | nil => rfl
  | cons c lead ih => simpa [after?] using ih

theorem after?_eq_some_iff (lead text rest : List Char) :
    after? lead text = some rest ↔ text = lead ++ rest := by
  constructor
  · intro found
    induction lead generalizing text with
    | nil => simpa [after?] using found
    | cons c lead ih =>
      cases text with
      | nil => simp [after?] at found
      | cons d text =>
        simp only [after?] at found
        split at found
        · next same => simp [same, ih text found]
        · simp at found
  · rintro rfl
    exact after?_append lead rest

/-- What `find` gives at the leftmost place of the text where it gives anything. -/
def leftmost? {α : Type} (find : List Char → Option α) : List Char → Option α
  | [] => find []
  | c :: rest =>
    match find (c :: rest) with
    | some found => some found
    | none => leftmost? find rest

/-- Whether `part` occurs in the text. -/
def occurs (part text : List Char) : Bool := (leftmost? (after? part) text).isSome

/-- The longest tail of a list that begins with an element satisfying the test and holds no other
such element. -/
def fromLast? {α : Type} (test : α → Bool) : List α → Option (List α)
  | [] => none
  | x :: rest =>
    match fromLast? test rest with
    | some found => some found
    | none => if test x then some (x :: rest) else none

end LayerTiming.Text
