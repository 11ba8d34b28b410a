import LayerTiming.Proofs.Text.MarkupOutline

/-!
# Escaping and its inverse

To escape a text is to replace its four special characters one after the other, the ampersand first,
so that no ampersand of an entity is escaped again. What is escaped is told apart character by
character, and replacing the entities once, from left to right, gives the text back, whatever stands
in it.

## Main result

`escape_encodes`: all this, for every two texts.
-/
namespace LayerTiming.Markup

/-- The text with a string in the place of each occurrence of a character. -/
def replaceChar (c : Char) (string : String) (text : List Char) : List Char :=
  text.flatMap fun d => if d = c then string.toList else [d]

/-- The text with its special characters replaced one after the other. -/
def replaceSpecials (text : List Char) : List Char :=
  replaceChar '"' "&quot;" (replaceChar '>' "&gt;" (replaceChar '<' "&lt;"
    (replaceChar '&' "&amp;" text)))

/-- The text with a character in the place of each entity, in one pass from left to right. Whatever
is no entity stays. -/
def unescape : List Char → List Char
  | [] => []
  | '&' :: 'a' :: 'm' :: 'p' :: ';' :: rest => '&' :: unescape rest
  | '&' :: 'l' :: 't' :: ';' :: rest => '<' :: unescape rest
  | '&' :: 'g' :: 't' :: ';' :: rest => '>' :: unescape rest
  | '&' :: 'q' :: 'u' :: 'o' :: 't' :: ';' :: rest => '"' :: unescape rest
  | c :: rest => c :: unescape rest

theorem replaceChar_append (c : Char) (string : String) (front back : List Char) :
    replaceChar c string (front ++ back) = replaceChar c string front ++ replaceChar c string back :=
  List.flatMap_append

theorem replaceChar_singleton (c : Char) (string : String) {d : Char} (other : d ≠ c) :
    replaceChar c string [d] = [d] := by
  simp [replaceChar, other]

theorem replaceSpecials_append (front back : List Char) :
    replaceSpecials (front ++ back) = replaceSpecials front ++ replaceSpecials back := by
  simp only [replaceSpecials, replaceChar_append]

/-- Of one character only its own replacement is seen: no later one finds anything in an entity. -/
theorem replaceSpecials_singleton (c : Char) : replaceSpecials [c] = escapeChar c := by
  unfold escapeChar
  split
  next amp => subst amp; decide
  split
  next less => subst less; decide
  split
  next greater => subst greater; decide
  split
  next quote => subst quote; decide
  next no_amp no_less no_greater no_quote =>
    rw [replaceSpecials, replaceChar_singleton _ _ no_amp, replaceChar_singleton _ _ no_less,
      replaceChar_singleton _ _ no_greater, replaceChar_singleton _ _ no_quote]

theorem replaceSpecials_eq_escape (text : List Char) : replaceSpecials text = escape text := by
  induction text with
  | nil => rfl
  | cons c rest ih =>
    rw [← List.singleton_append, replaceSpecials_append, ih, replaceSpecials_singleton]
    rfl

/-- A text without stray ampersands is read by replacing its entities. -/
theorem unescape_of_unescape? {text plain : List Char} (read : unescape? text = some plain) :
    unescape text = plain := by
  fun_induction unescape? text generalizing plain with
  | case1 =>
    cases read
    rfl
  | case2 rest ih | case3 rest ih | case4 rest ih | case5 rest ih =>
    obtain ⟨later, found, rfl⟩ := Option.map_eq_some_iff.mp read
    rw [unescape, ih found]
  | case6 => cases read
  | case7 c rest _ _ _ _ ordinary ih =>
    obtain ⟨later, found, rfl⟩ := Option.map_eq_some_iff.mp read
    rw [unescape, ih found]
    all_goals simp_all

theorem unescape_escape (text : List Char) : unescape (escape text) = text :=
  unescape_of_unescape? (unescape?_escape text)

theorem escape_inj {first second : List Char} : escape first = escape second ↔ first = second := by
  refine ⟨fun same => ?_, congrArg escape⟩
  rw [← unescape_escape first, same, unescape_escape]

/-- Escaping is an injective encoding, character by character. -/
theorem escape_encodes (first second : List Char) :
    escape first = replaceSpecials first ∧
      escape (first ++ second) = escape first ++ escape second ∧
      unescape (escape first) = first ∧
      (escape first = escape second ↔ first = second) ∧
      ('<' ∉ escape first ∧ '>' ∉ escape first ∧ '"' ∉ escape first) ∧
      EntitiesOnly (escape first) := by
  refine ⟨(replaceSpecials_eq_escape first).symm, escape_append first second, unescape_escape first,
    escape_inj, ⟨?less, ?greater, ?quote⟩, EntitiesOnly.escape first⟩
  case less => exact fun member => (ne_of_mem_escape member).1 rfl
  case greater => exact fun member => (ne_of_mem_escape member).2.1 rfl
  case quote => exact fun member => (ne_of_mem_escape member).2.2 rfl

example : escape "&lt; <b>".toList = "&amp;lt; &lt;b&gt;".toList := by decide

end LayerTiming.Markup
