/-!
# Markup

Trees of elements with attributes, and their text. The characters that markup gives a meaning to are
written as entities, in content and in attribute values alike, so the structure of a written tree
never depends on the strings in it.
-/
namespace LayerTiming

/-- A node of a markup tree. -/
inductive Markup
  | content (text : List Char)
  | element (name : String) (attributes : List (String × List Char)) (children : List Markup)
  deriving Repr, Inhabited

namespace Markup

def escapeChar (c : Char) : List Char :=
  if c = '&' then "&amp;".toList
  else if c = '<' then "&lt;".toList
  else if c = '>' then "&gt;".toList
  else if c = '"' then "&quot;".toList
  else [c]

def escape (text : List Char) : List Char := text.flatMap escapeChar

theorem escape_append (first second : List Char) :
    escape (first ++ second) = escape first ++ escape second := List.flatMap_append

/-- Escaped text opens and closes nothing. -/
theorem ne_of_mem_escape {c : Char} {text : List Char} (member : c ∈ escape text) :
    c ≠ '<' ∧ c ≠ '>' ∧ c ≠ '"' := by
  obtain ⟨source, _, found⟩ := List.mem_flatMap.mp member
  simp only [escapeChar] at found
  split at found
  · simp at found
    rcases found with rfl | rfl | rfl | rfl | rfl <;> simp
  split at found
  · simp at found
    rcases found with rfl | rfl | rfl | rfl <;> simp
  split at found
  · simp at found
    rcases found with rfl | rfl | rfl | rfl <;> simp
  split at found
  · simp at found
    rcases found with rfl | rfl | rfl | rfl | rfl | rfl <;> simp
  · obtain rfl := List.mem_singleton.mp found
    exact ⟨by assumption, by assumption, by assumption⟩

/-- The text of an attribute, with a blank in front. -/
def writeAttribute (named : String × List Char) : List Char :=
  ' ' :: named.1.toList ++ '=' :: '"' :: escape named.2 ++ ['"']

mutual

/-- The text of a tree. An element without children is closed in its own tag. -/
def write : Markup → List Char
  | .content text => escape text
  | .element name attributes children =>
    let opening := '<' :: name.toList ++ attributes.flatMap writeAttribute
    if children.isEmpty then opening ++ ['/', '>']
    else opening ++ '>' :: writeAll children ++ '<' :: '/' :: name.toList ++ ['>']

def writeAll : List Markup → List Char
  | [] => []
  | first :: rest => write first ++ writeAll rest

end

end Markup
end LayerTiming
