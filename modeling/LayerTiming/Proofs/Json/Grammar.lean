import LayerTiming.Json.Writer
import LayerTiming.Proofs.Json.Lexing
import LayerTiming.Proofs.Number.Texts

/-!
# The grammar of documents

The grammar of RFC 8259, apart from the reader. What is written of a document of proper numbers is a
document of the grammar.
-/
namespace LayerTiming.Json
open Text

namespace Grammar

def IsBlanks (text : List Char) : Prop := ∀ c ∈ text, c ∈ [' ', '\t', '\n', '\r']

def IsDigit (c : Char) : Prop := '0' ≤ c ∧ c ≤ '9'

def IsHexDigit (c : Char) : Prop := IsDigit c ∨ ('a' ≤ c ∧ c ≤ 'f') ∨ ('A' ≤ c ∧ c ≤ 'F')

def IsDigits (text : List Char) : Prop := text ≠ [] ∧ ∀ c ∈ text, IsDigit c

/-- Digits before the point: a zero, or digits that do not begin with one. -/
def IsInteger (text : List Char) : Prop :=
  text = ['0'] ∨ IsDigits text ∧ text.head? ≠ some '0'

def IsFraction (text : List Char) : Prop :=
  text = [] ∨ ∃ digits, text = '.' :: digits ∧ IsDigits digits

def IsExponent (text : List Char) : Prop :=
  text = [] ∨ ∃ mark sign digits, text = mark :: (sign ++ digits) ∧ (mark = 'e' ∨ mark = 'E') ∧
    (sign = [] ∨ sign = ['+'] ∨ sign = ['-']) ∧ IsDigits digits

def IsNumber (text : List Char) : Prop :=
  ∃ sign whole fraction exponent, text = sign ++ (whole ++ (fraction ++ exponent)) ∧
    (sign = [] ∨ sign = ['-']) ∧ IsInteger whole ∧ IsFraction fraction ∧ IsExponent exponent

/-- What stands between the quotes of a string. -/
inductive IsContent : List Char → Prop
  | nil : IsContent []
  | plain {c : Char} {rest : List Char} (unescaped : ' ' ≤ c ∧ c ≠ '"' ∧ c ≠ '\\')
    (behind : IsContent rest) : IsContent (c :: rest)
  | escape {c : Char} {rest : List Char} (known : c ∈ ['"', '\\', '/', 'b', 'f', 'n', 'r', 't'])
    (behind : IsContent rest) : IsContent ('\\' :: c :: rest)
  | code {digits rest : List Char} (four : digits.length = 4) (hex : ∀ c ∈ digits, IsHexDigit c)
    (behind : IsContent rest) : IsContent ('\\' :: 'u' :: (digits ++ rest))

def IsString (text : List Char) : Prop :=
  ∃ content, text = '"' :: (content ++ ['"']) ∧ IsContent content

mutual

inductive IsValue : List Char → Prop
  | null : IsValue "null".toList
  | true : IsValue "true".toList
  | false : IsValue "false".toList
  | number {text : List Char} (proper : IsNumber text) : IsValue text
  | string {text : List Char} (quoted : IsString text) : IsValue text
  | emptyArray {text : List Char} (blank : IsBlanks text) : IsValue ('[' :: (text ++ [']']))
  | array {text : List Char} (items : IsElements text) : IsValue ('[' :: (text ++ [']']))
  | emptyObject {text : List Char} (blank : IsBlanks text) :
    IsValue ('\x7b' :: (text ++ ['\x7d']))
  | object {text : List Char} (members : IsMembers text) : IsValue ('\x7b' :: (text ++ ['\x7d']))

/-- A value with blanks around it. -/
inductive IsElement : List Char → Prop
  | padded {before text behind : List Char} (blank : IsBlanks before) (value : IsValue text)
    (blank_behind : IsBlanks behind) : IsElement (before ++ (text ++ behind))

inductive IsElements : List Char → Prop
  | one {text : List Char} (element : IsElement text) : IsElements text
  | more {text rest : List Char} (element : IsElement text) (others : IsElements rest) :
    IsElements (text ++ ',' :: rest)

inductive IsMember : List Char → Prop
  | named {before key between text : List Char} (blank : IsBlanks before) (quoted : IsString key)
    (blank_between : IsBlanks between) (element : IsElement text) :
    IsMember (before ++ (key ++ (between ++ ':' :: text)))

inductive IsMembers : List Char → Prop
  | one {text : List Char} (member : IsMember text) : IsMembers text
  | more {text rest : List Char} (member : IsMember text) (others : IsMembers rest) :
    IsMembers (text ++ ',' :: rest)

end

/-- A document is one value with blanks around it. -/
def IsDocument (text : List Char) : Prop := IsElement text

theorem isDigit_iff {c : Char} : IsDigit c ↔ isAsciiDigit c = true := by
  simp [IsDigit, isAsciiDigit]

theorem isNumber_write {number : Scientific} (proper : number.IsProper) :
    IsNumber number.write := by
  have digits {text : List Char} (all : ∀ c ∈ text, isAsciiDigit c = true) :
      ∀ c ∈ text, IsDigit c := fun c member => isDigit_iff.mpr (all c member)
  have whole : IsInteger number.whole := by
    have all := digits proper.whole_digits
    have shape := proper.whole
    unfold Scientific.isWhole at shape
    split at shape
    · cases shape
    next alone => exact .inl alone
    · cases shape
    next some_digit only leading =>
      refine .inr ⟨⟨some_digit, all⟩, fun first => ?_⟩
      obtain ⟨rest, shape⟩ := List.head?_eq_some_iff.mp first
      exact leading rest shape
  have fraction : IsFraction (if number.fraction = [] then [] else '.' :: number.fraction) := by
    split
    · exact .inl rfl
    next some_digit => exact .inr ⟨_, rfl, some_digit, digits proper.fraction_digits⟩
  have exponent : IsExponent (Scientific.tailText number.exponent) := by
    cases number.exponent with
    | none => exact .inl rfl
    | some exponent =>
      have all := digits (isAsciiDigit_of_mem_numeral exponent.natAbs)
      refine .inr ⟨'e', [if exponent < 0 then '-' else '+'], _, rfl, .inl rfl, ?_,
        numeral_ne_nil _, all⟩
      split
      · exact .inr (.inr rfl)
      · exact .inr (.inl rfl)
  -- The parts of a number are written in the order in which the grammar has them.
  rw [Scientific.write_eq]
  cases number.negative with
  | true => exact ⟨['-'], _, _, _, rfl, .inr rfl, whole, fraction, exponent⟩
  | false => exact ⟨[], _, _, _, rfl, .inl rfl, whole, fraction, exponent⟩

theorem isContent_codeEscape {c : Char} (control : c < ' ') {rest : List Char}
    (behind : IsContent rest) : IsContent (codeEscape c ++ rest) := by
  have small : c.toNat < 32 := control
  have digits : ∀ n < 32, IsHexDigit (Nat.digitChar (n / 16)) ∧
      IsHexDigit (Nat.digitChar (n % 16)) := by
    unfold IsHexDigit IsDigit
    decide
  obtain ⟨high, low⟩ := digits c.toNat small
  have zero : IsHexDigit '0' := .inl ⟨by decide, by decide⟩
  have hex : ∀ d ∈ ['0', '0', Nat.digitChar (c.toNat / 16), Nat.digitChar (c.toNat % 16)],
      IsHexDigit d := by
    simp [zero, high, low]
  exact IsContent.code rfl hex behind

theorem isContent_escapeChar (c : Char) {rest : List Char} (behind : IsContent rest) :
    IsContent (escapeChar c ++ rest) := by
  unfold escapeChar
  iterate 7
    split
    · exact .escape (by decide) behind
  split
  next control => exact isContent_codeEscape control behind
  next quote slash _ _ _ _ _ plain => exact .plain ⟨Char.not_lt.mp plain, quote, slash⟩ behind

theorem isString_writeString (text : Option String) : IsString (writeString text) := by
  refine ⟨stringContent text, rfl, ?_⟩
  cases text with
  | none =>
    have zero : IsHexDigit '0' := .inl ⟨by decide, by decide⟩
    have eight : IsHexDigit '8' := .inl ⟨by decide, by decide⟩
    have letter : IsHexDigit 'd' := .inr (.inl ⟨by decide, by decide⟩)
    have hex : ∀ c ∈ ['d', '8', '0', '0'], IsHexDigit c := by
      simp [zero, eight, letter]
    exact IsContent.code rfl hex .nil
  | some text =>
    rw [stringContent]
    induction text.toList with
    | nil => exact .nil
    | cons c rest ih => exact isContent_escapeChar c ih

theorem isBlanks_newLine (depth : Nat) : IsBlanks (newLine depth) := by
  intro c member
  rcases List.mem_cons.mp member with rfl | blank
  · decide
  · rw [List.eq_of_mem_replicate blank]
    decide

theorem isBlanks_nil : IsBlanks [] := fun _ member => nomatch member

/-- An item on its line, with what follows it up to the next comma or the end. -/
theorem isElement_line {text behind : List Char} (depth : Nat) (value : IsValue text)
    (blank : IsBlanks behind) : IsElement (newLine depth ++ (text ++ behind)) :=
  .padded (isBlanks_newLine depth) value blank

theorem isElements_lines (depth outer : Nat) {item : Value} {items : List Value}
    (each : ∀ other ∈ item :: items, IsValue (other.writeAt depth)) :
    IsElements (newLine depth ++ (item.writeAt depth ++
      (Value.writeItems depth items ++ newLine outer))) := by
  induction items generalizing item with
  | nil =>
    -- The last item has the break in front of the bracket behind it.
    exact .one (isElement_line depth (each item List.mem_cons_self) (isBlanks_newLine outer))
  | cons next items ih =>
    have here := isElement_line depth (each item List.mem_cons_self) isBlanks_nil
    have others := ih fun other member => each other (List.mem_cons_of_mem item member)
    simpa [Value.writeItems] using IsElements.more here others

theorem isMember_line {text behind : List Char} (depth : Nat) (key : Option String)
    (value : IsValue text) (blank : IsBlanks behind) :
    IsMember (newLine depth ++ (writeString key ++ ':' :: ' ' :: (text ++ behind))) := by
  have front : IsBlanks [' '] := by
    intro c member
    rw [List.mem_singleton.mp member]
    decide
  exact @IsMember.named _ _ [] _ (isBlanks_newLine depth) (isString_writeString key) isBlanks_nil
    (.padded front value blank)

theorem isMembers_lines (depth outer : Nat) {key : Option String} {value : Value}
    {members : List (Option String × Value)}
    (each : ∀ other ∈ (key, value) :: members, IsValue (other.2.writeAt depth)) :
    IsMembers (newLine depth ++ (writeString key ++ ':' :: ' ' :: (value.writeAt depth ++
      (Value.writeMembers depth members ++ newLine outer)))) := by
  induction members generalizing key value with
  | nil =>
    exact .one (isMember_line depth key (each (key, value) List.mem_cons_self)
      (isBlanks_newLine outer))
  | cons next members ih =>
    have here := isMember_line depth key (each (key, value) List.mem_cons_self) isBlanks_nil
    have others := ih fun other inside => each other (List.mem_cons_of_mem _ inside)
    simpa [Value.writeMembers] using IsMembers.more here others

/-- The text of a document is a value of the grammar at every depth. -/
theorem isValue_writeAt {value : Value} (proper : value.IsProper) (depth : Nat) :
    IsValue (value.writeAt depth) := by
  induction proper generalizing depth with
  | null => exact .null
  | bool truth =>
    cases truth
    · exact .false
    · exact .true
  | number proper => exact .number (isNumber_write proper)
  | string text => exact .string (isString_writeString text)
  | @array items _ ih =>
    cases items with
    | nil => exact .emptyArray isBlanks_nil
    | cons item items =>
      simpa [Value.writeAt] using IsValue.array (isElements_lines (depth + 1) depth
        fun other member => ih other member (depth + 1))
  | @object members _ ih =>
    cases members with
    | nil => exact .emptyObject isBlanks_nil
    | cons member members =>
      simpa [Value.writeAt] using IsValue.object (isMembers_lines (depth + 1) depth
        fun other inside => ih other inside (depth + 1))

/-- What is written of a document is a document of the grammar. -/
theorem isDocument_write {value : Value} (proper : value.IsProper) : IsDocument value.write := by
  have padded := IsElement.padded isBlanks_nil (isValue_writeAt proper 0) isBlanks_nil
  rwa [List.nil_append, List.append_nil] at padded

end Grammar
end LayerTiming.Json
