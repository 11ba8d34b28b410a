import LayerTiming.Proofs.Number.Texts
import LayerTiming.Proofs.Text.Cutting
import LayerTiming.Toml.Reader

/-!
# Scalars read back

A truth value, an integer in base ten or a quoted text without escapes, written in front of anything
that ends a value, is read back, and reading stops right behind it.
-/
namespace LayerTiming.Toml
open Number Text

/-- An integer that can be written. -/
structure Integer where
  value : Int
  least : -(greatestInteger + 1 : Int) ≤ value
  greatest : value ≤ greatestInteger

def Integer.chars (n : Integer) : List Char := signed (n.value < 0) (numeral n.value.natAbs)

/-- A text in quotes of either kind that needs no escapes. -/
structure QuotedText where
  quote : Char
  chars : List Char
  kind : quote = '"' ∨ quote = '\x27'
  plain : ∀ c ∈ chars, isPrintable c = true ∧ c ≠ quote ∧ (quote = '"' → c ≠ '\\')

/-- A text in double quotes. -/
def QuotedText.ofString (text : String)
    (plain : text.toList.all (fun c => isPrintable c && c != '"' && c != '\\') = true) :
    QuotedText where
  quote := '"'
  chars := text.toList
  kind := .inl rfl
  plain := by
    intro c member
    have holds := List.all_eq_true.mp plain c member
    simp only [Bool.and_eq_true, bne_iff_ne] at holds
    exact ⟨holds.1.1, holds.1.2, fun _ => holds.2⟩

/-- A value of one word or one quoted text. -/
inductive Scalar
  | boolean (truth : Bool)
  | integer (n : Integer)
  | text (quoted : QuotedText)

namespace Scalar

def value : Scalar → Value
  | boolean truth => .boolean truth
  | integer n => .integer n.value
  | text quoted => .text (String.ofList quoted.chars)

def chars : Scalar → List Char
  | boolean true => "true".toList
  | boolean false => "false".toList
  | integer n => n.chars
  | text quoted => quoted.quote :: (quoted.chars ++ [quoted.quote])

end Scalar

/-- What may stand behind a value on its line. -/
def EndsValue (text : List Char) : Prop :=
  ∀ c ∈ text.head?, isBlank c = true ∨ c = '#' ∨ c = '\n'

theorem isBlank_iff {c : Char} : isBlank c = true ↔ c = ' ' ∨ c = '\t' := by
  simp [isBlank]

/-- A class of characters without the blanks. -/
theorem isBlank_eq_false {test : Char → Bool} (space : test ' ' = false) (tab : test '\t' = false)
    {c : Char} (inside : test c = true) : isBlank c = false := by
  rw [Bool.eq_false_iff]
  intro blank
  rcases isBlank_iff.mp blank with rfl | rfl
  · exact absurd inside (by rw [space]; decide)
  · exact absurd inside (by rw [tab]; decide)

theorem EndsValue.head {text : List Char} (ends : EndsValue text) {c : Char}
    (first : c ∈ text.head?) : c = ' ' ∨ c = '\t' ∨ c = '#' ∨ c = '\n' := by
  rcases ends c first with blank | other
  · exact (isBlank_iff.mp blank).imp_right .inl
  · exact .inr (.inr other)

/-! ## Words -/

theorem isScalarChar_of_isAsciiDigit {c : Char} (digit : isAsciiDigit c = true) :
    isScalarChar c = true := by
  simp [isScalarChar, digit]

theorem dropTime_of_afterDate? {word : List Char} (undated : afterDate? word = none)
    (text : List Char) : dropTime word text = text := by
  unfold dropTime
  rw [undated]

/-- A word that is no date is read up to its end, and nothing behind it is touched. -/
theorem readScalar?_word {word rest : List Char} {value : Value}
    (all : ∀ c ∈ word, isScalarChar c = true) (ends : EndsValue rest)
    (undated : afterDate? word = none) (worth : scalarOf? word = some value) :
    readScalar? (word ++ rest) = some (value, rest) := by
  have stops : ∀ c ∈ rest.head?, isScalarChar c = false := by
    intro c first
    rcases ends.head first with rfl | rfl | rfl | rfl <;> decide
  obtain ⟨taken, dropped⟩ := takeWhile_kind all stops
  unfold readScalar?
  dsimp only
  rw [taken, dropped, worth, Option.map_some, dropTime_of_afterDate? undated]

/-! ## Integers -/

theorem expect?_eq_none {c : Char} {text : List Char} (absent : c ∉ text) :
    expect? c text = none := by
  cases text with
  | nil => rfl
  | cons d rest => exact if_neg (List.ne_of_not_mem_cons absent)

theorem eq_drop_of_fixedDigits? {length n : Nat} {text rest : List Char}
    (found : fixedDigits? length text = some (n, rest)) : rest = text.drop length := by
  unfold fixedDigits? at found
  dsimp only at found
  split at found
  · cases found
    rfl
  · cases found

/-- A date has a hyphen behind the four digits of its year. -/
theorem afterDate?_eq_none {text : List Char} (absent : '-' ∉ text.drop 4) :
    afterDate? text = none := by
  unfold afterDate?
  cases found : fixedDigits? 4 text with
  | none => rfl
  | some year =>
    -- The digits are a year, but no hyphen can follow them.
    have rest : year.2 = text.drop 4 := eq_drop_of_fixedDigits? found
    simp [rest, expect?_eq_none absent]

theorem afterTime?_eq_none {text : List Char} (absent : ':' ∉ text.drop 2) :
    afterTime? text = none := by
  unfold afterTime? afterMinute?
  cases found : fixedDigits? 2 text with
  | none => rfl
  | some hour =>
    have rest : hour.2 = text.drop 2 := eq_drop_of_fixedDigits? found
    simp [rest, expect?_eq_none absent]

theorem digitsOf?_numeral (n : Nat) : digitsOf? isAsciiDigit (numeral n) = some (numeral n) := by
  have whole : pieces '_' (numeral n) = [numeral n] :=
    pieces_eq_singleton '_' _ (not_mem_numeral n '_' (by decide))
  have digits : (numeral n).all isAsciiDigit = true :=
    List.all_eq_true.mpr (isAsciiDigit_of_mem_numeral n)
  simp [digitsOf?, whole, digits, numeral_ne_nil]

theorem decimalDigits?_numeral (n : Nat) : decimalDigits? (numeral n) = some (numeral n) := by
  have unpadded : ¬((numeral n).head? = some '0' ∧ numeral n ≠ ['0']) := by
    rintro ⟨zero, more⟩
    rcases n.eq_zero_or_pos with rfl | positive
    · exact more rfl
    · obtain ⟨c, rest, shape, leading⟩ := head?_numeral positive
      rw [shape] at zero
      exact leading (Option.some.inj zero)
  simp only [decimalDigits?, digitsOf?_numeral, Option.bind_eq_bind, Option.bind_some,
    if_neg unpadded]

/-- A numeral begins with a digit, so that a sign in front of it is taken for its own. -/
theorem splitSign_signed (negative : Bool) (n : Nat) :
    splitSign (signed negative (numeral n)) = (negative, numeral n) := by
  cases negative with
  | true => rfl
  | false =>
    obtain ⟨c, rest, shape, digit⟩ := exists_numeral_eq_cons n
    simp only [signed, Bool.false_eq_true, if_false, shape]
    unfold splitSign
    -- The first character would have to be a sign and a digit.
    split
    · next same =>
      cases same
      exact absurd digit (by decide)
    · next same =>
      cases same
      exact absurd digit (by decide)
    · rfl

/-- Without a point and an exponent a numeral is no float. -/
theorem isDigitFloat_numeral (negative : Bool) (n : Nat) :
    isDigitFloat negative (numeral n) = false := by
  have unmarked : ∀ c ∈ numeral n, (!(c == 'e' || c == 'E')) = true := by
    intro c member
    have digit := isAsciiDigit_of_mem_numeral n c member
    have small : c ≠ 'e' := ne_of_apply_ne isAsciiDigit (by rw [digit]; decide)
    have capital : c ≠ 'E' := ne_of_apply_ne isAsciiDigit (by rw [digit]; decide)
    simp [small, capital]
  have whole : pieces '.' (numeral n) = [numeral n] :=
    pieces_eq_singleton '.' _ (not_mem_numeral n '.' (by decide))
  -- The whole numeral is the mantissa, and neither a point nor a mark is left.
  unfold isDigitFloat
  dsimp only
  rw [List.takeWhile_eq_self_iff.mpr unmarked, List.dropWhile_eq_nil_iff.mpr unmarked, whole]
  simp [floatExponent?, decimalDigits?_numeral]

theorem ne_cons_of_not_mem {first : Char} {text : List Char} (absent : first ∉ text)
    (others : List Char) : text ≠ first :: others := by
  intro same
  exact absent (same ▸ List.mem_cons_self)

theorem isFloat_signed (negative : Bool) (n : Nat) :
    isFloat (signed negative (numeral n)) = false := by
  have infinite : numeral n ≠ "inf".toList :=
    ne_cons_of_not_mem (not_mem_numeral n 'i' (by decide)) _
  have undefined : numeral n ≠ "nan".toList :=
    ne_cons_of_not_mem (not_mem_numeral n 'n' (by decide)) _
  unfold isFloat
  rw [splitSign_signed]
  simp only [infinite, undefined, isDigitFloat_numeral, decide_false, Bool.or_false]

namespace Integer
variable (n : Integer)

theorem chars_ne_nil : n.chars ≠ [] := signed_ne_nil _ (numeral_ne_nil _)

theorem mem_chars {c : Char} (member : c ∈ n.chars) : c = '-' ∨ isAsciiDigit c = true :=
  (mem_signed member).imp_right (isAsciiDigit_of_mem_numeral _ c)

theorem not_mem_chars {c : Char} (unsigned : c ≠ '-') (no_digit : isAsciiDigit c = false) :
    c ∉ n.chars := by
  intro member
  rcases n.mem_chars member with sign | digit
  · exact unsigned sign
  · exact absurd digit (by rw [no_digit]; decide)

/-- The sign stands in front, or nowhere. -/
theorem sign_not_mem_tail : '-' ∉ n.chars.tail := by
  have absent : '-' ∉ numeral n.value.natAbs := not_mem_numeral _ '-' (by decide)
  unfold chars signed
  split
  · exact absent
  · exact fun member => absent (List.mem_of_mem_tail member)

theorem afterDate?_chars : afterDate? n.chars = none := by
  refine afterDate?_eq_none fun member => n.sign_not_mem_tail ?_
  rw [← List.drop_one]
  exact (List.drop_sublist_drop_left _ (by decide)).mem member

theorem isMoment_chars : isMoment n.chars = false := by
  have timeless : afterTime? n.chars = none :=
    afterTime?_eq_none fun member =>
      n.not_mem_chars (by decide) (by decide) (List.mem_of_mem_drop member)
  unfold isMoment
  rw [n.afterDate?_chars, timeless]
  rfl

theorem decimalInteger?_chars : decimalInteger? n.chars = some n.value := by
  obtain ⟨value, least, greatest⟩ := n
  unfold decimalInteger? chars
  rw [splitSign_signed]
  simp only [decimalDigits?_numeral, Option.bind_eq_bind, Option.bind_some, digitsValue_numeral]
  -- A negative integer may be one greater in magnitude.
  by_cases negative : value < 0
  · have small : value.natAbs ≤ greatestInteger + 1 := by omega
    have sum : -(value.natAbs : Int) = value := by omega
    simp only [decide_eq_true negative, if_true, if_pos small, sum]
  · have small : value.natAbs ≤ greatestInteger := by omega
    have same : (value.natAbs : Int) = value := by omega
    simp only [decide_eq_false negative, Bool.false_eq_true, if_false, if_pos small, same]

/-- An integer in base ten has no letter that names another base. -/
theorem integer?_chars : integer? n.chars = some n.value := by
  have letter {first c : Char} {rest : List Char} (no_sign : c ≠ '-')
      (no_digit : isAsciiDigit c = false) : n.chars ≠ first :: c :: rest := by
    intro same
    refine n.not_mem_chars no_sign no_digit ?_
    rw [same]
    exact List.mem_cons_of_mem first List.mem_cons_self
  rw [← n.decimalInteger?_chars]
  unfold integer?
  split
  · next same => exact absurd same (letter (by decide) (by decide))
  · next same => exact absurd same (letter (by decide) (by decide))
  · next same => exact absurd same (letter (by decide) (by decide))
  · rfl

theorem scalarOf?_chars : scalarOf? n.chars = some (.integer n.value) := by
  have not_true : n.chars ≠ "true".toList :=
    ne_cons_of_not_mem (n.not_mem_chars (by decide) (by decide)) _
  have not_false : n.chars ≠ "false".toList :=
    ne_cons_of_not_mem (n.not_mem_chars (by decide) (by decide)) _
  have not_float : isFloat n.chars = false := isFloat_signed _ _
  simp only [scalarOf?, if_neg not_true, if_neg not_false, n.isMoment_chars, not_float,
    Bool.false_eq_true, if_false, n.integer?_chars, Option.map_some]

theorem isScalarChar_of_mem_chars {c : Char} (member : c ∈ n.chars) : isScalarChar c = true := by
  rcases n.mem_chars member with rfl | digit
  · decide
  · exact isScalarChar_of_isAsciiDigit digit

end Integer

/-! ## Quoted texts -/

/-- A quoted text ends at the first quote, if nothing in it is escaped. -/
theorem upToQuote_plain {quote : Char} {escapes : Bool} {body : List Char}
    (plain : ∀ c ∈ body, c ≠ quote ∧ (escapes = true → c ≠ '\\')) (rest : List Char) :
    upToQuote quote escapes (body ++ quote :: rest) = some (body, rest) := by
  induction body with
  | nil =>
    unfold upToQuote
    exact if_pos rfl
  | cons c body ih =>
    obtain ⟨unquoted, unescaped⟩ := plain c List.mem_cons_self
    have ordinary : ¬(escapes && c == '\\') = true := by
      simpa using unescaped
    rw [List.cons_append]
    unfold upToQuote
    rw [if_neg unquoted, if_neg ordinary,
      ih fun d member => plain d (List.mem_cons_of_mem c member)]
    rfl

theorem run?_plain {text : List Char} (plain : ∀ c ∈ text, isPrintable c = true ∧ c ≠ '\\') :
    EscapeState.run? false .plain text = some text := by
  induction text with
  | nil => rfl
  | cons c rest ih =>
    obtain ⟨printable, unescaped⟩ := plain c List.mem_cons_self
    simp [EscapeState.run?, EscapeState.step?, EscapeState.plainStep?, unescaped, printable,
      ih fun d member => plain d (List.mem_cons_of_mem c member)]

namespace QuotedText
variable (quoted : QuotedText)

theorem contentOf?_chars : contentOf? quoted.quote false quoted.chars = some quoted.chars := by
  unfold contentOf?
  split
  · next double =>
    refine run?_plain fun c member => ?_
    obtain ⟨printable, _, unescaped⟩ := quoted.plain c member
    exact ⟨printable, unescaped double⟩
  · refine if_pos (List.all_eq_true.mpr fun c member => ?_)
    simp [(quoted.plain c member).1]

theorem readQuoted?_chars (rest : List Char) :
    readQuoted? (quoted.quote :: (quoted.chars ++ quoted.quote :: rest)) =
      some (String.ofList quoted.chars, rest) := by
  have found : upToQuote quoted.quote (quoted.quote == '"') (quoted.chars ++ quoted.quote :: rest) =
      some (quoted.chars, rest) := by
    refine upToQuote_plain (fun c member => ?_) rest
    obtain ⟨_, unquoted, unescaped⟩ := quoted.plain c member
    exact ⟨unquoted, fun double => unescaped (by simpa using double)⟩
  simp only [readQuoted?, if_pos quoted.kind, found, Option.bind_eq_bind, Option.bind_some,
    quoted.contentOf?_chars]
  rfl

/-- A quoted text is not taken for one in tripled quotes, even if it is empty. -/
theorem readText?_chars {rest : List Char} (ends : EndsValue rest) :
    readText? (quoted.quote :: (quoted.chars ++ quoted.quote :: rest)) =
      some (String.ofList quoted.chars, rest) := by
  rw [← quoted.readQuoted?_chars rest]
  unfold readText?
  split
  next a b c others same =>
    have single : ¬((a = '"' ∨ a = '\x27') ∧ a = b ∧ b = c) := by
      rintro ⟨_, rfl, rfl⟩
      obtain ⟨rfl, behind⟩ := List.cons.inj same
      cases shape : quoted.chars with
      | nil =>
        -- The third quote would have to stand behind the value.
        rw [shape] at behind
        cases (List.cons.inj behind).2
        have other := ends.head rfl
        rcases quoted.kind with double | simple
        · rw [double] at other
          exact absurd other (by decide)
        · rw [simple] at other
          exact absurd other (by decide)
      | cons c body =>
        -- The second quote would have to be the first character of the text.
        rw [shape] at behind
        have first : c ∈ quoted.chars := shape ▸ List.mem_cons_self
        exact (quoted.plain c first).2.1 (List.cons.inj behind).1
    rw [if_neg single, same]
  · rfl

end QuotedText

/-! ## Values -/

/-- A value that does not begin with a bracket or a brace is a quoted text or a word. -/
theorem readValue?_eq (depth : Nat) {text : List Char} (no_array : text.head? ≠ some '[')
    (no_table : text.head? ≠ some '\x7b') :
    readValue? depth text =
      if text.head? = some '"' ∨ text.head? = some '\x27' then
        (readText? text).map fun found => (.text found.1, found.2)
      else readScalar? text := by
  unfold readValue?
  split
  · exact absurd rfl no_array
  · exact absurd rfl no_table
  · rfl

theorem readValue?_word {word rest : List Char} {value : Value} (some_char : word ≠ [])
    (all : ∀ c ∈ word, isScalarChar c = true) (ends : EndsValue rest)
    (undated : afterDate? word = none) (worth : scalarOf? word = some value) (depth : Nat) :
    readValue? depth (word ++ rest) = some (value, rest) := by
  have head {c : Char} (other : isScalarChar c = false) : (word ++ rest).head? ≠ some c := by
    obtain ⟨first, others, rfl⟩ := List.exists_cons_of_ne_nil some_char
    intro same
    rw [← Option.some.inj same, all first List.mem_cons_self] at other
    cases other
  have unquoted : ¬((word ++ rest).head? = some '"' ∨ (word ++ rest).head? = some '\x27') :=
    not_or.mpr ⟨head (by decide), head (by decide)⟩
  rw [readValue?_eq depth (head (by decide)) (head (by decide)), if_neg unquoted,
    readScalar?_word all ends undated worth]

theorem QuotedText.readValue?_chars (quoted : QuotedText) {rest : List Char}
    (ends : EndsValue rest) (depth : Nat) :
    readValue? depth (quoted.quote :: (quoted.chars ++ quoted.quote :: rest)) =
      some (.text (String.ofList quoted.chars), rest) := by
  have read := quoted.readText?_chars ends
  have head : (quoted.quote :: (quoted.chars ++ quoted.quote :: rest)).head? = some '"' ∨
      (quoted.quote :: (quoted.chars ++ quoted.quote :: rest)).head? = some '\x27' :=
    quoted.kind.imp (congrArg some) (congrArg some)
  generalize quoted.quote :: (quoted.chars ++ quoted.quote :: rest) = text at read head ⊢
  have no_bracket : text.head? ≠ some '[' := by
    rcases head with head | head <;> simp [head]
  have no_brace : text.head? ≠ some '\x7b' := by
    rcases head with head | head <;> simp [head]
  rw [readValue?_eq depth no_bracket no_brace, if_pos head, read, Option.map_some]

theorem Scalar.isBlank_head (scalar : Scalar) {rest : List Char} {c : Char}
    (first : c ∈ (scalar.chars ++ rest).head?) : isBlank c = false := by
  cases scalar with
  | boolean truth => cases truth <;> (cases first; decide)
  | integer n =>
    obtain ⟨d, others, shape⟩ := List.exists_cons_of_ne_nil n.chars_ne_nil
    simp only [chars, shape, List.cons_append, List.head?_cons, Option.mem_some_iff] at first
    refine isBlank_eq_false (by decide) (by decide) (n.isScalarChar_of_mem_chars ?_)
    rw [shape, ← first]
    exact List.mem_cons_self
  | text quoted =>
    cases first
    rcases quoted.kind with kind | kind <;> (rw [kind]; decide)

/-- A scalar is read back in front of anything that ends a value. -/
theorem Scalar.readValue?_chars (scalar : Scalar) {rest : List Char} (ends : EndsValue rest)
    (depth : Nat) : readValue? depth (scalar.chars ++ rest) = some (scalar.value, rest) := by
  cases scalar with
  | boolean truth =>
    cases truth with
    | true => exact readValue?_word (by decide) (List.all_eq_true.mp rfl) ends rfl rfl depth
    | false => exact readValue?_word (by decide) (List.all_eq_true.mp rfl) ends rfl rfl depth
  | integer n =>
    exact readValue?_word n.chars_ne_nil (fun c => n.isScalarChar_of_mem_chars) ends
      n.afterDate?_chars n.scalarOf?_chars depth
  | text quoted =>
    have shape : (text quoted).chars ++ rest =
        quoted.quote :: (quoted.chars ++ quoted.quote :: rest) := by
      simp [chars]
    rw [shape]
    exact quoted.readValue?_chars ends depth

end LayerTiming.Toml
