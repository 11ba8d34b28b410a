import LayerTiming.Proofs.Json.Parsing

/-!
# Lexemes and the blanks between them

A text is read as tokens if and only if it is made of lexemes with blanks between them, each of which
is read as a token on its own. Which blanks these are, and how many, does not matter.
-/
namespace LayerTiming.Json
open Text

/-- What stands between the quotes of a string. A backslash takes the character behind it along. -/
inductive IsQuoted : List Char → Prop
  | nil : IsQuoted []
  | plain {c : Char} {rest : List Char} (unescaped : c ≠ '"' ∧ c ≠ '\\') (behind : IsQuoted rest) :
    IsQuoted (c :: rest)
  | escape {c : Char} {rest : List Char} (behind : IsQuoted rest) : IsQuoted ('\\' :: c :: rest)

/-- The text of a token, with the characters that would go on with it. -/
inductive IsLexeme : List Char → (Char → Bool) → Prop
  | punctuation {c : Char} (known : c ∈ ['[', ']', '\x7b', '\x7d', ',', ':']) :
    IsLexeme [c] fun _ => false
  | word {c : Char} {letters : List Char} (first : isLetter c = true)
    (others : ∀ d ∈ letters, isLetter d = true) : IsLexeme (c :: letters) isLetter
  | number {c : Char} {chars : List Char} (first : isAsciiDigit c = true ∨ c = '-')
    (others : ∀ d ∈ chars, isNumberChar d = true) : IsLexeme (c :: chars) isNumberChar
  | string {content : List Char} (quoted : IsQuoted content) :
    IsLexeme ('"' :: (content ++ ['"'])) fun _ => false

/-- Lexemes with blanks between and around them. There may be none where the text behind a lexeme
does not go on with it. -/
inductive Spaced : List (List Char) → List Char → Prop
  | nil : Spaced [] []
  | blank {lexemes : List (List Char)} {c : Char} {text : List Char} (blank : isBlank c = true)
    (behind : Spaced lexemes text) : Spaced lexemes (c :: text)
  | lexeme {lexemes : List (List Char)} {word text : List Char} {goesOn : Char → Bool}
    (lexeme : IsLexeme word goesOn) (apart : ∀ c ∈ text.head?, goesOn c = false)
    (behind : Spaced lexemes text) : Spaced (word :: lexemes) (word ++ text)

/-- The token that a text alone is read as. -/
def Token.ofText? (text : List Char) : Option Token := (tokens? (text.map some)).bind List.head?

/-- Lexemes with blanks between them that are the tokens of a document, one by one. -/
def Spells (text : List Char) (document : Value) : Prop :=
  ∃ lexemes, Spaced lexemes text ∧ lexemes.mapM Token.ofText? = some document.tokens

namespace LexState

variable {state : LexState} {rest : List (Option Char)}

/-- A word or a number that does not go on is read as it is alone, if it is read at all. -/
theorem run?_ends {goesOn : Char → Bool} {token : Option Token}
    (finished : finish? state = token.map ([·]))
    (before : ∀ c, goesOn c = false → step? state (some c) = endBefore? token c)
    (apart : ∀ found ∈ rest.head?, ∃ c, found = some c ∧ goesOn c = false) :
    run? state rest = token.bind fun found => (run? .between rest).map (found :: ·) := by
  cases rest with
  | nil =>
    rw [run?, finished]
    cases token <;> rfl
  | cons found rest =>
    obtain ⟨c, rfl, ended⟩ := apart found rfl
    rw [run?_eq, run?_eq, before c ended, step?, endBefore?]
    cases token with
    | none => rfl
    | some token =>
      cases start? c with
      | none => rfl
      | some begun => cases ran : run? begun.2 rest <;> simp [ran]

theorem start?_letter {c : Char} (letter : isLetter c = true) :
    step? .between (some c) = some ([], .inWord [c]) := by
  have range : 'a' ≤ c ∧ c ≤ 'z' := by simpa [isLetter] using letter
  have no_blank : isBlank c = false := by
    simp only [isBlank, Bool.or_eq_false_iff, beq_eq_false_iff_ne]
    refine ⟨⟨⟨?_, ?_⟩, ?_⟩, ?_⟩ <;> rintro rfl <;> cases letter
  have no_quote : c ≠ '"' := by
    rintro rfl
    cases letter
  have no_digit : ¬ (isAsciiDigit c = true ∨ c = '-') := by
    rintro (digit | rfl)
    · have above : 'a' ≤ '9' := by
        simp only [isAsciiDigit, Bool.and_eq_true, decide_eq_true_eq] at digit
        exact Char.le_trans range.1 digit.2
      revert above
      decide
    · cases letter
  simp [step?, start?, no_blank, no_quote, no_digit, letter]

/-- Inside of a string, and not right behind a backslash. -/
def IsQuoting : LexState → Prop
  | .inString _ => True
  | .inCode .. => True
  | _ => False

/-- Where a character neither ends a string nor begins an escape, the string goes on. -/
theorem step?_quoting {c : Char} (quoting : IsQuoting state) (unescaped : c ≠ '"' ∧ c ≠ '\\') :
    step? state (some c) = none ∨
      ∃ next, IsQuoting next ∧ step? state (some c) = some ([], next) := by
  cases state with
  | inString units =>
    by_cases control : c < ' '
    · exact .inl (by simp [step?, unescaped, control])
    · exact .inr ⟨.inString (.char c :: units), trivial, by simp [step?, unescaped, control]⟩
  | inCode units owed code =>
    cases digit : hexDigit? c with
    | none => exact .inl (by simp [step?, digit])
    | some n =>
      by_cases last : owed ≤ 1
      · exact .inr ⟨.inString (.ofCode (code * 16 + n) :: units), trivial,
          by simp [step?, digit, last]⟩
      · exact .inr ⟨.inCode units (owed - 1) (code * 16 + n), trivial, by simp [step?, digit, last]⟩
  | between => cases quoting
  | inWord letters => cases quoting
  | inNumber chars => cases quoting
  | inEscape units => cases quoting

/-- An escape of two characters leads from a string into the string again. -/
theorem step?_escape (units : List StringUnit) (c : Char) :
    step? (.inEscape units) (some c) = none ∨
      ∃ next, IsQuoting next ∧ step? (.inEscape units) (some c) = some ([], next) := by
  by_cases by_code : c = 'u'
  · exact .inr ⟨.inCode units 4 0, trivial, by simp [step?, by_code]⟩
  · cases known : escaped? c with
    | none => exact .inl (by simp [step?, by_code, known])
    | some plain =>
      exact .inr ⟨.inString (.char plain :: units), trivial, by simp [step?, by_code, known]⟩

theorem run?_stuck {c : Char} (stuck : step? state (some c) = none) :
    run? state (some c :: rest) = none := by
  rw [run?_eq, stuck, Option.bind_none]

/-- A quoted text closes its string, or is not read whatever follows. -/
theorem run?_quoted {content : List Char} (quoted : IsQuoted content) (quoting : IsQuoting state) :
    ∃ token : Option Token, ∀ rest, run? state ((content ++ ['"']).map some ++ rest) =
      token.bind fun found => (run? .between rest).map (found :: ·) := by
  -- By induction on the quoted text. Inside an escape by code neither quote nor slash is taken.
  induction quoted generalizing state with
  | nil =>
    cases state with
    | inString units =>
      have closed : step? (.inString units) (some '"') = some ([.ofUnits units.reverse], .between) :=
        rfl
      exact ⟨some (.ofUnits units.reverse), fun rest => run?_cons closed⟩
    | inCode units owed code => exact ⟨none, fun rest => run?_stuck rfl⟩
    | between => cases quoting
    | inWord letters => cases quoting
    | inNumber chars => cases quoting
    | inEscape units => cases quoting
  | plain unescaped _ ih =>
    rcases step?_quoting quoting unescaped with stuck | ⟨next, goes_on, stepped⟩
    · exact ⟨none, fun rest => run?_stuck stuck⟩
    · obtain ⟨token, found⟩ := ih goes_on
      exact ⟨token, fun rest => (run?_silent stepped).trans (found rest)⟩
  | @escape c content _ ih =>
    cases state with
    | inString units =>
      have slash : step? (.inString units) (some '\\') = some ([], .inEscape units) := rfl
      rcases step?_escape units c with stuck | ⟨next, goes_on, stepped⟩
      · exact ⟨none, fun rest => (run?_silent slash).trans (run?_stuck stuck)⟩
      · obtain ⟨token, found⟩ := ih goes_on
        exact ⟨token, fun rest =>
          (run?_silent slash).trans ((run?_silent stepped).trans (found rest))⟩
    | inCode units owed code => exact ⟨none, fun rest => run?_stuck rfl⟩
    | between => cases quoting
    | inWord letters => cases quoting
    | inNumber chars => cases quoting
    | inEscape units => cases quoting

theorem step?_punctuation {c : Char} (known : c ∈ ['[', ']', '\x7b', '\x7d', ',', ':']) :
    ∃ token, step? .between (some c) = some ([token], .between) := by
  simp only [List.mem_cons, List.not_mem_nil, or_false] at known
  rcases known with rfl | rfl | rfl | rfl | rfl | rfl <;> exact ⟨_, rfl⟩

/-- A lexeme is one token or none, whatever stands behind it. -/
theorem run?_lexeme {word : List Char} {goesOn : Char → Bool} (lexeme : IsLexeme word goesOn) :
    ∃ token : Option Token, ∀ rest : List (Option Char),
      (∀ found ∈ rest.head?, ∃ c, found = some c ∧ goesOn c = false) →
      run? .between (word.map some ++ rest) =
        token.bind fun found => (run? .between rest).map (found :: ·) := by
  -- A bracket or a string ends by itself, a word or a number at what cannot go on with it.
  cases lexeme with
  | punctuation known =>
    obtain ⟨token, stepped⟩ := step?_punctuation known
    exact ⟨some token, fun rest _ => run?_cons stepped⟩
  | @word c letters first others =>
    refine ⟨Token.ofWord? (c :: letters), fun rest apart => ?_⟩
    have whole : (letters.reverse ++ [c]).reverse = c :: letters := by simp
    rw [List.map_cons, List.cons_append, run?_silent (start?_letter first),
      run?_push inWord letters [c] rest fun d member raw => by simp [step?, others d member]]
    refine run?_ends ?_ (fun d ended => ?_) apart
    · rw [finish?, whole]
    · rw [step?, whole, if_neg (by simp [ended])]
  | @number c chars first others =>
    refine ⟨(Scientific.read? (c :: chars)).map .number, fun rest apart => ?_⟩
    have whole : (chars.reverse ++ [c]).reverse = c :: chars := by simp
    rw [List.map_cons, List.cons_append, run?_silent (step?_number first),
      run?_push inNumber chars [c] rest fun d member raw => by simp [step?, others d member]]
    refine run?_ends ?_ (fun d ended => ?_) apart
    · rw [finish?, whole, Option.map_map]
      rfl
    · rw [step?, whole, if_neg (by simp [ended])]
  | string quoted =>
    have begun : step? .between (some '"') = some ([], .inString []) := rfl
    have opened : IsQuoting (.inString []) := trivial
    obtain ⟨token, found⟩ := run?_quoted quoted opened
    exact ⟨token, fun rest _ => (run?_silent begun).trans (found rest)⟩

/-- Blanks between lexemes leave nothing. -/
theorem tokens?_of_spaced {lexemes : List (List Char)} {text : List Char}
    (spaced : Spaced lexemes text) : tokens? (text.map some) = lexemes.mapM Token.ofText? := by
  induction spaced with
  | nil => rfl
  | @blank lexemes c text blank _ ih =>
    have silent : step? .between (some c) = some ([], .between) := by simp [step?, start?, blank]
    rw [← ih]
    exact run?_silent silent
  | @lexeme lexemes word text goesOn lexeme apart _ ih =>
    obtain ⟨token, found⟩ := run?_lexeme lexeme
    have alone := found [] (by simp)
    have here : Token.ofText? word = token := by
      rw [List.append_nil] at alone
      rw [Token.ofText?, tokens?, alone]
      cases token <;> rfl
    have followed := found (text.map some) fun next first => by
      rw [List.head?_map] at first
      obtain ⟨c, here, rfl⟩ := Option.map_eq_some_iff.mp (Option.mem_def.mp first)
      exact ⟨c, rfl, apart c here⟩
    rw [List.map_append, tokens?, followed, List.mapM_cons, here, ← ih, tokens?]
    cases token with
    | none => rfl
    | some token => cases run? .between (text.map some) <;> rfl

/-- A string that is read to its end has an end. -/
theorem exists_quoted {text : List Char} (quoting : IsQuoting state)
    (lexed : (run? state (text.map some)).isSome = true) :
    ∃ content behind, text = content ++ '"' :: behind ∧ IsQuoted content := by
  -- An escape takes two characters, so the induction is on the length.
  induction size : text.length using Nat.strongRecOn generalizing text state with
  | ind n ih =>
    cases text with
    | nil =>
      cases state with
      | inString units => cases lexed
      | inCode units owed code => cases lexed
      | between => cases quoting
      | inWord letters => cases quoting
      | inNumber chars => cases quoting
      | inEscape units => cases quoting
    | cons c text =>
      have shorter : text.length < n := by
        rw [← size, List.length_cons]
        omega
      by_cases quote : c = '"'
      · exact ⟨[], text, by rw [quote]; rfl, .nil⟩
      by_cases slash : c = '\\'
      · subst slash
        cases state with
        | inString units =>
          have escape : step? (.inString units) (some '\\') = some ([], .inEscape units) := rfl
          rw [List.map_cons, run?_silent escape] at lexed
          cases text with
          | nil => cases lexed
          | cons d text =>
            rcases step?_escape units d with stuck | ⟨next, goes_on, stepped⟩
            · rw [List.map_cons, run?_stuck stuck] at lexed
              cases lexed
            · rw [List.map_cons, run?_silent stepped] at lexed
              have least : text.length < n := Nat.lt_of_succ_lt shorter
              obtain ⟨content, behind, rfl, quoted⟩ := ih _ least goes_on lexed rfl
              exact ⟨'\\' :: d :: content, behind, rfl, .escape quoted⟩
        | inCode units owed code =>
          rw [List.map_cons, run?_stuck rfl] at lexed
          cases lexed
        | between => cases quoting
        | inWord letters => cases quoting
        | inNumber chars => cases quoting
        | inEscape units => cases quoting
      rcases step?_quoting quoting ⟨quote, slash⟩ with stuck | ⟨next, goes_on, stepped⟩
      · rw [List.map_cons, run?_stuck stuck] at lexed
        cases lexed
      · rw [List.map_cons, run?_silent stepped] at lexed
        obtain ⟨content, behind, rfl, quoted⟩ := ih _ shorter goes_on lexed rfl
        exact ⟨c :: content, behind, rfl, .plain ⟨quote, slash⟩ quoted⟩

/-- The lexeme that a text begins with, unless it begins with a blank. -/
theorem exists_lexeme {c : Char} {text : List Char} (no_blank : isBlank c = false)
    (lexed : (tokens? ((c :: text).map some)).isSome = true) :
    ∃ word behind goesOn, c :: text = word ++ behind ∧ IsLexeme word goesOn ∧
      (∀ d ∈ behind.head?, goesOn d = false) ∧ behind.length ≤ text.length := by
  -- The first character tells which lexeme it is, and the lexeme goes as far as it can.
  have stop (test : Char → Bool) : ∀ d ∈ (text.dropWhile test).head?, test d = false := by
    intro d first
    have failed := List.head?_dropWhile_not test text
    rw [Option.mem_def.mp first] at failed
    simpa using failed
  by_cases quote : c = '"'
  · subst quote
    have begun : step? .between (some '"') = some ([], .inString []) := rfl
    rw [tokens?, List.map_cons, run?_silent begun] at lexed
    have opened : IsQuoting (.inString []) := trivial
    obtain ⟨content, behind, rfl, quoted⟩ := exists_quoted opened lexed
    refine ⟨_, behind, _, ?_, .string quoted, fun _ _ => rfl, ?_⟩
    · simp
    · simp only [List.length_append, List.length_cons]
      omega
  by_cases first : isAsciiDigit c = true ∨ c = '-'
  · refine ⟨c :: text.takeWhile isNumberChar, text.dropWhile isNumberChar, isNumberChar, ?_,
      .number first fun d member => List.mem_takeWhile_imp member, stop _,
      List.length_dropWhile_le _ _⟩
    rw [List.cons_append, List.takeWhile_append_dropWhile]
  by_cases letter : isLetter c = true
  · refine ⟨c :: text.takeWhile isLetter, text.dropWhile isLetter, isLetter, ?_,
      .word letter fun d member => List.mem_takeWhile_imp member, stop _,
      List.length_dropWhile_le _ _⟩
    rw [List.cons_append, List.takeWhile_append_dropWhile]
  · refine ⟨[c], text, _, rfl, .punctuation ?_, fun _ _ => rfl, Nat.le_refl _⟩
    by_contra unknown
    simp only [List.mem_cons, List.not_mem_nil, or_false, not_or] at unknown
    have stuck : step? .between (some c) = none := by
      simp [step?, start?, no_blank, quote, first, letter, punctuation?, unknown]
    rw [tokens?, List.map_cons, run?_stuck stuck] at lexed
    cases lexed

/-- Whatever is read as tokens is made of lexemes. -/
theorem exists_spaced {text : List Char} (lexed : (tokens? (text.map some)).isSome = true) :
    ∃ lexemes, Spaced lexemes text := by
  -- A lexeme may take many characters, so the induction is on the length.
  induction size : text.length using Nat.strongRecOn generalizing text with
  | ind n ih =>
    cases text with
    | nil => exact ⟨[], .nil⟩
    | cons c text =>
      rw [List.length_cons] at size
      by_cases blank : isBlank c = true
      · have silent : step? .between (some c) = some ([], .between) := by
          simp [step?, start?, blank]
        rw [tokens?, List.map_cons, run?_silent silent] at lexed
        obtain ⟨lexemes, spaced⟩ := ih text.length (by omega) lexed rfl
        exact ⟨lexemes, .blank blank spaced⟩
      · obtain ⟨word, behind, goesOn, shape, lexeme, apart, shorter⟩ :=
          exists_lexeme (Bool.eq_false_iff.mpr blank) lexed
        obtain ⟨token, found⟩ := run?_lexeme lexeme
        have followed := found (behind.map some) fun next first => by
          rw [List.head?_map] at first
          obtain ⟨d, here, rfl⟩ := Option.map_eq_some_iff.mp (Option.mem_def.mp first)
          exact ⟨d, rfl, apart d here⟩
        rw [shape, List.map_append, tokens?, followed] at lexed
        have rest_lexed : (tokens? (behind.map some)).isSome = true := by
          cases token with
          | none => cases lexed
          | some token => simpa [tokens?] using lexed
        obtain ⟨lexemes, spaced⟩ := ih behind.length (by omega) rest_lexed rfl
        exact ⟨word :: lexemes, shape ▸ .lexeme lexeme apart spaced⟩

/-- What is left of a text behind its front is read from where the front leads. -/
theorem run?_front {front : List (Option Char)} {tokens : List Token}
    (ran : run? state front = some tokens) :
    ∃ last fed ending, finish? last = some ending ∧ tokens = fed ++ ending ∧
      ∀ back, run? state (front ++ back) = (run? last back).map (fed ++ ·) := by
  induction front generalizing state tokens with
  | nil => exact ⟨state, [], tokens, ran, rfl, fun back => Option.map_id'.symm⟩
  | cons c front ih =>
    rw [run?_eq] at ran
    obtain ⟨⟨found, next⟩, stepped, behind⟩ := Option.bind_eq_some_iff.mp ran
    obtain ⟨others, found_behind, rfl⟩ := Option.map_eq_some_iff.mp behind
    obtain ⟨last, fed, ending, finished, rfl, later⟩ := ih found_behind
    refine ⟨last, found ++ fed, ending, finished, (List.append_assoc ..).symm, fun back => ?_⟩
    rw [List.cons_append, run?_cons stepped, later, Option.map_map]
    simp only [Function.comp_def, List.append_assoc]

theorem finish?_between {token : Token} {last : LexState} {fed ending : List Token}
    (finished : finish? last = some ending) (closing : token = .closeArray ∨ token = .closeObject)
    (end_token : (fed ++ ending).getLast? = some token) : last = .between := by
  cases last with
  | between => rfl
  | inWord letters =>
    obtain ⟨found, word, rfl⟩ := Option.map_eq_some_iff.mp finished
    rw [List.getLast?_concat] at end_token
    cases end_token
    unfold Token.ofWord? at word
    split_ifs at word <;> cases word <;> rcases closing with closing | closing <;> cases closing
  | inNumber chars =>
    obtain ⟨found, _, rfl⟩ := Option.map_eq_some_iff.mp finished
    rw [List.getLast?_concat] at end_token
    cases end_token
    rcases closing with closing | closing <;> cases closing
  | inString units => cases finished
  | inEscape units => cases finished
  | inCode units owed code => cases finished

/-- Behind an end of an array or an object, reading goes on as from the beginning. -/
theorem tokens?_append {text : List Char} {tokens : List Token} {token : Token}
    (lexed : tokens? (text.map some) = some tokens)
    (closing : token = .closeArray ∨ token = .closeObject) (end_token : tokens.getLast? = some token)
    (back : List Char) :
    tokens? ((text ++ back).map some) = (tokens? (back.map some)).map (tokens ++ ·) := by
  obtain ⟨last, fed, ending, finished, rfl, later⟩ := run?_front lexed
  cases finish?_between finished closing end_token
  cases finished
  rw [List.map_append, tokens?, later, List.append_nil, tokens?]

end LexState

theorem Spaced.all_blank {lexemes : List (List Char)} {text : List Char}
    (spaced : Spaced lexemes text) (none_at_all : lexemes = []) : ∀ c ∈ text, isBlank c = true := by
  induction spaced with
  | nil => exact fun c member => nomatch member
  | blank blank _ ih => exact List.forall_mem_cons.mpr ⟨blank, ih none_at_all⟩
  | lexeme => cases none_at_all

namespace Value

/-- A document is read from the texts that spell it and from no others. -/
theorem read?_eq_some_iff {text : List Char} {document : Value} :
    read? (Text.Utf8.encode text) = some document ↔ Spells text document := by
  rw [read?, ofChars?, Text.Utf8.decode_encode]
  constructor
  · intro read
    obtain ⟨tokens, lexed, parsed⟩ := Option.bind_eq_some_iff.mp read
    obtain ⟨lexemes, spaced⟩ := LexState.exists_spaced (Option.isSome_iff_exists.mpr ⟨_, lexed⟩)
    refine ⟨lexemes, spaced, ?_⟩
    rw [← LexState.tokens?_of_spaced spaced, lexed, ofTokens?_eq_some_iff.mp parsed]
  · rintro ⟨lexemes, spaced, tokens⟩
    rw [LexState.tokens?_of_spaced spaced, tokens, Option.bind_some, ofTokens?_tokens]

/-- Arrays and objects, the documents that have an end of their own. -/
def IsNested : Value → Prop
  | .array _ => True
  | .object _ => True
  | _ => False

theorem getLast?_tokens {document : Value} (nested : document.IsNested) :
    ∃ token, document.tokens.getLast? = some token ∧
      (token = .closeArray ∨ token = .closeObject) := by
  cases document with
  | array items =>
    refine ⟨.closeArray, ?_, .inl rfl⟩
    cases items with
    | nil => rfl
    | cons => exact List.getLast?_concat
  | object members =>
    refine ⟨.closeObject, ?_, .inr rfl⟩
    cases members with
    | nil => rfl
    | cons => exact List.getLast?_concat
  | null => cases nested
  | bool truth => cases nested
  | number written => cases nested
  | string text => cases nested

/-- Nothing but blanks may follow an array or an object. -/
theorem read?_trailing {text trailing : List Char} {document : Value}
    (read : read? (Text.Utf8.encode text) = some document) (nested : document.IsNested)
    (more : ∃ c ∈ trailing, isBlank c = false) :
    read? (Text.Utf8.encode (text ++ trailing)) = none := by
  rw [read?, ofChars?, Text.Utf8.decode_encode] at read ⊢
  obtain ⟨tokens, lexed, parsed⟩ := Option.bind_eq_some_iff.mp read
  cases ofTokens?_eq_some_iff.mp parsed
  obtain ⟨token, end_token, closing⟩ := getLast?_tokens nested
  rw [LexState.tokens?_append lexed closing end_token]
  cases rest : tokens? (trailing.map some) with
  | none => rfl
  | some others =>
    -- Further tokens are refused behind a document, and a text without any is all blanks.
    refine ofTokens?_tokens_append document fun no_others => ?_
    subst no_others
    obtain ⟨lexemes, spaced⟩ := LexState.exists_spaced (Option.isSome_iff_exists.mpr ⟨_, rest⟩)
    rw [LexState.tokens?_of_spaced spaced] at rest
    have no_lexemes : lexemes = [] := by
      cases lexemes with
      | nil => rfl
      | cons word lexemes =>
        rw [List.mapM_cons] at rest
        obtain ⟨_, _, rest⟩ := Option.bind_eq_some_iff.mp rest
        obtain ⟨_, _, rest⟩ := Option.bind_eq_some_iff.mp rest
        cases rest
    obtain ⟨c, member, no_blank⟩ := more
    rw [spaced.all_blank no_lexemes c member] at no_blank
    cases no_blank

end Value
end LayerTiming.Json
