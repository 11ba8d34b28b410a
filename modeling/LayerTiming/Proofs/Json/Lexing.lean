import LayerTiming.Json.Token
import LayerTiming.Json.Writer
import LayerTiming.Proofs.Json.Numbers
import LayerTiming.Proofs.Number.Texts

/-!
# Written documents as tokens

The text of a document is taken apart into the tokens of its values, keys and punctuation. The line
breaks and blanks between them leave nothing, and every string comes back character by character.
-/
namespace LayerTiming.Json
open Text

namespace Value

/-- Documents in which all numbers are proper. -/
inductive IsProper : Value → Prop
  | null : IsProper .null
  | bool (truth : Bool) : IsProper (.bool truth)
  | number {written : Scientific} (proper : written.IsProper) : IsProper (.number written)
  | string (text : Option String) : IsProper (.string text)
  | array {items : List Value} (each : ∀ item ∈ items, IsProper item) : IsProper (.array items)
  | object {members : List (Option String × Value)} (each : ∀ member ∈ members, IsProper member.2) :
    IsProper (.object members)

mutual

/-- The tokens of a document. -/
def tokens : Value → List Token
  | .null => [.null]
  | .bool truth => [.bool truth]
  | .number written => [.number written]
  | .string text => [.string text]
  | .array [] => [.openArray, .closeArray]
  | .array (item :: rest) => .openArray :: tokens item ++ itemTokens rest ++ [.closeArray]
  | .object [] => [.openObject, .closeObject]
  | .object ((key, value) :: rest) =>
    .openObject :: .string key :: .colon :: tokens value ++ memberTokens rest ++ [.closeObject]

def itemTokens : List Value → List Token
  | [] => []
  | item :: rest => .comma :: tokens item ++ itemTokens rest

def memberTokens : List (Option String × Value) → List Token
  | [] => []
  | (key, value) :: rest =>
    .comma :: .string key :: .colon :: tokens value ++ memberTokens rest

end

end Value

namespace LexState

/-- What neither goes on with a word or a number nor begins with a gap. -/
def Ends (rest : List (Option Char)) : Prop :=
  ∀ found ∈ rest.head?, ∃ c, found = some c ∧ isNumberChar c = false ∧ isLetter c = false

variable {state next : LexState} {rest : List (Option Char)}

theorem run?_eq (state : LexState) (c : Option Char) (rest : List (Option Char)) :
    run? state (c :: rest) =
      (step? state c).bind fun found => (run? found.2 rest).map (found.1 ++ ·) := by
  rw [run?]
  cases step? state c with
  | none => rfl
  | some found => cases ran : run? found.2 rest <;> simp [ran]

theorem run?_cons {c : Option Char} {found : List Token}
    (stepped : step? state c = some (found, next)) :
    run? state (c :: rest) = (run? next rest).map (found ++ ·) := by
  rw [run?_eq, stepped, Option.bind_some]

theorem run?_silent {c : Option Char} (stepped : step? state c = some ([], next)) :
    run? state (c :: rest) = run? next rest := by
  rw [run?_cons stepped]
  exact Option.map_id'

theorem run?_push (place : List Char → LexState) (text before : List Char)
    (rest : List (Option Char))
    (pushed : ∀ c ∈ text, ∀ raw, step? (place raw) (some c) = some ([], place (c :: raw))) :
    run? (place before) (text.map some ++ rest) = run? (place (text.reverse ++ before)) rest := by
  induction text generalizing before with
  | nil => rfl
  | cons c text ih =>
    rw [List.map_cons, List.cons_append, run?_silent (pushed c List.mem_cons_self before),
      ih (c :: before) fun d member => pushed d (List.mem_cons_of_mem c member),
      List.reverse_cons, List.append_assoc, List.singleton_append]

/-- A word or a number is complete where the text ends or something else begins. -/
theorem run?_complete {token : Token} (finished : finish? state = some [token])
    (before : ∀ c, isNumberChar c = false → isLetter c = false →
      step? state (some c) = endBefore? (some token) c)
    (ends : Ends rest) : run? state rest = (run? .between rest).map (token :: ·) := by
  cases rest with
  | nil =>
    rw [run?, finished, run?, finish?]
    rfl
  | cons found rest =>
    obtain ⟨c, rfl, no_number, no_letter⟩ := ends found rfl
    rw [run?_eq, run?_eq, before c no_number no_letter, step?, endBefore?]
    -- What the next character begins, it begins between tokens too.
    cases start? c with
    | none => rfl
    | some begun => cases ran : run? begun.2 rest <;> simp [ran]

theorem run?_word {first : Char} {letters : List Char} {token : Token}
    (begun : step? .between (some first) = some ([], .inWord [first]))
    (word : letters.all isLetter = true)
    (known : Token.ofWord? (first :: letters) = some token) (ends : Ends rest) :
    run? .between ((first :: letters).map some ++ rest) =
      (run? .between rest).map (token :: ·) := by
  have pushed := run?_push inWord letters [first] rest fun c member raw => by
    simp [step?, List.all_eq_true.mp word c member]
  have whole : (letters.reverse ++ [first]).reverse = first :: letters := by simp
  rw [List.map_cons, List.cons_append, run?_silent begun, pushed]
  -- Only what comes behind the word shows that it is complete.
  refine run?_complete ?_ (fun c _ no_letter => ?_) ends
  · rw [finish?, whole, known]
    rfl
  · rw [step?, whole, known, if_neg (by simp [no_letter])]

section Numbers

theorem isNumberChar_of_digit {c : Char} (digit : isAsciiDigit c = true) :
    isNumberChar c = true := by
  simp [isNumberChar, digit]

theorem isNumberChar_of_mem_exponentText {n : Int} {c : Char}
    (member : c ∈ Scientific.exponentText n) : isNumberChar c = true := by
  rw [Scientific.exponentText] at member
  rcases List.mem_cons.mp member with rfl | digit
  · split <;> decide
  · exact isNumberChar_of_digit (isAsciiDigit_of_mem_numeral _ c digit)

theorem isNumberChar_of_mem_write {number : Scientific} (proper : number.IsProper) {c : Char}
    (member : c ∈ number.write) : isNumberChar c = true := by
  rw [Scientific.write_eq] at member
  rcases Number.mem_signed member with rfl | inside
  · decide
  rcases List.mem_append.mp inside with whole | behind
  · exact isNumberChar_of_digit (proper.whole_digits c whole)
  rcases List.mem_append.mp behind with fraction | tail
  · split at fraction
    · cases fraction
    · rcases List.mem_cons.mp fraction with rfl | digit
      · decide
      · exact isNumberChar_of_digit (proper.fraction_digits c digit)
  · cases written : number.exponent with
    | none =>
      rw [written] at tail
      cases tail
    | some exponent =>
      rw [written] at tail
      rcases List.mem_cons.mp tail with rfl | digit
      · decide
      · exact isNumberChar_of_mem_exponentText digit

theorem step?_number {c : Char} (first : isAsciiDigit c = true ∨ c = '-') :
    step? .between (some c) = some ([], .inNumber [c]) := by
  have no_blank : isBlank c = false := by
    rcases first with digit | rfl
    · simp only [isBlank, Bool.or_eq_false_iff, beq_eq_false_iff_ne]
      refine ⟨⟨⟨?_, ?_⟩, ?_⟩, ?_⟩ <;> rintro rfl <;> cases digit
    · decide
  have no_quote : c ≠ '"' := by
    rintro rfl
    rcases first with digit | dash
    · cases digit
    · cases dash
  simp [step?, start?, no_blank, no_quote, first]

theorem exists_write_eq_cons {number : Scientific} (proper : number.IsProper) :
    ∃ c rest, number.write = c :: rest ∧ (isAsciiDigit c = true ∨ c = '-') := by
  rw [Scientific.write_eq]
  cases number.negative with
  | true => exact ⟨'-', _, rfl, .inr rfl⟩
  | false =>
    cases shape : number.whole with
    | nil => cases shape ▸ proper.whole
    | cons c digits => exact ⟨c, _, rfl, .inl (proper.whole_digits c (by simp [shape]))⟩

theorem run?_number {number : Scientific} (proper : number.IsProper) (ends : Ends rest) :
    run? .between (number.write.map some ++ rest) =
      (run? .between rest).map (.number number :: ·) := by
  -- The whole text is one stretch, so it is read only where it ends.
  obtain ⟨c, chars, shape, first⟩ := exists_write_eq_cons proper
  have chars_number : ∀ d ∈ chars, isNumberChar d = true := fun d member =>
    isNumberChar_of_mem_write proper (shape ▸ List.mem_cons_of_mem c member)
  have pushed := run?_push inNumber chars [c] rest fun d member raw => by
    simp [step?, chars_number d member]
  have read_back : Scientific.read? (chars.reverse ++ [c]).reverse = some number := by
    rw [List.reverse_append, List.reverse_reverse, List.reverse_singleton, List.singleton_append,
      ← shape]
    exact Scientific.read?_write proper
  rw [shape, List.map_cons, List.cons_append, run?_silent (step?_number first), pushed]
  refine run?_complete ?_ (fun d no_number _ => ?_) ends
  · rw [finish?, read_back]
    rfl
  · rw [step?, read_back, if_neg (by simp [no_number])]
    rfl

end Numbers

section Strings

variable {units : List StringUnit}

theorem run?_escape {letter plain : Char} (known : escaped? letter = some plain)
    (no_code : letter ≠ 'u') :
    run? (.inString units) (some '\\' :: some letter :: rest) =
      run? (.inString (.char plain :: units)) rest := by
  have slash : step? (.inString units) (some '\\') = some ([], .inEscape units) := rfl
  have escaped : step? (.inEscape units) (some letter) =
      some ([], .inString (.char plain :: units)) := by
    simp [step?, no_code, known]
  rw [run?_silent slash, run?_silent escaped]

theorem run?_digit {c : Char} {owed code digit : Nat} (known : hexDigit? c = some digit)
    (more : 1 < owed) :
    run? (.inCode units owed code) (some c :: rest) =
      run? (.inCode units (owed - 1) (code * 16 + digit)) rest := by
  refine run?_silent ?_
  simp [step?, known, show ¬ owed ≤ 1 by omega]

theorem run?_lastDigit {c : Char} {code digit : Nat} (known : hexDigit? c = some digit) :
    run? (.inCode units 1 code) (some c :: rest) =
      run? (.inString (.ofCode (code * 16 + digit) :: units)) rest := by
  refine run?_silent ?_
  simp [step?, known]

theorem run?_codeEscape {c : Char} (control : c < ' ') :
    run? (.inString units) ((codeEscape c).map some ++ rest) =
      run? (.inString (.char c :: units)) rest := by
  have small : c.toNat < 32 := control
  have digits : ∀ n < 32, hexDigit? (Nat.digitChar (n / 16)) = some (n / 16) ∧
      hexDigit? (Nat.digitChar (n % 16)) = some (n % 16) := by decide
  obtain ⟨high, low⟩ := digits c.toNat small
  have zero : hexDigit? '0' = some 0 := by decide
  have slash : step? (.inString units) (some '\\') = some ([], .inEscape units) := rfl
  have by_code : step? (.inEscape units) (some 'u') = some ([], .inCode units 4 0) := rfl
  have code : StringUnit.ofCode ((((0 * 16 + 0) * 16 + 0) * 16 + c.toNat / 16) * 16 +
      c.toNat % 16) = .char c := by
    have same : (((0 * 16 + 0) * 16 + 0) * 16 + c.toNat / 16) * 16 + c.toNat % 16 = c.toNat := by
      omega
    rw [same, StringUnit.ofCode, if_neg (by omega), Char.ofNat_toNat]
  change run? _ (some '\\' :: some 'u' :: some '0' :: some '0' :: some (Nat.digitChar _) ::
    some (Nat.digitChar _) :: rest) = _
  rw [run?_silent slash, run?_silent by_code, run?_digit zero (by decide),
    run?_digit zero (by decide), run?_digit high (by decide), run?_lastDigit low, code]

/-- Every character of a string is read from what is written of it. -/
theorem run?_escapeChar (c : Char) :
    run? (.inString units) ((escapeChar c).map some ++ rest) =
      run? (.inString (.char c :: units)) rest := by
  -- Seven characters have a short escape, and the other control characters one by their code.
  unfold escapeChar
  split
  next quote =>
    subst quote
    exact run?_escape rfl (by decide)
  split
  next slash =>
    subst slash
    exact run?_escape rfl (by decide)
  split
  next back =>
    subst back
    exact run?_escape rfl (by decide)
  split
  next tab =>
    subst tab
    exact run?_escape rfl (by decide)
  split
  next feed =>
    subst feed
    exact run?_escape rfl (by decide)
  split
  next form =>
    subst form
    exact run?_escape rfl (by decide)
  split
  next carriage =>
    subst carriage
    exact run?_escape rfl (by decide)
  split
  next control => exact run?_codeEscape control
  next quote slash _ _ _ _ _ plain =>
    refine run?_silent ?_
    simp [step?, quote, slash, plain]

theorem run?_chars (text : List Char) :
    run? (.inString units) ((text.flatMap escapeChar).map some ++ rest) =
      run? (.inString ((text.map StringUnit.char).reverse ++ units)) rest := by
  induction text generalizing units with
  | nil => rfl
  | cons c text ih =>
    rw [List.flatMap_cons, List.map_append, List.append_assoc, run?_escapeChar, ih, List.map_cons,
      List.reverse_cons, List.append_assoc, List.singleton_append]

theorem textOfUnits?_map_char (text : List Char) :
    textOfUnits? (text.map StringUnit.char) = some text := by
  induction text with
  | nil => rfl
  | cons c text ih => rw [List.map_cons, textOfUnits?, ih, Option.map_some]

theorem run?_string (text : Option String) :
    run? .between ((writeString text).map some ++ rest) =
      (run? .between rest).map (.string text :: ·) := by
  have begun : step? .between (some '"') = some ([], .inString []) := rfl
  have ended (units : List StringUnit) : step? (.inString units) (some '"') =
      some ([.ofUnits units.reverse], .between) := rfl
  rw [writeString, List.cons_append, List.map_cons, List.cons_append, run?_silent begun,
    List.map_append, List.append_assoc]
  cases text with
  | none =>
    -- Half of a surrogate pair is all there is in a string that has no text.
    have slash : step? (.inString []) (some '\\') = some ([], .inEscape []) := rfl
    have by_code : step? (.inEscape []) (some 'u') = some ([], .inCode [] 4 0) := rfl
    have d : hexDigit? 'd' = some 13 := by decide
    have eight : hexDigit? '8' = some 8 := by decide
    have zero : hexDigit? '0' = some 0 := by decide
    change run? _ (some '\\' :: some 'u' :: some 'd' :: some '8' :: some '0' :: some '0' ::
      some '"' :: rest) = _
    rw [run?_silent slash, run?_silent by_code, run?_digit d (by decide),
      run?_digit eight (by decide), run?_digit zero (by decide), run?_lastDigit zero,
      run?_cons (ended _)]
    rfl
  | some text =>
    rw [stringContent, run?_chars, List.append_nil]
    refine (run?_cons (ended _)).trans ?_
    rw [List.reverse_reverse, Token.ofUnits, textOfUnits?_map_char, Option.map_some,
      String.ofList_toList]
    rfl

end Strings

/-- Text that is read as tokens in front of anything that ends a word or a number. -/
def LexesAs (text : List Char) (tokens : List Token) : Prop :=
  ∀ rest, Ends rest →
    run? .between (text.map some ++ rest) = (run? .between rest).map (tokens ++ ·)

/-- Text that ends a word or a number in front of it. -/
def Closes (text : List Char) : Prop :=
  ∀ c ∈ text.head?, isNumberChar c = false ∧ isLetter c = false

namespace LexesAs

variable {text : List Char} {tokens : List Token}

theorem nil : LexesAs [] [] := by
  intro rest _
  exact Option.map_id'.symm

theorem cons {c : Char} {found : List Token} (alone : start? c = some (found, .between))
    (behind : LexesAs text tokens) : LexesAs (c :: text) (found ++ tokens) := by
  intro rest ends
  have stepped : step? .between (some c) = some (found, .between) := alone
  rw [List.map_cons, List.cons_append, run?_cons stepped, behind rest ends, Option.map_map]
  congr 1
  funext later
  exact (List.append_assoc found tokens later).symm

theorem append {front : List Char} {first : List Token} (before : LexesAs front first)
    (behind : LexesAs text tokens) (closes : Closes text) :
    LexesAs (front ++ text) (first ++ tokens) := by
  intro rest ends
  have ends_front : Ends (text.map some ++ rest) := by
    cases text with
    | nil => exact ends
    | cons c text =>
      rintro found ⟨⟩
      exact ⟨c, rfl, closes c rfl⟩
  rw [List.map_append, List.append_assoc, before _ ends_front, behind rest ends, Option.map_map]
  congr 1
  funext later
  exact (List.append_assoc first tokens later).symm

theorem newLine (depth : Nat) (behind : LexesAs text tokens) :
    LexesAs (newLine depth ++ text) tokens := by
  have blanks (n : Nat) : LexesAs (List.replicate n ' ' ++ text) tokens := by
    induction n with
    | zero => exact behind
    | succ n ih => exact cons (c := ' ') rfl ih
  exact cons (c := '\n') rfl (blanks (2 * depth))

theorem string (text : Option String) {more : List Char} (behind : LexesAs more tokens) :
    LexesAs (writeString text ++ more) (.string text :: tokens) := by
  intro rest ends
  rw [List.map_append, List.append_assoc, run?_string, behind rest ends, Option.map_map]
  rfl

end LexesAs

theorem closes_newLine (depth : Nat) (text : List Char) : Closes (newLine depth ++ text) := by
  rintro c ⟨⟩
  exact ⟨by decide, by decide⟩

theorem lexesAs_items {items : List Value}
    (each : ∀ item ∈ items, ∀ depth, LexesAs (item.writeAt depth) item.tokens)
    (depth : Nat) {text : List Char} {tokens : List Token} (behind : LexesAs text tokens)
    (closes : Closes text) :
    LexesAs (Value.writeItems depth items ++ text) (Value.itemTokens items ++ tokens) ∧
      Closes (Value.writeItems depth items ++ text) := by
  induction items with
  | nil => exact ⟨behind, closes⟩
  | cons item items ih =>
    obtain ⟨first, others⟩ := List.forall_mem_cons.mp each
    obtain ⟨later, later_closes⟩ := ih others
    have written := (first depth).append later later_closes
    constructor
    · simpa [Value.writeItems, Value.itemTokens] using
        LexesAs.cons (c := ',') rfl (written.newLine depth)
    · rintro c ⟨⟩
      exact ⟨by decide, by decide⟩

theorem lexesAs_members {members : List (Option String × Value)}
    (each : ∀ member ∈ members, ∀ depth, LexesAs (member.2.writeAt depth) member.2.tokens)
    (depth : Nat) {text : List Char} {tokens : List Token} (behind : LexesAs text tokens)
    (closes : Closes text) :
    LexesAs (Value.writeMembers depth members ++ text) (Value.memberTokens members ++ tokens) ∧
      Closes (Value.writeMembers depth members ++ text) := by
  induction members with
  | nil => exact ⟨behind, closes⟩
  | cons member members ih =>
    obtain ⟨key, value⟩ := member
    obtain ⟨first, others⟩ := List.forall_mem_cons.mp each
    obtain ⟨later, later_closes⟩ := ih others
    have written := (first depth).append later later_closes
    have named := (LexesAs.cons (c := ':') rfl (LexesAs.cons (c := ' ') rfl written)).string key
    constructor
    · simpa [Value.writeMembers, Value.memberTokens] using
        LexesAs.cons (c := ',') rfl (named.newLine depth)
    · rintro c ⟨⟩
      exact ⟨by decide, by decide⟩

/-- The text of a document is read as its tokens. -/
theorem lexesAs_writeAt {value : Value} (proper : value.IsProper) (depth : Nat) :
    LexesAs (value.writeAt depth) value.tokens := by
  -- The induction is on the document, at every depth.
  induction proper generalizing depth with
  | null => exact fun rest ends => run?_word rfl rfl rfl ends
  | bool truth =>
    cases truth
    · exact fun rest ends => run?_word rfl rfl rfl ends
    · exact fun rest ends => run?_word rfl rfl rfl ends
  | number proper => exact fun rest ends => run?_number proper ends
  | string text => exact fun rest _ => run?_string text
  | @array items each ih =>
    cases items with
    | nil => exact .cons (c := '[') rfl (.cons (c := ']') rfl .nil)
    | cons item items =>
      obtain ⟨first, others⟩ := List.forall_mem_cons.mp ih
      have closed := (LexesAs.cons (c := ']') rfl .nil).newLine depth
      obtain ⟨later, later_closes⟩ := lexesAs_items others (depth + 1) closed
        (closes_newLine depth _)
      have written := (first (depth + 1)).append later later_closes
      simpa [Value.writeAt, Value.tokens] using
        LexesAs.cons (c := '[') rfl (written.newLine (depth + 1))
  | @object members each ih =>
    cases members with
    | nil => exact .cons (c := '\x7b') rfl (.cons (c := '\x7d') rfl .nil)
    | cons member members =>
      obtain ⟨key, value⟩ := member
      obtain ⟨first, others⟩ := List.forall_mem_cons.mp ih
      have closed := (LexesAs.cons (c := '\x7d') rfl .nil).newLine depth
      obtain ⟨later, later_closes⟩ := lexesAs_members others (depth + 1) closed
        (closes_newLine depth _)
      have written := (first (depth + 1)).append later later_closes
      have named := (LexesAs.cons (c := ':') rfl (LexesAs.cons (c := ' ') rfl written)).string key
      simpa [Value.writeAt, Value.tokens] using
        LexesAs.cons (c := '\x7b') rfl (named.newLine (depth + 1))

theorem tokens?_write {value : Value} (proper : value.IsProper) :
    tokens? (value.write.map some) = some value.tokens := by
  have lexed := lexesAs_writeAt proper 0 [] fun found member => nomatch member
  rwa [List.append_nil, run?, finish?, Option.map_some, List.append_nil] at lexed

end LexState
end LayerTiming.Json
