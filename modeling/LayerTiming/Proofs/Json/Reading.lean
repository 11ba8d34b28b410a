import LayerTiming.Json.Reader
import LayerTiming.Proofs.Json.Lexing
import LayerTiming.Proofs.Text.Encoding

/-!
# Documents read back

The tokens of a document make the document again, inside of whatever arrays and objects are open. So
a document whose numbers are proper is read back from the bytes of its text.
-/
namespace LayerTiming.Json

namespace ParseState

theorem run?_cons {state next : ParseState} {token : Token} {rest : List Token}
    (stepped : step? state token = some next) : run? state (token :: rest) = run? next rest := by
  rw [run?, stepped, Option.bind_some]

theorem step?_value (frames : List Frame) (closable : Bool) (token : Token)
    (begins : token ≠ .closeArray) :
    step? ⟨frames, .value closable⟩ token = begin? frames token := by
  unfold step?
  split <;> simp_all

theorem step?_closeObject (frames : List Frame) :
    step? ⟨frames, .key [] true⟩ .closeObject = some ⟨frames, .follow (.object [])⟩ := by
  unfold step?
  split <;> simp_all

theorem step?_key (frames : List Frame) (members : List (Option String × Value)) (closable : Bool)
    (key : Option String) :
    step? ⟨frames, .key members closable⟩ (.string key) = some ⟨frames, .colon members key⟩ := by
  cases closable <;> unfold step? <;> split <;> simp_all

theorem step?_colon (frames : List Frame) (members : List (Option String × Value))
    (key : Option String) :
    step? ⟨frames, .colon members key⟩ .colon =
      some ⟨.object members key :: frames, .value false⟩ := by
  unfold step?
  split <;> simp_all

theorem step?_follow (frames : List Frame) (value : Value) (token : Token) :
    step? ⟨frames, .follow value⟩ token = follow? frames value token := by
  unfold step?
  split <;> simp_all

theorem run?_key (frames : List Frame) (members : List (Option String × Value)) (closable : Bool)
    (key : Option String) (rest : List Token) :
    run? ⟨frames, .key members closable⟩ (.string key :: .colon :: rest) =
      run? ⟨.object members key :: frames, .value false⟩ rest := by
  rw [run?_cons (step?_key frames members closable key), run?_cons (step?_colon frames members key)]

mutual

/-- The tokens of a document make the document, whatever is open around it. -/
theorem run?_tokens : (value : Value) → ∀ (frames : List Frame) (closable : Bool)
    (rest : List Token),
    run? ⟨frames, .value closable⟩ (value.tokens ++ rest) = run? ⟨frames, .follow value⟩ rest
  | .null, frames, closable, _ => run?_cons (step?_value frames closable _ (by decide))
  | .bool _, frames, closable, _ => run?_cons (step?_value frames closable _ (by simp))
  | .number _, frames, closable, _ => run?_cons (step?_value frames closable _ (by simp))
  | .string _, frames, closable, _ => run?_cons (step?_value frames closable _ (by simp))
  | .array [], frames, closable, rest => by
    have opened := step?_value frames closable .openArray (by decide)
    rw [Value.tokens, List.cons_append, run?_cons opened]
    rfl
  | .array (item :: items), frames, closable, rest => by
    -- The items behind the first are read with the array open around them.
    have opened := step?_value frames closable .openArray (by decide)
    have first := run?_tokens item (.array [] :: frames) true
      (Value.itemTokens items ++ .closeArray :: rest)
    have others := run?_itemTokens items frames [] item rest
    simp only [Value.tokens, List.cons_append, List.append_assoc, List.nil_append]
    rw [run?_cons opened, first, others]
    rfl
  | .object [], frames, closable, rest => by
    have opened := step?_value frames closable .openObject (by decide)
    rw [Value.tokens, List.cons_append, run?_cons opened]
    exact run?_cons (step?_closeObject frames)
  | .object ((key, value) :: members), frames, closable, rest => by
    have opened := step?_value frames closable .openObject (by decide)
    have first := run?_tokens value (.object [] key :: frames) false
      (Value.memberTokens members ++ .closeObject :: rest)
    have others := run?_memberTokens members frames [] key value rest
    simp only [Value.tokens, List.cons_append, List.append_assoc, List.nil_append]
    rw [run?_cons opened, run?_key, first, others]
    rfl

/-- The items behind the first, up to the end of their array. -/
theorem run?_itemTokens : (items : List Value) → ∀ (frames : List Frame) (before : List Value)
    (value : Value) (rest : List Token),
    run? ⟨.array before :: frames, .follow value⟩ (Value.itemTokens items ++ .closeArray :: rest) =
      run? ⟨frames, .follow (.array (before.reverse ++ value :: items))⟩ rest
  | [], frames, before, value, rest => by
    -- A frame holds its items latest first, and turns them around at its end.
    have closed := step?_follow (.array before :: frames) value .closeArray
    rw [Value.itemTokens, List.nil_append, run?_cons closed, List.reverse_cons]
  | item :: items, frames, before, value, rest => by
    have comma := step?_follow (.array before :: frames) value .comma
    have first := run?_tokens item (.array (value :: before) :: frames) false
      (Value.itemTokens items ++ .closeArray :: rest)
    have others := run?_itemTokens items frames (value :: before) item rest
    simp only [Value.itemTokens, List.cons_append, List.append_assoc]
    rw [run?_cons comma, first, others, List.reverse_cons, List.append_assoc,
      List.singleton_append]

/-- The members behind the first, up to the end of their object. -/
theorem run?_memberTokens : (members : List (Option String × Value)) → ∀ (frames : List Frame)
    (before : List (Option String × Value)) (key : Option String) (value : Value)
    (rest : List Token),
    run? ⟨.object before key :: frames, .follow value⟩
        (Value.memberTokens members ++ .closeObject :: rest) =
      run? ⟨frames, .follow (.object (before.reverse ++ (key, value) :: members))⟩ rest
  | [], frames, before, key, value, rest => by
    have closed := step?_follow (.object before key :: frames) value .closeObject
    rw [Value.memberTokens, List.nil_append, run?_cons closed, List.reverse_cons]
  | (next, item) :: members, frames, before, key, value, rest => by
    have comma := step?_follow (.object before key :: frames) value .comma
    have first := run?_tokens item (.object ((key, value) :: before) next :: frames) false
      (Value.memberTokens members ++ .closeObject :: rest)
    have others := run?_memberTokens members frames ((key, value) :: before) next item rest
    simp only [Value.memberTokens, List.cons_append, List.append_assoc]
    rw [run?_cons comma, run?_key, first, others, List.reverse_cons, List.append_assoc,
      List.singleton_append]

end

end ParseState

namespace Value

theorem ofTokens?_tokens (value : Value) : ofTokens? value.tokens = some value := by
  have ran := ParseState.run?_tokens value [] false []
  rw [List.append_nil] at ran
  rw [ofTokens?, ran]
  rfl

/-- A document of proper numbers is read back from the bytes of its text. -/
theorem read?_encode_write {value : Value} (proper : value.IsProper) :
    read? (Text.Utf8.encode value.write) = some value := by
  rw [read?, ofChars?, Text.Utf8.decode_encode, LexState.tokens?_write proper, Option.bind_some,
    ofTokens?_tokens]

end Value
end LayerTiming.Json
