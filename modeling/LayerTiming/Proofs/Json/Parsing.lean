import LayerTiming.Proofs.Json.Reading

/-!
# Tokens of documents that are read

The stack of the parser holds the tokens that have been read, and each step adds the token it takes.
So the tokens of a document are the only ones that the document is read from, and no tokens may
follow them.
-/
namespace LayerTiming.Json

namespace Value

theorem itemTokens_eq (items : List Value) :
    itemTokens items = items.flatMap fun item => .comma :: item.tokens := by
  induction items with
  | nil => rfl
  | cons item items ih => rw [itemTokens, ih, List.flatMap_cons]

theorem memberTokens_eq (members : List (Option String × Value)) :
    memberTokens members =
      members.flatMap fun member => .comma :: .string member.1 :: .colon :: member.2.tokens := by
  induction members with
  | nil => rfl
  | cons member members ih => rw [memberTokens, ih, List.flatMap_cons]

/-- A separator in front of each part but the first is one behind each part but the last. -/
theorem flatMap_separator {α : Type} (separator : Token) (tokens : α → List Token) (front : List α)
    (last : α) :
    separator :: front.flatMap (fun part => tokens part ++ [separator]) ++ tokens last =
      (front ++ [last]).flatMap fun part => separator :: tokens part := by
  induction front with
  | nil => simp
  | cons part front ih =>
    simp only [List.cons_append, List.flatMap_cons, List.append_assoc] at ih ⊢
    rw [← ih]
    rfl

theorem tokens_array_concat (front : List Value) (last : Value) :
    (array (front ++ [last])).tokens =
      .openArray :: front.flatMap (fun item => item.tokens ++ [.comma]) ++ last.tokens ++
        [.closeArray] := by
  cases front with
  | nil => simp [tokens, itemTokens]
  | cons item front =>
    have parted := flatMap_separator .comma tokens front last
    rw [List.cons_append, tokens, itemTokens_eq, ← parted]
    simp

theorem tokens_object_concat (front : List (Option String × Value)) (last : Option String × Value) :
    (object (front ++ [last])).tokens =
      .openObject ::
        front.flatMap (fun member => .string member.1 :: .colon :: member.2.tokens ++ [.comma]) ++
        .string last.1 :: .colon :: last.2.tokens ++ [.closeObject] := by
  cases front with
  | nil => simp [tokens, memberTokens]
  | cons member front =>
    have parted := flatMap_separator .comma
      (fun member : Option String × Value => .string member.1 :: .colon :: member.2.tokens) front
      last
    rw [List.cons_append, tokens, memberTokens_eq, ← parted]
    simp

end Value

/-- The tokens of members that more members follow. -/
def memberTokens (members : List (Option String × Value)) : List Token :=
  members.flatMap fun member => .string member.1 :: .colon :: member.2.tokens ++ [.comma]

/-- The tokens that opened a frame and filled it. -/
def Frame.written : Frame → List Token
  | .array items => .openArray :: items.reverse.flatMap fun item => item.tokens ++ [.comma]
  | .object members name => .openObject :: memberTokens members.reverse ++ [.string name, .colon]

/-- The tokens of what is being read inside of the innermost frame. -/
def Due.written : Due → List Token
  | .value _ => []
  | .key members _ => .openObject :: memberTokens members.reverse
  | .colon members name => .openObject :: memberTokens members.reverse ++ [.string name]
  | .follow complete => complete.tokens

namespace ParseState

/-- The tokens that lead to a state. -/
def written (state : ParseState) : List Token :=
  state.frames.reverse.flatMap Frame.written ++ state.due.written

theorem written_begin? {frames : List Frame} {token : Token} {next : ParseState}
    (begun : begin? frames token = some next) :
    next.written = frames.reverse.flatMap Frame.written ++ [token] := by
  unfold begin? at begun
  split at begun
  · cases begun
    simp [written, Frame.written, Due.written]
  · cases begun
    simp [written, Due.written, memberTokens]
  · obtain ⟨value, known, rfl⟩ := Option.map_eq_some_iff.mp begun
    have alone : value.tokens = [token] := by
      cases token <;> cases known <;> rfl
    rw [written, Due.written, alone]

theorem written_follow? {frames : List Frame} {value : Value} {token : Token} {next : ParseState}
    (followed : follow? frames value token = some next) :
    next.written = frames.reverse.flatMap Frame.written ++ value.tokens ++ [token] := by
  unfold follow? at followed
  split at followed
  · cases followed
    simp [written, Frame.written, Due.written]
  · cases followed
    simp [written, Frame.written, Due.written, Value.tokens_array_concat]
  · cases followed
    simp [written, Frame.written, Due.written, memberTokens]
  · cases followed
    simp [written, Frame.written, Due.written, memberTokens, Value.tokens_object_concat]
  · cases followed

/-- A step adds its token. -/
theorem written_step? {state next : ParseState} {token : Token}
    (stepped : step? state token = some next) : next.written = state.written ++ [token] := by
  unfold step? at stepped
  split at stepped
  · cases stepped
    simp [written, Frame.written, Due.written, Value.tokens]
  · simpa [written, Due.written] using written_begin? stepped
  · cases stepped
    simp [written, Due.written, memberTokens, Value.tokens]
  · cases stepped
    simp [written, Due.written]
  · cases stepped
    simp [written, Frame.written, Due.written]
  · exact written_follow? stepped
  · cases stepped

theorem written_run? {state last : ParseState} {tokens : List Token}
    (ran : run? state tokens = some last) : last.written = state.written ++ tokens := by
  induction tokens generalizing state with
  | nil =>
    cases ran
    exact (List.append_nil _).symm
  | cons token tokens ih =>
    obtain ⟨next, stepped, ran⟩ := Option.bind_eq_some_iff.mp ran
    rw [ih ran, written_step? stepped, List.append_assoc, List.singleton_append]

theorem run?_append (state : ParseState) (front back : List Token) :
    run? state (front ++ back) = (run? state front).bind (run? · back) := by
  induction front generalizing state with
  | nil => rfl
  | cons token front ih =>
    rw [List.cons_append, run?, run?, Option.bind_assoc]
    exact congrArg _ (funext ih)

end ParseState

namespace Value

/-- A document is read from its own tokens and from no others. -/
theorem ofTokens?_eq_some_iff {tokens : List Token} {value : Value} :
    ofTokens? tokens = some value ↔ tokens = value.tokens := by
  constructor
  · intro read
    obtain ⟨⟨frames, due⟩, ran, complete⟩ := Option.bind_eq_some_iff.mp read
    unfold ParseState.result? at complete
    split at complete
    next found shape =>
      cases shape
      cases complete
      exact (ParseState.written_run? ran).symm
    · cases complete
  · rintro rfl
    exact ofTokens?_tokens value

/-- Nothing may follow a document. -/
theorem ofTokens?_tokens_append (value : Value) {more : List Token} (some_token : more ≠ []) :
    ofTokens? (value.tokens ++ more) = none := by
  obtain ⟨token, rest, rfl⟩ := List.exists_cons_of_ne_nil some_token
  have complete := ParseState.run?_tokens value [] false []
  rw [List.append_nil] at complete
  have stuck := ParseState.step?_follow [] value token
  rw [ofTokens?, ParseState.run?_append, complete]
  change ((ParseState.run? ⟨[], .follow value⟩ (token :: rest)).bind _) = none
  rw [ParseState.run?, stuck]
  rfl

end Value
end LayerTiming.Json
