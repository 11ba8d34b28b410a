import LayerTiming.Json.Token
import LayerTiming.Json.Value
import LayerTiming.Text.Utf8

/-!
# Reading documents

The parser is a stack machine over tokens. Its stack holds the arrays and objects that are open, so
a document may be nested as deep as its text goes on.
-/
namespace LayerTiming.Json

/-- An array or object that is open. What it holds so far stands latest first. -/
inductive Frame
  | array (items : List Value)
  /-- An object that waits for the value of a key. -/
  | object (members : List (Option String × Value)) (key : Option String)
  deriving Repr, Inhabited

/-- What is due next. -/
inductive Due
  /-- A value, or, where it is `closable`, the end of the array that was just opened. -/
  | value (closable : Bool)
  /-- A key, or, where it is `closable`, the end of the object that was just opened. -/
  | key (members : List (Option String × Value)) (closable : Bool)
  /-- The colon behind a key. -/
  | colon (members : List (Option String × Value)) (key : Option String)
  /-- What may follow a value that is complete. -/
  | follow (value : Value)
  deriving Repr, Inhabited

/-- Where the parser stands: the open frames, innermost first, and what is due. -/
structure ParseState where
  frames : List Frame := []
  due : Due := .value false
  deriving Repr, Inhabited

namespace ParseState

/-- The value that a token alone makes. -/
def scalar? : Token → Option Value
  | .null => some .null
  | .bool truth => some (.bool truth)
  | .number written => some (.number written)
  | .string text => some (.string text)
  | _ => none

/-- Take a token where a value may begin. -/
def begin? (frames : List Frame) (token : Token) : Option ParseState :=
  match token with
  | .openArray => some ⟨.array [] :: frames, .value true⟩
  | .openObject => some ⟨frames, .key [] true⟩
  | _ => (scalar? token).map fun value => ⟨frames, .follow value⟩

def follow? : List Frame → Value → Token → Option ParseState
  | .array items :: frames, value, .comma => some ⟨.array (value :: items) :: frames, .value false⟩
  | .array items :: frames, value, .closeArray =>
    some ⟨frames, .follow (.array (value :: items).reverse)⟩
  | .object members key :: frames, value, .comma =>
    some ⟨frames, .key ((key, value) :: members) false⟩
  | .object members key :: frames, value, .closeObject =>
    some ⟨frames, .follow (.object ((key, value) :: members).reverse)⟩
  | _, _, _ => none

def step? : ParseState → Token → Option ParseState
  | ⟨.array [] :: frames, .value true⟩, .closeArray => some ⟨frames, .follow (.array [])⟩
  | ⟨frames, .value _⟩, token => begin? frames token
  | ⟨frames, .key [] true⟩, .closeObject => some ⟨frames, .follow (.object [])⟩
  | ⟨frames, .key members _⟩, .string key => some ⟨frames, .colon members key⟩
  | ⟨frames, .colon members key⟩, .colon => some ⟨.object members key :: frames, .value false⟩
  | ⟨frames, .follow value⟩, token => follow? frames value token
  | _, _ => none

def run? : ParseState → List Token → Option ParseState
  | state, [] => some state
  | state, token :: rest => (step? state token).bind fun next => run? next rest

/-- The document, if it is complete. -/
def result? : ParseState → Option Value
  | ⟨[], .follow value⟩ => some value
  | _ => none

end ParseState

namespace Value

def ofTokens? (tokens : List Token) : Option Value :=
  (ParseState.run? {} tokens).bind ParseState.result?

/-- Read a document from a text with gaps. -/
def ofChars? (text : List (Option Char)) : Option Value := (tokens? text).bind ofTokens?

def read? (bytes : List UInt8) : Option Value := ofChars? (Text.Utf8.decode bytes)

end Value
end LayerTiming.Json
