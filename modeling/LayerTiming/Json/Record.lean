import LayerTiming.Json.Value

/-!
# Records

A record is written as an object, and may be given as an object with its members in any order among
others, or as an array of its fields in order. A member that belongs to the record may not be
repeated.
-/
namespace LayerTiming.Json

/-- The fields that a document gives to a record. -/
abbrev Fields := List (String × Value)

namespace Value

/-- The members of an object under their keys, if all keys are texts. -/
def namedMembers? (members : List (Option String × Value)) : Option Fields :=
  members.mapM fun member => member.1.map (·, member.2)

/-- The values of the members with a key. -/
def valuesOf (name : String) (fields : Fields) : List Value :=
  (fields.filter fun field => field.1 == name).map Prod.snd

/-- The fields of a record with these names, in the order in which the document has them. -/
def record? (names : List String) : Value → Option Fields
  | .object members => do
    let named ← namedMembers? members
    let known := named.filter fun field => names.contains field.1
    if (known.map Prod.fst).Nodup then pure known else none
  | .array items => if items.length ≤ names.length then some (names.zip items) else none
  | _ => none

/-- The counter value of a document. -/
def counter? : Value → Option Nat
  | .number written => written.counter?
  | _ => none

/-- The counter value of a document as a machine word. -/
def word? (value : Value) : Option UInt64 := value.counter?.map UInt64.ofNat

def float? : Value → Option Float
  | .number written => written.float?
  | _ => none

def text? : Value → Option String
  | .string text => text
  | _ => none

/-- The documents of an array, each decoded. -/
def list? {α : Type} (decode : Value → Option α) : Value → Option (List α)
  | .array items => items.mapM decode
  | _ => none

end Value

/-- A field that must be given. -/
def Fields.need? {α : Type} (fields : Fields) (name : String) (decode : Value → Option α) :
    Option α :=
  (fields.lookup name).bind decode

/-- A field with a value in its absence. -/
def Fields.getD? {α : Type} (fields : Fields) (name : String) (decode : Value → Option α)
    (fallback : α) : Option α :=
  match fields.lookup name with
  | none => some fallback
  | some value => decode value

end LayerTiming.Json
