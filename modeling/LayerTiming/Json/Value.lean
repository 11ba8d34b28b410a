import LayerTiming.Json.Scientific

/-!
# Documents

A document is a tree of arrays, objects and scalars. The members of an object keep their order and
may repeat a key. A string need not denote a text: one that holds half of a surrogate pair or bytes
that are no characters is part of a document all the same.
-/
namespace LayerTiming.Json
open Number

/-- A document. A string without a text is `none`. -/
inductive Value
  | null
  | bool (truth : Bool)
  | number (written : Scientific)
  | string (text : Option String)
  | array (items : List Value)
  | object (members : List (Option String × Value))
  deriving Repr, Inhabited

namespace Value

def ofText (text : String) : Value := .string (some text)

def ofNat (n : Nat) : Value := .number (.ofNat n)

/-- A double as a document. What is not finite is written as nothing. -/
def ofFloat (x : Float) : Value :=
  match kind x with
  | .finite value => .number (.ofBinary value)
  | _ => .null

def ofList {α : Type} (encode : α → Value) (items : List α) : Value := .array (items.map encode)

def ofMembers (members : List (String × Value)) : Value :=
  .object (members.map fun member => (some member.1, member.2))

mutual

/-- Whether a document can be taken into memory as it stands: all strings are texts, all numbers are
counter values or doubles, and arrays and objects are nested at most `limit` deep. -/
def isLoadable (limit : Nat) : Value → Bool
  | .null => true
  | .bool _ => true
  | .number written => written.counter?.isSome || written.float?.isSome
  | .string text => text.isSome
  | .array items => limit != 0 && areLoadable (limit - 1) items
  | .object members => limit != 0 && areMembersLoadable (limit - 1) members

/-- Whether all documents of a list can be taken into memory. -/
def areLoadable (limit : Nat) : List Value → Bool
  | [] => true
  | item :: rest => isLoadable limit item && areLoadable limit rest

/-- Whether all members of an object can be taken into memory. -/
def areMembersLoadable (limit : Nat) : List (Option String × Value) → Bool
  | [] => true
  | (key, value) :: rest =>
    key.isSome && isLoadable limit value && areMembersLoadable limit rest

end

end Value
end LayerTiming.Json
