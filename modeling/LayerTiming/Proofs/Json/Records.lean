import Mathlib.Data.List.Forall2
import LayerTiming.Json.Record
import LayerTiming.Proofs.Items
import LayerTiming.Proofs.Json.Numbers

/-!
# Records read back

An object that is written of named members is a record with these fields, in their order. Counter
values, texts and lists of them come back as they were.
-/
namespace LayerTiming.Json
open Number Text

namespace Value

theorem namedMembers?_some (members : List (String × Value)) :
    namedMembers? (members.map fun member => (some member.1, member.2)) = some members :=
  mapM_map_eq_some fun _ _ => rfl

/-- A record has the fields that it was written of. -/
theorem record?_ofMembers {names : List String} {members : List (String × Value)}
    (known : ∀ member ∈ members, names.contains member.1 = true)
    (distinct : (members.map Prod.fst).Nodup) :
    record? names (ofMembers members) = some members := by
  have kept : (members.filter fun field => names.contains field.1) = members :=
    List.filter_eq_self.mpr known
  rw [ofMembers, record?, namedMembers?_some]
  change (if ((members.filter fun field => names.contains field.1).map Prod.fst).Nodup then
    some (members.filter fun field => names.contains field.1) else none) = some members
  rw [kept, if_pos distinct]

theorem counter?_ofNat {n : Nat} (small : n < wordLimit) : (ofNat n).counter? = some n :=
  Scientific.counter?_ofNat small

theorem word?_ofNat (n : UInt64) : (ofNat n.toNat).word? = some n := by
  rw [word?, counter?_ofNat n.toNat_lt, Option.map_some, UInt64.ofNat_toNat]

theorem list?_ofList {α β : Type} {encode : α → Value} {decode : Value → Option β}
    {R : α → β → Prop} {items : List α} {found : List β}
    (each : ∀ item ∈ items, ∀ back, decode (encode item) = some back ↔ R item back) :
    (ofList encode items).list? decode = some found ↔ List.Forall₂ R items found := by
  rw [ofList, list?, mapM_eq_some_iff, List.forall₂_map_left_iff]
  induction items generalizing found with
  | nil => simp
  | cons item items ih =>
    obtain ⟨first, others⟩ := List.forall_mem_cons.mp each
    simp only [List.forall₂_cons_left_iff, first, ih others]

theorem list?_ofList_same {α : Type} {encode : α → Value} {decode : Value → Option α}
    {items : List α} (each : ∀ item ∈ items, decode (encode item) = some item) :
    (ofList encode items).list? decode = some items :=
  mapM_map_eq_some each

theorem areLoadable_map {α : Type} {encode : α → Value} {limit : Nat} {items : List α}
    (each : ∀ item ∈ items, (encode item).isLoadable limit = true) :
    areLoadable limit (items.map encode) = true := by
  induction items with
  | nil => rfl
  | cons item items ih =>
    obtain ⟨first, others⟩ := List.forall_mem_cons.mp each
    rw [List.map_cons, areLoadable, first, ih others]
    rfl

end Value

namespace Fields

variable {α : Type} (value : Value) (rest : Fields) (decode : Value → Option α)

@[simp] theorem need?_self (name : String) :
    need? ((name, value) :: rest) name decode = decode value := by
  simp [need?]

@[simp] theorem need?_other {name key : String} (other : name ≠ key) :
    need? ((key, value) :: rest) name decode = need? rest name decode := by
  have skipped : (name == key) = false := by simpa using other
  rw [need?, need?, List.lookup_cons, skipped]

@[simp] theorem getD?_self (name : String) (fallback : α) :
    getD? ((name, value) :: rest) name decode fallback = decode value := by
  simp [getD?]

@[simp] theorem getD?_other {name key : String} (fallback : α) (other : name ≠ key) :
    getD? ((key, value) :: rest) name decode fallback = getD? rest name decode fallback := by
  have skipped : (name == key) = false := by simpa using other
  rw [getD?, getD?, List.lookup_cons, skipped]

@[simp] theorem getD?_nil (name : String) (fallback : α) :
    getD? [] name decode fallback = some fallback := rfl

end Fields
end LayerTiming.Json
