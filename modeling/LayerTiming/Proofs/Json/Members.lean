import Mathlib.Data.List.Nodup
import LayerTiming.Proofs.Json.Records

/-!
# Members by name

A record that is given as an object is read by the names of its members: what is read depends neither
on their order nor on members with other names. A known name stands there at most once.
-/
namespace LayerTiming.Json

/-- Fields that give the same to every name but one. -/
def Fields.AgreeBut (name : String) (a b : Fields) : Prop :=
  ∀ other, other ≠ name → a.lookup other = b.lookup other

namespace Fields

variable {name : String} {value : Value} {front back a b : Fields}

theorem need?_eq {α : Type} (fields : Fields) (name : String) (decode : Value → Option α) :
    fields.need? name decode = (fields.lookup name).elim none decode := by
  rw [need?]
  cases fields.lookup name <;> rfl

theorem getD?_eq {α : Type} (fields : Fields) (name : String) (decode : Value → Option α)
    (fallback : α) : fields.getD? name decode fallback =
      (fields.lookup name).elim (some fallback) decode := by
  rw [getD?]
  cases fields.lookup name <;> rfl

theorem lookup_eq_none (absent : name ∉ a.map Prod.fst) : a.lookup name = none := by
  refine List.lookup_eq_none_iff.mpr fun field member => bne_iff_ne.mpr ?_
  rintro rfl
  exact absent (List.mem_map_of_mem member)

theorem lookup_middle (absent : name ∉ front.map Prod.fst) :
    List.lookup name (front ++ (name, value) :: back) = some value := by
  rw [List.lookup_append, lookup_eq_none absent, Option.none_or, List.lookup_cons_self]

theorem agreeBut_middle : AgreeBut name (front ++ (name, value) :: back) (front ++ back) := by
  intro other different
  have skipped : (other == name) = false := beq_eq_false_iff_ne.mpr different
  rw [List.lookup_append, List.lookup_append, List.lookup_cons, skipped]

theorem AgreeBut.symm (agree : AgreeBut name a b) : AgreeBut name b a :=
  fun other different => (agree other different).symm

theorem AgreeBut.trans {c : Fields} (first : AgreeBut name a b) (second : AgreeBut name b c) :
    AgreeBut name a c :=
  fun other different => (first other different).trans (second other different)

theorem AgreeBut.need? {α : Type} {key : String} (agree : AgreeBut name a b) (other : key ≠ name)
    (decode : Value → Option α) : a.need? key decode = b.need? key decode := by
  rw [Fields.need?, Fields.need?, agree key other]

theorem AgreeBut.getD? {α : Type} {key : String} (agree : AgreeBut name a b) (other : key ≠ name)
    (decode : Value → Option α) (fallback : α) :
    a.getD? key decode fallback = b.getD? key decode fallback := by
  rw [Fields.getD?, Fields.getD?, agree key other]

/-- Where no name stands twice, the order does not matter. -/
theorem lookup_perm (perm : a.Perm b) (once : (a.map Prod.fst).Nodup) (name : String) :
    a.lookup name = b.lookup name := by
  induction perm with
  | nil => rfl
  | cons field _ ih =>
    rw [List.map_cons, List.nodup_cons] at once
    rw [List.lookup_cons, List.lookup_cons, ih once.2]
  | swap first second rest =>
    simp only [List.map_cons, List.nodup_cons, List.mem_cons, not_or] at once
    rw [List.lookup_cons, List.lookup_cons, List.lookup_cons, List.lookup_cons]
    by_cases here : name = first.1
    · subst here
      have other : (first.1 == second.1) = false := beq_eq_false_iff_ne.mpr (Ne.symm once.1.1)
      rw [other]
    · have other : (name == first.1) = false := beq_eq_false_iff_ne.mpr here
      rw [other]
  | trans left _ ih_left ih_right =>
    have once_between := (left.map Prod.fst).nodup_iff.mp once
    rw [ih_left once, ih_right once_between]

end Fields

namespace Value

/-- The members whose keys are texts. -/
def named (members : List (Option String × Value)) : Fields :=
  members.filterMap fun member => member.1.map (·, member.2)

/-- The members of a record with these names. -/
def known (names : List String) (members : List (Option String × Value)) : Fields :=
  (named members).filter fun field => names.contains field.1

theorem namedMembers?_eq_some_iff {members : List (Option String × Value)} {fields : Fields} :
    namedMembers? members = some fields ↔
      (∀ member ∈ members, member.1.isSome = true) ∧ fields = named members := by
  induction members generalizing fields with
  | nil =>
    constructor
    · rintro ⟨⟩
      exact ⟨List.forall_mem_nil _, rfl⟩
    · rintro ⟨_, rfl⟩
      rfl
  | cons member members ih =>
    obtain ⟨key, value⟩ := member
    rw [namedMembers?] at ih ⊢
    rw [List.mapM_cons, List.forall_mem_cons]
    cases key with
    -- A key that is no text makes the whole record unreadable.
    | none => simp
    | some key =>
      constructor
      · intro read
        obtain ⟨first, here, behind⟩ := Option.bind_eq_some_iff.mp read
        cases here
        obtain ⟨others, there, same⟩ := Option.bind_eq_some_iff.mp behind
        cases same
        obtain ⟨texts, rfl⟩ := ih.mp there
        exact ⟨⟨rfl, texts⟩, rfl⟩
      · rintro ⟨⟨_, texts⟩, rfl⟩
        rw [ih.mpr ⟨texts, rfl⟩]
        rfl

variable {names : List String} {members others front back : List (Option String × Value)}
  {name : String} {value : Value} {fields : Fields}

/-- A record has its known members, each once, and the keys of the others are texts. -/
theorem record?_eq_some_iff : record? names (.object members) = some fields ↔
    (∀ member ∈ members, member.1.isSome = true) ∧ ((known names members).map Prod.fst).Nodup ∧
      fields = known names members := by
  rw [record?, Option.bind_eq_bind, Option.bind_eq_some_iff]
  constructor
  · rintro ⟨found, texts, kept⟩
    obtain ⟨all_texts, rfl⟩ := namedMembers?_eq_some_iff.mp texts
    dsimp only at kept
    split at kept
    next once => exact ⟨all_texts, once, (Option.some.inj kept).symm⟩
    · cases kept
  · rintro ⟨texts, once, rfl⟩
    refine ⟨named members, namedMembers?_eq_some_iff.mpr ⟨texts, rfl⟩, ?_⟩
    exact if_pos once

theorem named_perm (perm : members.Perm others) : (named members).Perm (named others) :=
  perm.filterMap _

theorem known_perm (perm : members.Perm others) :
    (known names members).Perm (known names others) :=
  (named_perm perm).filter _

theorem named_middle : named (front ++ (some name, value) :: back) =
    named front ++ (name, value) :: named back := by
  simp [named]

theorem known_append : known names (front ++ back) = known names front ++ known names back := by
  simp [known, named]

theorem known_middle (member : name ∈ names) : known names (front ++ (some name, value) :: back) =
    known names front ++ (name, value) :: known names back := by
  rw [known, named_middle, List.filter_append, List.filter_cons_of_pos (by simpa using member)]
  rfl

theorem known_unknown (unknown : name ∉ names) :
    known names (front ++ (some name, value) :: back) = known names (front ++ back) := by
  rw [known, named_middle, List.filter_append, List.filter_cons_of_neg (by simpa using unknown),
    known_append]
  rfl

theorem all_named_middle :
    (∀ member ∈ front ++ (some name, value) :: back, member.1.isSome = true) ↔
      ∀ member ∈ front ++ back, member.1.isSome = true := by
  simp only [List.forall_mem_append, List.forall_mem_cons, Option.isSome_some, true_and]

/-- A known member stands alone among the fields. It may have another value, or be left out. -/
theorem record?_middle (in_names : name ∈ names)
    (record : record? names (.object (front ++ (some name, value) :: back)) = some fields) :
    ∃ before behind, fields = before ++ (name, value) :: behind ∧
      name ∉ before.map Prod.fst ∧ name ∉ (before ++ behind).map Prod.fst ∧
      (∀ other, record? names (.object (front ++ (some name, other) :: back)) =
        some (before ++ (name, other) :: behind)) ∧
      record? names (.object (front ++ back)) = some (before ++ behind) := by
  obtain ⟨texts, once, rfl⟩ := record?_eq_some_iff.mp record
  have alone := once
  rw [known_middle in_names, List.map_append, List.map_cons, List.nodup_middle, ← List.map_append,
    List.nodup_cons] at alone
  obtain ⟨nowhere, once_without⟩ := alone
  have first : name ∉ (known names front).map Prod.fst := fun there =>
    nowhere (List.map_append ▸ List.mem_append_left _ there)
  refine ⟨_, _, known_middle in_names, first, nowhere, fun other => ?_, ?_⟩
  · refine record?_eq_some_iff.mpr ⟨?_, ?_, (known_middle in_names).symm⟩
    · exact all_named_middle.mpr (all_named_middle.mp texts)
    · rw [known_middle in_names] at once ⊢
      simpa using once
  · rw [record?_eq_some_iff, known_append]
    exact ⟨all_named_middle.mp texts, once_without, rfl⟩

/-- An item may be given in another way that is read the same. -/
theorem list?_replace {α : Type} {decode : Value → Option α} {first last : List Value}
    {item other : Value} {found : List α}
    (same : ∀ back, decode item = some back → decode other = some back)
    (accepted : list? decode (.array (first ++ item :: last)) = some found) :
    list? decode (.array (first ++ other :: last)) = some found := by
  rw [list?, List.mapM_append, List.mapM_cons] at accepted ⊢
  obtain ⟨before, read_before, accepted⟩ := Option.bind_eq_some_iff.mp accepted
  obtain ⟨rest, read_rest, concat⟩ := Option.bind_eq_some_iff.mp accepted
  obtain ⟨back, read_item, read_last⟩ := Option.bind_eq_some_iff.mp read_rest
  rw [read_before, same back read_item]
  refine Option.bind_eq_some_iff.mpr ⟨before, rfl, Option.bind_eq_some_iff.mpr ⟨rest, ?_, concat⟩⟩
  exact read_last

theorem list?_member {α : Type} {decode : Value → Option α} {items : List Value} {item : Value}
    {found : List α} (accepted : list? decode (.array items) = some found) (among : item ∈ items) :
    ∃ back, decode item = some back :=
  exists_forall₂_iff.mp ⟨found, mapM_eq_some_iff.mp accepted⟩ item among

end Value

section Readers

variable {α β : Type} {names : List String} {read : Value → Option α}
  {members others front back : List (Option String × Value)} {name : String} {value other : Value}
  {found : α}

/-- What reads a record by looking up its fields. -/
def ReadsByName (names : List String) (read : Value → Option α) : Prop :=
  ∃ decode : Fields → Option α, (∀ value, read value = (value.record? names).bind decode) ∧
    ∀ a b : Fields, (∀ name, a.lookup name = b.lookup name) → decode a = decode b

/-- What reads a record of which one field is read in a way of its own, with something to take in its
absence or nothing. -/
def ReadsField (names : List String) (read : Value → Option α) (name : String)
    (absent : Option β) (given : Value → Option β) : Prop :=
  name ∈ names ∧
    ∃ decode : Fields → Option α, (∀ value, read value = (value.record? names).bind decode) ∧
      (∀ a b : Fields, a.AgreeBut name b →
        (a.lookup name).elim absent given = (b.lookup name).elim absent given →
          decode a = decode b) ∧
      ∀ a : Fields, (a.lookup name).elim absent given = none → decode a = none

namespace ReadsByName

theorem permute (by_name : ReadsByName names read) (perm : members.Perm others)
    (accepted : read (.object members) = some found) : read (.object others) = some found := by
  obtain ⟨decode, shape, looks_up⟩ := by_name
  rw [shape] at accepted ⊢
  obtain ⟨fields, record, decoded⟩ := Option.bind_eq_some_iff.mp accepted
  obtain ⟨texts, once, rfl⟩ := Value.record?_eq_some_iff.mp record
  have kept : (Value.known names members).Perm (Value.known names others) := Value.known_perm perm
  have same := Fields.lookup_perm kept once
  have other_record : Value.record? names (.object others) = some (Value.known names others) := by
    refine Value.record?_eq_some_iff.mpr ⟨fun member there => ?_, ?_, rfl⟩
    · exact texts member (perm.mem_iff.mpr there)
    · exact (kept.map Prod.fst).nodup_iff.mp once
  rw [other_record, Option.bind_some, ← looks_up _ _ same, decoded]

theorem insert (by_name : ReadsByName names read) (unknown : name ∉ names)
    (accepted : read (.object (front ++ back)) = some found) :
    read (.object (front ++ (some name, value) :: back)) = some found := by
  obtain ⟨decode, shape, _⟩ := by_name
  rw [shape] at accepted ⊢
  obtain ⟨fields, record, decoded⟩ := Option.bind_eq_some_iff.mp accepted
  obtain ⟨texts, once, rfl⟩ := Value.record?_eq_some_iff.mp record
  have other_record : Value.record? names (.object (front ++ (some name, value) :: back)) =
      some (Value.known names (front ++ back)) :=
    Value.record?_eq_some_iff.mpr
      ⟨Value.all_named_middle.mpr texts, by rwa [Value.known_unknown unknown],
        (Value.known_unknown unknown).symm⟩
  rw [other_record, Option.bind_some, decoded]

/-- A known name stands at most once. -/
theorem repeated (by_name : ReadsByName names read) (in_names : name ∈ names)
    (again : some name ∈ (front ++ back).map Prod.fst) :
    read (.object (front ++ (some name, value) :: back)) = none := by
  obtain ⟨decode, shape, _⟩ := by_name
  rw [shape]
  refine Option.eq_none_iff_forall_ne_some.mpr fun found accepted => ?_
  obtain ⟨fields, record, _⟩ := Option.bind_eq_some_iff.mp accepted
  obtain ⟨before, behind, _, _, nowhere, _, without⟩ := Value.record?_middle in_names record
  obtain ⟨_, _, same⟩ := Value.record?_eq_some_iff.mp without
  obtain ⟨⟨key, other⟩, there, rfl⟩ := List.mem_map.mp again
  -- The other member with this name is among the fields too.
  refine nowhere ?_
  obtain ⟨others, more, split⟩ := List.append_of_mem there
  rw [same, split, Value.known_middle in_names]
  simp

end ReadsByName

namespace ReadsField

variable {absent : Option β} {given : Value → Option β}

/-- Such a field is read wherever the record is. -/
theorem member (reads : ReadsField names read name absent given)
    (accepted : read (.object members) = some found) (there : (some name, value) ∈ members) :
    ∃ back, given value = some back := by
  obtain ⟨in_names, decode, shape, _, strict⟩ := reads
  obtain ⟨front, back, rfl⟩ := List.append_of_mem there
  rw [shape] at accepted
  obtain ⟨fields, record, decoded⟩ := Option.bind_eq_some_iff.mp accepted
  obtain ⟨before, behind, rfl, first, _⟩ := Value.record?_middle in_names record
  refine Option.ne_none_iff_exists'.mp fun unread => ?_
  rw [strict _ (by rw [Fields.lookup_middle first]; exact unread)] at decoded
  cases decoded

/-- It may be given in another way that is read the same. -/
theorem replace (reads : ReadsField names read name absent given)
    (same : ∀ back, given value = some back → given other = some back)
    (accepted : read (.object (front ++ (some name, value) :: back)) = some found) :
    read (.object (front ++ (some name, other) :: back)) = some found := by
  obtain ⟨inner, read_inner⟩ := reads.member accepted (List.mem_append_right _ List.mem_cons_self)
  obtain ⟨in_names, decode, shape, congr, _⟩ := reads
  rw [shape] at accepted ⊢
  obtain ⟨fields, record, decoded⟩ := Option.bind_eq_some_iff.mp accepted
  obtain ⟨before, behind, rfl, first, _, replaced, _⟩ := Value.record?_middle in_names record
  rw [replaced, Option.bind_some, ← decoded]
  refine congr _ _ (Fields.agreeBut_middle.trans Fields.agreeBut_middle.symm) ?_
  rw [Fields.lookup_middle first, Fields.lookup_middle first]
  exact (same _ read_inner).trans read_inner.symm

/-- It may be left out where it is what is taken in its absence. -/
theorem remove (reads : ReadsField names read name absent given) (fallback : given value = absent)
    (accepted : read (.object (front ++ (some name, value) :: back)) = some found) :
    read (.object (front ++ back)) = some found := by
  obtain ⟨in_names, decode, shape, congr, _⟩ := reads
  rw [shape] at accepted ⊢
  obtain ⟨fields, record, decoded⟩ := Option.bind_eq_some_iff.mp accepted
  obtain ⟨before, behind, rfl, first, nowhere, _, without⟩ := Value.record?_middle in_names record
  rw [without, Option.bind_some, ← decoded]
  refine congr _ _ Fields.agreeBut_middle.symm ?_
  rw [Fields.lookup_eq_none nowhere, Fields.lookup_middle first]
  exact fallback.symm

end ReadsField
end Readers
end LayerTiming.Json
