import LayerTiming.Proofs.Json.Members
import LayerTiming.Report.Decode

/-!
# Reasons by name

Which members belong to a reason is known only when its kind is, and the kind may stand behind them.
-/
namespace LayerTiming.Json.Value

variable {members others front back : List (Option String × Value)} {name other : String}
  {value : Value} {limit : Nat}

theorem areMembersLoadable_iff : areMembersLoadable limit members = true ↔
    ∀ member ∈ members, member.1.isSome = true ∧ member.2.isLoadable limit = true := by
  induction members with
  | nil => simp [areMembersLoadable]
  | cons member members ih =>
    rw [areMembersLoadable, List.forall_mem_cons, Bool.and_eq_true, Bool.and_eq_true, ih]

theorem mem_named : (name, value) ∈ named members ↔ (some name, value) ∈ members := by
  simp [named]

theorem mem_valuesOf :
    value ∈ valuesOf name (named members) ↔ (some name, value) ∈ members := by
  rw [← mem_named]
  simp [valuesOf]

theorem valuesOf_perm (perm : members.Perm others) (name : String) :
    (valuesOf name (named members)).Perm (valuesOf name (named others)) :=
  ((named_perm perm).filter _).map _

theorem valuesOf_append : valuesOf name (named (front ++ back)) =
    valuesOf name (named front) ++ valuesOf name (named back) := by
  simp [valuesOf, named]

theorem valuesOf_middle_other (different : name ≠ other) :
    valuesOf name (named (front ++ (some other, value) :: back)) =
      valuesOf name (named (front ++ back)) := by
  have skipped : (other == name) = false := beq_eq_false_iff_ne.mpr (Ne.symm different)
  simp [valuesOf, named, skipped]

theorem valuesOf_middle : valuesOf name (named (front ++ (some name, value) :: back)) =
    valuesOf name (named front) ++ value :: valuesOf name (named back) := by
  simp [valuesOf, named]

theorem valuesOf_repeated (again : some name ∈ (front ++ back).map Prod.fst) (data : Value) :
    valuesOf name (named (front ++ (some name, value) :: back)) ≠ [data] := by
  intro alone
  obtain ⟨⟨key, first⟩, there, rfl⟩ := List.mem_map.mp again
  have found := mem_valuesOf.mpr there
  rw [valuesOf_append] at found
  rw [valuesOf_middle] at alone
  have counted := congrArg List.length alone
  have some_other := List.length_pos_of_mem found
  simp only [List.length_append, List.length_cons, List.length_nil] at counted some_other
  omega

end LayerTiming.Json.Value

namespace LayerTiming.Disagreement
open Json

/-- The name of the data of a reason, where a member is its kind. -/
def dataName? : Option String × Value → Option String
  | (some "kind", .string (some kind)) => (dataOf? kind).map Prod.fst
  | _ => none

/-- The names of the members that belong to a reason. -/
def names (members : List (Option String × Value)) : List String :=
  "kind" :: members.filterMap dataName?

variable {members others front back : List (Option String × Value)} {name : String}
  {value : Value} {reason : Disagreement}

theorem mem_names {kind : String} {decode : Value → Option Disagreement}
    (kinds : (some "kind", .string (some kind)) ∈ members)
    (known : dataOf? kind = some (name, decode)) : name ∈ names members := by
  refine List.mem_cons_of_mem _ (List.mem_filterMap.mpr ⟨_, kinds, ?_⟩)
  rw [dataName?, known, Option.map_some]

theorem exists_kind (member : name ∈ names members) (no_kind : name ≠ "kind") :
    ∃ kind decode, (some "kind", .string (some kind)) ∈ members ∧
      dataOf? kind = some (name, decode) := by
  obtain ⟨field, there, names_data⟩ := List.mem_filterMap.mp
    ((List.mem_cons.mp member).resolve_left no_kind)
  unfold dataName? at names_data
  split at names_data
  next kind =>
    obtain ⟨⟨_, decode⟩, known, rfl⟩ := Option.map_eq_some_iff.mp names_data
    exact ⟨kind, decode, there, known⟩
  · cases names_data

theorem ofFields?_eq_some_iff {fields : Fields} : ofFields? fields = some reason ↔
    ∃ kind name decode data, Value.valuesOf "kind" fields = [.string (some kind)] ∧
      dataOf? kind = some (name, decode) ∧ Value.valuesOf name fields = [data] ∧
        decode data = some reason := by
  constructor
  · intro accepted
    unfold ofFields? at accepted
    split at accepted
    next kind kinds =>
      obtain ⟨⟨name, decode⟩, known, decoded⟩ := Option.bind_eq_some_iff.mp accepted
      dsimp only at decoded
      split at decoded
      next data named => exact ⟨kind, name, decode, data, kinds, known, named, decoded⟩
      · cases decoded
    · cases accepted
  · rintro ⟨kind, name, decode, data, kinds, known, named, decoded⟩
    rw [ofFields?, kinds]
    dsimp only
    rw [known, Option.bind_eq_bind, Option.bind_some]
    dsimp only
    rw [named]
    exact decoded

theorem ofValue?_object_eq_some_iff : ofValue? (.object members) = some reason ↔
    (∀ member ∈ members, member.1.isSome = true ∧
        member.2.isLoadable (nestingLimit - 1) = true) ∧
      ofFields? (Value.named members) = some reason := by
  -- A kept value is loaded before its kind is known, so its depth is checked for every member.
  have loadable : (Value.object members).isLoadable nestingLimit = true ↔
      ∀ member ∈ members, member.1.isSome = true ∧
        member.2.isLoadable (nestingLimit - 1) = true := by
    rw [Value.isLoadable, ← Value.areMembersLoadable_iff]
    rfl
  have texts (all : ∀ member ∈ members, member.1.isSome = true ∧
      member.2.isLoadable (nestingLimit - 1) = true) :
      Value.namedMembers? members = some (Value.named members) :=
    Value.namedMembers?_eq_some_iff.mpr ⟨fun member there => (all member there).1, rfl⟩
  have unfolded : ofValue? (.object members) =
      if (Value.object members).isLoadable nestingLimit = true then
        (Value.namedMembers? members).bind ofFields? else none := rfl
  rw [unfolded]
  constructor
  · intro accepted
    split at accepted
    next within =>
      have all := loadable.mp within
      rw [texts all] at accepted
      exact ⟨all, accepted⟩
    · cases accepted
  · rintro ⟨all, decoded⟩
    rw [if_pos (loadable.mpr all), texts all]
    exact decoded

theorem ofValue?_permute (perm : members.Perm others)
    (accepted : ofValue? (.object members) = some reason) :
    ofValue? (.object others) = some reason := by
  obtain ⟨loadable, decoded⟩ := ofValue?_object_eq_some_iff.mp accepted
  obtain ⟨kind, name, decode, data, kinds, known, named, read⟩ := ofFields?_eq_some_iff.mp decoded
  have same {key : String} {found : Value}
      (alone : Value.valuesOf key (Value.named members) = [found]) :
      Value.valuesOf key (Value.named others) = [found] :=
    List.perm_singleton.mp (alone ▸ (Value.valuesOf_perm perm key).symm)
  refine ofValue?_object_eq_some_iff.mpr ⟨fun member there => ?_, ?_⟩
  · exact loadable member (perm.mem_iff.mpr there)
  · exact ofFields?_eq_some_iff.mpr
      ⟨kind, name, decode, data, same kinds, known, same named, read⟩

/-- What belongs to no reason of the kind is passed over, as long as it can be taken into memory. -/
theorem ofValue?_insert (unknown : name ∉ names (front ++ back))
    (loadable : value.isLoadable (nestingLimit - 1) = true)
    (accepted : ofValue? (.object (front ++ back)) = some reason) :
    ofValue? (.object (front ++ (some name, value) :: back)) = some reason := by
  obtain ⟨others_loadable, decoded⟩ := ofValue?_object_eq_some_iff.mp accepted
  obtain ⟨kind, key, decode, data, kinds, known, named, read⟩ := ofFields?_eq_some_iff.mp decoded
  have kind_member : (some "kind", .string (some kind)) ∈ front ++ back :=
    Value.mem_valuesOf.mp (kinds ▸ List.mem_singleton_self _)
  have no_kind : "kind" ≠ name := by
    rintro rfl
    exact unknown List.mem_cons_self
  have no_data : key ≠ name := by
    rintro rfl
    exact unknown (mem_names kind_member known)
  refine ofValue?_object_eq_some_iff.mpr ⟨?_, ?_⟩
  · rw [List.forall_mem_append, List.forall_mem_cons]
    obtain ⟨before, behind⟩ := List.forall_mem_append.mp others_loadable
    exact ⟨before, ⟨rfl, loadable⟩, behind⟩
  · refine ofFields?_eq_some_iff.mpr ⟨kind, key, decode, data, ?_, known, ?_, read⟩
    · rw [Value.valuesOf_middle_other no_kind, kinds]
    · rw [Value.valuesOf_middle_other no_data, named]

theorem ofValue?_repeated (belongs : name ∈ names (front ++ back))
    (again : some name ∈ (front ++ back).map Prod.fst) :
    ofValue? (.object (front ++ (some name, value) :: back)) = none := by
  refine Option.eq_none_iff_forall_ne_some.mpr fun reason accepted => ?_
  obtain ⟨_, decoded⟩ := ofValue?_object_eq_some_iff.mp accepted
  obtain ⟨kind, key, decode, data, kinds, known, named, _⟩ := ofFields?_eq_some_iff.mp decoded
  by_cases is_kind : name = "kind"
  · subst is_kind
    exact Value.valuesOf_repeated again _ kinds
  · obtain ⟨other_kind, other_decode, there, other_known⟩ := exists_kind belongs is_kind
    -- There is one kind, so the repeated name is the name of its data.
    have found : (some "kind", .string (some other_kind)) ∈ front ++ (some name, value) :: back :=
      (List.mem_append.mp there).elim (List.mem_append_left _) fun later =>
        List.mem_append_right _ (List.mem_cons_of_mem _ later)
    have same := Value.mem_valuesOf.mpr found
    rw [kinds, List.mem_singleton] at same
    cases same
    rw [known] at other_known
    cases other_known
    exact Value.valuesOf_repeated again _ named

end LayerTiming.Disagreement
