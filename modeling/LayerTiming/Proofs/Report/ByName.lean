import Mathlib.Logic.Relation
import LayerTiming.Proofs.Json.Spacing
import LayerTiming.Proofs.Report.Reasons
import LayerTiming.Proofs.Report.RoundTrip

/-!
# Reports by name

A report file is read by the names of its members, at every depth.
-/
namespace LayerTiming
open Json Text

/-- What of a report has members with names. -/
inductive Part
  | report
  | clock
  | layer
  | drop
  | reason
  | executions
  | operation
  deriving DecidableEq, Repr, Inhabited

namespace Part

def Content : Part → Type
  | report => Report
  | clock => Clock
  | layer => Layer
  | drop => DroppedPosition
  | reason => Disagreement
  | executions => Executions
  | operation => OperationTotal

def read? : (part : Part) → Value → Option part.Content
  | report => Report.ofValue?
  | clock => Clock.ofValue?
  | layer => Layer.ofValue?
  | drop => DroppedPosition.ofValue?
  | reason => Disagreement.ofValue?
  | executions => Executions.ofValue?
  | operation => OperationTotal.ofValue?

/-- The names that belong to a part with these members. -/
def names (members : List (Option String × Value)) : Part → List String
  | report => Report.names
  | clock => ["cycles_per_tick", "cpu_freq_hz"]
  | layer => ["id", "operation", "mean_ticks", "std_ticks", "mean_cycles", "mean_ms", "ticks"]
  | drop => ["position", "reason"]
  | reason => Disagreement.names members
  | executions => ["samples", "mean_cycles", "mean_ms", "samples_ms"]
  | operation => ["operation", "total_ticks", "count", "mean_ticks"]

theorem readsByName {part : Part} (members : List (Option String × Value)) (plain : part ≠ reason) :
    ReadsByName (part.names members) part.read? := by
  cases part with
  | reason => exact absurd rfl plain
  | _ =>
    refine ⟨_, fun _ => rfl, fun a b same => ?_⟩
    simp only [Fields.need?_eq, Fields.getD?_eq, same]
    rfl

/-- The fields that are read in a way of their own, with what is taken in their absence. -/
inductive Field : Part → String → {β : Type} → Option β → (Value → Option β) → Prop
  | clock : Field report "clock" none Clock.ofValue?
  | endToEnd : Field report "end_to_end" none Executions.ofValue?
  | layers : Field report "layers" none (Value.list? Layer.ofValue?)
  | dropped : Field report "dropped_layers" (some []) (Value.list? DroppedPosition.ofValue?)
  | operations : Field report "operations" none (Value.list? OperationTotal.ofValue?)
  | reason : Field drop "reason" none Disagreement.ofValue?
  | cyclesPerTick :
    Field clock "cycles_per_tick" (some ({} : LayerTiming.Clock).cyclesPerTick) Value.word?
  | frequency : Field clock "cpu_freq_hz" (some ({} : LayerTiming.Clock).frequency) Value.word?

theorem Field.readsField {part : Part} {name : String} {β : Type} {absent : Option β}
    {given : Value → Option β} (field : Field part name absent given) :
    ReadsField (part.names []) part.read? name absent given := by
  cases field
  all_goals
    refine ⟨by decide, _, fun _ => rfl, fun a b agree same => ?_, fun a unread => ?_⟩
    · simp only [← Fields.need?_eq, ← Fields.getD?_eq] at same
      simp only [same, agree.need?, agree.getD?, ne_eq, String.reduceEq, not_false_eq_true]
      rfl
    · simp only [← Fields.need?_eq, ← Fields.getD?_eq] at unread
      simp only [unread, Option.bind_eq_bind, Option.bind_none, Option.bind_fun_none]
      rfl

/-- A part with another part under a name. -/
inductive Holds : Part → String → Part → Prop
  | clock : Holds report "clock" clock
  | endToEnd : Holds report "end_to_end" executions
  | reason : Holds drop "reason" reason

/-- A part with a list of other parts under a name. -/
inductive Lists : Part → String → Part → Prop
  | layers : Lists report "layers" layer
  | dropped : Lists report "dropped_layers" drop
  | operations : Lists report "operations" operation

/-- A member that is left out without loss. -/
inductive Spare : Part → String → Value → Prop
  | dropped : Spare report "dropped_layers" (.array [])
  | cyclesPerTick {value : Value}
    (same : value.word? = some ({} : LayerTiming.Clock).cyclesPerTick) :
    Spare clock "cycles_per_tick" value
  | frequency {value : Value}
    (same : value.word? = some ({} : LayerTiming.Clock).frequency) :
    Spare clock "cpu_freq_hz" value

/-- Another way to give a part: with its members in another order, with more members, which a reason
takes only if they can be taken into memory, without a member that is spare, or with another way to
give one of the parts inside of it. -/
inductive Rearranged : Part → Value → Value → Prop
  | permute {part : Part} {members others : List (Option String × Value)}
    (perm : members.Perm others) : Rearranged part (.object members) (.object others)
  | insert {part : Part} {front back : List (Option String × Value)} {name : String} {value : Value}
    (unknown : name ∉ part.names (front ++ back))
    (loadable : part = reason → value.isLoadable (Disagreement.nestingLimit - 1) = true) :
    Rearranged part (.object (front ++ back)) (.object (front ++ (some name, value) :: back))
  | remove {part : Part} {front back : List (Option String × Value)} {name : String} {value : Value}
    (spare : Spare part name value) :
    Rearranged part (.object (front ++ (some name, value) :: back)) (.object (front ++ back))
  | within {part inner : Part} {front back : List (Option String × Value)} {name : String}
    {value other : Value} (holds : Holds part name inner) (inside : Rearranged inner value other) :
    Rearranged part (.object (front ++ (some name, value) :: back))
      (.object (front ++ (some name, other) :: back))
  | item {part inner : Part} {front back : List (Option String × Value)} {name : String}
    {first last : List Value} {value other : Value} (lists : Lists part name inner)
    (inside : Rearranged inner value other) :
    Rearranged part (.object (front ++ (some name, .array (first ++ value :: last)) :: back))
      (.object (front ++ (some name, .array (first ++ other :: last)) :: back))

/-- A member that belongs to a part stands there twice, in the part or in one inside of it. -/
inductive Repeats : Part → Value → Prop
  | here {part : Part} {front back : List (Option String × Value)} {name : String} {value : Value}
    (belongs : name ∈ part.names (front ++ back)) (again : some name ∈ (front ++ back).map Prod.fst) :
    Repeats part (.object (front ++ (some name, value) :: back))
  | within {part inner : Part} {members : List (Option String × Value)} {name : String}
    {value : Value} (holds : Holds part name inner) (there : (some name, value) ∈ members)
    (inside : Repeats inner value) : Repeats part (.object members)
  | item {part inner : Part} {members : List (Option String × Value)} {name : String}
    {items : List Value} {value : Value} (lists : Lists part name inner)
    (there : (some name, .array items) ∈ members) (among : value ∈ items)
    (inside : Repeats inner value) : Repeats part (.object members)

variable {part inner : Part} {name : String} {members : List (Option String × Value)}
  {value document other : Value}

theorem Holds.readsField (holds : Holds part name inner) :
    ReadsField (part.names []) part.read? name none inner.read? := by
  cases holds with
  | clock => exact Field.clock.readsField
  | endToEnd => exact Field.endToEnd.readsField
  | reason => exact Field.reason.readsField

theorem Lists.readsField (lists : Lists part name inner) :
    ∃ absent, ReadsField (part.names []) part.read? name absent (Value.list? inner.read?) := by
  cases lists with
  | layers => exact ⟨_, Field.layers.readsField⟩
  | dropped => exact ⟨_, Field.dropped.readsField⟩
  | operations => exact ⟨_, Field.operations.readsField⟩

theorem Spare.remove {front back : List (Option String × Value)} {found : part.Content}
    (spare : Spare part name value)
    (accepted : part.read? (.object (front ++ (some name, value) :: back)) = some found) :
    part.read? (.object (front ++ back)) = some found := by
  cases spare with
  | dropped => exact Field.dropped.readsField.remove rfl accepted
  | cyclesPerTick same => exact Field.cyclesPerTick.readsField.remove same accepted
  | frequency same => exact Field.frequency.readsField.remove same accepted

/-- A part is read as before from what it is rearranged to. -/
theorem Rearranged.read? (rearranged : Rearranged part document other) {found : part.Content}
    (accepted : part.read? document = some found) : part.read? other = some found := by
  induction rearranged with
  | @permute part members others perm =>
    by_cases is_reason : part = reason
    · subst is_reason
      exact Disagreement.ofValue?_permute perm accepted
    · exact (readsByName members is_reason).permute perm accepted
  | @insert part front back name value unknown loadable =>
    by_cases is_reason : part = reason
    · subst is_reason
      exact Disagreement.ofValue?_insert unknown (loadable rfl) accepted
    · exact (readsByName (front ++ back) is_reason).insert unknown accepted
  | remove spare => exact spare.remove accepted
  | within holds _ ih => exact holds.readsField.replace (fun _ read => ih read) accepted
  | item lists _ ih =>
    obtain ⟨absent, reads⟩ := lists.readsField
    exact reads.replace (fun _ read => Value.list?_replace (fun _ => ih) read) accepted

theorem read?_rearranged (rearranged : Relation.ReflTransGen (Rearranged part) document other)
    {found : part.Content} (accepted : part.read? document = some found) :
    part.read? other = some found := by
  induction rearranged with
  | refl => exact accepted
  | tail _ step ih => exact step.read? ih

/-- A part with a member that is repeated is not read at all. -/
theorem Repeats.read? (repeats : Repeats part document) : part.read? document = none := by
  induction repeats with
  | @here part front back name value belongs again =>
    by_cases is_reason : part = reason
    · subst is_reason
      exact Disagreement.ofValue?_repeated belongs again
    · exact (readsByName (front ++ back) is_reason).repeated belongs again
  | within holds there _ ih =>
    refine Option.eq_none_iff_forall_ne_some.mpr fun found accepted => ?_
    obtain ⟨back, read⟩ := holds.readsField.member accepted there
    rw [ih] at read
    cases read
  | item lists there among _ ih =>
    refine Option.eq_none_iff_forall_ne_some.mpr fun found accepted => ?_
    obtain ⟨absent, reads⟩ := lists.readsField
    obtain ⟨items_read, all_read⟩ := reads.member accepted there
    obtain ⟨back, read⟩ := Value.list?_member all_read among
    rw [ih] at read
    cases read

end Part

/-! ### Documents turned around -/

namespace Json.Value

mutual

/-- A document with the members of its objects the other way round, at every depth. -/
def turned : Value → Value
  | .null => .null
  | .bool truth => .bool truth
  | .number written => .number written
  | .string text => .string text
  | .array items => .array (turnedItems items)
  | .object members => .object (turnedMembers members)

def turnedItems : List Value → List Value
  | [] => []
  | item :: rest => item.turned :: turnedItems rest

def turnedMembers : List (Option String × Value) → List (Option String × Value)
  | [] => []
  | (key, value) :: rest => turnedMembers rest ++ [(key, value.turned)]

end

@[simp]
theorem turned_ofText (text : String) : (ofText text).turned = ofText text := rfl

@[simp]
theorem turned_ofNat (n : Nat) : (ofNat n).turned = ofNat n := rfl

@[simp]
theorem turned_ofWord (n : UInt64) : (ofWord n).turned = ofWord n := rfl

@[simp]
theorem turned_ofFloat (x : Float) : (ofFloat x).turned = ofFloat x := by
  unfold ofFloat
  split <;> rfl

mutual

theorem IsProper.turned {value : Value} (proper : value.IsProper) : value.turned.IsProper := by
  cases proper with
  | null => exact .null
  | bool truth => exact .bool truth
  | number proper => exact .number proper
  | string text => exact .string text
  | array each => exact .array (isProper_turnedItems each)
  | object each => exact .object (isProper_turnedMembers each)

theorem isProper_turnedItems {items : List Value} (each : ∀ item ∈ items, item.IsProper) :
    ∀ item ∈ turnedItems items, item.IsProper := by
  cases items with
  | nil => exact each
  | cons first rest =>
    obtain ⟨proper, others⟩ := List.forall_mem_cons.mp each
    exact List.forall_mem_cons.mpr ⟨proper.turned, isProper_turnedItems others⟩

theorem isProper_turnedMembers {members : List (Option String × Value)}
    (each : ∀ member ∈ members, member.2.IsProper) :
    ∀ member ∈ turnedMembers members, member.2.IsProper := by
  cases members with
  | nil => exact each
  | cons first rest =>
    obtain ⟨proper, others⟩ := List.forall_mem_cons.mp each
    exact List.forall_mem_append.mpr
      ⟨isProper_turnedMembers others, List.forall_mem_singleton.mpr proper.turned⟩

end
end Json.Value

namespace Report

theorem load_of_read {files : FileSystem} {path : Path} {text : List Char}
    (there : files.read path = .ok (Utf8.encode text)) :
    load files path = (read? (Utf8.encode text)).elim (.error .malformed) .ok := by
  rw [load, there]
  dsimp only
  cases read? (Utf8.encode text) <;> rfl

theorem isNested_of_ofValue? {document : Value} {report : Report}
    (accepted : ofValue? document = some report) : document.IsNested := by
  cases document with
  | array items => trivial
  | object members => trivial
  | null => cases accepted
  | bool truth => cases accepted
  | number written => cases accepted
  | string text => cases accepted

/-- A report file is read by the names of its members. It may have other blanks between the same
lexemes, and its document may be rearranged at any depth. It is refused if a member is repeated, or if
anything but blanks follows. -/
theorem load_by_name {files : FileSystem} {path : Path} {text : List Char} {report : Report}
    (there : files.read path = .ok (Utf8.encode text)) (accepted : load files path = .ok report) :
    ∃ lexemes document, Spaced lexemes text ∧
      lexemes.mapM Token.ofText? = some document.tokens ∧
      ∀ (after : FileSystem) (other : List Char), after.read path = .ok (Utf8.encode other) →
        (Spaced lexemes other → load after path = .ok report) ∧
        (∀ arranged, Relation.ReflTransGen (Part.Rearranged .report) document arranged →
          Spells other arranged → load after path = .ok report) ∧
        (∀ repeated, Part.Repeats .report repeated → Spells other repeated →
          load after path = .error .malformed) ∧
        (∀ trailing, other = text ++ trailing → (∃ c ∈ trailing, isBlank c = false) →
          load after path = .error .malformed) := by
  have read : read? (Utf8.encode text) = some report := by
    rw [load_of_read there] at accepted
    cases found : read? (Utf8.encode text) with
    | none =>
      rw [found] at accepted
      cases accepted
    | some back =>
      rw [found] at accepted
      cases accepted
      rfl
  -- Another text is compared by its lexemes or by its document.
  obtain ⟨document, parsed, decoded⟩ := Option.bind_eq_some_iff.mp read
  obtain ⟨lexemes, spaced, tokens⟩ := Value.read?_eq_some_iff.mp parsed
  refine ⟨lexemes, document, spaced, tokens, fun after other other_there => ?_⟩
  rw [load_of_read other_there, read?]
  have same (arranged : Value)
      (rearranged : Relation.ReflTransGen (Part.Rearranged .report) document arranged)
      (spelled : Spells other arranged) :
      ((Value.read? (Utf8.encode other)).bind ofValue?).elim
        (Except.error OutputFault.malformed) .ok = .ok report := by
    have still_decoded : ofValue? arranged = some report := Part.read?_rearranged rearranged decoded
    rw [Value.read?_eq_some_iff.mpr spelled, Option.bind_some, still_decoded]
    rfl
  refine ⟨fun respaced => same document .refl ⟨lexemes, respaced, tokens⟩, same, ?_, ?_⟩
  · intro repeated repeats spelled
    have unread : ofValue? repeated = none := repeats.read?
    rw [Value.read?_eq_some_iff.mpr spelled, Option.bind_some, unread]
    rfl
  · rintro trailing rfl more
    rw [Value.read?_trailing parsed (isNested_of_ofValue? decoded) more]
    rfl

/-- A report with a layer and a dropped position, with the members of all its parts the other way
round. The kind of a reason then stands behind its data. -/
theorem load_by_name_reversed :
    let layer : Layer :=
      { id := 7, operation := "ADD", meanTicks := 3.0, stdTicks := 0.0, meanCycles := 3.0,
        meanMs := 3.0, ticks := [3] }
    let drop : DroppedPosition := ⟨1, .tooShort [1]⟩
    let report : Report := { source := "a", generatedAt := "b", layers := [layer], dropped := [drop] }
    let files (text : List Char) : FileSystem :=
      { entries := [(["report.json"], .file (Utf8.encode text))] }
    load (files report.write) (.ofString "report.json") = .ok report ∧
      load (files report.toValue.turned.write) (.ofString "report.json") = .ok report := by
  intro layer drop report files
  have there (text : List Char) :
      (files text).read (.ofString "report.json") = .ok (Utf8.encode text) := rfl
  have few : FewDigits 0.0 ∧ FewDigits 3.0 := by decide +kernel
  have reads : report.ReadsAs report := by
    have zero := few.1.floatReads
    have three := few.2.floatReads
    exact ⟨rfl, rfl, rfl, rfl, rfl, rfl, rfl, .cons ⟨rfl, rfl, three, zero, three, three, rfl⟩ .nil,
      rfl, ⟨rfl, zero, zero, .nil⟩, .nil, rfl⟩
  have counted : report.IsCounted := by
    have runs : drop.reason.IsCounted := by
      intro run member
      cases List.mem_singleton.mp member
      decide
    exact ⟨by decide, by decide, List.forall_mem_singleton.mpr ⟨by decide, runs⟩,
      List.forall_mem_nil _⟩
  have accepted : load (files report.write) (.ofString "report.json") = .ok report := by
    rw [load_of_read (there _), (read?_write counted).mpr reads]
    rfl
  obtain ⟨lexemes, document, spaced, tokens, others⟩ := load_by_name (there _) accepted
  -- The document is the one that was written.
  have written := Value.read?_eq_some_iff.mpr ⟨lexemes, spaced, tokens⟩
  rw [write, Value.read?_encode_write (isProper_toValue report)] at written
  cases written
  obtain ⟨_, rearranged, _⟩ := others _ _ (there _)
  refine ⟨accepted, rearranged report.toValue.turned ?turned ?spelled⟩
  case spelled =>
    have proper := (isProper_toValue report).turned
    exact Value.read?_eq_some_iff.mp (Value.read?_encode_write proper)
  case turned =>
    have turn {part : Part} (members : List (Option String × Value)) :
        Part.Rearranged part (.object members) (.object members.reverse) :=
      .permute (List.reverse_perm members).symm
    -- The parts are turned from the inside to the outside.
    refine .head (@Part.Rearranged.within .report .clock [_, _, _] _ "clock" _ _ .clock (turn _)) ?_
    refine .head (@Part.Rearranged.item .report .layer [_, _, _, _, _, _] _ "layers" [] [] _ _
      .layers (turn _)) ?_
    refine .head (@Part.Rearranged.item .report .drop [_, _, _, _, _, _, _] _ "dropped_layers" [] []
      _ _ .dropped (@Part.Rearranged.within .drop .reason [_] [] "reason" _ _ .reason (turn _))) ?_
    refine .head (@Part.Rearranged.item .report .drop [_, _, _, _, _, _, _] _ "dropped_layers" [] []
      _ _ .dropped (turn _)) ?_
    refine .head (@Part.Rearranged.within .report .executions [_, _, _, _, _, _, _, _] _ "end_to_end"
      _ _ .endToEnd (turn _)) ?_
    refine .head (turn _) ?_
    simp [report, layer, drop, toValue, modelMember, Clock.toValue, Layer.toValue,
      DroppedPosition.toValue, Disagreement.toValue, Executions.toValue, Value.ofMembers,
      Value.ofList, Value.turned, Value.turnedItems, Value.turnedMembers, Relation.ReflTransGen.refl]

end Report
end LayerTiming
