import LayerTiming.Proofs.Json.Precision
import LayerTiming.Proofs.Json.Records
import LayerTiming.Report.Decode
import LayerTiming.Report.Encode

/-!
# The parts of a report read back

What a part of a report is read back as: the same in all texts, whole numbers and lists, with each
double read from what was written of it. A double that is not finite is written as nothing, and
nothing is no double, so a part that holds one is not read back at all.
-/
namespace LayerTiming
open Json Number Text

/-- A double and what is read from its own text. -/
def FloatReads (x back : Float) : Prop :=
  ∃ value, kind x = .finite value ∧
    (Scientific.read? (Scientific.ofBinary value).write).bind Scientific.float? = some back

/-- A finite double that is written with few digits. -/
def FewDigits (x : Float) : Prop :=
  ∃ value, kind x = .finite value ∧ (Scientific.ofBinary value).IsShort

instance (x : Float) : Decidable (FewDigits x) :=
  decidable_of_iff (∃ value ∈ (kind x).value?, (Scientific.ofBinary value).IsShort)
    (exists_congr fun _ => and_congr_left fun _ => Kind.value?_eq_some)

theorem FewDigits.floatReads {x : Float} (few : FewDigits x) : FloatReads x x := by
  obtain ⟨value, finite, short⟩ := few
  refine ⟨value, finite, ?_⟩
  rw [Scientific.read?_write (Scientific.isProper_ofBinary value), Option.bind_some,
    Scientific.float?_ofBinary finite short]

theorem float?_ofFloat {x back : Float} :
    (Value.ofFloat x).float? = some back ↔ FloatReads x back := by
  have read_back (value : Binary) : Scientific.read? (Scientific.ofBinary value).write =
      some (Scientific.ofBinary value) :=
    Scientific.read?_write (Scientific.isProper_ofBinary value)
  unfold Value.ofFloat
  cases found : kind x with
  | finite value => simp [FloatReads, found, Value.float?, read_back]
  | infinite negative => simp [FloatReads, found, Value.float?]
  | nan => simp [FloatReads, found, Value.float?]

theorem text?_ofText (text : String) : (Value.ofText text).text? = some text := rfl

theorem word?_ofWord (n : UInt64) : (ofWord n).word? = some n := Value.word?_ofNat n

theorem words_ofList (items : List UInt64) :
    (Value.ofList ofWord items).list? Value.word? = some items :=
  Value.list?_ofList_same fun n _ => word?_ofWord n

theorem verdict_ofText (verdict : Verdict) :
    Verdict.ofValue? (.ofText verdict.word) = some verdict := by
  cases verdict <;> decide

theorem Clock.ofValue?_toValue (clock : Clock) : ofValue? clock.toValue = some clock := by
  rw [ofValue?, toValue, Value.record?_ofMembers]
  · simp [word?_ofWord]
  case known => simp
  case distinct => simp

/-- A layer with its doubles as they are read back. -/
structure Layer.ReadsAs (layer back : Layer) : Prop where
  id : back.id = layer.id
  operation : back.operation = layer.operation
  meanTicks : FloatReads layer.meanTicks back.meanTicks
  stdTicks : FloatReads layer.stdTicks back.stdTicks
  meanCycles : FloatReads layer.meanCycles back.meanCycles
  meanMs : FloatReads layer.meanMs back.meanMs
  ticks : back.ticks = layer.ticks

theorem Layer.ofValue?_toValue {layer back : Layer} :
    ofValue? layer.toValue = some back ↔ layer.ReadsAs back := by
  rw [ofValue?, toValue, Value.record?_ofMembers]
  · -- What is left of the decoder is a chain of doubles.
    simp only [Fields.need?_self, Fields.need?_other, ne_eq, String.reduceEq, not_false_eq_true,
      Option.pure_def, Option.bind_eq_bind, Option.bind_some, Option.bind_eq_some_iff,
      Option.some.injEq, float?_ofFloat, word?_ofWord, words_ofList, text?_ofText]
    constructor
    · rintro ⟨a, meanTicks, b, stdTicks, c, meanCycles, d, meanMs, rfl⟩
      exact ⟨rfl, rfl, meanTicks, stdTicks, meanCycles, meanMs, rfl⟩
    · rintro ⟨id, operation, meanTicks, stdTicks, meanCycles, meanMs, ticks⟩
      refine ⟨_, meanTicks, _, stdTicks, _, meanCycles, _, meanMs, ?_⟩
      rw [← id, ← operation, ← ticks]
  case known => simp
  case distinct => simp

structure Executions.ReadsAs (found back : Executions) : Prop where
  samples : back.samples = found.samples
  meanCycles : FloatReads found.meanCycles back.meanCycles
  meanMs : FloatReads found.meanMs back.meanMs
  samplesMs : List.Forall₂ FloatReads found.samplesMs back.samplesMs

theorem floats_ofList {items back : List Float} :
    (Value.ofList Value.ofFloat items).list? Value.float? = some back ↔
      List.Forall₂ FloatReads items back :=
  Value.list?_ofList fun _ _ _ => float?_ofFloat

theorem Executions.ofValue?_toValue {found back : Executions} :
    ofValue? found.toValue = some back ↔ found.ReadsAs back := by
  rw [ofValue?, toValue, Value.record?_ofMembers]
  · simp only [Fields.need?_self, Fields.need?_other, ne_eq, String.reduceEq, not_false_eq_true,
      Option.pure_def, Option.bind_eq_bind, Option.bind_some, Option.bind_eq_some_iff,
      Option.some.injEq, float?_ofFloat, words_ofList, floats_ofList]
    constructor
    · rintro ⟨a, meanCycles, b, meanMs, c, samplesMs, rfl⟩
      exact ⟨rfl, meanCycles, meanMs, samplesMs⟩
    · rintro ⟨samples, meanCycles, meanMs, samplesMs⟩
      refine ⟨_, meanCycles, _, meanMs, _, samplesMs, ?_⟩
      rw [← samples]
  case known => simp
  case distinct => simp

structure OperationTotal.ReadsAs (entry back : OperationTotal) : Prop where
  operation : back.operation = entry.operation
  totalTicks : FloatReads entry.totalTicks back.totalTicks
  count : back.count = entry.count
  meanTicks : FloatReads entry.meanTicks back.meanTicks

theorem OperationTotal.ofValue?_toValue {entry back : OperationTotal}
    (counted : entry.count < wordLimit) :
    ofValue? entry.toValue = some back ↔ entry.ReadsAs back := by
  rw [ofValue?, toValue, Value.record?_ofMembers]
  · simp only [Fields.need?_self, Fields.need?_other, ne_eq, String.reduceEq, not_false_eq_true,
      Option.pure_def, Option.bind_eq_bind, Option.bind_some, Option.bind_eq_some_iff,
      Option.some.injEq, float?_ofFloat, text?_ofText, Value.counter?_ofNat counted]
    constructor
    · rintro ⟨a, totalTicks, b, meanTicks, rfl⟩
      exact ⟨rfl, totalTicks, rfl, meanTicks⟩
    · rintro ⟨operation, totalTicks, count, meanTicks⟩
      refine ⟨_, totalTicks, _, meanTicks, ?_⟩
      rw [← operation, ← count]
  case known => simp
  case distinct => simp

/-- A reason whose counts are machine words. -/
def Disagreement.IsCounted : Disagreement → Prop
  | .tooShort runs => ∀ run ∈ runs, run < wordLimit
  | .differentIds _ => True
  | .differentOperations _ => True

theorem isLoadable_ofNat {n limit : Nat} (small : n < wordLimit) :
    (Value.ofNat n).isLoadable limit = true := by
  rw [Value.ofNat, Value.isLoadable, Scientific.counter?_ofNat small]
  rfl

theorem isLoadable_ofList {α : Type} {encode : α → Value} {items : List α}
    (each : ∀ item ∈ items, ∀ limit, (encode item).isLoadable limit = true) (limit : Nat) :
    (Value.ofList encode items).isLoadable (limit + 1) = true := by
  rw [Value.ofList, Value.isLoadable, Value.areLoadable_map fun item member => each item member _]
  rfl

theorem Disagreement.ofFields?_eq {kind name : String} {decode : Value → Option Disagreement}
    {data : Value} {fields : Fields} (known : dataOf? kind = some (name, decode))
    (kinds : Value.valuesOf "kind" fields = [.string (some kind)])
    (named : Value.valuesOf name fields = [data]) : ofFields? fields = decode data := by
  rw [ofFields?, kinds]
  dsimp only
  rw [known]
  dsimp only [Option.bind_eq_bind, Option.bind_some]
  rw [named]

theorem Disagreement.ofValue?_ofMembers {kind name : String}
    {decode : Value → Option Disagreement} {data : Value}
    (known : dataOf? kind = some (name, decode)) (other : name ≠ "kind")
    (loadable : data.isLoadable 123 = true) :
    ofValue? (.ofMembers [("kind", .ofText kind), (name, data)]) = decode data := by
  have all_loadable : (Value.ofMembers [("kind", .ofText kind), (name, data)]).isLoadable
      nestingLimit = true := by
    simp [Value.ofMembers, Value.ofText, Value.isLoadable, Value.areMembersLoadable, nestingLimit,
      loadable]
  unfold ofValue?
  rw [if_pos all_loadable]
  change (Value.namedMembers? (List.map _ _)).bind ofFields? = decode data
  rw [Value.namedMembers?_some, Option.bind_some]
  refine ofFields?_eq known ?_ ?_
  · simp [Value.valuesOf, Value.ofText, other]
  · simp [Value.valuesOf, Ne.symm other]

theorem Disagreement.ofValue?_toValue {reason : Disagreement} (counted : reason.IsCounted) :
    ofValue? reason.toValue = some reason := by
  cases reason with
  | tooShort runs =>
    have loadable := isLoadable_ofList
      (fun run member _ => isLoadable_ofNat (counted run member)) 122
    have decoded :=
      Value.list?_ofList_same fun run member => Value.counter?_ofNat (counted run member)
    rw [toValue, ofValue?_ofMembers rfl (by decide) loadable, decoded, Option.map_some]
  | differentIds ids =>
    have loadable : (Value.ofList ofWord ids).isLoadable 123 = true :=
      isLoadable_ofList (fun id _ _ => isLoadable_ofNat id.toNat_lt) 122
    rw [toValue, ofValue?_ofMembers rfl (by decide) loadable, words_ofList, Option.map_some]
  | differentOperations operations =>
    have loadable : (Value.ofList .ofText operations).isLoadable 123 = true :=
      isLoadable_ofList (fun _ _ _ => rfl) 122
    have decoded : (Value.ofList .ofText operations).list? Value.text? = some operations :=
      Value.list?_ofList_same fun _ _ => rfl
    rw [toValue, ofValue?_ofMembers rfl (by decide) loadable, decoded, Option.map_some]

/-- A position and a reason whose counts are machine words. -/
structure DroppedPosition.IsCounted (drop : DroppedPosition) : Prop where
  position : drop.position < wordLimit
  reason : drop.reason.IsCounted

theorem DroppedPosition.ofValue?_toValue {drop : DroppedPosition} (counted : drop.IsCounted) :
    ofValue? drop.toValue = some drop := by
  rw [ofValue?, toValue, Value.record?_ofMembers]
  · simp [Value.counter?_ofNat counted.position,
      Disagreement.ofValue?_toValue counted.reason]
  case known => simp
  case distinct => simp

end LayerTiming
