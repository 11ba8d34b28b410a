import LayerTiming.Proofs.Invocation.Effective
import LayerTiming.Proofs.Toml.Tables

/-!
# Settings read back

A flat file may give any of the settings, in any order, among blank lines, comments and keys that are
not known. The settings that are read are those that are given, and the usual ones for the rest: each
constant of the clock falls back by itself, whether the file has a table for the clock or not.

## Main results

`parse_readBack`: a flat file is read as its settings, or refused for the first zero in their clock,
and no text at all is read as settings with a zero.

`Stated.exists_isSaidBy`: every choice of settings can be written, as long as its constants can.
-/
namespace LayerTiming.Settings
open Toml (Document Entries Table Value entriesOf)

/-- Entries that hold all that is given, in any order, and else nothing under a key that is known. -/
structure Holds (known : List String) (given entries : Entries) : Prop where
  distinct : entries.keys.Nodup
  present : ∀ entry ∈ given, entry ∈ entries
  others : ∀ entry ∈ entries, entry ∈ given ∨ entry.1 ∉ known

/-- Where a key is known, the entries answer as what is given. -/
theorem Holds.lookup {known : List String} {given entries : Entries}
    (holds : Holds known given entries) {key : String} (knows : key ∈ known) :
    entries.lookup key = given.lookup key := by
  cases found : given.lookup key with
  | some value =>
    obtain ⟨front, back, rfl, _⟩ := List.lookup_eq_some_iff.mp found
    exact Entries.lookup_eq_some holds.distinct (holds.present _ (by simp))
  | none =>
    refine Entries.lookup_eq_none_iff.mpr fun member => ?_
    obtain ⟨entry, among, rfl⟩ := List.mem_map.mp member
    rcases holds.others entry among with stated | unknown
    · exact Entries.lookup_eq_none_iff.mp found (List.mem_map_of_mem stated)
    · exact unknown knows

/-- What is written for a setting is read as it, and nothing as the usual one. -/
theorem setting?_map {α : Type} {decode : Value → Option α} {encode : α → Value}
    (inverse : ∀ x, decode (encode x) = some x) (fallback : α) (given : Option α) :
    setting? decode fallback (given.map encode) = some (given.getD fallback) := by
  cases given with
  | none => rfl
  | some x => exact inverse x

theorem word?_integer (n : UInt64) : word? (.integer n.toNat) = some n := by
  simp [word?]

theorem leadingEvents?_word (policy : LeadingEvents) :
    leadingEvents? (.text policy.word) = some policy := by
  cases policy <;> decide

theorem boolean?_boolean (truth : Bool) : boolean? (.boolean truth) = some truth := rfl

namespace Stated

/-- What is said in front of any header. -/
def topEntries (said : Stated) : Entries :=
  (said.leadingEvents.toList.map fun policy => ("header_policy", .text policy.word)) ++
    said.strict.toList.map fun truth => ("strict", .boolean truth)

def clockEntries (said : Stated) : Entries :=
  (said.cyclesPerTick.toList.map fun n => ("cycles_per_tick", .integer n.toNat)) ++
    said.frequency.toList.map fun n => ("cpu_freq_hz", .integer n.toNat)

/-- A flat file that says this. It needs no table for a clock of which nothing is said. Constants past
the greatest integer cannot be written. -/
structure IsSaidBy (said : Stated) (document : Document) : Prop where
  top : Holds ["clock", "header_policy", "strict"] said.topEntries (entriesOf document.top)
  clock : (document.tables = [] ∧ said.clockEntries = []) ∨
    ∃ table : Table, document.tables = [table] ∧ table.header.key.name = "clock" ∧
      Holds ["cycles_per_tick", "cpu_freq_hz"] said.clockEntries (entriesOf table.lines)

section
variable (said : Stated)

theorem lookup_header_policy :
    said.topEntries.lookup "header_policy" = said.leadingEvents.map fun policy => .text policy.word := by
  unfold topEntries
  cases said.leadingEvents <;> cases said.strict <;> simp [List.lookup_cons]

theorem lookup_strict : said.topEntries.lookup "strict" = said.strict.map .boolean := by
  unfold topEntries
  cases said.leadingEvents <;> cases said.strict <;> simp [List.lookup_cons]

theorem lookup_clock : said.topEntries.lookup "clock" = none := by
  unfold topEntries
  cases said.leadingEvents <;> cases said.strict <;> simp [List.lookup_cons]

theorem lookup_cycles_per_tick :
    said.clockEntries.lookup "cycles_per_tick" =
      said.cyclesPerTick.map fun n => .integer n.toNat := by
  unfold clockEntries
  cases said.cyclesPerTick <;> cases said.frequency <;> simp [List.lookup_cons]

theorem lookup_cpu_freq_hz :
    said.clockEntries.lookup "cpu_freq_hz" = said.frequency.map fun n => .integer n.toNat := by
  unfold clockEntries
  cases said.cyclesPerTick <;> cases said.frequency <;> simp [List.lookup_cons]

end

/-- A clock in a table is read key by key. -/
theorem clock?_table {said : Stated} {entries : Entries}
    (ticks : entries.lookup "cycles_per_tick" = said.cyclesPerTick.map fun n => .integer n.toNat)
    (frequency : entries.lookup "cpu_freq_hz" = said.frequency.map fun n => .integer n.toNat)
    (origin : Toml.Origin) : clock? (.table origin entries) = some said.settings.clock := by
  simp only [clock?, ticks, frequency, setting?_map word?_integer, Option.bind_eq_bind,
    Option.bind_some]
  rfl

section
variable {said : Stated} {document : Document} (written : said.IsSaidBy document)
include written

theorem IsSaidBy.isDistinct : document.IsDistinct := by
  have no_clock : "clock" ∉ (entriesOf document.top).keys := by
    rw [← Entries.lookup_eq_none_iff, written.top.lookup (by simp), lookup_clock]
  rcases written.clock with ⟨no_table, _⟩ | ⟨table, alone, named, holds⟩
  · refine ⟨?_, by simp [no_table]⟩
    simpa [Document.entries, no_table] using written.top.distinct
  · refine ⟨?_, by simpa [alone] using holds.distinct⟩
    have split : document.entries.keys = (entriesOf document.top).keys ++ ["clock"] := by
      simp [Document.entries, Entries.keys, Table.entry, alone, named]
    rw [split]
    exact written.top.distinct.append (by simp) (by simpa using no_clock)

/-- A clock of which nothing is said is the usual one, with a table for it or without. -/
theorem setting?_clock :
    setting? clock? {} ((document.tables.map Table.entry).lookup "clock") =
      some said.settings.clock := by
  rcases written.clock with ⟨no_table, silent⟩ | ⟨table, alone, named, holds⟩
  · -- Without a table nothing is said of either constant.
    have ticks := said.lookup_cycles_per_tick
    have frequency := said.lookup_cpu_freq_hz
    rw [silent, List.lookup_nil, eq_comm, Option.map_eq_none_iff] at ticks frequency
    simp [no_table, setting?, settings, ticks, frequency]
  · have entered : (document.tables.map Table.entry).lookup "clock" =
        some (.table .header (entriesOf table.lines)) := by
      simp [alone, Table.entry, named]
    rw [entered]
    refine clock?_table ?_ ?_ .header
    · rw [holds.lookup (by simp), lookup_cycles_per_tick]
    · rw [holds.lookup (by simp), lookup_cpu_freq_hz]

theorem ofEntries?_document : ofEntries? document.entries = some said.settings := by
  have tables {key : String} (other : key ≠ "clock") :
      (document.tables.map Table.entry).lookup key = none := by
    rw [Entries.lookup_eq_none_iff]
    rcases written.clock with ⟨no_table, _⟩ | ⟨table, alone, named, _⟩
    · simp [no_table, Entries.keys]
    · simpa [alone, Entries.keys, Table.entry, named] using other
  -- The clock is only found among the tables, everything else only in front of them.
  have clock := setting?_clock written
  have policy : document.entries.lookup "header_policy" =
      said.leadingEvents.map fun policy => .text policy.word := by
    rw [Document.entries, List.lookup_append, written.top.lookup (by simp),
      tables (by decide), Option.or_none, lookup_header_policy]
  have strict : document.entries.lookup "strict" = said.strict.map .boolean := by
    rw [Document.entries, List.lookup_append, written.top.lookup (by simp),
      tables (by decide), Option.or_none, lookup_strict]
  have table : document.entries.lookup "clock" =
      (document.tables.map Table.entry).lookup "clock" := by
    rw [Document.entries, List.lookup_append, written.top.lookup (by simp), lookup_clock,
      Option.none_or]
  simp only [ofEntries?, table, clock, policy, setting?_map leadingEvents?_word, strict,
    setting?_map boolean?_boolean, Option.bind_eq_bind, Option.bind_some]
  rfl

theorem parse_text : parse document.text = said.settings.checked := by
  unfold parse
  rw [Toml.read?_document written.isDistinct, Option.bind_some, ofEntries?_document written]

end

end Stated
open Stated

/-! ## Every choice can be written -/

/-- A line as people write it, with one blank on either side of the equals sign. -/
def spacedLine (key : Toml.BareKey) (scalar : Toml.Scalar) : Toml.Line :=
  .pair { indent := .empty, key, before := .one, after := .one, scalar, tail := .empty }

/-- The header of the table for the clock. -/
def clockHeader : Toml.Header where
  indent := .empty
  before := .empty
  key := .ofString "clock" (by decide +kernel)
  after := .empty
  tail := .empty

theorem exists_lines {entries : Entries}
    (each : ∀ entry ∈ entries, ∃ line : Toml.Line, line.entry? = some entry) :
    ∃ lines, entriesOf lines = entries := by
  induction entries with
  | nil => exact ⟨[], rfl⟩
  | cons entry entries ih =>
    obtain ⟨first, given⟩ := each entry List.mem_cons_self
    obtain ⟨lines, rfl⟩ := ih fun other among => each other (List.mem_cons_of_mem entry among)
    exact ⟨first :: lines, List.filterMap_cons_some given⟩

theorem holds_self {given : Entries} (distinct : given.keys.Nodup) (known : List String) :
    Holds known given given where
  distinct := distinct
  present := fun _ among => among
  others := fun _ among => .inl among

namespace Stated
variable (said : Stated)

theorem nodup_topEntries : said.topEntries.keys.Nodup := by
  unfold topEntries
  cases said.leadingEvents <;> cases said.strict <;> simp [Entries.keys]

theorem nodup_clockEntries : said.clockEntries.keys.Nodup := by
  unfold clockEntries
  cases said.cyclesPerTick <;> cases said.frequency <;> simp [Entries.keys]

theorem exists_top : ∃ lines, entriesOf lines = said.topEntries := by
  refine exists_lines fun entry among => ?_
  simp only [topEntries, List.mem_append, List.mem_map, Option.mem_toList] at among
  rcases among with ⟨policy, _, rfl⟩ | ⟨truth, _, rfl⟩
  · refine ⟨spacedLine (.ofString "header_policy" (by decide +kernel))
      (.text (.ofString policy.word ?_)), ?_⟩
    · cases policy <;> decide +kernel
    · cases policy <;> rfl
  · exact ⟨spacedLine (.ofString "strict" (by decide +kernel)) (.boolean truth), rfl⟩

variable (ticks : ∀ n ∈ said.cyclesPerTick, n.toNat ≤ Toml.greatestInteger)
  (frequency : ∀ n ∈ said.frequency, n.toNat ≤ Toml.greatestInteger)
include ticks frequency

theorem exists_clock : ∃ lines, entriesOf lines = said.clockEntries := by
  refine exists_lines fun entry among => ?_
  simp only [clockEntries, List.mem_append, List.mem_map, Option.mem_toList] at among
  rcases among with ⟨n, given, rfl⟩ | ⟨n, given, rfl⟩
  · have small := ticks n given
    exact ⟨spacedLine (.ofString "cycles_per_tick" (by decide +kernel))
      (.integer ⟨n.toNat, by omega, by omega⟩), rfl⟩
  · have small := frequency n given
    exact ⟨spacedLine (.ofString "cpu_freq_hz" (by decide +kernel))
      (.integer ⟨n.toNat, by omega, by omega⟩), rfl⟩

/-- Settings whose constants are integers of a file can be said by one. -/
theorem exists_isSaidBy : ∃ document, said.IsSaidBy document := by
  obtain ⟨top, top_entries⟩ := said.exists_top
  obtain ⟨lines, clock_entries⟩ := said.exists_clock ticks frequency
  let table : Table := { header := clockHeader, lines }
  refine ⟨{ top, tables := [table] }, ?_, .inr ⟨table, rfl, rfl, ?_⟩⟩
  · rw [top_entries]
    exact holds_self said.nodup_topEntries _
  · rw [clock_entries]
    exact holds_self said.nodup_clockEntries _

end Stated

/-! ## Reading back -/

/-- A flat file is read as the settings that it gives, with the usual ones for the rest, unless their
clock has a zero; then the first one is named, and the ticks go before the frequency. Whatever text
is read as settings, a check of the settings or of their clock by itself would pass. -/
theorem parse_readBack :
    (∀ (said : Stated) (document : Document), said.IsSaidBy document →
      let settings := said.settings
      (settings.clock.cyclesPerTick ≠ 0 → settings.clock.frequency ≠ 0 →
        parse document.text = .ok settings) ∧
      (settings.clock.cyclesPerTick = 0 →
        parse document.text = .error (.invalidSetting .zeroCyclesPerTick)) ∧
      (settings.clock.cyclesPerTick ≠ 0 → settings.clock.frequency = 0 →
        parse document.text = .error (.invalidSetting .zeroFrequency))) ∧
    (SettingsFault.invalidSetting .zeroCyclesPerTick).message =
      "Invalid configuration: clock.cycles_per_tick must be greater than 0" ∧
    (SettingsFault.invalidSetting .zeroFrequency).message =
      "Invalid configuration: clock.cpu_freq_hz must be greater than 0" ∧
    ∀ (text : List Char) (settings : Settings), parse text = .ok settings →
      settings.checked = .ok settings ∧
        Clock.checked settings.clock.cyclesPerTick settings.clock.frequency =
          .ok settings.clock := by
  refine ⟨fun said document written => ?_, rfl, rfl, fun text settings read => ?_⟩
  · intro settings
    rw [parse_text written]
    refine ⟨fun ticks frequency => ?_, fun zero => ?_, fun ticks zero => ?_⟩
    · have sound : said.settings.clock.fault? = none :=
        Clock.fault?_eq_none_iff.mpr ⟨ticks, frequency⟩
      simp only [checked, sound, settings]
    · have fault : said.settings.clock.fault? = some .zeroCyclesPerTick := if_pos zero
      simp only [checked, fault]
    · have fault : said.settings.clock.fault? = some .zeroFrequency :=
        (if_neg ticks).trans (if_pos zero)
      simp only [checked, fault]
  · have sound := (parse_eq_ok read).2
    refine ⟨?_, Clock.checked_eq_ok_iff.mpr ⟨rfl, sound⟩⟩
    simp only [checked, sound]

/-- Settings with a comment, a key that is not known, and nothing about ticks. -/
def boardDocument (frequency : Toml.Integer) : Document where
  top := [
    .silent ⟨.empty, some ⟨" Board".toList, List.all_eq_true.mp (by decide +kernel)⟩⟩,
    spacedLine (.ofString "revision" (by decide +kernel)) (.integer ⟨-7, by decide, by decide⟩),
    spacedLine (.ofString "strict" (by decide +kernel)) (.boolean true),
    .silent .empty]
  tables := [{
    header := clockHeader
    lines := [spacedLine (.ofString "cpu_freq_hz" (by decide +kernel)) (.integer frequency)] }]

/-- The clock keeps its usual ticks beside a frequency that is given, and a zero is named. -/
theorem parse_boardDocument :
    parse "# Board\nrevision = -7\nstrict = true\n\n[clock]\ncpu_freq_hz = 7".toList =
        .ok { clock := { cyclesPerTick := 1024, frequency := 7 }, strict := true } ∧
      parse "# Board\nrevision = -7\nstrict = true\n\n[clock]\ncpu_freq_hz = 0".toList =
        .error (.invalidSetting .zeroFrequency) := by
  have seven : (boardDocument ⟨7, by decide, by decide⟩).text =
      "# Board\nrevision = -7\nstrict = true\n\n[clock]\ncpu_freq_hz = 7".toList := by
    decide +kernel
  have zero : (boardDocument ⟨0, by decide, by decide⟩).text =
      "# Board\nrevision = -7\nstrict = true\n\n[clock]\ncpu_freq_hz = 0".toList := by
    decide +kernel
  have written {n : UInt64} (frequency : Toml.Integer) (same : frequency.value = n.toNat) :
      IsSaidBy { frequency := some n, strict := some true } (boardDocument frequency) := by
    have top : entriesOf (boardDocument frequency).top =
        [("revision", .integer (-7)), ("strict", .boolean true)] := rfl
    have clock : entriesOf [spacedLine (.ofString "cpu_freq_hz" (by decide +kernel))
        (.integer frequency)] = [("cpu_freq_hz", .integer frequency.value)] := rfl
    refine ⟨?_, .inr ⟨_, rfl, rfl, ?_⟩⟩
    · rw [top]
      exact { distinct := by decide, present := by simp [topEntries], others := by simp [topEntries] }
    · rw [clock, same]
      exact holds_self (nodup_clockEntries _) _
  rw [← seven, ← zero]
  exact ⟨(parse_readBack.1 _ _ (written _ rfl)).1 (by decide) (by decide),
    (parse_readBack.1 _ _ (written _ rfl)).2.2 (by decide) rfl⟩

end LayerTiming.Settings
