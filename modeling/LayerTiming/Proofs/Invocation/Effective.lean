import LayerTiming.Invocation.Run
import LayerTiming.Proofs.Session.Acceptance
import LayerTiming.Proofs.Session.Commands

/-!
# The settings that count

A constant of the clock is taken from its option, else from the settings file, else it is the usual
one, and each constant goes its own way. A switch counts if the option or the file sets it. What
comes out is checked three times, by the reader of settings, for a clock given by options and before
the analysis, so that no analysis is run with a zero in its clock.

## Main result

`runArguments_analyze`: a command line that asks for an analysis is refused and changes nothing, or
runs exactly the analysis with the settings that count. It is run if the settings can be had and
nothing speaks against the analysis, and not otherwise.
-/
namespace LayerTiming
open Text
open Toml (Entries Value)

namespace Settings

/-- What a settings file says, with nothing where it is silent. -/
structure Stated where
  cyclesPerTick : Option UInt64 := none
  frequency : Option UInt64 := none
  leadingEvents : Option LeadingEvents := none
  strict : Option Bool := none

namespace Stated

/-- A constant of the clock, under its key in a table or at its place in an array. -/
def constant? (clock : Option Value) (key : String) (place : Nat) : Option UInt64 :=
  match clock with
  | some (.table _ constants) => (constants.lookup key).bind word?
  | some (.array constants) => constants[place]?.bind word?
  | _ => none

def ofEntries (entries : Entries) : Stated where
  cyclesPerTick := constant? (entries.lookup "clock") "cycles_per_tick" 0
  frequency := constant? (entries.lookup "clock") "cpu_freq_hz" 1
  leadingEvents := (entries.lookup "header_policy").bind leadingEvents?
  strict := (entries.lookup "strict").bind boolean?

/-- The settings of a file that says no more than this. -/
def settings (said : Stated) : Settings where
  clock :=
    { cyclesPerTick := said.cyclesPerTick.getD 1024
      frequency := said.frequency.getD 50000000 }
  leadingEvents := said.leadingEvents.getD .leftOut
  strict := said.strict.getD false

theorem leadingEvents_settings (said : Stated) :
    said.settings.leadingEvents = .ownRun ↔ said.leadingEvents = some .ownRun := by
  unfold settings
  cases said.leadingEvents <;> simp

theorem strict_settings (said : Stated) :
    said.settings.strict = true ↔ said.strict = some true := by
  unfold settings
  cases said.strict <;> simp

end Stated

theorem eq_of_setting? {α : Type} {decode : Value → Option α} {fallback found : α}
    {value : Option Value} (decoded : setting? decode fallback value = some found) :
    found = (value.bind decode).getD fallback := by
  cases value with
  | none =>
    cases decoded
    rfl
  | some value =>
    have same : decode value = some found := decoded
    rw [Option.bind_some, same, Option.getD_some]

/-- A clock is read key by key: each constant is the one that is stated, or the usual one. -/
theorem clock_of_setting? {value : Option Value} {clock : Clock}
    (decoded : setting? clock? {} value = some clock) :
    clock = {
      cyclesPerTick := (Stated.constant? value "cycles_per_tick" 0).getD 1024
      frequency := (Stated.constant? value "cpu_freq_hz" 1).getD 50000000 } := by
  -- A table has the constants by key, an array by place. A moment is taken for a table without.
  rcases value with _ | value
  · cases decoded
    rfl
  cases value with
  | table origin constants =>
    simp only [setting?, clock?, Option.bind_eq_bind, Option.bind_eq_some_iff] at decoded
    obtain ⟨ticks, first, frequency, second, last⟩ := decoded
    cases last
    rw [eq_of_setting? first, eq_of_setting? second]
    rfl
  | array constants =>
    simp only [setting?, clock?, Option.bind_eq_bind, Option.bind_eq_some_iff] at decoded
    obtain ⟨ticks, first, frequency, second, last⟩ := decoded
    cases last
    rw [eq_of_setting? first, eq_of_setting? second]
    rfl
  | moment =>
    cases decoded
    rfl
  | _ => cases decoded

theorem eq_of_ofEntries? {entries : Entries} {settings : Settings}
    (read : ofEntries? entries = some settings) :
    settings = (Stated.ofEntries entries).settings := by
  simp only [ofEntries?, Option.bind_eq_bind, Option.bind_eq_some_iff] at read
  obtain ⟨clock, clock_read, policy, policy_read, strict, strict_read, last⟩ := read
  cases last
  rw [clock_of_setting? clock_read, eq_of_setting? policy_read, eq_of_setting? strict_read]
  rfl

theorem fault?_of_checked {settings found : Settings} (passed : settings.checked = .ok found) :
    found = settings ∧ settings.clock.fault? = none := by
  unfold checked at passed
  split at passed
  · cases passed
  next sound =>
    cases passed
    exact ⟨rfl, sound⟩

/-- Settings that are read are those that are stated, and their clock has no zero. -/
theorem parse_eq_ok {text : List Char} {settings : Settings} (read : parse text = .ok settings) :
    settings = (Stated.ofEntries ((Toml.read? text).getD [])).settings ∧
      settings.clock.fault? = none := by
  unfold parse at read
  cases found : Toml.read? text with
  | none =>
    rw [found] at read
    cases read
  | some entries =>
    rw [found, Option.bind_some] at read
    cases decoded : ofEntries? entries with
    | none =>
      rw [decoded] at read
      cases read
    | some held =>
      rw [decoded] at read
      obtain ⟨rfl, sound⟩ := fault?_of_checked read
      exact ⟨eq_of_ofEntries? decoded, sound⟩

end Settings

theorem Clock.checked_eq_ok_iff {ticks frequency : UInt64} {clock : Clock} :
    Clock.checked ticks frequency = .ok clock ↔
      clock = ⟨ticks, frequency⟩ ∧ clock.fault? = none := by
  unfold Clock.checked
  dsimp only
  split
  next fault faulty =>
    constructor
    · intro passed
      cases passed
    · rintro ⟨rfl, sound⟩
      rw [sound] at faulty
      cases faulty
  next sound =>
    constructor
    · intro passed
      cases passed
      exact ⟨rfl, sound⟩
    · rintro ⟨rfl, _⟩
      rfl

namespace AnalysisRequest

/-- What the settings file that is named says, if it can be read; without one nothing is said. -/
def stated (request : AnalysisRequest) (files : FileSystem) : Settings.Stated :=
  match request.settingsPath with
  | none => {}
  | some path =>
    match files.readText path with
    | .ok text => .ofEntries ((Toml.read? text).getD [])
    | .error _ => {}

theorem mapError_eq_ok_iff {ε ε' α : Type} {outcome : Except ε α} {change : ε → ε'} {value : α} :
    outcome.mapError change = .ok value ↔ outcome = .ok value := by
  constructor
  · intro same
    cases outcome with
    | ok found =>
      cases same
      rfl
    | error fault => cases same
  · rintro rfl
    rfl

/-- Settings that are read have no zero in their clock, whatever options say. -/
theorem baseSettings_eq_ok {request : AnalysisRequest} {files : FileSystem} {base : Settings}
    (loaded : request.baseSettings files = .ok base) :
    base = (request.stated files).settings ∧ base.clock.fault? = none := by
  unfold baseSettings at loaded
  unfold stated
  cases named : request.settingsPath with
  | none =>
    rw [named] at loaded
    cases loaded
    exact ⟨rfl, by decide⟩
  | some path =>
    simp only [named, mapError_eq_ok_iff, Settings.load] at loaded ⊢
    cases held : files.readText path with
    | error fault =>
      rw [held] at loaded
      cases loaded
    | ok text =>
      rw [held] at loaded
      exact Settings.parse_eq_ok loaded

/-- A clock is checked anew only if an option changes it, but it never has a zero. -/
theorem effectiveClock_eq_ok {request : AnalysisRequest} {base clock : Clock}
    (sound : base.fault? = none) (given : request.effectiveClock base = .ok clock) :
    clock.cyclesPerTick = request.cyclesPerTick.getD base.cyclesPerTick ∧
      clock.frequency = request.frequency.getD base.frequency ∧ clock.fault? = none := by
  unfold effectiveClock at given
  split at given
  · obtain ⟨rfl, passed⟩ := Clock.checked_eq_ok_iff.mp (mapError_eq_ok_iff.mp given)
    exact ⟨rfl, rfl, passed⟩
  next unchanged =>
    cases given
    simp only [Bool.or_eq_true, not_or, Option.not_isSome_iff_eq_none] at unchanged
    rw [unchanged.1, unchanged.2]
    exact ⟨rfl, rfl, sound⟩

/-- Settings that count for a request, with what speaks for them. -/
structure Counts (request : AnalysisRequest) (said : Settings.Stated) (settings : Settings) :
    Prop where
  cyclesPerTick : settings.clock.cyclesPerTick =
    (request.cyclesPerTick.or said.cyclesPerTick).getD 1024
  frequency : settings.clock.frequency = (request.frequency.or said.frequency).getD 50000000
  leadingEvents : settings.leadingEvents = .ownRun ↔
    request.leadingRun = true ∨ said.leadingEvents = some .ownRun
  strict : settings.strict = true ↔ request.strict = true ∨ said.strict = some true
  cyclesPerTick_ne_zero : settings.clock.cyclesPerTick ≠ 0
  frequency_ne_zero : settings.clock.frequency ≠ 0
  stated_cyclesPerTick_ne_zero : said.cyclesPerTick ≠ some 0
  stated_frequency_ne_zero : said.frequency ≠ some 0

theorem getD_getD_eq_getD_or {α : Type} (first second : Option α) (usual : α) :
    first.getD (second.getD usual) = (first.or second).getD usual := by
  cases first <;> rfl

theorem counts_of_effectiveSettings {request : AnalysisRequest} {files : FileSystem}
    {settings : Settings} (found : request.effectiveSettings files = .ok settings) :
    request.Counts (request.stated files) settings := by
  unfold effectiveSettings at found
  cases loaded : request.baseSettings files with
  | error failure =>
    rw [loaded] at found
    cases found
  | ok base =>
    obtain ⟨rfl, base_sound⟩ := baseSettings_eq_ok loaded
    cases given : request.effectiveClock (request.stated files).settings.clock with
    | error failure =>
      rw [loaded] at found
      simp only [bind, Except.bind, given] at found
      cases found
    | ok clock =>
      rw [loaded] at found
      simp only [bind, Except.bind, given, pure, Except.pure] at found
      cases found
      -- Both checks have passed: the file's own clock, and the one with the options.
      obtain ⟨ticks, frequency, sound⟩ := effectiveClock_eq_ok base_sound given
      obtain ⟨ticks_some, frequency_some⟩ := Clock.fault?_eq_none_iff.mp sound
      obtain ⟨stated_ticks, stated_frequency⟩ := Clock.fault?_eq_none_iff.mp base_sound
      generalize request.stated files = said at *
      exact {
        cyclesPerTick := ticks.trans (getD_getD_eq_getD_or _ _ _)
        frequency := frequency.trans (getD_getD_eq_getD_or _ _ _)
        leadingEvents := by
          rw [← said.leadingEvents_settings]
          cases request.leadingRun <;> simp
        strict := by
          rw [← said.strict_settings, Bool.or_eq_true, or_comm]
        cyclesPerTick_ne_zero := ticks_some
        frequency_ne_zero := frequency_some
        stated_cyclesPerTick_ne_zero := by
          intro zero
          exact stated_ticks (congrArg (Option.getD · 1024) zero)
        stated_frequency_ne_zero := by
          intro zero
          exact stated_frequency (congrArg (Option.getD · 50000000) zero) }

/-- The settings for a request can be had, and nothing speaks against its analysis. -/
structure Accepts (request : AnalysisRequest) (files : FileSystem) (settings : Settings) : Prop where
  found : request.effectiveSettings files = .ok settings
  unopposed : (request.analysis settings).refusal? files = none

/-- A run is refused by the settings, or by the look at the analysis, or is that of the analysis. -/
theorem runOn_run (request : AnalysisRequest) (session : Session) :
    ((∀ settings, ¬ request.Accepts session.files settings) ∧
      ∃ failure, request.run.runOn session = (.error failure, session)) ∨
    ∃ settings, request.Accepts session.files settings ∧
      request.run.runOn session =
        (((request.analysis settings).execute >>= fun _ => pure ()).runOn session) := by
  unfold run Analysis.check
  simp only [Command.runOn_bind, Command.runOn_get]
  cases found : request.effectiveSettings session.files with
  | error failure =>
    refine .inl ⟨fun settings accepted => ?_, failure, rfl⟩
    cases found.symm.trans accepted.found
  | ok settings =>
    simp only [Command.runOn_require_ok]
    cases refused : (request.analysis settings).refusal? session.files with
    | some failure =>
      refine .inl ⟨fun others accepted => ?_, failure, rfl⟩
      cases found.symm.trans accepted.found
      cases refused.symm.trans accepted.unopposed
    | none => exact .inr ⟨settings, ⟨found, refused⟩, rfl⟩

/-- An analysis that may be run for a request: its settings count, and it is in order. -/
structure Effective (request : AnalysisRequest) (files : FileSystem) (analysis : Analysis) : Prop
    where
  counts : request.Counts (request.stated files) analysis.settings
  input : analysis.input = request.input
  present : files.isFile analysis.input = true
  summaryRows : analysis.summaryRows = (request.rows.map UInt64.toNat).getD 50
  one_le_summaryRows : 1 ≤ analysis.summaryRows
  summaryRows_le : analysis.summaryRows ≤ 1000
  chartPath : analysis.chartPath.isSome = true ↔
    request.chartPath.isSome = true ∨ request.everyOutput = true
  width : analysis.chart.width = request.width.getD 1600
  le_width : analysis.chartPath.isSome = true → 800 ≤ analysis.chart.width

section
variable (request : AnalysisRequest) (settings : Settings)

theorem analysis_settings : (request.analysis settings).settings = settings := by
  unfold analysis
  cases request.everyOutput <;> rfl

theorem analysis_input : (request.analysis settings).input = request.input := by
  unfold analysis
  cases request.everyOutput <;> rfl

theorem analysis_summaryRows : (request.analysis settings).summaryRows =
    (request.rows.map UInt64.toNat).getD 50 := by
  unfold analysis
  cases request.everyOutput <;> rfl

theorem analysis_chart : (request.analysis settings).chart = request.chart := by
  unfold analysis
  cases request.everyOutput <;> rfl

/-- A chart is drawn if a path for it is given, or every output is asked for. -/
theorem isSome_analysis_chartPath : (request.analysis settings).chartPath.isSome = true ↔
    request.chartPath.isSome = true ∨ request.everyOutput = true := by
  unfold analysis
  cases request.everyOutput <;> simp [Analysis.withDefaultOutputs]

end

theorem effective_analysis {request : AnalysisRequest} {files : FileSystem} {settings : Settings}
    (accepted : request.Accepts files settings) :
    request.Effective files (request.analysis settings) := by
  obtain ⟨_, present, _, some_row, rows, _, wide⟩ :=
    (Analysis.refusal?_eq_none_iff _ files).mp accepted.unopposed
  exact {
    counts := by
      rw [analysis_settings]
      exact counts_of_effectiveSettings accepted.found
    input := request.analysis_input settings
    present := present
    summaryRows := request.analysis_summaryRows settings
    one_le_summaryRows := some_row
    summaryRows_le := rows
    chartPath := request.isSome_analysis_chartPath settings
    width := congrArg ChartStyle.width (request.analysis_chart settings)
    le_width := fun drawn => (ChartStyle.least_of_fault? (wide drawn)).1 }

end AnalysisRequest

namespace Invocation
open AnalysisRequest

theorem runArguments_of_run {arguments : List String} {request : AnalysisRequest}
    (asked : ofArguments? arguments = some (.analyze request)) (session : Session) :
    runArguments arguments session =
      match request.run.runOn session with
      | (.ok _, after) => (.done, after)
      | (.error failure, after) => (.failed failure, after) := by
  unfold runArguments
  rw [asked]
  rfl

/-- A command line that cannot be understood changes nothing. One that asks for an analysis fails and
changes nothing, or runs an analysis under the settings that count. A zero in the clock of the file
is a failure, whatever options say, and so is a zero given by an option, whatever the file says. An
analysis that is accepted is run, and only such a one is. -/
theorem runArguments_analyze (arguments : List String) (session : Session) :
    (ofArguments? arguments = none → runArguments arguments session = (.misused, session)) ∧
    ∀ request, ofArguments? arguments = some (.analyze request) →
      let refused := ∃ failure, runArguments arguments session = (.failed failure, session)
      let runs (analysis : Analysis) := runArguments arguments session =
        match analysis.execute.runOn session with
        | (.ok _, after) => (.done, after)
        | (.error failure, after) => (.failed failure, after)
      let said := request.stated session.files
      (refused ∨ ∃ settings, request.Effective session.files (request.analysis settings) ∧
        runs (request.analysis settings)) ∧
      (said.cyclesPerTick = some 0 ∨ said.frequency = some 0 → refused) ∧
      (request.cyclesPerTick = some 0 ∨ request.frequency = some 0 → refused) ∧
      (∀ settings, request.Accepts session.files settings → runs (request.analysis settings)) ∧
      ((∀ settings, ¬ request.Accepts session.files settings) → refused) := by
  refine ⟨?_, ?_⟩
  · intro misused
    unfold runArguments
    rw [misused]
  · intro request asked refused runs said
    have ran := runArguments_of_run asked session
    rcases request.runOn_run session with ⟨never, failure, failed⟩ | ⟨settings, accepted, done⟩
    · have refusal : refused := ⟨failure, by rw [ran, failed]⟩
      exact ⟨.inl refusal, fun _ => refusal, fun _ => refusal,
        fun settings accepted => absurd accepted (never settings), fun _ => refusal⟩
    · have effective := effective_analysis accepted
      have counts := effective.counts
      rw [request.analysis_settings] at counts
      have executed : runs (request.analysis settings) := by
        change runArguments arguments session = _
        rw [ran, done, Command.runOn_bind]
        rcases (request.analysis settings).execute.runOn session with ⟨_ | _, after⟩ <;> rfl
      refine ⟨.inr ⟨settings, effective, executed⟩, ?_, ?_, fun others also => ?_,
        fun never => absurd accepted (never settings)⟩
      -- An analysis with a zero that is stated anywhere is not run.
      · rintro (zero | zero)
        · exact absurd zero counts.stated_cyclesPerTick_ne_zero
        · exact absurd zero counts.stated_frequency_ne_zero
      · rintro (zero | zero)
        · exact absurd (by rw [counts.cyclesPerTick, zero]; rfl) counts.cyclesPerTick_ne_zero
        · exact absurd (by rw [counts.frequency, zero]; rfl) counts.frequency_ne_zero
      · cases accepted.found.symm.trans also.found
        exact executed

/-- Files with settings that state both constants of the clock. -/
def besideSettings (ticks : String) : Session where
  files :=
    { entries := [
        (["a.csv"], .file (Utf8.encode "\"Event\",\"Tag\",\"Ticks\"\n0,ADD,7\n".toList)),
        (["p.toml"], .file (Utf8.encode
          ("strict = true\n[clock]\ncycles_per_tick = " ++ ticks ++ "\ncpu_freq_hz = 7").toList))] }

/-- An option goes before the file for its own constant only, but does not mend a zero there. Without
a zero the analysis ends well. -/
theorem besideSettings_analyze :
    let arguments := ["analyze", "a.csv", "--config=p.toml", "--cycles-per-tick", "+512"]
    let request : AnalysisRequest :=
      { input := .ofString "a.csv"
        settingsPath := some (.ofString "p.toml")
        cyclesPerTick := some 512 }
    ofArguments? arguments = some (.analyze request) ∧
      (∃ settings, request.Effective (besideSettings "3").files (request.analysis settings) ∧
        settings.clock = ⟨512, 7⟩ ∧ settings.strict = true) ∧
      (runArguments arguments (besideSettings "3")).1.code = 0 ∧
      ∃ failure, runArguments arguments (besideSettings "0") =
        (.failed failure, besideSettings "0") := by
  intro arguments request
  have asked : ofArguments? arguments = some (.analyze request) := by decide +kernel
  have done : (runArguments arguments (besideSettings "3")).1.code = 0 := by decide +kernel
  have zero : (request.stated (besideSettings "0").files).cyclesPerTick = some 0 := by
    decide +kernel
  have seven : (request.stated (besideSettings "3").files).frequency = some 7 := by decide +kernel
  have strict : (request.stated (besideSettings "3").files).strict = some true := by
    decide +kernel
  refine ⟨asked, ?_, done, ?_⟩
  · obtain ⟨⟨failure, failed⟩ | ⟨settings, effective, _⟩, _⟩ :=
      (runArguments_analyze arguments (besideSettings "3")).2 request asked
    · rw [failed] at done
      cases done
    · have counts := effective.counts
      rw [request.analysis_settings] at counts
      refine ⟨settings, effective, ?_, counts.strict.mpr (.inr strict)⟩
      have ticks : settings.clock.cyclesPerTick = 512 := counts.cyclesPerTick
      have frequency : settings.clock.frequency = 7 := by rw [counts.frequency, seven]; rfl
      rcases settings with ⟨⟨_, _⟩, _, _⟩
      rw [← ticks, ← frequency]
  · exact ((runArguments_analyze arguments (besideSettings "0")).2 request asked).2.1 (.inl zero)

end Invocation
end LayerTiming
