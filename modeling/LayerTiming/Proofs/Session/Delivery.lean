import LayerTiming.Proofs.Files.Extensions
import LayerTiming.Proofs.Presentation.ChartReading
import LayerTiming.Proofs.Presentation.TableReading
import LayerTiming.Proofs.Report.Bounds
import LayerTiming.Proofs.Report.Precision
import LayerTiming.Proofs.Session.Acceptance
import LayerTiming.Proofs.Session.Written

/-!
# What becomes of the outputs

An analysis writes its report, its table and its chart in this order, each in the place of what its
file held. The paths of the outputs are not compared with each other, so two outputs may go to one
file, and then only the later one is found there.
-/
namespace LayerTiming
open Json Text

/-! ### Renderings told apart -/

/-- The text of the table, if there is one. -/
def Profile.tableText (profile : Profile) : List Char :=
  Csv.write (profile.tableRows.map TableRow.cells)

theorem Report.read?_of_unlexed {text : List Char} (nothing : tokens? (text.map some) = none) :
    read? (Utf8.encode text) = none := by
  rw [read?, Value.read?, Utf8.decode_encode, Value.ofChars?, nothing]
  rfl

/-- A table begins with a word that no document knows. -/
theorem Report.read?_tableText (profile : Profile) :
    read? (Utf8.encode profile.tableText) = none := read?_of_unlexed rfl

theorem Report.read?_chartText (profile : Profile) (style : ChartStyle) :
    read? (Utf8.encode (profile.chartText style)) = none := read?_of_unlexed rfl

theorem Profile.chartText_ne_tableText (profile other : Profile) (style : ChartStyle) :
    Utf8.encode (profile.chartText style) ≠ Utf8.encode other.tableText := by
  intro same
  -- A chart begins with a bracket, and a table with a letter.
  have texts := congrArg Utf8.decode same
  rw [Utf8.decode_encode, Utf8.decode_encode] at texts
  exact absurd (List.head_eq_of_cons_eq texts) (by decide)

theorem Report.load_eq_ok_iff {files : FileSystem} {path : Path} {report : Report} :
    load files path = .ok report ↔
      ∃ bytes, files.read path = .ok bytes ∧ read? bytes = some report := by
  unfold load
  cases files.read path with
  | error fault => cases fault <;> simp
  | ok bytes =>
    cases found : read? bytes <;> simp [found]

/-! ### Outputs that are found -/

/-- An output is found under its path if no later one went to its file. If no later one can be taken
for it, it is found only then. -/
theorem FileSystem.found_iff {files after : FileSystem} {early late : List Output} {output : Output}
    (written : files.writeOutputs (early ++ output :: late) = (early ++ output :: late, after))
    {meant : List UInt8 → Prop} (others : ∀ later ∈ late, ¬ meant later.bytes) :
    (∃ bytes, after.read output.path = .ok bytes ∧ meant bytes) ↔
      (∀ later ∈ late,
        later.path.destination? files.home ≠ output.path.destination? files.home) ∧
      meant output.bytes := by
  -- What is found is either this output or the last one that went to the same file.
  rcases read_of_writeOutputs written with ⟨apart, kept⟩ | ⟨later, member, there, lost⟩
  · rw [kept]
    constructor
    · rintro ⟨_, ⟨⟩, taken⟩
      exact ⟨apart, taken⟩
    · rintro ⟨_, taken⟩
      exact ⟨output.bytes, rfl, taken⟩
  · rw [lost]
    constructor
    · rintro ⟨_, ⟨⟩, taken⟩
      exact absurd taken (others later member)
    · rintro ⟨apart, _⟩
      exact absurd there (apart later member)

theorem FileSystem.read_among_iff {files after : FileSystem} {early late : List Output}
    {path : Path} {text : List Char}
    (written : files.writeOutputs (early ++ ⟨path, text⟩ :: late) =
      (early ++ ⟨path, text⟩ :: late, after))
    (others : ∀ later ∈ late, later.bytes ≠ Utf8.encode text) :
    after.read path = .ok (Utf8.encode text) ↔
      ∀ later ∈ late, later.path.destination? files.home ≠ path.destination? files.home := by
  have found := @found_iff _ _ _ _ _ written (· = Utf8.encode text) others
  simpa only [exists_eq_right, Output.bytes, and_true] using found

/-- A report that was written along with others is read unless a later one went to its file. -/
theorem Report.load_among_iff {files after : FileSystem} {early late : List Output} {path : Path}
    {report back : Report} (counted : report.IsCounted)
    (written : files.writeOutputs (early ++ ⟨path, report.write⟩ :: late) =
      (early ++ ⟨path, report.write⟩ :: late, after))
    (unreadable : ∀ later ∈ late, read? later.bytes = none) :
    load after path = .ok back ↔
      (∀ later ∈ late, later.path.destination? files.home ≠ path.destination? files.home) ∧
      report.ReadsAs back := by
  have own : read? (Output.bytes ⟨path, report.write⟩) = some back ↔ report.ReadsAs back :=
    read?_write counted
  rw [load_eq_ok_iff, ← own]
  apply FileSystem.found_iff written
  intro later member read
  rw [unreadable later member] at read
  cases read

/-- No output that was asked for under another path goes to the file of this one. -/
def Path.ApartFrom (home : Location) (path : Path) (asked : Option Path) : Prop :=
  ∀ other ∈ asked, other.destination? home ≠ path.destination? home

/-- The output of a text, if it is asked for. -/
def Output.under (asked : Option Path) (text : List Char) : List Output :=
  (asked.map (Output.mk · text)).toList

theorem Output.under_some (path : Path) (text : List Char) :
    Output.under (some path) text = [⟨path, text⟩] := rfl

theorem Output.forall_mem_under {asked : Option Path} {text : List Char} {holds : Output → Prop} :
    (∀ output ∈ Output.under asked text, holds output) ↔ ∀ path ∈ asked, holds ⟨path, text⟩ := by
  cases asked <;> simp [under]

namespace Analysis

theorem forall_mem_outputPaths {analysis : Analysis} {holds : Path → Prop} :
    (∀ path ∈ analysis.outputPaths, holds path) ↔ (∀ path ∈ analysis.reportPath, holds path) ∧
      (∀ path ∈ analysis.tablePath, holds path) ∧ ∀ path ∈ analysis.chartPath, holds path := by
  unfold outputPaths
  cases analysis.reportPath <;> cases analysis.tablePath <;> cases analysis.chartPath <;> simp

/-- No output goes to the file of a later one. -/
structure Apart (analysis : Analysis) (home : Location) : Prop where
  report : ∀ path ∈ analysis.reportPath,
    path.ApartFrom home analysis.tablePath ∧ path.ApartFrom home analysis.chartPath
  table : ∀ path ∈ analysis.tablePath, path.ApartFrom home analysis.chartPath

/-- Outputs whose paths were all filled in do not meet, if the capture has a name to put an extension
to. -/
theorem apart_withDefaultOutputs {analysis : Analysis} {home : Location} {stem : List Char}
    (none_asked : analysis.outputPaths = [])
    (named : analysis.input.dropExtension.upToStem? = some stem)
    (leads : ∀ path ∈ analysis.withDefaultOutputs.outputPaths,
      ∃ location, path.destination? home = some location) :
    analysis.withDefaultOutputs.Apart home := by
  have json : Path.IsExtension "json".toList := ⟨by decide, by decide⟩
  have csv : Path.IsExtension "csv".toList := ⟨by decide, by decide⟩
  have svg : Path.IsExtension "svg".toList := ⟨by decide, by decide⟩
  have nothing : ∀ path ∈ analysis.outputPaths, False := none_asked ▸ List.forall_mem_nil _
  obtain ⟨no_report, no_table, no_chart⟩ := forall_mem_outputPaths.mp nothing
  have report := Option.eq_none_iff_forall_not_mem.mpr no_report
  have table := Option.eq_none_iff_forall_not_mem.mpr no_table
  have chart := Option.eq_none_iff_forall_not_mem.mpr no_chart
  -- All three paths are those beside the capture, which differ in their extensions.
  simp only [withDefaultOutputs, defaultOutputs, report, table, chart, Option.getD_none,
    Path.withExtension_of_stem named, forall_mem_outputPaths, Option.mem_some_iff,
    forall_eq'] at leads
  obtain ⟨⟨_, report_leads⟩, ⟨_, table_leads⟩, _⟩ := leads
  constructor
  all_goals
    simp only [withDefaultOutputs, defaultOutputs, report, table, chart, Option.getD_none,
      Path.withExtension_of_stem named, Path.ApartFrom, Option.mem_some_iff, forall_eq']
  · exact ⟨Path.destination?_extended_ne json csv (by decide) report_leads,
      Path.destination?_extended_ne json svg (by decide) report_leads⟩
  · exact Path.destination?_extended_ne csv svg (by decide) table_leads

/-- What is found under the paths of the outputs after an analysis, if it found a layer. -/
structure Delivers (analysis : Analysis) (home : Location) (profile : Profile) (made : Report)
    (after : FileSystem) : Prop where
  leads : ∀ path ∈ analysis.outputPaths, ∃ location, path.destination? home = some location
  readable : ∃ back, made.ReadsAs back
  /-- What is read, and when it is the very report that was made. -/
  report : ∀ path ∈ analysis.reportPath,
    let apart := path.ApartFrom home analysis.tablePath ∧ path.ApartFrom home analysis.chartPath
    (∀ back, Report.load after path = .ok back ↔ apart ∧ made.ReadsAs back) ∧
      (Report.load after path = .ok made ↔ apart ∧ ∀ x ∈ made.floats, FloatReads x x)
  table : ∀ path ∈ analysis.tablePath, ∃ text, profile.csv = .ok text ∧
    (after.read path = .ok (Utf8.encode text) ↔ path.ApartFrom home analysis.chartPath)
  /-- The chart comes last. -/
  chart : ∀ path ∈ analysis.chartPath, ∃ text,
    profile.chart { analysis.chart with model := made.model } = .ok text ∧
      after.read path = .ok (Utf8.encode text)
  /-- Nothing is lost if all paths were filled in, beside a capture that has a stem. -/
  filled : ∀ plain : Analysis, analysis = plain.withDefaultOutputs → plain.outputPaths = [] →
    (∃ stem, plain.input.dropExtension.upToStem? = some stem) → analysis.Apart home

section Outputs
variable {analysis : Analysis} {profile : Profile} {facts : CaptureFacts} {now : String}

theorem reportOutputs_eq : analysis.reportOutputs profile facts now =
    Output.under analysis.reportPath (profile.report analysis.input.toString facts now).write := by
  unfold reportOutputs
  cases analysis.reportPath <;> rfl

theorem tableOutputs_of_layers (layers : profile.layers ≠ []) :
    analysis.tableOutputs profile = Output.under analysis.tablePath profile.tableText := by
  unfold tableOutputs
  rw [Profile.csv_of_layers layers]
  cases analysis.tablePath <;> rfl

theorem chartOutputs_of_layers (layers : profile.layers ≠ [])
    (sound : ∀ path ∈ analysis.chartPath, analysis.chart.fault? = none) :
    analysis.chartOutputs profile facts = Output.under analysis.chartPath
      (profile.chartText { analysis.chart with model := facts.model }) := by
  unfold chartOutputs
  cases asked : analysis.chartPath with
  | none => rfl
  | some path =>
    have drawn : profile.chart { analysis.chart with model := facts.model } = .ok _ :=
      Profile.chart_of_layers layers (sound path asked)
    rw [drawn]
    rfl

theorem delivers_of_written {files after : FileSystem} {outputs : List Output}
    (layers : profile.layers ≠ [])
    (sound : ∀ path ∈ analysis.chartPath, analysis.chart.fault? = none)
    (readable : ∃ back, (profile.report analysis.input.toString facts now).ReadsAs back)
    (counted : (profile.report analysis.input.toString facts now).IsCounted)
    (all : outputs = analysis.reportOutputs profile facts now ++
      (analysis.tableOutputs profile ++ analysis.chartOutputs profile facts))
    (written : files.writeOutputs outputs = (outputs, after)) :
    analysis.Delivers files.home profile (profile.report analysis.input.toString facts now)
      after := by
  -- The outputs are lists of one output or none, so each stands between those before and behind it.
  generalize source_eq : profile.report analysis.input.toString facts now = made
    at readable counted ⊢
  have model : made.model = facts.model := by rw [← source_eq]; rfl
  rw [reportOutputs_eq, source_eq, tableOutputs_of_layers layers,
    chartOutputs_of_layers layers sound, ← model] at all
  clear source_eq model
  subst all
  have leads : ∀ path ∈ analysis.outputPaths,
      ∃ location, path.destination? files.home = some location := by
    have every := FileSystem.exists_destination_of_written written
    simp only [List.forall_mem_append, Output.forall_mem_under] at every
    exact forall_mem_outputPaths.mpr every
  refine ⟨leads, readable, ?report, ?table, ?chart, ?filled⟩
  case report =>
    intro path asked apart
    rw [asked, Output.under_some, List.singleton_append] at written
    -- A table or a chart in its place is no report, so it cannot be taken for one.
    have loaded (back : Report) :
        Report.load after path = .ok back ↔ apart ∧ made.ReadsAs back := by
      rw [@Report.load_among_iff _ _ [] _ _ _ back counted written]
      · rw [List.forall_mem_append, Output.forall_mem_under, Output.forall_mem_under]
        rfl
      · rw [List.forall_mem_append, Output.forall_mem_under, Output.forall_mem_under]
        exact ⟨fun _ _ => Report.read?_tableText profile,
          fun _ _ => Report.read?_chartText profile _⟩
    exact ⟨loaded, by rw [loaded, Report.readsAs_self_iff]⟩
  case table =>
    intro path asked
    refine ⟨profile.tableText, Profile.csv_of_layers layers, ?_⟩
    rw [asked, Output.under_some, List.singleton_append] at written
    rw [FileSystem.read_among_iff written]
    · rw [Output.forall_mem_under]
      rfl
    · rw [Output.forall_mem_under]
      exact fun _ _ => profile.chartText_ne_tableText profile _
  case chart =>
    intro path asked
    refine ⟨_, Profile.chart_of_layers layers (sound path asked), ?_⟩
    rw [asked, Output.under_some, ← List.append_assoc] at written
    exact (FileSystem.read_among_iff written (List.forall_mem_nil _)).mpr (List.forall_mem_nil _)
  case filled =>
    rintro plain rfl none_asked ⟨stem, named⟩
    exact apart_withDefaultOutputs none_asked named leads

end Outputs

theorem length_relevantText_le (analysis : Analysis) (capture : List Char) :
    (analysis.relevantText capture).length ≤ capture.length := by
  unfold relevantText
  split
  · exact Capture.length_sinceLastBoot_le capture
  · exact Nat.le_refl _

theorem length_lt_of_load {files : FileSystem} {path : Path} {capture : List Char}
    (small : ∀ bytes, files.read path = .ok bytes → bytes.length < wordLimit)
    (loaded : Capture.load files path = .ok capture) : capture.length < wordLimit := by
  unfold Capture.load at loaded
  split at loaded
  · cases loaded
  · split at loaded
    next bytes there =>
      cases loaded
      exact (Utf8.length_decodeSkipping_le bytes).trans_lt (small bytes there)
    · cases loaded

/-- After an analysis that was accepted and that ended well with a layer, each output that was asked
for is found under its path unless a later one went to the same file. Nothing is known of the sizes
but that the bytes of the capture can be counted with a machine word. -/
theorem execute_delivers (analysis : Analysis) (session after : Session) (profile : Profile)
    (accepted : analysis.refusal? session.files = none)
    (ran : analysis.execute.runOn session = (.ok profile, after)) (layers : profile.layers ≠ [])
    (small : ∀ bytes, session.files.read analysis.input = .ok bytes → bytes.length < wordLimit) :
    ∃ capture, Capture.load session.files analysis.input = .ok capture ∧
      let text := analysis.relevantText capture
      profile = analysis.profile text ∧
        analysis.Delivers session.files.home profile
          (profile.report analysis.input.toString (analysis.facts text) session.now)
          after.files := by
  obtain ⟨capture, loaded, rfl, goes_on, written⟩ := written_of_execute ran
  refine ⟨capture, loaded, rfl, ?_⟩
  -- Sizes and the clock are what makes the report readable.
  have short : (analysis.relevantText capture).length < wordLimit :=
    (analysis.length_relevantText_le capture).trans_lt (length_lt_of_load small loaded)
  have runs_on := frequency_ne_zero_of_accepted accepted
  have some_layer : (analysis.profile (analysis.relevantText capture)).isEmpty = false := by
    simpa [Profile.isEmpty] using layers
  apply delivers_of_written layers _ _ _ _ written
  · intro path asked
    exact chart_fault?_of_accepted accepted asked
  · exact Profile.exists_readsAs runs_on _ _ _
  · exact Profile.isCounted_ofText short _ _ _ _
  · rw [outputs, loaded]
    dsimp only [outputsOf]
    rw [goes_on, some_layer, if_neg Bool.false_ne_true, if_neg Bool.false_ne_true]

/-- An analysis that asks for every output, and for its report where the table goes beside the
capture. -/
def crossed : Analysis :=
  withDefaultOutputs
    { input := .ofString "capture.txt"
      reportPath := some (.ofString "capture.csv")
      printSummary := false }

/-- A session with the capture of a single event. -/
def besideCapture : Session where
  files.entries :=
    [(["capture.txt"], .file (Utf8.encode "\"Event\",\"Tag\",\"Ticks\"\n0,ADD,7\n".toList))]

theorem crossed_ends_well :
    ∃ profile, (crossed.execute.runOn besideCapture).1 = .ok profile ∧ profile.layers ≠ [] := by
  have ended : ((crossed.execute.runOn besideCapture).1.toOption.map fun profile =>
      profile.layers.length) = some 1 := by decide +kernel
  cases outcome : (crossed.execute.runOn besideCapture).1 with
  | error failure =>
    rw [outcome] at ended
    cases ended
  | ok profile =>
    rw [outcome] at ended
    have one : profile.layers.length = 1 := Option.some.inj ended
    exact ⟨profile, rfl, List.ne_nil_of_length_eq_add_one one⟩

theorem crossed_delivers :
    ∃ profile after, crossed.refusal? besideCapture.files = none ∧
      crossed.execute.runOn besideCapture = (.ok profile, after) ∧ profile.layers ≠ [] ∧
      ∃ capture, Capture.load besideCapture.files crossed.input = .ok capture ∧
        let text := crossed.relevantText capture
        profile = crossed.profile text ∧
          crossed.Delivers besideCapture.files.home profile
            (profile.report crossed.input.toString (crossed.facts text) besideCapture.now)
            after.files := by
  obtain ⟨profile, ended, layers⟩ := crossed_ends_well
  have ran : crossed.execute.runOn besideCapture = (.ok profile, _) := Prod.ext ended rfl
  refine ⟨profile, _, rfl, ran, layers, ?_⟩
  apply execute_delivers crossed besideCapture _ profile rfl ran layers
  intro bytes found
  cases found
  decide

/-- The report is lost to the table, although the analysis is not refused and ends well. -/
theorem crossed_report_lost :
    let ran := crossed.execute.runOn besideCapture
    crossed.refusal? besideCapture.files = none ∧
      (∃ profile, ran.1 = .ok profile ∧ profile.layers ≠ []) ∧
      ∃ path ∈ crossed.reportPath, ∀ back, Report.load ran.2.files path ≠ .ok back := by
  refine ⟨rfl, crossed_ends_well, .ofString "capture.csv", rfl, ?_⟩
  intro back loaded
  have lost : (Report.load (crossed.execute.runOn besideCapture).2.files
      (.ofString "capture.csv")).toOption.isNone = true := by decide +kernel
  rw [loaded] at lost
  cases lost

end Analysis
end LayerTiming
