import LayerTiming.Proofs.Files.Names
import LayerTiming.Session.Analysis

/-!
# Outputs beside a capture

The outputs that are not asked for by a path go beside the capture: into its directory, under its stem
and with extensions of their own. Only a capture whose name is an extension behind two dots has no such
outputs: all three paths then lead to the directory above, where no output can be written.
-/
namespace LayerTiming

namespace Path

/-- A path in the directory of another one, with the same stem and an extension of its own. Both are
the same path only if the other one has the extension too. -/
structure IsBeside (derived path : Path) (own : String) : Prop where
  directory : derived.components.dropLast = path.components.dropLast
  stem : derived.stem? = path.stem?
  extension : derived.extension? = some own.toList
  model : derived.impliedModel? = path.impliedModel?
  same_iff : derived.same path = true ↔ path.extension? = some own.toList

variable {path derived derived' : Path} {own other : String}

theorem same_iff_components {first second : Path} :
    first.same second = true ↔ first.components = second.components := by
  rw [same, beq_iff_eq]

theorem stem?_eq_none_iff : path.stem? = none ↔ path.named? = none := by
  rw [stem?, Option.map_eq_none_iff]

/-- A name is its stem with an extension exactly if it has this extension. -/
theorem stem_append_eq_iff {name extension : List Char} :
    (splitName name).1 ++ '.' :: extension = name ↔ (splitName name).2 = some extension := by
  rcases splitName_cases name with parts | ⟨stem, found, parts, rfl, some_stem, free⟩
  · rw [parts]
    simp
  · rw [parts]
    simp [eq_comm]

/-- The last component of a path is its name. -/
theorem extension?_congr (named : derived.named? ≠ none) (named' : derived'.named? ≠ none)
    (same_components : derived.components = derived'.components) :
    derived.extension? = derived'.extension? := by
  obtain ⟨⟨front, name⟩, found⟩ := Option.ne_none_iff_exists'.mp named
  obtain ⟨⟨front', name'⟩, found'⟩ := Option.ne_none_iff_exists'.mp named'
  obtain ⟨idle, shape⟩ := exists_isNamed found
  obtain ⟨idle', shape'⟩ := exists_isNamed found'
  rw [shape.components, shape'.components] at same_components
  obtain rfl : name = name' := List.head_eq_of_cons_eq (List.append_inj' same_components rfl).2
  rw [extension?, found, extension?, found', Option.bind_some, Option.bind_some]

/-- Paths with different extensions are different paths. -/
theorem IsBeside.same_eq_false (first : derived.IsBeside path own)
    (second : derived'.IsBeside path other) (different : own ≠ other) :
    derived.same derived' = false := by
  have named {given : Path} {extension : List Char} (found : given.extension? = some extension) :
      given.named? ≠ none := by
    intro unnamed
    rw [extension?, unnamed] at found
    cases found
  rw [Bool.eq_false_iff, Ne, same_iff_components]
  intro same_components
  have extensions := extension?_congr (named first.extension) (named second.extension) same_components
  rw [first.extension, second.extension, Option.some.injEq, String.toList_inj] at extensions
  exact different extensions

/-- An extension that can be put behind a stem. -/
structure IsAddable (own : String) : Prop where
  some_char : own.toList ≠ []
  one_segment : '/' ∉ own.toList
  one_extension : '.' ∉ own.toList

theorem isBeside_withExtension (named : path.stem? ≠ none) (plain : path.endsInDots = false)
    (addable : IsAddable own) : (path.withExtension own).IsBeside path own := by
  rw [Ne, stem?_eq_none_iff] at named
  obtain ⟨⟨front, name⟩, found⟩ := Option.ne_none_iff_exists'.mp named
  obtain ⟨idle, shape⟩ := exists_isNamed found
  have derived := shape.withExtension plain addable.some_char addable.one_segment
  have some_stem := stem_ne_nil (ne_nil_of_isIdle_eq_false shape.meaning)
  have parts := splitName_append some_stem addable.one_extension
  have stem : (path.withExtension own).stem? = path.stem? := by
    rw [stem?, derived.named?, stem?, found, Option.map_some, Option.map_some, parts]
  refine ⟨?directory, stem, ?extension, ?model, ?same⟩
  case directory =>
    rw [derived.components, shape.components, List.dropLast_concat, List.dropLast_concat]
  case extension => rw [extension?, derived.named?, Option.bind_some, parts]
  case model => rw [impliedModel?, stem, impliedModel?]
  case same =>
    rw [same_iff_components, derived.components, shape.components, List.append_cancel_left_eq,
      List.singleton_inj, stem_append_eq_iff, extension?, found, Option.bind_some]

end Path

namespace Analysis
variable {analysis : Analysis}

/-- Three paths beside a capture that are different from each other. -/
structure AreBeside (outputs : Path × Path × Path) (input : Path) : Prop where
  report : outputs.1.IsBeside input "json"
  table : outputs.2.1.IsBeside input "csv"
  chart : outputs.2.2.IsBeside input "svg"
  report_table : outputs.1.same outputs.2.1 = false
  report_chart : outputs.1.same outputs.2.2 = false
  table_chart : outputs.2.1.same outputs.2.2 = false

theorem areBeside_defaultOutputs {input : Path} (named : input.stem? ≠ none)
    (plain : input.endsInDots = false) : AreBeside (defaultOutputs input) input := by
  have report : (input.withExtension "json").IsBeside input "json" :=
    Path.isBeside_withExtension named plain ⟨by decide, by decide, by decide⟩
  have table : (input.withExtension "csv").IsBeside input "csv" :=
    Path.isBeside_withExtension named plain ⟨by decide, by decide, by decide⟩
  have chart : (input.withExtension "svg").IsBeside input "svg" :=
    Path.isBeside_withExtension named plain ⟨by decide, by decide, by decide⟩
  exact ⟨report, table, chart, report.same_eq_false table (by decide),
    report.same_eq_false chart (by decide), table.same_eq_false chart (by decide)⟩

/-- Only the outputs that were not asked for are filled in, with the paths beside the capture. -/
structure Fills (analysis filled : Analysis) : Prop where
  rest : filled = { analysis with
    reportPath := filled.reportPath, tablePath := filled.tablePath, chartPath := filled.chartPath }
  report : filled.reportPath = some (analysis.reportPath.getD (defaultOutputs analysis.input).1)
  table : filled.tablePath = some (analysis.tablePath.getD (defaultOutputs analysis.input).2.1)
  chart : filled.chartPath = some (analysis.chartPath.getD (defaultOutputs analysis.input).2.2)

/-- The capture is one of the paths that are filled in. -/
def FillsInput (analysis : Analysis) : Prop :=
  let outputs := defaultOutputs analysis.input
  analysis.reportPath = none ∧ outputs.1.same analysis.input = true ∨
    analysis.tablePath = none ∧ outputs.2.1.same analysis.input = true ∨
    analysis.chartPath = none ∧ outputs.2.2.same analysis.input = true

theorem any_outputPaths_of_fillsInput (fills : analysis.FillsInput) :
    analysis.withDefaultOutputs.outputPaths.any (·.same analysis.input) = true := by
  rw [List.any_eq_true]
  rcases fills with ⟨unset, same⟩ | ⟨unset, same⟩ | ⟨unset, same⟩
  all_goals
    refine ⟨_, ?_, same⟩
    simp [outputPaths, withDefaultOutputs, unset]

/-- An analysis that would fill in its own capture is refused. -/
theorem refusal?_of_fillsInput (fills : analysis.FillsInput) (files : FileSystem) :
    analysis.withDefaultOutputs.refusal? files =
      some (if analysis.input.isEmpty then .emptyInput
        else if files.isFile analysis.input then .overwritesInput
        else .captureMissing analysis.input) := by
  have found := any_outputPaths_of_fillsInput fills
  have input : analysis.withDefaultOutputs.input = analysis.input := rfl
  unfold refusal?
  rw [input, found]
  cases analysis.input.isEmpty with
  | true => rfl
  | false => cases files.isFile analysis.input <;> rfl

/-- The outputs beside a capture. A capture with a name has them exactly if it does not end in dots,
and otherwise they are one path without a name. Without a name the paths are that of the capture. An
analysis that asks for all outputs keeps the paths that it has, and is refused if a path that is
filled in is that of its capture. -/
theorem defaultOutputs_beside (input : Path) :
    (input.stem? ≠ none → (AreBeside (defaultOutputs input) input ↔ input.endsInDots = false)) ∧
    (input.endsInDots = true →
      ∃ above, defaultOutputs input = (above, above, above) ∧ above.stem? = none) ∧
    (input.stem? = none → defaultOutputs input = (input, input, input)) ∧
    ∀ analysis : Analysis, analysis.input = input →
      analysis.Fills analysis.withDefaultOutputs ∧
      (analysis.FillsInput → ∀ files, analysis.withDefaultOutputs.refusal? files =
        some (if input.isEmpty then .emptyInput
          else if files.isFile input then .overwritesInput else .captureMissing input)) := by
  have lost (dotted : input.endsInDots = true) :
      ∃ above, defaultOutputs input = (above, above, above) ∧ above.stem? = none := by
    obtain ⟨_, unnamed, _⟩ := Path.withExtension_of_endsInDots dotted "json"
    refine ⟨input.dropExtension, ?_, Path.stem?_eq_none_iff.mpr unnamed⟩
    simp only [defaultOutputs, (Path.withExtension_of_endsInDots dotted _).1]
  refine ⟨fun named => ⟨?only, areBeside_defaultOutputs named⟩, lost, ?unnamed, ?analyses⟩
  case only =>
    intro beside
    rw [Bool.eq_false_iff]
    intro dotted
    -- The path above has no stem, but an output beside the capture has that of the capture.
    obtain ⟨above, all_above, unnamed⟩ := lost dotted
    rw [all_above] at beside
    exact named (beside.report.stem.symm.trans unnamed)
  case unnamed =>
    intro unnamed
    rw [Path.stem?_eq_none_iff] at unnamed
    simp only [defaultOutputs, Path.withExtension_of_unnamed unnamed]
  case analyses =>
    rintro analysis rfl
    exact ⟨⟨rfl, rfl, rfl, rfl⟩, refusal?_of_fillsInput⟩

/-- A capture with the name of a report is not replaced by it. Paths that end in dots or have no name
have one path for all outputs. -/
theorem defaultOutputs_beside_report :
    let capture := Path.ofString "logs/run.json"
    let dotted := Path.ofString "logs/..txt"
    let unnamed := Path.ofString "logs/.."
    let files : FileSystem :=
      { entries := [(["logs"], .directory), (["logs", "run.json"], .file [])] }
    let analysis : Analysis := { input := capture, chartPath := some unnamed }
    AreBeside (defaultOutputs capture) capture ∧
      (∃ above, defaultOutputs dotted = (above, above, above) ∧ above.stem? = none) ∧
      defaultOutputs unnamed = (unnamed, unnamed, unnamed) ∧
      analysis.Fills analysis.withDefaultOutputs ∧ analysis.FillsInput ∧
      analysis.withDefaultOutputs.refusal? files = some .overwritesInput := by
  intro capture dotted unnamed files analysis
  obtain ⟨beside, _, _, analyses⟩ := defaultOutputs_beside capture
  obtain ⟨fills, refused⟩ := analyses analysis rfl
  have same : (defaultOutputs capture).1.same capture = true := by decide
  have own : analysis.FillsInput := .inl ⟨rfl, same⟩
  have there : files.isFile capture = true := by decide
  refine ⟨(beside (by decide)).mpr (by decide), (defaultOutputs_beside dotted).2.1 (by decide),
    (defaultOutputs_beside unnamed).2.2.1 (by decide), fills, own, ?_⟩
  rw [refused own files, there]
  rfl

/-- A capture with a name has one directory for all three outputs. -/
theorem not_areBeside_of_two_dots :
    let input := Path.ofString "..txt"
    input.stem? = some ['.'] ∧
      defaultOutputs input = (.ofString "..", .ofString "..", .ofString "..") ∧
      ¬ AreBeside (defaultOutputs input) input := by
  refine ⟨by decide, by decide, ?_⟩
  intro beside
  exact absurd beside.report_table (by decide)

end Analysis
end LayerTiming
