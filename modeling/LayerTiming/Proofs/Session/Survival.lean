import LayerTiming.Proofs.Session.Acceptance
import LayerTiming.Proofs.Session.Written

/-!
# What becomes of the capture

An analysis that asks for an output under the very path of its capture is refused. Paths are compared
by their components alone, so an output may still go to the file of the capture under another
spelling, and then the capture is lost unless it held the same bytes. Otherwise it survives, whether
the analysis ends well or not.
-/
namespace LayerTiming
open Text

namespace Analysis

/-- After an analysis its capture holds the last output that was written to its file, under whatever
spelling, or else what it held before. So it survives exactly if that output says the same, and
surely if no output was asked for under a path that leads where the path of the capture leads. -/
theorem capture_survives_iff (analysis : Analysis) (session : Session)
    (accepted : analysis.refusal? session.files = none) :
    let after := (analysis.execute.runOn session).2.files
    let written := (session.files.writeOutputs (analysis.outputs session)).1
    ∃ location bytes,
      analysis.input.destination? session.files.home = some location ∧
      session.files.read analysis.input = .ok bytes ∧
      after.read analysis.input =
        .ok (Output.finalBytes session.files.home location bytes written) ∧
      (after.read analysis.input = session.files.read analysis.input ↔
        ∀ output, (Output.goingTo session.files.home location written).getLast? = some output →
          output.bytes = bytes) ∧
      ((∀ path ∈ analysis.outputPaths, path.destination? session.files.home ≠
          analysis.input.destination? session.files.home) →
        after.read analysis.input = session.files.read analysis.input) := by
  intro after written
  obtain ⟨location, bytes, located, found⟩ := exists_capture_of_accepted accepted
  have before := FileSystem.read_eq_ok_iff.mpr ⟨location, located, found⟩
  have writes : session.files.Writes written after := by
    rw [show after = _ from analysis.files_execute session]
    exact session.files.writeOutputs_writes (analysis.outputs session)
  have final : after.read analysis.input =
      .ok (Output.finalBytes session.files.home location bytes written) :=
    FileSystem.read_eq_ok_iff.mpr
      ⟨location, writes.keepsDirectories.locate located, writes.lookup_file found⟩
  have survives : after.read analysis.input = session.files.read analysis.input ↔
      ∀ output, (Output.goingTo session.files.home location written).getLast? = some output →
        output.bytes = bytes := by
    rw [final, before, Except.ok.injEq]
    unfold Output.finalBytes
    cases (Output.goingTo session.files.home location written).getLast? with
    | none => simp
    | some output => simp
  have there := FileSystem.destination?_of_locate located
  refine ⟨location, bytes, there, before, final, survives, ?_⟩
  intro elsewhere
  refine survives.mpr ?_
  intro output last
  -- An output that went to the capture would have been asked for under a path that leads there.
  obtain ⟨member, leads⟩ := List.mem_filter.mp (List.mem_of_getLast? last)
  have asked := (session.files.written_isPrefix (analysis.outputs session)).subset member
  exact absurd ((of_decide_eq_true leads).trans there.symm)
    (elsewhere output.path (analysis.path_mem_outputPaths session output asked))

/-- An analysis that asks for its report and its table in the file of its capture, each under another
spelling. -/
def respelled : Analysis where
  input := .ofString "capture.txt"
  reportPath := some (.ofString "./capture.txt")
  tablePath := some (.ofString "old/../capture.txt")

/-- Files among which that analysis is not refused. -/
def besideOld : FileSystem where
  entries := [(["old"], .directory),
    (["capture.txt"], .file (Utf8.encode "\"Event\",\"Tag\",\"Ticks\"\n0,ADD,7\n".toList))]

theorem respelled_survives_iff :
    respelled.refusal? besideOld = none ∧
      let after := (respelled.execute.runOn { files := besideOld }).2.files
      let written := (besideOld.writeOutputs (respelled.outputs { files := besideOld })).1
      ∃ location bytes,
        respelled.input.destination? besideOld.home = some location ∧
        besideOld.read respelled.input = .ok bytes ∧
        after.read respelled.input = .ok (Output.finalBytes besideOld.home location bytes written) ∧
        (after.read respelled.input = besideOld.read respelled.input ↔
          ∀ output, (Output.goingTo besideOld.home location written).getLast? = some output →
            output.bytes = bytes) ∧
        ((∀ path ∈ respelled.outputPaths, path.destination? besideOld.home ≠
            respelled.input.destination? besideOld.home) →
          after.read respelled.input = besideOld.read respelled.input) :=
  ⟨rfl, capture_survives_iff respelled { files := besideOld } rfl⟩

/-- The capture is lost, although the analysis is not refused. -/
theorem respelled_capture_lost :
    respelled.refusal? besideOld = none ∧
      (respelled.execute.runOn { files := besideOld }).2.files.read respelled.input ≠
        besideOld.read respelled.input := by
  refine ⟨rfl, ?_⟩
  intro same
  have lost : ((respelled.execute.runOn { files := besideOld }).2.files.read
      respelled.input).toOption ≠ (besideOld.read respelled.input).toOption := by
    decide +kernel
  exact lost (congrArg Except.toOption same)

end Analysis
end LayerTiming
