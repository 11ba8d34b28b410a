import LayerTiming.Proofs.Files.Reach
import LayerTiming.Proofs.Session.Written
import LayerTiming.Proofs.Timing.Strictness

/-!
# What an analysis leaves alone

An analysis changes nothing but the outputs it was asked for, and makes no directory but those that
are missing on the way to them. One that cannot read its capture, or that stops at runs that
disagree, changes nothing at all. One that finds no layer keeps to its report.

The frame follows from the reach of outputs, since an analysis works on its files as if its outputs
were written one after the other. Its outcome is read off the three ways it can go.
-/
namespace LayerTiming
open FileSystem (ChangesOnly)

namespace Analysis

theorem stopsAt_iff (analysis : Analysis) (profile : Profile) :
    analysis.stopsAt profile = true ↔ analysis.settings.strict = true ∧ profile.dropped ≠ [] := by
  rw [stopsAt, Bool.and_eq_true, Option.isSome_iff_ne_none, Ne, profile.inconsistency?_eq_none_iff]

/-- Once an analysis writes its outputs, it no longer speaks of runs that disagree. -/
theorem failsOnly_save (analysis : Analysis) (profile : Profile) (facts : CaptureFacts) :
    Command.FailsOnly (fun failure => ∀ found, failure ≠ .inconsistentRuns found)
      (analysis.save profile facts) := by
  -- Each step may fail on its own account, but none of them speaks of the runs.
  refine Command.FailsOnly.bind ?report fun _ => Command.FailsOnly.bind ?figures fun _ =>
    Command.failsOnly_pure profile
  case report =>
    unfold saveReport
    cases analysis.reportPath with
    | none => exact Command.failsOnly_pure ()
    | some path =>
      refine Command.failsOnly_get.bind fun session => ?_
      exact Command.failsOnly_writeOutput _ path _ fun _ _ same => by cases same
  case figures =>
    unfold saveFigures
    split
    · split
      · exact Command.failsOnly_warn _
      · exact Command.failsOnly_pure ()
    · refine Command.FailsOnly.bind ?table fun _ => ?chart
      case table =>
        unfold saveTable
        cases analysis.tablePath with
        | none => exact Command.failsOnly_pure ()
        | some path =>
          refine (Command.failsOnly_require _ _ fun _ _ same => by cases same).bind fun text => ?_
          exact Command.failsOnly_writeOutput _ path text fun _ _ same => by cases same
      case chart =>
        unfold saveChart
        cases analysis.chartPath with
        | none => exact Command.failsOnly_pure ()
        | some path =>
          refine (Command.failsOnly_require _ _ fun _ _ same => by cases same).bind fun text => ?_
          exact Command.failsOnly_writeOutput _ path text fun _ _ same => by cases same

/-- Without a layer there is nothing to save but the report. -/
theorem runOn_save_of_isEmpty (analysis : Analysis) {profile : Profile} (facts : CaptureFacts)
    (session : Session) (empty : profile.isEmpty = true) :
    ∃ warnings, (analysis.save profile facts).runOn session =
      match (analysis.saveReport profile facts).runOn session with
      | (.ok (), after) => (.ok profile, { after with warnings })
      | (.error failure, after) => (.error failure, after) := by
  unfold save
  rw [Command.runOn_bind]
  rcases (analysis.saveReport profile facts).runOn session with ⟨_ | ⟨⟩, after⟩
  · exact ⟨[], rfl⟩
  · dsimp only
    rw [Command.runOn_bind, saveFigures, if_pos empty]
    -- Outputs that are skipped are spoken of, and no more.
    cases analysis.tablePath.isSome || analysis.chartPath.isSome <;> exact ⟨_, rfl⟩

/-- What is saved of a profile without a layer: the report, if it was asked for. -/
theorem save_of_isEmpty {analysis : Analysis} {profile : Profile} {facts : CaptureFacts}
    {session : Session} (empty : profile.isEmpty = true) :
    let ran := (analysis.save profile facts).runOn session
    match analysis.reportPath with
    | none => ran.1 = .ok profile ∧ ran.2.files = session.files
    | some path =>
      let written := session.files.writeOutput path
        (profile.report analysis.input.toString facts session.now).write
      ran.2.files = written.2 ∧
        ran.1 = match written.1 with
          | none => .ok profile
          | some fault => .error (.unwrittenReport fault) := by
  -- Of the three outputs only the report is made, and the rest are warnings.
  obtain ⟨warnings, saved⟩ := runOn_save_of_isEmpty analysis facts session empty
  dsimp only
  rw [saved, saveReport]
  cases analysis.reportPath with
  | none => exact ⟨rfl, rfl⟩
  | some path =>
    dsimp only
    rw [Command.runOn_bind, Command.runOn_get]
    dsimp only
    rw [Command.runOn_writeOutput]
    cases (session.files.writeOutput path
      (profile.report analysis.input.toString facts session.now).write).1 <;> exact ⟨rfl, rfl⟩

theorem changesOnly_execute (analysis : Analysis) (session : Session) :
    ChangesOnly
      (fun location => ∃ path ∈ analysis.outputPaths,
        path.destination? session.files.home = some location)
      (fun location => ∃ path ∈ analysis.outputPaths, path.LeadsThrough session.files.home location)
      session.files (analysis.execute.runOn session).2.files := by
  rw [files_execute]
  exact session.files.changesOnly_writeOutputs _ _ (analysis.path_mem_outputPaths session)

/-- With no layer only the report reaches the files, whatever other outputs were asked for. -/
theorem changesOnly_execute_of_isEmpty {analysis : Analysis} {session : Session}
    {capture : List Char} (loaded : Capture.load session.files analysis.input = .ok capture)
    (empty : (analysis.profile (analysis.relevantText capture)).isEmpty = true) :
    ChangesOnly
      (fun location => ∃ path ∈ analysis.reportPath,
        path.destination? session.files.home = some location)
      (fun location => ∃ path ∈ analysis.reportPath, path.LeadsThrough session.files.home location)
      session.files (analysis.execute.runOn session).2.files := by
  have only_report : ∀ output ∈ analysis.outputs session,
      output.path ∈ analysis.reportPath.toList := by
    intro output member
    simp only [outputs, loaded, outputsOf, empty, if_true, List.append_nil] at member
    split at member
    · cases member
    · rw [path_of_mem_reportOutputs member]
      exact List.mem_singleton_self output.path
  rw [files_execute]
  have changed := session.files.changesOnly_writeOutputs _ _ only_report
  simpa only [Option.mem_toList, Option.mem_def] using changed

/-- What an analysis does to the session it is run in. -/
theorem execute_changes_only_requested (analysis : Analysis) (session : Session) :
    let ran := analysis.execute.runOn session
    let home := session.files.home
    -- Every difference is a file that an output path leads to, or a directory made on the way.
    ChangesOnly (fun location => ∃ path ∈ analysis.outputPaths, path.destination? home = some location)
      (fun location => ∃ path ∈ analysis.outputPaths, path.LeadsThrough home location)
      session.files ran.2.files ∧
    (∀ fault, Capture.load session.files analysis.input = .error fault →
      ran = (.error (.unreadCapture fault), session)) ∧
    ∀ capture, Capture.load session.files analysis.input = .ok capture →
      let text := analysis.relevantText capture
      let profile := analysis.profile text
      ((∃ found, ran.1 = .error (.inconsistentRuns found)) ↔
        analysis.settings.strict = true ∧ profile.dropped ≠ []) ∧
      (analysis.settings.strict = true ∧ profile.dropped ≠ [] →
        ∃ found, ran = (.error (.inconsistentRuns found), session)) ∧
      (profile.layers = [] →
        ChangesOnly
          (fun location => ∃ path ∈ analysis.reportPath, path.destination? home = some location)
          (fun location => ∃ path ∈ analysis.reportPath, path.LeadsThrough home location)
          session.files ran.2.files ∧
        (¬ (analysis.settings.strict = true ∧ profile.dropped ≠ []) →
          match analysis.reportPath with
          | none => ran.1 = .ok profile ∧ ran.2.files = session.files
          | some path =>
            let written := session.files.writeOutput path
              (profile.report analysis.input.toString (analysis.facts text) session.now).write
            ran.2.files = written.2 ∧
              ran.1 = match written.1 with
                | none => .ok profile
                | some fault => .error (.unwrittenReport fault))) := by
  intro ran home
  refine ⟨analysis.changesOnly_execute session, fun _ => runOn_execute_unread, ?_⟩
  intro capture loaded text profile
  have stopped : analysis.settings.strict = true ∧ profile.dropped ≠ [] →
      ∃ found, ran = (.error (.inconsistentRuns found), session) := fun disagree =>
    runOn_execute_stopped loaded ((analysis.stopsAt_iff profile).mpr disagree)
  have goes_on (agree : ¬ (analysis.settings.strict = true ∧ profile.dropped ≠ [])) :
      ∃ printed warnings, ran = (analysis.save profile (analysis.facts text)).runOn
        { session with printed, warnings } :=
    runOn_execute_goesOn loaded
      (Bool.eq_false_iff.mpr fun stops => agree ((analysis.stopsAt_iff profile).mp stops))
  refine ⟨⟨?_, ?_⟩, stopped, ?_⟩
  · rintro ⟨found, failed⟩
    by_contra agree
    obtain ⟨printed, warnings, saved⟩ := goes_on agree
    rw [saved] at failed
    exact analysis.failsOnly_save profile (analysis.facts text) _ _ failed found rfl
  · intro disagree
    obtain ⟨found, same⟩ := stopped disagree
    exact ⟨found, by rw [same]⟩
  · intro none_kept
    have empty : profile.isEmpty = true := List.isEmpty_iff.mpr none_kept
    refine ⟨changesOnly_execute_of_isEmpty loaded empty, fun agree => ?_⟩
    obtain ⟨printed, warnings, saved⟩ := goes_on agree
    rw [saved]
    exact save_of_isEmpty empty

end Analysis
end LayerTiming
