import LayerTiming.Proofs.Session.Commands
import LayerTiming.Session.Analysis

/-!
# What an analysis writes

An analysis works on the files of its session as if its outputs were written one after the other, up
to the first that cannot be written. Which outputs those are is decided before any of them is
written.
-/
namespace LayerTiming
open Text

namespace Analysis

/-- The report, if it is asked for. -/
def reportOutputs (analysis : Analysis) (profile : Profile) (facts : CaptureFacts) (now : String) :
    List Output :=
  match analysis.reportPath with
  | none => []
  | some path => [⟨path, (profile.report analysis.input.toString facts now).write⟩]

/-- The table, if it is asked for and can be made. -/
def tableOutputs (analysis : Analysis) (profile : Profile) : List Output :=
  match analysis.tablePath, profile.csv with
  | some path, .ok text => [⟨path, text⟩]
  | _, _ => []

/-- The chart, if it is asked for and can be drawn. -/
def chartOutputs (analysis : Analysis) (profile : Profile) (facts : CaptureFacts) : List Output :=
  match analysis.chartPath, profile.chart { analysis.chart with model := facts.model } with
  | some path, .ok text => [⟨path, text⟩]
  | _, _ => []

/-- Whether an analysis stops before it writes anything, since positions were dropped. -/
def stopsAt (analysis : Analysis) (profile : Profile) : Bool :=
  analysis.settings.strict && profile.inconsistency?.isSome

/-- The outputs of an analysis of a text. -/
def outputsOf (analysis : Analysis) (text : List Char) (now : String) : List Output :=
  let profile := analysis.profile text
  let facts := analysis.facts text
  if analysis.stopsAt profile then []
  else
    analysis.reportOutputs profile facts now ++
      if profile.isEmpty then []
      else analysis.tableOutputs profile ++ analysis.chartOutputs profile facts

/-- The outputs of an analysis in a session, from what its capture holds there. -/
def outputs (analysis : Analysis) (session : Session) : List Output :=
  match Capture.load session.files analysis.input with
  | .error _ => []
  | .ok capture => analysis.outputsOf (analysis.relevantText capture) session.now

theorem path_of_mem_reportOutputs {analysis : Analysis} {profile : Profile} {facts : CaptureFacts}
    {now : String} {output : Output} (member : output ∈ analysis.reportOutputs profile facts now) :
    analysis.reportPath = some output.path := by
  unfold reportOutputs at member
  split at member
  · cases member
  next path asked => rw [asked, List.mem_singleton.mp member]

theorem path_of_mem_tableOutputs {analysis : Analysis} {profile : Profile} {output : Output}
    (member : output ∈ analysis.tableOutputs profile) :
    analysis.tablePath = some output.path := by
  unfold tableOutputs at member
  split at member
  next path text asked _ => rw [asked, List.mem_singleton.mp member]
  · cases member

theorem path_of_mem_chartOutputs {analysis : Analysis} {profile : Profile} {facts : CaptureFacts}
    {output : Output} (member : output ∈ analysis.chartOutputs profile facts) :
    analysis.chartPath = some output.path := by
  unfold chartOutputs at member
  split at member
  next path text asked _ => rw [asked, List.mem_singleton.mp member]
  · cases member

/-- Every output of an analysis has a path that was asked for. -/
theorem path_mem_outputPaths (analysis : Analysis) (session : Session) (output : Output)
    (member : output ∈ analysis.outputs session) : output.path ∈ analysis.outputPaths := by
  unfold outputs outputsOf at member
  split at member
  · cases member
  · dsimp only at member
    split at member
    · cases member
    · rcases List.mem_append.mp member with report | figure
      · simp [outputPaths, path_of_mem_reportOutputs report]
      · split at figure
        · cases figure
        · rcases List.mem_append.mp figure with table | chart
          · simp [outputPaths, path_of_mem_tableOutputs table]
          · simp [outputPaths, path_of_mem_chartOutputs chart]

/-! ### The steps of an analysis -/

theorem saves_saveReport (analysis : Analysis) (profile : Profile) (facts : CaptureFacts)
    (session : Session) :
    Command.Saves (analysis.saveReport profile facts) session
      (analysis.reportOutputs profile facts session.now) := by
  unfold saveReport reportOutputs
  cases analysis.reportPath with
  | none => exact Command.saves_pure session
  | some path =>
    refine (Command.saves_writeOutput .unwrittenReport path _ session).congr ?_
    rw [Command.runOn_bind, Command.runOn_get]

theorem saves_saveTable (analysis : Analysis) (profile : Profile) (session : Session)
    (layers : profile.isEmpty = false) :
    Command.Saves (analysis.saveTable profile) session (analysis.tableOutputs profile) := by
  have made : profile.csv = .ok (Csv.write (profile.tableRows.map TableRow.cells)) := by
    rw [Profile.csv, layers]
    rfl
  unfold saveTable tableOutputs
  cases analysis.tablePath with
  | none => exact Command.saves_pure session
  | some path =>
    rw [made]
    refine (Command.saves_writeOutput .unwrittenTable path _ session).congr ?_
    rw [Command.runOn_bind, Command.runOn_require_ok]

theorem files_saveChart (analysis : Analysis) (profile : Profile) (facts : CaptureFacts)
    (session : Session) :
    ((analysis.saveChart profile facts).runOn session).2.files =
      (session.files.writeOutputs (analysis.chartOutputs profile facts)).2 := by
  unfold saveChart chartOutputs
  cases analysis.chartPath with
  | none => rfl
  | some path =>
    dsimp only
    cases profile.chart { analysis.chart with model := facts.model } with
    | error fault =>
      rw [Command.runOn_bind, Command.runOn_require_error]
      rfl
    | ok text =>
      rw [Command.runOn_bind, Command.runOn_require_ok]
      exact (Command.saves_writeOutput .unwrittenChart path text session).files

theorem files_saveFigures (analysis : Analysis) (profile : Profile) (facts : CaptureFacts)
    (session : Session) :
    ((analysis.saveFigures profile facts).runOn session).2.files =
      (session.files.writeOutputs
        (if profile.isEmpty then []
          else analysis.tableOutputs profile ++ analysis.chartOutputs profile facts)).2 := by
  unfold saveFigures
  cases layers : profile.isEmpty with
  | true =>
    simp only [if_true]
    split <;> rfl
  | false =>
    simp only [Bool.false_eq_true, if_false]
    exact (analysis.saves_saveTable profile session layers).files_bind
      (analysis.files_saveChart profile facts _)

theorem written_of_saveChart {analysis : Analysis} {profile : Profile} {facts : CaptureFacts}
    {session : Session} (ended : ((analysis.saveChart profile facts).runOn session).1 = .ok ()) :
    (session.files.writeOutputs (analysis.chartOutputs profile facts)).1 =
      analysis.chartOutputs profile facts := by
  unfold saveChart at ended
  unfold chartOutputs
  cases asked : analysis.chartPath with
  | none => rfl
  | some path =>
    rw [asked] at ended
    dsimp only at ended ⊢
    rw [Command.runOn_bind] at ended
    cases drawn : profile.chart { analysis.chart with model := facts.model } with
    | error fault =>
      rw [drawn, Command.runOn_require_error] at ended
      cases ended
    | ok text =>
      rw [drawn, Command.runOn_require_ok] at ended
      exact (Command.saves_writeOutput .unwrittenChart path text session).complete.mp ended

theorem written_of_saveFigures {analysis : Analysis} {profile : Profile} {facts : CaptureFacts}
    {session : Session} (ended : ((analysis.saveFigures profile facts).runOn session).1 = .ok ()) :
    let figures := if profile.isEmpty then []
      else analysis.tableOutputs profile ++ analysis.chartOutputs profile facts
    (session.files.writeOutputs figures).1 = figures := by
  intro figures
  unfold saveFigures at ended
  cases layers : profile.isEmpty with
  | true =>
    rw [show figures = [] from if_pos layers]
    rfl
  | false =>
    rw [layers, if_neg Bool.false_ne_true] at ended
    rw [show figures = _ from if_neg (Bool.eq_false_iff.mp layers)]
    exact (analysis.saves_saveTable profile session layers).written_bind written_of_saveChart ended

/-- Speaking of dropped positions stops a strict analysis, and else only gives a warning. -/
theorem tellDropped_cases (analysis : Analysis) (profile : Profile) (session : Session) :
    (analysis.stopsAt profile = true ∧ ∃ found, (analysis.tellDropped profile).runOn session =
      (.error (.inconsistentRuns found), session)) ∨
    (analysis.stopsAt profile = false ∧ ∃ warnings, (analysis.tellDropped profile).runOn session =
      (.ok (), { session with warnings })) := by
  unfold stopsAt tellDropped
  cases profile.inconsistency? with
  | none => exact .inr ⟨Bool.and_false _, session.warnings, rfl⟩
  | some found =>
    cases analysis.settings.strict with
    | true => exact .inl ⟨rfl, found, rfl⟩
    | false => exact .inr ⟨rfl, _, rfl⟩

/-- What is left to do once the summary has been printed. -/
def save (analysis : Analysis) (profile : Profile) (facts : CaptureFacts) : Command Profile := do
  analysis.saveReport profile facts
  analysis.saveFigures profile facts
  pure profile

theorem files_save (analysis : Analysis) (profile : Profile) (facts : CaptureFacts)
    (session : Session) :
    ((analysis.save profile facts).runOn session).2.files =
      (session.files.writeOutputs
        (analysis.reportOutputs profile facts session.now ++
          if profile.isEmpty then []
          else analysis.tableOutputs profile ++ analysis.chartOutputs profile facts)).2 := by
  refine (analysis.saves_saveReport profile facts session).files_bind ?_
  rw [← analysis.files_saveFigures profile facts, Command.runOn_bind]
  rcases (analysis.saveFigures profile facts).runOn _ with ⟨_ | _, after⟩ <;> rfl

theorem written_of_save {analysis : Analysis} {profile given : Profile} {facts : CaptureFacts}
    {session : Session} (ended : ((analysis.save profile facts).runOn session).1 = .ok given) :
    given = profile ∧
      let outputs := analysis.reportOutputs profile facts session.now ++
        if profile.isEmpty then []
        else analysis.tableOutputs profile ++ analysis.chartOutputs profile facts
      (session.files.writeOutputs outputs).1 = outputs := by
  obtain ⟨_, _, figures_ended⟩ := Command.exists_of_runOn_bind ended
  obtain ⟨_, _, last⟩ := Command.exists_of_runOn_bind figures_ended
  cases last
  refine ⟨rfl, (analysis.saves_saveReport profile facts session).written_bind ?_ ended⟩
  intro rest_ended
  obtain ⟨_, figures_ended, _⟩ := Command.exists_of_runOn_bind rest_ended
  exact written_of_saveFigures figures_ended

/-! ### The three ways an analysis can go -/

theorem runOn_execute_unread {analysis : Analysis} {session : Session} {fault : CaptureFault}
    (unread : Capture.load session.files analysis.input = .error fault) :
    analysis.execute.runOn session = (.error (.unreadCapture fault), session) := by
  unfold execute
  rw [Command.runOn_bind, Command.runOn_get]
  dsimp only
  rw [unread, Command.runOn_bind, Command.runOn_require_error]

theorem runOn_execute_stopped {analysis : Analysis} {session : Session} {capture : List Char}
    (loaded : Capture.load session.files analysis.input = .ok capture)
    (stops : analysis.stopsAt (analysis.profile (analysis.relevantText capture)) = true) :
    ∃ found, analysis.execute.runOn session = (.error (.inconsistentRuns found), session) := by
  unfold execute
  simp only [Command.runOn_bind, Command.runOn_get, loaded, Command.runOn_require_ok]
  generalize analysis.profile (analysis.relevantText capture) = profile at stops ⊢
  rcases analysis.tellDropped_cases profile session with ⟨_, found, told⟩ | ⟨goesOn, _⟩
  · exact ⟨found, by rw [told]⟩
  · rw [stops] at goesOn
    cases goesOn

/-- Warning and printing come before the outputs and change neither the files nor the time. -/
theorem runOn_execute_goesOn {analysis : Analysis} {session : Session} {capture : List Char}
    (loaded : Capture.load session.files analysis.input = .ok capture)
    (goesOn : analysis.stopsAt (analysis.profile (analysis.relevantText capture)) = false) :
    ∃ printed warnings, analysis.execute.runOn session =
      (analysis.save (analysis.profile (analysis.relevantText capture))
        (analysis.facts (analysis.relevantText capture))).runOn
          { session with printed, warnings } := by
  unfold execute
  simp only [Command.runOn_bind, Command.runOn_get, loaded, Command.runOn_require_ok]
  -- Warning and printing are two switches, so there are four ways to come to the outputs.
  generalize analysis.profile (analysis.relevantText capture) = profile at goesOn ⊢
  generalize analysis.facts (analysis.relevantText capture) = facts
  rcases analysis.tellDropped_cases profile session with ⟨stops, _⟩ | ⟨_, warnings, told⟩
  · rw [goesOn] at stops
    cases stops
  · rw [told]
    dsimp only
    split
    · rw [Command.runOn_bind, Command.runOn_warn]
      dsimp only
      split
      · rw [Command.runOn_bind, Command.runOn_print]
        exact ⟨_, _, rfl⟩
      · exact ⟨_, _, rfl⟩
    · split
      · rw [Command.runOn_bind, Command.runOn_print]
        exact ⟨_, _, rfl⟩
      · exact ⟨_, _, rfl⟩

/-- An analysis leaves behind the files that are there once its outputs have been written one after
the other, up to the first that cannot be written. -/
theorem files_execute (analysis : Analysis) (session : Session) :
    (analysis.execute.runOn session).2.files =
      (session.files.writeOutputs (analysis.outputs session)).2 := by
  unfold outputs
  cases loaded : Capture.load session.files analysis.input with
  | error fault =>
    rw [runOn_execute_unread loaded]
    rfl
  | ok capture =>
    dsimp only [outputsOf]
    cases stopped : analysis.stopsAt (analysis.profile (analysis.relevantText capture)) with
    | true =>
      obtain ⟨found, ran⟩ := runOn_execute_stopped loaded stopped
      rw [ran, if_pos rfl]
      rfl
    | false =>
      obtain ⟨printed, warnings, ran⟩ := runOn_execute_goesOn loaded stopped
      rw [ran, files_save, if_neg Bool.false_ne_true]

/-- An analysis that ends well gives the profile of its capture and has written all its outputs. -/
theorem written_of_execute {analysis : Analysis} {session after : Session} {profile : Profile}
    (ran : analysis.execute.runOn session = (.ok profile, after)) :
    ∃ capture, Capture.load session.files analysis.input = .ok capture ∧
      profile = analysis.profile (analysis.relevantText capture) ∧
      analysis.stopsAt profile = false ∧
      session.files.writeOutputs (analysis.outputs session) =
        (analysis.outputs session, after.files) := by
  have files := analysis.files_execute session
  rw [ran] at files
  -- An unread capture and a strict failure end the analysis, so neither has ended well.
  cases loaded : Capture.load session.files analysis.input with
  | error fault =>
    rw [runOn_execute_unread loaded] at ran
    cases ran
  | ok capture =>
    cases stopped : analysis.stopsAt (analysis.profile (analysis.relevantText capture)) with
    | true =>
      obtain ⟨found, failed⟩ := runOn_execute_stopped loaded stopped
      rw [failed] at ran
      cases ran
    | false =>
      obtain ⟨printed, warnings, saved⟩ := runOn_execute_goesOn loaded stopped
      rw [saved] at ran
      obtain ⟨rfl, all⟩ := written_of_save (congrArg Prod.fst ran)
      refine ⟨capture, rfl, rfl, stopped, Prod.ext ?_ files.symm⟩
      rw [outputs, loaded]
      dsimp only [outputsOf]
      rw [if_neg (Bool.eq_false_iff.mp stopped)]
      exact all

end Analysis
end LayerTiming
