import LayerTiming.Proofs.Files.Writes
import LayerTiming.Session.Basic

/-!
# Runs of commands

What a run of a command gives follows from the runs of its parts: a part that fails ends the run, and
the session keeps what was done until then.
-/
namespace LayerTiming
namespace Command

variable {α β : Type}

@[simp] theorem runOn_pure (value : α) (session : Session) :
    (pure value : Command α).runOn session = (.ok value, session) := rfl

@[simp] theorem runOn_throw (failure : Failure) (session : Session) :
    (throw failure : Command α).runOn session = (.error failure, session) := rfl

@[simp] theorem runOn_get (session : Session) :
    (get : Command Session).runOn session = (.ok session, session) := rfl

@[simp] theorem runOn_modify (change : Session → Session) (session : Session) :
    (modify change : Command PUnit).runOn session = (.ok ⟨⟩, change session) := rfl

theorem runOn_bind (command : Command α) (next : α → Command β) (session : Session) :
    (command >>= next).runOn session =
      match command.runOn session with
      | (.ok value, after) => (next value).runOn after
      | (.error failure, after) => (.error failure, after) := by
  unfold runOn
  rw [ExceptT.run_bind, StateT.run_bind]
  rcases StateT.run (ExceptT.run command) session with ⟨outcome, after⟩
  cases outcome <;> rfl

/-- A run ends well only if the run of its first part does. -/
theorem exists_of_runOn_bind {command : Command α} {next : α → Command β} {session : Session}
    {last : β} (ended : ((command >>= next).runOn session).1 = .ok last) :
    ∃ value, (command.runOn session).1 = .ok value ∧
      ((next value).runOn (command.runOn session).2).1 = .ok last := by
  rw [runOn_bind] at ended
  rcases ran : command.runOn session with ⟨outcome, after⟩
  rw [ran] at ended
  cases outcome with
  | ok value => exact ⟨value, rfl, ended⟩
  | error failure => cases ended

@[simp] theorem runOn_warn (warning : String) (session : Session) :
    (warn warning).runOn session =
      (.ok (), { session with warnings := session.warnings ++ [warning] }) := rfl

@[simp] theorem runOn_print (text : List Char) (session : Session) :
    (print text).runOn session = (.ok (), { session with printed := session.printed ++ text }) :=
  rfl

@[simp] theorem runOn_require_ok {ε : Type} (failure : ε → Failure) (value : α)
    (session : Session) : (require failure (.ok value)).runOn session = (.ok value, session) := rfl

@[simp] theorem runOn_require_error {ε : Type} (failure : ε → Failure) (fault : ε)
    (session : Session) :
    (require failure (.error fault : Except ε α)).runOn session = (.error (failure fault), session) :=
  rfl

theorem runOn_writeOutput (failure : OutputFault → Failure) (path : Path) (text : List Char)
    (session : Session) :
    (writeOutput failure path text).runOn session =
      ((match (session.files.writeOutput path text).1 with
        | none => .ok ()
        | some fault => .error (failure fault)),
        { session with files := (session.files.writeOutput path text).2 }) := by
  unfold writeOutput
  simp only [runOn_bind, runOn_get, runOn_modify]
  cases (session.files.writeOutput path text).1 <;> rfl

/-- A run of a command writes outputs one after the other, up to the first that cannot be written,
and fails only where that happens. -/
structure Saves (command : Command Unit) (session : Session) (outputs : List Output) : Prop where
  files : (command.runOn session).2.files = (session.files.writeOutputs outputs).2
  complete : (command.runOn session).1 = .ok () ↔ (session.files.writeOutputs outputs).1 = outputs

theorem Saves.congr {first second : Command Unit} {session : Session} {outputs : List Output}
    (saved : Saves first session outputs) (same : second.runOn session = first.runOn session) :
    Saves second session outputs := by
  constructor <;> rw [same]
  · exact saved.files
  · exact saved.complete

theorem saves_pure (session : Session) : Saves (pure ()) session [] := by
  constructor
  · rw [runOn_pure]
    rfl
  · rw [runOn_pure]
    exact ⟨fun _ => rfl, fun _ => rfl⟩

theorem saves_writeOutput (failure : OutputFault → Failure) (path : Path) (text : List Char)
    (session : Session) : Saves (writeOutput failure path text) session [⟨path, text⟩] := by
  have ran := runOn_writeOutput failure path text session
  rcases written : session.files.writeOutput path text with ⟨fault | _, after⟩
  · have all : session.files.writeOutputs [⟨path, text⟩] = ([⟨path, text⟩], after) := by
      rw [FileSystem.writeOutputs, written]
      rfl
    rw [written] at ran
    constructor
    · rw [ran, all]
    · rw [ran, all]
      exact ⟨fun _ => rfl, fun _ => rfl⟩
  · have stopped : session.files.writeOutputs [⟨path, text⟩] = ([], after) := by
      rw [FileSystem.writeOutputs, written]
    rw [written] at ran
    constructor
    · rw [ran, stopped]
    · rw [ran, stopped]
      constructor
      · intro ended
        cases ended
      · intro all
        cases all

/-- What comes after a command that writes outputs is done only if all of them were written. -/
theorem Saves.files_bind {first : Command Unit} {next : Unit → Command α} {session : Session}
    {early late : List Output} (saved : Saves first session early)
    (rest : ((next ()).runOn (first.runOn session).2).2.files =
      ((first.runOn session).2.files.writeOutputs late).2) :
    ((first >>= next).runOn session).2.files =
      (session.files.writeOutputs (early ++ late)).2 := by
  have complete := saved.complete
  have files := saved.files
  rw [runOn_bind, FileSystem.writeOutputs_append]
  rcases ran : first.runOn session with ⟨outcome, after⟩
  rw [ran] at rest complete files
  cases outcome with
  | ok nothing =>
    rw [if_pos (complete.mp rfl), ← files]
    exact rest
  | error failure =>
    rw [if_neg fun all => by cases complete.mpr all]
    exact files

/-- If what comes after a command that writes outputs ends well, all outputs have been written. -/
theorem Saves.written_bind {first : Command Unit} {next : Unit → Command α} {session : Session}
    {early late : List Output} {value : α} (saved : Saves first session early)
    (rest : ((next ()).runOn (first.runOn session).2).1 = .ok value →
      ((first.runOn session).2.files.writeOutputs late).1 = late)
    (ended : ((first >>= next).runOn session).1 = .ok value) :
    (session.files.writeOutputs (early ++ late)).1 = early ++ late := by
  obtain ⟨nothing, first_ended, next_ended⟩ := exists_of_runOn_bind ended
  rw [FileSystem.writeOutputs_append, if_pos (saved.complete.mp first_ended), ← saved.files]
  exact congrArg (early ++ ·) (rest next_ended)

/-! ### The failures of a command -/

/-- A command fails, in whatever session it is run, only with failures of some kinds. -/
def FailsOnly (allowed : Failure → Prop) (command : Command α) : Prop :=
  ∀ session failure, (command.runOn session).1 = .error failure → allowed failure

variable {allowed : Failure → Prop}

theorem failsOnly_pure (value : α) : FailsOnly allowed (pure value : Command α) := by
  intro session failure failed
  cases failed

theorem failsOnly_warn (warning : String) : FailsOnly allowed (warn warning) := by
  intro session failure failed
  cases failed

theorem failsOnly_get : FailsOnly allowed (get : Command Session) := by
  intro session failure failed
  cases failed

theorem failsOnly_require {ε : Type} (failure : ε → Failure) (outcome : Except ε α)
    (each : ∀ fault, allowed (failure fault)) : FailsOnly allowed (require failure outcome) := by
  intro session found failed
  cases outcome with
  | ok value => cases failed
  | error fault =>
    cases failed
    exact each fault

theorem failsOnly_writeOutput (failure : OutputFault → Failure) (path : Path) (text : List Char)
    (each : ∀ fault, allowed (failure fault)) :
    FailsOnly allowed (writeOutput failure path text) := by
  intro session found failed
  rw [runOn_writeOutput] at failed
  cases written : (session.files.writeOutput path text).1 with
  | none => rw [written] at failed; cases failed
  | some fault =>
    rw [written] at failed
    cases failed
    exact each fault

theorem FailsOnly.bind {first : Command α} {next : α → Command β} (left : FailsOnly allowed first)
    (right : ∀ value, FailsOnly allowed (next value)) : FailsOnly allowed (first >>= next) := by
  intro session failure failed
  rw [runOn_bind] at failed
  have before := left session
  rcases ran : first.runOn session with ⟨outcome, after⟩
  rw [ran] at failed before
  cases outcome with
  | ok value => exact right value after failure failed
  | error found =>
    cases failed
    exact before failure rfl

end Command
end LayerTiming
