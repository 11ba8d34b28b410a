import LayerTiming.Capture.File
import LayerTiming.Settings
import LayerTiming.Presentation.Chart
import LayerTiming.Files.Output
import LayerTiming.Timing.Profile

/-!
# Sessions

A session is what a command works on: the files, what has been printed, and the warnings that have
been given. A command that fails leaves behind what it had done until then.
-/
namespace LayerTiming

/-- Why a command fails. -/
inductive Failure
  | emptyInput
  | captureMissing (input : Path)
  | overwritesInput
  | noRows
  | tooManyRows
  | invalidSettings (fault : SettingsFault)
  | invalidChart (fault : ChartFault)
  | unreadCapture (fault : CaptureFault)
  | inconsistentRuns (found : Inconsistency)
  | unwrittenReport (fault : OutputFault)
  | unwrittenTable (fault : OutputFault)
  | undrawnChart (fault : ChartFault)
  | unwrittenChart (fault : OutputFault)
  | invalidReport (file : Path) (fault : OutputFault)
  /-- Settings cannot be had, from the given file if there is one. -/
  | noSettings (file : Option Path) (fault : SettingsFault)
  deriving Repr, Inhabited

/-- The greatest number of rows that may be asked for. -/
def greatestRows : Nat := 1000

/-- The failure in words, followed by its causes. -/
def Failure.chain : Failure → List String
  | .emptyInput => ["Input capture path cannot be empty"]
  | .captureMissing input => ["Capture not found: " ++ input.toString]
  | .overwritesInput => ["An output path would overwrite the input capture"]
  | .noRows => ["summary_rows must be greater than 0"]
  | .tooManyRows => ["summary_rows is too large (max " ++ toString greatestRows ++ ")"]
  | .invalidSettings fault => "Invalid analysis configuration" :: fault.chain
  | .invalidChart fault => ["Invalid chart configuration", fault.message]
  | .unreadCapture fault => "Failed to read capture" :: fault.chain
  | .inconsistentRuns found => ["Runs are not structurally identical", found.message]
  | .unwrittenReport fault => "Failed to write JSON report" :: fault.chain
  | .unwrittenTable fault => "Failed to write CSV" :: fault.chain
  | .undrawnChart fault => ["Failed to generate chart", fault.message]
  | .unwrittenChart fault => "Failed to write chart SVG" :: fault.chain
  | .invalidReport file fault => ("Invalid report " ++ file.toString) :: fault.chain
  | .noSettings none fault => fault.chain
  | .noSettings (some file) fault => ("Failed to load config " ++ file.toString) :: fault.chain

/-- What a command works on. -/
structure Session where
  files : FileSystem := {}
  /-- The time that reports are marked with. -/
  now : String := ""
  printed : List Char := []
  warnings : List String := []
  deriving Repr, Inhabited

/-- Work on a session that may fail. -/
abbrev Command (α : Type) : Type := ExceptT Failure (StateM Session) α

namespace Command

def print (text : List Char) : Command Unit :=
  modify fun session => { session with printed := session.printed ++ text }

def printLine (line : String) : Command Unit := print (line.toList ++ ['\n'])

def warn (warning : String) : Command Unit :=
  modify fun session => { session with warnings := session.warnings ++ [warning] }

def require {ε α : Type} (failure : ε → Failure) : Except ε α → Command α
  | .ok value => pure value
  | .error fault => throw (failure fault)

def writeOutput (failure : OutputFault → Failure) (path : Path) (text : List Char) :
    Command Unit := do
  let (fault, files) := (← get).files.writeOutput path text
  modify fun session => { session with files }
  match fault with
  | none => pure ()
  | some fault => throw (failure fault)

/-- Do work on a session. Gives the outcome and the session after it. -/
def runOn {α : Type} (command : Command α) (session : Session) : Except Failure α × Session :=
  StateT.run (ExceptT.run command) session

end Command
end LayerTiming
