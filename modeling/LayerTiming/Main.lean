import LayerTiming.Invocation.Run
import LayerTiming.Session.Instant
import Std.Time.DateTime.Timestamp

/-!
# The program

The outer layer: it looks at the files that the command line names, runs the command on what it
found, and brings the files, the console and the exit code in line with the result.
-/
namespace LayerTiming.Program

/-- The name of a location for the system. -/
def nameOf (location : Location) : String := "/" ++ "/".intercalate location

/-- What is at a location, if anything can be seen there. -/
def observe (location : Location) : IO (Option Entry) := do
  try
    return some (.file (← IO.FS.readBinFile (nameOf location)).toList)
  catch
    | .inappropriateType .. => return some .directory
    | _ => return none

/-- Take a location into the picture of the files, unless it is there or cannot be. -/
def observeInto (files : FileSystem) (location : Location) : IO FileSystem := do
  if (files.lookup location).isSome || files.lookup location.dropLast != some .directory then
    return files
  match ← observe location with
  | some entry => return files.put location entry
  | none => return files

/-- The locations on the way to a directory, itself included. -/
def wayTo (location : Location) : List Location :=
  (List.range location.length).map fun n => location.take (n + 1)

/-- A picture of the files that paths pass. -/
def picture (home : Location) (paths : List Path) : IO FileSystem := do
  let blank : FileSystem := { home }
  (wayTo home ++ paths.flatMap (FileSystem.passed home)).foldlM observeInto blank

def apply (change : Location × Entry) : IO Unit :=
  match change.2 with
  | .directory => IO.FS.createDir (nameOf change.1)
  | .file bytes => IO.FS.writeBinFile (nameOf change.1) (ByteArray.mk bytes.toArray)

/-- The directory in which the program runs. -/
def home : IO Location := do
  let name := toString (← IO.currentDir)
  return ((Text.pieces '/' name.toList).filter (!·.isEmpty)).map String.ofList

def presentTime : IO String := do
  let now := (← Std.Time.Timestamp.now).val
  return Instant.text { seconds := now.second.val.toNat, nanoseconds := now.nano.val.toNat }

/-- The lines on a failure and its causes. -/
def failureLines : List String → List String
  | [] => []
  | failure :: causes =>
    ("Error: " ++ failure)
      :: if causes.isEmpty then [] else "" :: "Caused by:" :: causes.map ("    " ++ ·)

/-- How the program is used. -/
def usage : List String :=
  [ "Usage: cfu-profile [--verbose] <COMMAND>",
    "",
    "Commands:",
    "  analyze <INPUT>         Analyze a captured golden test output",
    "  validate --file <FILE>  Validate a report JSON file",
    "  schema [--show]         Display schema information",
    "  version                 Display version information" ]

def run (arguments : List String) : IO UInt32 := do
  let paths := ((Invocation.ofArguments? arguments).map Invocation.paths).getD []
  let before ← picture (← home) paths
  let (outcome, session) :=
    Invocation.runArguments arguments { files := before, now := ← presentTime }
  session.warnings.forM fun warning => IO.eprintln ("warning: " ++ warning)
  IO.print (String.ofList session.printed)
  (session.files.changesSince before).forM apply
  match outcome with
  | .done => pure ()
  | .failed failure => (failureLines failure.chain).forM IO.eprintln
  | .misused => usage.forM IO.eprintln
  return outcome.code.toUInt32

end LayerTiming.Program

def main (arguments : List String) : IO UInt32 := LayerTiming.Program.run arguments
