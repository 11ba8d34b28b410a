import LayerTiming.Files.System

/-!
# Faults of output files

What can go wrong with a file that is written, or with a report that is read back.
-/
namespace LayerTiming

/-- Why an output file cannot be written, or a report not read. -/
inductive OutputFault
  /-- There is no layer to export. -/
  | noLayers
  | emptyPath
  | pathIsDirectory (path : Path)
  /-- The directory of the file cannot be made. -/
  | noDirectory (directory : Path) (fault : FileFault)
  /-- The file cannot be opened or written. -/
  | inaccessible (fault : FileFault)
  /-- The file holds no report. -/
  | malformed
  deriving DecidableEq, Repr, Inhabited

namespace OutputFault

/-- The fault in words. What is wrong with a malformed report is not said. -/
def message : OutputFault → String
  | .noLayers => "No layer data to export"
  | .emptyPath => "Invalid output path: Path is empty"
  | .pathIsDirectory path => "Invalid output path: Path is a directory: " ++ path.toString
  | .noDirectory directory fault =>
    "Invalid output path: Cannot create directory " ++ directory.toString ++ ": " ++ fault.message
  | .inaccessible fault => "Failed to write file: " ++ fault.message
  | .malformed => "Failed to serialize JSON:"

def chain : OutputFault → List String
  | .inaccessible fault => [(inaccessible fault).message, fault.message]
  | fault => [fault.message]

end OutputFault

/-- Check the path of an output file and make the directories that are missing on the way to it. -/
def FileSystem.prepareOutput (files : FileSystem) (path : Path) : Option OutputFault × FileSystem :=
  if path.isEmpty then (some .emptyPath, files)
  else if files.isDirectory path then (some (.pathIsDirectory path), files)
  else if path.parent.isEmpty || files.pathExists path.parent then (none, files)
  else
    match files.makePath path.parent with
    | (none, files) => (none, files)
    | (some fault, files) => (some (.noDirectory path.parent fault), files)

/-- Write an output file. Directories that were made stay, even if the file cannot be written. -/
def FileSystem.writeOutput (files : FileSystem) (path : Path) (text : List Char) :
    Option OutputFault × FileSystem :=
  match files.prepareOutput path with
  | (some fault, files) => (some fault, files)
  | (none, files) =>
    match files.write path (Text.Utf8.encode text) with
    | .ok files => (none, files)
    | .error fault => (some (.inaccessible fault), files)

end LayerTiming
