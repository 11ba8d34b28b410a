import LayerTiming.Capture.Facts
import LayerTiming.Files.System

/-!
# Capture files

A capture file may hold bytes that are no text. They are left out.
-/
namespace LayerTiming
open Text

/-- Why a capture cannot be read. -/
inductive CaptureFault
  | isDirectory (path : Path)
  | unreadable (path : Path) (fault : FileFault)
  deriving DecidableEq, Repr, Inhabited

def CaptureFault.message : CaptureFault → String
  | .isDirectory path => "Capture path is a directory: " ++ path.toString
  | .unreadable path fault =>
    "Failed to read capture " ++ path.toString ++ ": " ++ fault.message

def CaptureFault.chain : CaptureFault → List String
  | .unreadable path fault => [(unreadable path fault).message, fault.message]
  | fault => [fault.message]

def Capture.load (files : FileSystem) (path : Path) : Except CaptureFault (List Char) :=
  if files.isDirectory path then .error (.isDirectory path)
  else match files.read path with
    | .ok bytes => .ok (Utf8.decodeSkipping bytes)
    | .error fault => .error (.unreadable path fault)

end LayerTiming
