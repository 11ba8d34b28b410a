import LayerTiming.Files.Output
import LayerTiming.Report.Decode

/-!
# Report files
-/
namespace LayerTiming

/-- Read a report file. A directory can be opened and holds no report. -/
def Report.load (files : FileSystem) (path : Path) : Except OutputFault Report :=
  match files.read path with
  | .ok bytes =>
    match Report.read? bytes with
    | some report => .ok report
    | none => .error .malformed
  | .error .isDirectory => .error .malformed
  | .error fault => .error (.inaccessible fault)

end LayerTiming
