import LayerTiming.Text.Lines

/-!
# Paths

A path is a text of segments with slashes between them. Empty segments and dots that do not begin a
path carry no meaning, but they stay in the text: what is derived from a path keeps the text it was
derived from.
-/
namespace LayerTiming
open Text

/-- The name of a file or directory: its text. -/
structure Path where
  text : List Char
  deriving DecidableEq, Repr, Inhabited

namespace Path

def ofString (text : String) : Path := ⟨text.toList⟩

def toString (path : Path) : String := String.ofList path.text

def isEmpty (path : Path) : Bool := path.text.isEmpty

def isAbsolute (path : Path) : Bool := path.text.head? == some '/'

def endsInSlash (path : Path) : Bool := path.text.getLast? == some '/'

/-- A segment without meaning: nothing, or a dot. -/
def isIdle (part : List Char) : Bool := part == [] || part == ['.']

/-- The segment for the directory above. -/
def upward : List Char := ['.', '.']

/-- What lies between the slashes of a path. -/
def segments (path : Path) : List (List Char) := pieces '/' path.text

/-- Drop the segments without meaning at the end. -/
def dropIdleEnd : List (List Char) → List (List Char)
  | [] => []
  | part :: rest =>
    match dropIdleEnd rest with
    | [] => if isIdle part then [] else [part]
    | kept => part :: kept

/-- The parts of a path that carry meaning. The first segment carries meaning unless the path is
empty: an empty one stands for the root, and a dot for a path that is given from here. -/
def components (path : Path) : List (List Char) :=
  match path.segments with
  | [] => []
  | [[]] => []
  | first :: rest => first :: rest.filter (!isIdle ·)

/-- Whether two paths have the same components. -/
def same (first second : Path) : Bool := first.components == second.components

/-- The segments up to the file name, if the path has a file name: the last one with a meaning,
unless it leads upward. -/
def named? (path : Path) : Option (List (List Char) × List Char) :=
  let kept := dropIdleEnd path.segments
  match kept.getLast? with
  | some name => if name = upward then none else some (kept.dropLast, name)
  | none => none

/-- Split a text at its last dot. -/
def splitAtDot? : List Char → Option (List Char × List Char)
  | [] => none
  | c :: rest =>
    match splitAtDot? rest with
    | some (front, back) => some (c :: front, back)
    | none => if c = '.' then some ([], rest) else none

/-- The stem of a file name and its extension, which follows the last dot. A dot at the start of a
name begins no extension. -/
def splitName (name : List Char) : List Char × Option (List Char) :=
  match splitAtDot? name with
  | some ([], _) => (name, none)
  | some (stem, extension) => (stem, some extension)
  | none => (name, none)

def stem? (path : Path) : Option (List Char) := path.named?.map fun found => (splitName found.2).1

def extension? (path : Path) : Option (List Char) :=
  path.named?.bind fun found => (splitName found.2).2

/-- The path up to the end of the stem. -/
def upToStem? (path : Path) : Option (List Char) :=
  path.named?.map fun found => joinPieces '/' (found.1 ++ [(splitName found.2).1])

/-- The path without as many characters at its end as its extension has. -/
def dropExtension (path : Path) : Path :=
  match path.extension? with
  | some extension => ⟨path.text.take (path.text.length - extension.length)⟩
  | none => path

/-- The path with another extension. If it has no file name once its extension is dropped, nothing
is added. -/
def withExtension (path : Path) (extension : String) : Path :=
  match path.dropExtension.upToStem? with
  | some text => ⟨text ++ '.' :: extension.toList⟩
  | none => path.dropExtension

/-- The text of segments. A root alone is a slash. -/
def ofSegments (parts : List (List Char)) : Path :=
  if parts = [[]] then ⟨['/']⟩ else ⟨joinPieces '/' parts⟩

/-- Drop the segments without meaning at the end, but for the first segment of the path. -/
def dropIdleAfterFirst : List (List Char) → List (List Char)
  | [] => []
  | first :: rest => first :: dropIdleEnd rest

/-- The path without its last component. It is empty if nothing is left. -/
def parent (path : Path) : Path :=
  ofSegments (dropIdleAfterFirst (dropIdleAfterFirst path.segments).dropLast)

/-- The model that the name of a capture tells: its stem without a leading `profile_`. -/
def impliedModel? (path : Path) : Option String :=
  match path.stem? with
  | none => none
  | some stem =>
    let name := (after? "profile_".toList stem).getD stem
    if name = [] then none else some (String.ofList name)

end Path
end LayerTiming
