import LayerTiming.Files.Path
import LayerTiming.Text.Utf8

/-!
# Files and directories

A file system holds files and directories at locations, which are lists of names from the root. A
path is resolved by walking its segments one after the other, each in a directory. What its last name
leads to need not exist, and what becomes of that name depends on what is done with the path.
-/
namespace LayerTiming
open Text

/-- Where a file or directory is: the names on the way from the root. -/
abbrev Location := List String

/-- What is at a location. -/
inductive Entry
  | directory
  | file (bytes : List UInt8)
  deriving DecidableEq, Repr, Inhabited

/-- Files and directories. The root always exists and is not listed. -/
structure FileSystem where
  /-- What there is, each location once. -/
  entries : List (Location × Entry) := []
  /-- Where paths begin that do not begin at the root. -/
  home : Location := []
  deriving DecidableEq, Repr, Inhabited

/-- Why a file or directory cannot be used. -/
inductive FileFault
  | notFound
  | alreadyExists
  | notDirectory
  | isDirectory
  | nameTooLong
  | nullInName
  /-- The bytes of a file are no text. -/
  | notText
  deriving DecidableEq, Repr, Inhabited

def FileFault.message : FileFault → String
  | .notFound => "No such file or directory (os error 2)"
  | .alreadyExists => "File exists (os error 17)"
  | .notDirectory => "Not a directory (os error 20)"
  | .isDirectory => "Is a directory (os error 21)"
  | .nameTooLong => "File name too long (os error 36)"
  | .nullInName => "file name contained an unexpected NUL byte"
  | .notText => "stream did not contain valid UTF-8"

namespace FileSystem

def lookup (files : FileSystem) (location : Location) : Option Entry :=
  if location = [] then some .directory else files.entries.lookup location

/-- Put an entry at a location, in the place of what is there. -/
def put (files : FileSystem) (location : Location) (entry : Entry) : FileSystem :=
  if (files.entries.lookup location).isSome then
    { files with entries := files.entries.map fun known =>
        if known.1 = location then (location, entry) else known }
  else { files with entries := files.entries ++ [(location, entry)] }

/-- The greatest number of bytes in a name. -/
def nameLimit : Nat := 255

/-- The greatest number of bytes in a path. -/
def pathLimit : Nat := 4095

/-- Fail unless a location holds a directory. -/
def requireDirectory (files : FileSystem) (location : Location) : Except FileFault Unit :=
  match files.lookup location with
  | some .directory => .ok ()
  | some (.file _) => .error .notDirectory
  | none => .error .notFound

/-- Where a segment leads from a location. -/
def follow (location : Location) (part : List Char) : Except FileFault Location :=
  if Path.isIdle part then .ok location
  else if part = Path.upward then .ok location.dropLast
  else if (Utf8.encode part).length > nameLimit then .error .nameTooLong
  else .ok (location ++ [String.ofList part])

def walk (files : FileSystem) : Location → List (List Char) → Except FileFault Location
  | location, [] => .ok location
  | location, part :: rest => do
    files.requireDirectory location
    files.walk (← follow location part) rest

/-- Refuse a path that leads nowhere, whatever files there are. -/
def requireUsable (path : Path) : Except FileFault Unit :=
  if path.isEmpty then .error .notFound
  else if path.text.contains '\x00' then .error .nullInName
  else if (Utf8.encode path.text).length > pathLimit then .error .nameTooLong
  else .ok ()

/-- Where the walk along a path begins. -/
def start (files : FileSystem) (path : Path) : Location :=
  if path.isAbsolute then [] else files.home

/-- The directory in which the last name of a path stands, and that name. Nothing is asked of the
name yet. Slashes behind it are no part of it, and a path of slashes alone names the root. -/
def enter (files : FileSystem) (path : Path) : Except FileFault (Location × List Char) := do
  requireUsable path
  let names := path.segments.filter (!·.isEmpty)
  let directory ← files.walk (files.start path) names.dropLast
  files.requireDirectory directory
  pure (directory, names.getLast?.getD ['.'])

/-- Where a path leads. Nothing need be there, unless the path ends with a slash: then there must be
a directory. -/
def locate (files : FileSystem) (path : Path) : Except FileFault Location := do
  let (directory, name) ← files.enter path
  let location ← follow directory name
  if path.endsInSlash then files.requireDirectory location
  pure location

def find? (files : FileSystem) (path : Path) : Option Entry :=
  match files.locate path with
  | .ok location => files.lookup location
  | .error _ => none

def pathExists (files : FileSystem) (path : Path) : Bool := (files.find? path).isSome

def isDirectory (files : FileSystem) (path : Path) : Bool :=
  files.find? path == some .directory

def isFile (files : FileSystem) (path : Path) : Bool :=
  match files.find? path with
  | some (.file _) => true
  | _ => false

def read (files : FileSystem) (path : Path) : Except FileFault (List UInt8) := do
  match files.lookup (← files.locate path) with
  | some (.file bytes) => .ok bytes
  | some .directory => .error .isDirectory
  | none => .error .notFound

def readText (files : FileSystem) (path : Path) : Except FileFault (List Char) := do
  match Utf8.decode? (← files.read path) with
  | some text => .ok text
  | none => .error .notText

/-- Write a file, in the place of the one that is there. A path that ends with a slash can only mean
a directory, so the name in front of the slash is not looked at. -/
def write (files : FileSystem) (path : Path) (bytes : List UInt8) : Except FileFault FileSystem := do
  let (directory, name) ← files.enter path
  if path.endsInSlash then .error .isDirectory
  else
    let location ← follow directory name
    if files.lookup location == some .directory then .error .isDirectory
    else .ok (files.put location (.file bytes))

/-- Make a directory in one that exists. -/
def makeDirectory (files : FileSystem) (path : Path) : Except FileFault FileSystem := do
  let (directory, name) ← files.enter path
  let location ← follow directory name
  if (files.lookup location).isSome then .error .alreadyExists
  else .ok (files.put location .directory)

/-- Make a directory, unless it is there. -/
def ensureDirectory (files : FileSystem) (path : Path) : Except FileFault FileSystem :=
  match files.makeDirectory path with
  | .ok files => .ok files
  | .error fault => if files.isDirectory path then .ok files else .error fault

/-- Make a directory and those that are missing above it, with at most `depth` of them above it.
What has been made stays, even if the directory itself cannot be made. -/
def makeDirectories (files : FileSystem) : Nat → Path → Option FileFault × FileSystem
  | depth, path =>
    if path.isEmpty then (none, files)
    else match files.ensureDirectory path with
      | .ok files => (none, files)
      | .error .notFound =>
        match depth with
        | 0 => (some .notFound, files)
        | depth + 1 =>
          match files.makeDirectories depth path.parent with
          | (some fault, files) => (some fault, files)
          | (none, files) =>
            match files.ensureDirectory path with
            | .ok files => (none, files)
            | .error fault => (some fault, files)
      | .error fault => (some fault, files)

/-- Make a directory and all that are missing above it. -/
def makePath (files : FileSystem) (path : Path) : Option FileFault × FileSystem :=
  files.makeDirectories path.segments.length path

/-- The locations that segments pass from a location, itself included. -/
def passedFrom (location : Location) : List (List Char) → List Location
  | [] => [location]
  | part :: rest =>
    match follow location part with
    | .ok next => location :: passedFrom next rest
    | .error _ => [location]

/-- The locations that a path passes, up to the one where it leads. Only they decide what can be
done with the path. -/
def passed (home : Location) (path : Path) : List Location :=
  match path.segments with
  | [] :: rest => passedFrom [] rest
  | parts => passedFrom home parts

/-- What is new or different since another state. -/
def changesSince (files before : FileSystem) : List (Location × Entry) :=
  files.entries.filter fun known => before.entries.lookup known.1 != some known.2

end FileSystem
end LayerTiming
