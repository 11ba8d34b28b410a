import LayerTiming.Text.Lines

/-!
# Words of a command line

The arguments of a command are options and operands. An option has a long name behind two dashes,
and may have a letter behind one. Its value is joined to the name by an equals sign or is the next
argument, which must then not look like an option itself. Letters without values may stand together
behind one dash. Behind two dashes alone everything is an operand.
-/
namespace LayerTiming.Invocation
open Text

/-- An option that a command knows. -/
structure OptionForm where
  name : String
  letter : Option Char := none
  takesValue : Bool := false
  deriving DecidableEq, Repr, Inhabited

/-- A word of a command line. -/
inductive Word
  /-- An option without a value. -/
  | switch (name : String)
  | setting (name : String) (value : List Char)
  | operand (text : List Char)
  deriving DecidableEq, Repr, Inhabited

/-- The words of one argument, and the option that waits for the next argument, if one does. -/
structure Reading where
  words : List Word := []
  waiting : Option String := none
  deriving DecidableEq, Repr, Inhabited

/-- The word for an option with a value joined to its name, or the option that waits for one. -/
def readNamed? (form : OptionForm) (joined : Option (List Char)) : Option Reading :=
  if form.takesValue then
    match joined with
    | some value => some { words := [.setting form.name value] }
    | none => some { waiting := some form.name }
  else
    match joined with
    | some _ => none
    | none => some { words := [.switch form.name] }

/-- Split a text at its first equals sign. -/
def splitAtEquals (text : List Char) : List Char × Option (List Char) :=
  match text.dropWhile (· != '=') with
  | _ :: value => (text.takeWhile (· != '='), some value)
  | [] => (text, none)

/-- Read what stands behind two dashes. -/
def readLong? (forms : List OptionForm) (text : List Char) : Option Reading :=
  let (name, joined) := splitAtEquals text
  (forms.find? fun form => form.name.toList == name).bind (readNamed? · joined)

/-- The value that is joined to a letter, if there is one. An equals sign before it is left out. -/
def joinedToLetter : List Char → Option (List Char)
  | [] => none
  | '=' :: value => some value
  | value => some value

def readLetters? (forms : List OptionForm) : List Char → Option Reading
  | [] => some {}
  | letter :: rest => do
    let form ← forms.find? fun form => form.letter == some letter
    if form.takesValue then readNamed? form (joinedToLetter rest)
    else
      let others ← readLetters? forms rest
      pure { others with words := .switch form.name :: others.words }

/-- Read one argument that stands where an option may stand. -/
def readArgument? (forms : List OptionForm) : List Char → Option Reading
  | '-' :: '-' :: text => readLong? forms text
  | ['-'] => some { words := [.operand ['-']] }
  | '-' :: letters => readLetters? forms letters
  | text => some { words := [.operand text] }

/-- Whether an argument looks like an option. -/
def looksLikeOption : List Char → Bool
  | '-' :: _ :: _ => true
  | _ => false

/-- Read arguments, where `waiting` is the option whose value is due. -/
def readWords? (forms : List OptionForm) (waiting : Option String) :
    List (List Char) → Option (List Word)
  | [] => if waiting.isNone then some [] else none
  | argument :: rest =>
    match waiting with
    | some name =>
      if looksLikeOption argument then none
      else (readWords? forms none rest).map (.setting name argument :: ·)
    | none =>
      if argument = ['-', '-'] then some (rest.map .operand)
      else do
        let found ← readArgument? forms argument
        let others ← readWords? forms found.waiting rest
        pure (found.words ++ others)

/-- The words of a command that can be understood at all, for lookup by name. -/
structure Words where
  all : List Word
  deriving DecidableEq, Repr, Inhabited

namespace Words

/-- The names of the options among the words. -/
def optionNames (words : Words) : List String :=
  words.all.filterMap fun
    | .switch name => some name
    | .setting name _ => some name
    | .operand _ => none

def operands (words : Words) : List (List Char) :=
  words.all.filterMap fun
    | .operand text => some text
    | _ => none

def has (words : Words) (name : String) : Bool := words.all.contains (.switch name)

/-- The value of a setting, if it is given. -/
def value? (words : Words) (name : String) : Option (List Char) :=
  words.all.findSome? fun
    | .setting found value => if found = name then some value else none
    | _ => none

/-- Read the arguments of a command. No option may be given twice. -/
def read? (forms : List OptionForm) (arguments : List (List Char)) : Option Words := do
  let words : Words := ⟨← readWords? forms none arguments⟩
  if words.optionNames.Nodup then some words else none

end Words
end LayerTiming.Invocation
