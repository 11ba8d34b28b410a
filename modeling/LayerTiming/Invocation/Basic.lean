import LayerTiming.Files.Path
import LayerTiming.Invocation.Words
import LayerTiming.Text.Numeral

/-!
# Invocations

What a command line asks for. An empty path is refused, and so is a number that is no counter value.
-/
namespace LayerTiming
open Text

/-- What a command line asks of an analysis. What is not said is left to settings and defaults. -/
structure AnalysisRequest where
  input : Path
  reportPath : Option Path := none
  tablePath : Option Path := none
  chartPath : Option Path := none
  everyOutput : Bool := false
  title : Option String := none
  width : Option UInt64 := none
  settingsPath : Option Path := none
  cyclesPerTick : Option UInt64 := none
  frequency : Option UInt64 := none
  leadingRun : Bool := false
  strict : Bool := false
  lastBootOnly : Bool := false
  quiet : Bool := false
  rows : Option UInt64 := none
  color : Bool := false
  deriving DecidableEq, Repr, Inhabited

/-- What a command line asks for. -/
inductive Invocation
  | analyze (request : AnalysisRequest)
  | check (file : Path)
  | schema (detailed : Bool)
  | version
  /-- The name and the version of the program, in one line. -/
  | banner
  deriving DecidableEq, Repr, Inhabited

namespace Invocation

/-- The option that every command knows. It changes only what is logged. -/
def verbose : OptionForm where
  name := "verbose"
  letter := some 'v'

def analysisForms : List OptionForm :=
  [ verbose,
    { name := "json", takesValue := true },
    { name := "csv", takesValue := true },
    { name := "chart", takesValue := true },
    { name := "all-outputs" },
    { name := "title", takesValue := true },
    { name := "width", takesValue := true },
    { name := "config", letter := some 'c', takesValue := true },
    { name := "cycles-per-tick", takesValue := true },
    { name := "cpu-freq-hz", takesValue := true },
    { name := "implicit-run" },
    { name := "strict" },
    { name := "from-liftoff" },
    { name := "quiet", letter := some 'q' },
    { name := "rows", takesValue := true },
    { name := "color" } ]

def path? (text : List Char) : Option Path := if text = [] then none else some ⟨text⟩

/-- A counter value, with a plus sign or without. -/
def count? : List Char → Option UInt64
  | '+' :: digits => readWord? digits
  | digits => readWord? digits

/-- The decoded value of a setting, if it is given. A value that cannot be decoded is refused. -/
def setting? {α : Type} (words : Words) (name : String) (decode : List Char → Option α) :
    Option (Option α) :=
  match words.value? name with
  | none => some none
  | some value => (decode value).map some

/-- The operand of a command that takes exactly one. -/
def onlyOperand? (words : Words) : Option (List Char) :=
  match words.operands with
  | [operand] => some operand
  | _ => none

def analysis? (arguments : List (List Char)) : Option Invocation := do
  let words ← Words.read? analysisForms arguments
  pure (.analyze {
    input := ← path? (← onlyOperand? words)
    reportPath := ← setting? words "json" path?
    tablePath := ← setting? words "csv" path?
    chartPath := ← setting? words "chart" path?
    everyOutput := words.has "all-outputs"
    title := ← setting? words "title" (some ∘ String.ofList)
    width := ← setting? words "width" count?
    settingsPath := ← setting? words "config" path?
    cyclesPerTick := ← setting? words "cycles-per-tick" count?
    frequency := ← setting? words "cpu-freq-hz" count?
    leadingRun := words.has "implicit-run"
    strict := words.has "strict"
    lastBootOnly := words.has "from-liftoff"
    quiet := words.has "quiet"
    rows := ← setting? words "rows" count?
    color := words.has "color" })

/-- Read the arguments of a check of a report. -/
def validation? (arguments : List (List Char)) : Option Invocation := do
  let words ← Words.read?
    [verbose, { name := "file", letter := some 'f', takesValue := true }] arguments
  let file ← (← words.value? "file") |> path?
  if words.operands = [] then some (.check file) else none

/-- Read the arguments of a request for the report format. -/
def schema? (arguments : List (List Char)) : Option Invocation := do
  let words ← Words.read? [verbose, { name := "show" }] arguments
  if words.operands = [] then some (.schema (words.has "show")) else none

/-- Read the arguments of a request for the versions. -/
def version? (arguments : List (List Char)) : Option Invocation := do
  let words ← Words.read? [verbose] arguments
  if words.operands = [] then some .version else none

/-- Read the arguments of a command with this name. -/
def command? (name : List Char) (arguments : List (List Char)) : Option Invocation :=
  if name = "analyze".toList then analysis? arguments
  else if name = "validate".toList then validation? arguments
  else if name = "schema".toList then schema? arguments
  else if name = "version".toList then version? arguments
  else none

/-- What the letters behind a dash before the command lead to: the banner, or whether the one letter
that may be passed over has been seen. -/
def leadingLetters? (seen : Bool) : List Char → Option (Option Bool)
  | [] => some (some seen)
  | 'V' :: _ => some none
  | 'v' :: rest => if seen then none else leadingLetters? true rest
  | _ => none

/-- Read a command line, where `seen` tells whether logging has been asked for. -/
def read? (seen : Bool) : List (List Char) → Option Invocation
  | [] => none
  | argument :: rest =>
    if argument = "--version".toList then some .banner
    else if argument = "--verbose".toList then if seen then none else read? true rest
    else
      match argument with
      | '-' :: letter :: letters =>
        match leadingLetters? seen (letter :: letters) with
        | some none => some .banner
        | some (some seen) => read? seen rest
        | none => none
      | name => command? name rest

/-- What a command line asks for, if it can be understood. Requests for help are left out: `--help`,
`-h` and `help`, alone or behind a command, count as not understood, where the program prints a text
and ends well. -/
def ofArguments? (arguments : List String) : Option Invocation :=
  read? false (arguments.map String.toList)

end Invocation
end LayerTiming
