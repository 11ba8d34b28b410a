import LayerTiming.Capture.Recording
import LayerTiming.Files.System
import LayerTiming.Timing.Clock
import LayerTiming.Toml.Reader

/-!
# Settings of an analysis

Settings are read from a TOML text. Every key may be missing, and keys that are not known are passed
over. Settings with a clock that has a zero are refused.
-/
namespace LayerTiming
open Text

/-- The settings of an analysis. -/
structure Settings where
  clock : Clock := {}
  leadingEvents : LeadingEvents := .leftOut
  /-- Whether runs that disagree anywhere are an error. -/
  strict : Bool := false
  deriving DecidableEq, Repr, Inhabited

def LeadingEvents.word : LeadingEvents → String
  | .leftOut => "required"
  | .ownRun => "implicit-leading-run"

def LeadingEvents.ofWord? (word : String) : Option LeadingEvents :=
  [leftOut, ownRun].find? fun policy => policy.word == word

/-- Why there are no settings. -/
inductive SettingsFault
  | unreadable (fault : FileFault)
  /-- The text is not what settings look like. -/
  | malformed
  /-- A constant of the clock in the settings is zero. -/
  | invalidSetting (fault : ClockFault)
  /-- A constant of a clock that is given by itself is zero. -/
  | invalidClock (fault : ClockFault)
  deriving DecidableEq, Repr, Inhabited

/-- What is wrong, in words. What is wrong with a malformed text is not said. -/
def SettingsFault.message : SettingsFault → String
  | .unreadable fault => "Failed to read config file: " ++ fault.message
  | .malformed => "Config TOML parse error:"
  | .invalidSetting fault => "Invalid configuration: clock." ++ fault.message
  | .invalidClock fault => "Invalid configuration: " ++ fault.message

def SettingsFault.chain : SettingsFault → List String
  | .unreadable fault => [(unreadable fault).message, fault.message]
  | fault => [fault.message]

/-- A clock with these constants, if neither is zero. -/
def Clock.checked (cyclesPerTick frequency : UInt64) : Except SettingsFault Clock :=
  let clock : Clock := { cyclesPerTick, frequency }
  match clock.fault? with
  | some fault => .error (.invalidClock fault)
  | none => .ok clock

namespace Settings
open Toml (Value Entries)

/-- A counter value: an integer that is not negative. -/
def word? : Value → Option UInt64
  | .integer n => if 0 ≤ n then some (UInt64.ofNat n.toNat) else none
  | _ => none

def boolean? : Value → Option Bool
  | .boolean truth => some truth
  | _ => none

def setting? {α : Type} (decode : Value → Option α) (fallback : α) : Option Value → Option α
  | none => some fallback
  | some value => decode value

/-- A clock is a table, or an array of its constants. A point in time counts as a table without any
of the keys. -/
def clock? : Value → Option Clock
  | .table _ entries => do
    let usual : Clock := {}
    pure {
      cyclesPerTick := ← setting? word? usual.cyclesPerTick (entries.lookup "cycles_per_tick")
      frequency := ← setting? word? usual.frequency (entries.lookup "cpu_freq_hz") }
  | .array items => do
    let usual : Clock := {}
    pure {
      cyclesPerTick := ← setting? word? usual.cyclesPerTick items[0]?
      frequency := ← setting? word? usual.frequency items[1]? }
  | .moment => some {}
  | _ => none

/-- Whether a value is a table or an array that holds nothing. -/
def isVoid : Value → Bool
  | .table _ entries => entries.isEmpty
  | .array items => items.isEmpty
  | _ => false

/-- A policy is its word, or a table with nothing under its word. -/
def leadingEvents? : Value → Option LeadingEvents
  | .text word => LeadingEvents.ofWord? word
  | .table _ [(word, value)] => if isVoid value then LeadingEvents.ofWord? word else none
  | _ => none

def ofEntries? (entries : Entries) : Option Settings := do
  pure {
    clock := ← setting? clock? {} (entries.lookup "clock")
    leadingEvents := ← setting? leadingEvents? .leftOut (entries.lookup "header_policy")
    strict := ← setting? boolean? false (entries.lookup "strict") }

/-- The settings, if their clock has no zero. -/
def checked (settings : Settings) : Except SettingsFault Settings :=
  match settings.clock.fault? with
  | some fault => .error (.invalidSetting fault)
  | none => .ok settings

def parse (text : List Char) : Except SettingsFault Settings :=
  match (Toml.read? text).bind ofEntries? with
  | some settings => settings.checked
  | none => .error .malformed

def load (files : FileSystem) (path : Path) : Except SettingsFault Settings :=
  match files.readText path with
  | .ok text => parse text
  | .error fault => .error (.unreadable fault)

end Settings
end LayerTiming
