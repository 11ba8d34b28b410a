import LayerTiming.Text.Lines

/-!
# Colours of operations

Operations are coloured by family, with one colour for drawings and one for terminals.
-/
namespace LayerTiming
open Text

/-- A family of operations. -/
inductive OperationFamily
  | depthwise
  | convolution
  | fullyConnected
  | elementwise
  | pooling
  | shaping
  | other
  deriving DecidableEq, Repr, Inhabited

/-- The family of an operation, by the words in its name. A family named earlier wins. -/
def OperationFamily.ofName (name : List Char) : OperationFamily :=
  let mentions (word : String) : Bool := occurs word.toList name
  if mentions "DEPTHWISE" then .depthwise
  else if mentions "CONV" then .convolution
  else if mentions "FULLY_CONNECTED" then .fullyConnected
  else if name = "ADD".toList ∨ name = "MUL".toList ∨ mentions "QUANTIZE" then .elementwise
  else if mentions "POOL" || mentions "PAD" then .pooling
  else if mentions "SOFTMAX" || mentions "RESHAPE" then .shaping
  else .other

/-- The colour of a family in drawings. -/
def OperationFamily.fill : OperationFamily → String
  | .depthwise => "rgb(255, 140, 0)"
  | .convolution => "rgb(220, 20, 60)"
  | .fullyConnected => "rgb(138, 43, 226)"
  | .elementwise => "rgb(34, 139, 34)"
  | .pooling => "rgb(70, 130, 180)"
  | .shaping => "rgb(100, 149, 237)"
  | .other => "rgb(169, 169, 169)"

/-- The parameters of the terminal sequence that selects the colour of a family. -/
def OperationFamily.terminalCode : OperationFamily → String
  | .depthwise => "33"
  | .convolution => "31;1"
  | .fullyConnected => "35"
  | .elementwise => "32"
  | .pooling => "34"
  | .shaping => "36"
  | .other => "90"

/-- A terminal sequence that selects how text is displayed. -/
def terminalSequence (code : String) : List Char := '\x1b' :: '[' :: code.toList ++ ['m']

/-- Text in the colour of its operation's family, if it is to be coloured. -/
def painted (color : Bool) (operation text : List Char) : List Char :=
  if color then
    terminalSequence (OperationFamily.ofName operation).terminalCode ++ text
      ++ terminalSequence "0"
  else text

end LayerTiming
