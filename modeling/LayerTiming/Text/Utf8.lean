/-!
# UTF-8 with gaps

Decode a byte string into characters and gaps. A gap is a longest run of bytes that begins a
character and is not continued by the byte after it, or a byte that begins no character. The byte
that ends a gap is read again on its own, so a gap never swallows a byte of the basic Latin block.
-/
namespace LayerTiming.Text.Utf8

/-- Where a decoder stands: between characters, or inside one that still needs `owed` bytes, the
next of them between `low` and `high`, with the bits read so far in `code`. -/
inductive State
  | between
  | inside (owed low high code : Nat)
  deriving DecidableEq, Repr

/-- What the first byte of a character leads to. -/
def first (byte : UInt8) : List (Option Char) × State :=
  let b := byte.toNat
  if b < 0x80 then ([some (Char.ofNat b)], .between)
  else if 0xC2 ≤ b ∧ b ≤ 0xDF then ([], .inside 1 0x80 0xBF (b - 0xC0))
  else if b = 0xE0 then ([], .inside 2 0xA0 0xBF (b - 0xE0))
  else if b = 0xED then ([], .inside 2 0x80 0x9F (b - 0xE0))
  else if 0xE1 ≤ b ∧ b ≤ 0xEF then ([], .inside 2 0x80 0xBF (b - 0xE0))
  else if b = 0xF0 then ([], .inside 3 0x90 0xBF (b - 0xF0))
  else if 0xF1 ≤ b ∧ b ≤ 0xF3 then ([], .inside 3 0x80 0xBF (b - 0xF0))
  else if b = 0xF4 then ([], .inside 3 0x80 0x8F (b - 0xF0))
  else ([none], .between)

/-- One byte: what is complete with it, and where the decoder stands after it. -/
def step : State → UInt8 → List (Option Char) × State
  | .between, byte => first byte
  | .inside owed low high code, byte =>
    let b := byte.toNat
    if low ≤ b ∧ b ≤ high then
      if owed ≤ 1 then ([some (Char.ofNat (code * 64 + (b - 0x80)))], .between)
      else ([], .inside (owed - 1) 0x80 0xBF (code * 64 + (b - 0x80)))
    else (none :: (first byte).1, (first byte).2)

/-- Decode from a state to the end. A character that is cut off by the end is a gap. -/
def run : State → List UInt8 → List (Option Char)
  | .between, [] => []
  | .inside .., [] => [none]
  | state, byte :: rest => (step state byte).1 ++ run (step state byte).2 rest

/-- The characters and gaps of a byte string. -/
def decode (bytes : List UInt8) : List (Option Char) := run .between bytes

/-- Decode and leave the gaps out. -/
def decodeSkipping (bytes : List UInt8) : List Char := (decode bytes).filterMap id

/-- Decode a byte string that has no gap. -/
def decode? (bytes : List UInt8) : Option (List Char) := (decode bytes).mapM id

def encode (text : List Char) : List UInt8 := text.flatMap String.utf8EncodeChar

end LayerTiming.Text.Utf8
