import LayerTiming.Text.Utf8

/-!
# Encoded text reads back

Decoding undoes encoding: a character's bytes lead the decoder from between characters to between
characters, and complete that character and nothing else.
-/
namespace LayerTiming.Text.Utf8

theorem first_one (byte : UInt8) (low : byte.toNat < 0x80) :
    first byte = ([some (Char.ofNat byte.toNat)], .between) := if_pos low

theorem first_two (byte : UInt8) (low : 0xC2 ≤ byte.toNat) (high : byte.toNat ≤ 0xDF) :
    first byte = ([], .inside 1 0x80 0xBF (byte.toNat - 0xC0)) := by
  unfold first
  dsimp only
  rw [if_neg (by omega), if_pos ⟨low, high⟩]

/-- The first byte of three narrows the second where the code would be too small or half of a
surrogate pair. -/
theorem first_three (byte : UInt8) (low : 0xE0 ≤ byte.toNat) (high : byte.toNat ≤ 0xEF) :
    first byte = ([], .inside 2 (if byte.toNat = 0xE0 then 0xA0 else 0x80)
      (if byte.toNat = 0xED then 0x9F else 0xBF) (byte.toNat - 0xE0)) := by
  unfold first
  dsimp only
  rw [if_neg (by omega), if_neg (by omega)]
  by_cases least : byte.toNat = 0xE0
  · rw [if_pos least, if_pos least, if_neg (by omega), least]
  · rw [if_neg least, if_neg least]
    by_cases surrogate : byte.toNat = 0xED
    · rw [if_pos surrogate, if_pos surrogate]
    · rw [if_neg surrogate, if_neg surrogate, if_pos (by omega)]

theorem first_four (byte : UInt8) (low : 0xF0 ≤ byte.toNat) (high : byte.toNat ≤ 0xF4) :
    first byte = ([], .inside 3 (if byte.toNat = 0xF0 then 0x90 else 0x80)
      (if byte.toNat = 0xF4 then 0x8F else 0xBF) (byte.toNat - 0xF0)) := by
  unfold first
  dsimp only
  rw [if_neg (by omega), if_neg (by omega), if_neg (by omega), if_neg (by omega),
    if_neg (by omega)]
  by_cases least : byte.toNat = 0xF0
  · rw [if_pos least, if_pos least, if_neg (by omega), least]
  · rw [if_neg least, if_neg least]
    by_cases greatest : byte.toNat = 0xF4
    · rw [if_neg (by omega), if_pos greatest, if_pos greatest]
    · rw [if_pos (by omega), if_neg greatest]

theorem step_last (low high code : Nat) (byte : UInt8) (above : low ≤ byte.toNat)
    (below : byte.toNat ≤ high) :
    step (.inside 1 low high code) byte =
      ([some (Char.ofNat (code * 64 + (byte.toNat - 0x80)))], .between) := by
  unfold step
  dsimp only
  rw [if_pos ⟨above, below⟩, if_pos (Nat.le_refl 1)]

theorem step_owed (owed low high code : Nat) (byte : UInt8) (above : low ≤ byte.toNat)
    (below : byte.toNat ≤ high) :
    step (.inside (owed + 2) low high code) byte =
      ([], .inside (owed + 1) 0x80 0xBF (code * 64 + (byte.toNat - 0x80))) := by
  unfold step
  dsimp only
  rw [if_pos ⟨above, below⟩, if_neg (by omega)]
  rfl

variable {low high code : Nat} {lead : UInt8} (next third last : UInt8)

theorem run_two (rest : List UInt8) (begun : first lead = ([], .inside 1 low high code))
    (above : low ≤ last.toNat) (below : last.toNat ≤ high) :
    run .between (lead :: last :: rest) =
      some (Char.ofNat (code * 64 + (last.toNat - 0x80))) :: run .between rest := by
  simp only [run]
  rw [step, begun, step_last low high code last above below]
  rfl

theorem run_three (rest : List UInt8) (begun : first lead = ([], .inside 2 low high code))
    (above : low ≤ next.toNat) (below : next.toNat ≤ high)
    (last_above : 0x80 ≤ last.toNat) (last_below : last.toNat ≤ 0xBF) :
    run .between (lead :: next :: last :: rest) =
      some (Char.ofNat ((code * 64 + (next.toNat - 0x80)) * 64 + (last.toNat - 0x80))) ::
        run .between rest := by
  simp only [run]
  rw [step, begun, step_owed 0 low high code next above below,
    step_last 0x80 0xBF _ last last_above last_below]
  rfl

theorem run_four (rest : List UInt8) (begun : first lead = ([], .inside 3 low high code))
    (above : low ≤ next.toNat) (below : next.toNat ≤ high)
    (third_above : 0x80 ≤ third.toNat) (third_below : third.toNat ≤ 0xBF)
    (last_above : 0x80 ≤ last.toNat) (last_below : last.toNat ≤ 0xBF) :
    run .between (lead :: next :: third :: last :: rest) =
      some (Char.ofNat (((code * 64 + (next.toNat - 0x80)) * 64 + (third.toNat - 0x80)) * 64 +
        (last.toNat - 0x80))) :: run .between rest := by
  simp only [run]
  rw [step, begun, step_owed 1 low high code next above below,
    step_owed 0 0x80 0xBF _ third third_above third_below,
    step_last 0x80 0xBF _ last last_above last_below]
  rfl

theorem toNat_ofNat_of_lt {n : Nat} (small : n < 256) : (UInt8.ofNat n).toNat = n := by
  rw [UInt8.toNat_ofNat']
  exact Nat.mod_eq_of_lt small

/-- The bytes of a character are read as that character. -/
theorem run_utf8EncodeChar (c : Char) (rest : List UInt8) :
    run .between (String.utf8EncodeChar c ++ rest) = some c :: run .between rest := by
  have valid : c.val.toNat < 0xD800 ∨ 0xDFFF < c.val.toNat ∧ c.val.toNat < 0x110000 := c.valid
  have back : Char.ofNat c.val.toNat = c := Char.ofNat_toNat c
  unfold String.utf8EncodeChar
  generalize c.val.toNat = v at valid back
  have tail (n : Nat) : (UInt8.ofNat (n % 64 + 128)).toNat = n % 64 + 128 :=
    toNat_ofNat_of_lt (by omega)
  -- The code of the character is cut into groups of six bits, and the decoder puts them together.
  dsimp only
  split
  · have alone := first_one (UInt8.ofNat v) (by rw [toNat_ofNat_of_lt] <;> omega)
    rw [toNat_ofNat_of_lt (by omega), back] at alone
    simp only [List.cons_append, List.nil_append, run, step, alone]
  split
  · have b0 := toNat_ofNat_of_lt (n := v / 64 % 32 + 192) (by omega)
    have b1 := tail v
    have begun := first_two (UInt8.ofNat (v / 64 % 32 + 192)) (by omega) (by omega)
    have ran := run_two (UInt8.ofNat (v % 64 + 128)) rest begun (by omega) (by omega)
    rw [b0, b1, show (v / 64 % 32 + 192 - 0xC0) * 64 + (v % 64 + 128 - 0x80) = v by omega,
      back] at ran
    exact ran
  split
  · have b0 := toNat_ofNat_of_lt (n := v / 4096 % 16 + 224) (by omega)
    have b1 := tail (v / 64)
    have b2 := tail v
    have begun := first_three (UInt8.ofNat (v / 4096 % 16 + 224)) (by omega) (by omega)
    have ran := run_three (UInt8.ofNat (v / 64 % 64 + 128)) (UInt8.ofNat (v % 64 + 128)) rest begun
      (by split <;> omega) (by split <;> omega) (by omega) (by omega)
    have code : ((v / 4096 % 16 + 224 - 0xE0) * 64 + (v / 64 % 64 + 128 - 0x80)) * 64 +
        (v % 64 + 128 - 0x80) = v := by omega
    rw [b0, b1, b2, code, back] at ran
    exact ran
  · have b0 := toNat_ofNat_of_lt (n := v / 262144 % 8 + 240) (by omega)
    have b1 := tail (v / 4096)
    have b2 := tail (v / 64)
    have b3 := tail v
    have begun := first_four (UInt8.ofNat (v / 262144 % 8 + 240)) (by omega) (by omega)
    have ran := run_four (UInt8.ofNat (v / 4096 % 64 + 128)) (UInt8.ofNat (v / 64 % 64 + 128))
      (UInt8.ofNat (v % 64 + 128)) rest begun
      (by split <;> omega) (by split <;> omega) (by omega) (by omega) (by omega) (by omega)
    have code : (((v / 262144 % 8 + 240 - 0xF0) * 64 + (v / 4096 % 64 + 128 - 0x80)) * 64 +
        (v / 64 % 64 + 128 - 0x80)) * 64 + (v % 64 + 128 - 0x80) = v := by omega
    rw [b0, b1, b2, b3, code, back] at ran
    exact ran

/-- Encoded characters are decoded without a gap, whatever stands behind them. -/
theorem decode_encode_append (text : List Char) (bytes : List UInt8) :
    decode (encode text ++ bytes) = text.map some ++ decode bytes := by
  induction text with
  | nil => rfl
  | cons c rest ih =>
    rw [encode, List.flatMap_cons, ← encode, List.append_assoc, decode, run_utf8EncodeChar,
      List.map_cons]
    exact congrArg (some c :: ·) ih

theorem decode_encode (text : List Char) : decode (encode text) = text.map some := by
  have whole := decode_encode_append text []
  rw [List.append_nil] at whole
  rw [whole]
  exact List.append_nil _

/-- The bytes of a text are those of its string. -/
theorem encode_eq_toUTF8 (text : List Char) :
    (encode text).toByteArray = (String.ofList text).toUTF8 :=
  String.toByteArray_ofList.symm

end LayerTiming.Text.Utf8
