import LayerTiming.Proofs.Text.Cutting
import LayerTiming.Proofs.Text.Encoding

/-!
# Gaps in encoded text

What is decoded around a gap does not depend on the gap. A byte of the basic Latin block is no part of
another character and of no gap, so a byte string may be cut at each of them and decoded part by part.
The decoder adds nothing: the bytes of its text are bytes of its input, in the same order.

The invariant of a run is that the decoder holds the bytes of the character that it is inside of. Each
step completes that character, adds a byte to what is held, or lets what is held go.
-/
namespace LayerTiming.Text.Utf8
open scoped List

/-! ### Characters from their bytes -/

theorem val_ofNat {code : Nat} (valid : code.isValidChar) : (Char.ofNat code).val.toNat = code := by
  rw [Char.ofNat, dif_pos valid]
  rfl

theorem ofNat_eq_iff {n : Nat} (small : n < 256) {byte : UInt8} :
    UInt8.ofNat n = byte ↔ n = byte.toNat := by
  rw [← UInt8.toNat_inj, toNat_ofNat_of_lt small]

section Encoded

variable {lead next third last : UInt8}

theorem utf8EncodeChar_one (latin : lead.toNat < 0x80) :
    String.utf8EncodeChar (Char.ofNat lead.toNat) = [lead] := by
  have valid : lead.toNat.isValidChar := .inl (by omega)
  simp only [String.utf8EncodeChar, val_ofNat valid]
  rw [if_pos (by omega), UInt8.ofNat_toNat]

theorem utf8EncodeChar_two (low : 0xC2 ≤ lead.toNat) (high : lead.toNat ≤ 0xDF)
    (above : 0x80 ≤ last.toNat) (below : last.toNat ≤ 0xBF) :
    String.utf8EncodeChar (Char.ofNat ((lead.toNat - 0xC0) * 64 + (last.toNat - 0x80))) =
      [lead, last] := by
  have valid : ((lead.toNat - 0xC0) * 64 + (last.toNat - 0x80)).isValidChar := .inl (by omega)
  simp only [String.utf8EncodeChar, val_ofNat valid]
  rw [if_neg (by omega), if_pos (by omega)]
  simp only [List.cons.injEq, and_true]
  constructor <;> apply (ofNat_eq_iff (by omega)).mpr <;> omega

/-- The bounds of the second byte keep out codes that are too small or half of a surrogate pair. -/
theorem utf8EncodeChar_three (low : 0xE0 ≤ lead.toNat) (high : lead.toNat ≤ 0xEF)
    (least : (if lead.toNat = 0xE0 then 0xA0 else 0x80) ≤ next.toNat)
    (most : next.toNat ≤ if lead.toNat = 0xED then 0x9F else 0xBF)
    (above : 0x80 ≤ last.toNat) (below : last.toNat ≤ 0xBF) :
    String.utf8EncodeChar (Char.ofNat (((lead.toNat - 0xE0) * 64 + (next.toNat - 0x80)) * 64 +
      (last.toNat - 0x80))) = [lead, next, last] := by
  have next_least : 0x80 ≤ next.toNat ∧ (lead.toNat = 0xE0 → 0xA0 ≤ next.toNat) := by
    split at least <;> omega
  have next_most : next.toNat ≤ 0xBF ∧ (lead.toNat = 0xED → next.toNat ≤ 0x9F) := by
    split at most <;> omega
  have valid : (((lead.toNat - 0xE0) * 64 + (next.toNat - 0x80)) * 64 +
      (last.toNat - 0x80)).isValidChar := by
    unfold Nat.isValidChar
    omega
  simp only [String.utf8EncodeChar, val_ofNat valid]
  rw [if_neg (by omega), if_neg (by omega), if_pos (by omega)]
  simp only [List.cons.injEq, and_true]
  refine ⟨?_, ?_, ?_⟩ <;> apply (ofNat_eq_iff (by omega)).mpr <;> omega

theorem utf8EncodeChar_four (low : 0xF0 ≤ lead.toNat) (high : lead.toNat ≤ 0xF4)
    (least : (if lead.toNat = 0xF0 then 0x90 else 0x80) ≤ next.toNat)
    (most : next.toNat ≤ if lead.toNat = 0xF4 then 0x8F else 0xBF)
    (third_above : 0x80 ≤ third.toNat) (third_below : third.toNat ≤ 0xBF)
    (above : 0x80 ≤ last.toNat) (below : last.toNat ≤ 0xBF) :
    String.utf8EncodeChar (Char.ofNat ((((lead.toNat - 0xF0) * 64 + (next.toNat - 0x80)) * 64 +
      (third.toNat - 0x80)) * 64 + (last.toNat - 0x80))) = [lead, next, third, last] := by
  have next_least : 0x80 ≤ next.toNat ∧ (lead.toNat = 0xF0 → 0x90 ≤ next.toNat) := by
    split at least <;> omega
  have next_most : next.toNat ≤ 0xBF ∧ (lead.toNat = 0xF4 → next.toNat ≤ 0x8F) := by
    split at most <;> omega
  have valid : ((((lead.toNat - 0xF0) * 64 + (next.toNat - 0x80)) * 64 +
      (third.toNat - 0x80)) * 64 + (last.toNat - 0x80)).isValidChar := by
    unfold Nat.isValidChar
    omega
  simp only [String.utf8EncodeChar, val_ofNat valid]
  rw [if_neg (by omega), if_neg (by omega), if_neg (by omega)]
  simp only [List.cons.injEq, and_true]
  refine ⟨?_, ?_, ?_, ?_⟩ <;> apply (ofNat_eq_iff (by omega)).mpr <;> omega

end Encoded

/-! ### What the decoder holds -/

/-- Whatever completes the character, the held bytes and those that complete it encode it. As many bytes
as `owed` are missing, and the next of them lies between `low` and `high`. -/
def Completes : Nat → Nat → Nat → Nat → List UInt8 → Prop
  | owed + 2, low, high, code, held => ∀ byte : UInt8, low ≤ byte.toNat → byte.toNat ≤ high →
    Completes (owed + 1) 0x80 0xBF (code * 64 + (byte.toNat - 0x80)) (held ++ [byte])
  | _, low, high, code, held => ∀ byte : UInt8, low ≤ byte.toNat → byte.toNat ≤ high →
    String.utf8EncodeChar (Char.ofNat (code * 64 + (byte.toNat - 0x80))) = held ++ [byte]

/-- The bytes that a decoder holds: none between characters, and inside of one those read of it. No byte
of the basic Latin block continues a character. -/
inductive Holds : State → List UInt8 → Prop
  | between : Holds .between []
  | inside {owed low high code : Nat} {held : List UInt8} (past_latin : 0x80 ≤ low)
      (completes : Completes owed low high code held) : Holds (.inside owed low high code) held

theorem first_stray (byte : UInt8)
    (stray : 0x80 ≤ byte.toNat ∧ byte.toNat < 0xC2 ∨ 0xF4 < byte.toNat) :
    first byte = ([none], .between) := by
  unfold first
  dsimp only
  rw [if_neg (by omega), if_neg (by omega), if_neg (by omega), if_neg (by omega), if_neg (by omega),
    if_neg (by omega), if_neg (by omega), if_neg (by omega)]

/-- The bytes that are completed and held behind a first byte are that byte, unless it begins
nothing. -/
theorem holds_first (byte : UInt8) :
    ∃ held, Holds (first byte).2 held ∧
      encode ((first byte).1.filterMap id) ++ held <+ [byte] := by
  -- A first byte is a character, begins one of two, three or four bytes, or begins none.
  have kinds : byte.toNat < 0x80 ∨ 0xC2 ≤ byte.toNat ∧ byte.toNat ≤ 0xDF ∨
      0xE0 ≤ byte.toNat ∧ byte.toNat ≤ 0xEF ∨ 0xF0 ≤ byte.toNat ∧ byte.toNat ≤ 0xF4 ∨
      (0x80 ≤ byte.toNat ∧ byte.toNat < 0xC2 ∨ 0xF4 < byte.toNat) := by
    omega
  rcases kinds with latin | ⟨low, high⟩ | ⟨low, high⟩ | ⟨low, high⟩ | stray
  · rw [first_one byte latin]
    refine ⟨[], .between, ?_⟩
    simp [encode, utf8EncodeChar_one latin]
  · rw [first_two byte low high]
    refine ⟨[byte], .inside (Nat.le_refl _) ?_, List.Sublist.refl _⟩
    intro last above below
    exact utf8EncodeChar_two low high above below
  · rw [first_three byte low high]
    refine ⟨[byte], .inside (by split <;> omega) ?_, List.Sublist.refl _⟩
    intro next least most last above below
    exact utf8EncodeChar_three low high least most above below
  · rw [first_four byte low high]
    refine ⟨[byte], .inside (by split <;> omega) ?_, List.Sublist.refl _⟩
    intro next least most third third_above third_below last above below
    exact utf8EncodeChar_four low high least most third_above third_below above below
  · rw [first_stray byte stray]
    exact ⟨[], .between, List.nil_sublist _⟩

theorem encode_append (front back : List Char) : encode (front ++ back) = encode front ++ encode back :=
  List.flatMap_append

variable {state : State} {held : List UInt8}

/-- One step: what is completed by it and held after it was held before it, but for the byte. -/
theorem Holds.step (holds : Holds state held) (byte : UInt8) :
    ∃ later, Holds (step state byte).2 later ∧
      encode ((step state byte).1.filterMap id) ++ later <+ held ++ [byte] := by
  cases holds with
  | between => exact holds_first byte
  | @inside owed low high code held past_latin completes =>
    unfold Utf8.step
    dsimp only
    split
    next fits =>
      split
      next last =>
        -- The character is complete, and its bytes are what was held and the byte.
        have encoded : String.utf8EncodeChar (Char.ofNat (code * 64 + (byte.toNat - 0x80))) =
            held ++ [byte] := by
          match owed, last with
          | 0, _ => exact completes byte fits.1 fits.2
          | 1, _ => exact completes byte fits.1 fits.2
        refine ⟨[], .between, ?_⟩
        simp [encode, encoded]
      next more =>
        obtain ⟨fewer, rfl⟩ : ∃ fewer, owed = fewer + 2 := ⟨owed - 2, by omega⟩
        exact ⟨held ++ [byte], .inside (Nat.le_refl _) (completes byte fits.1 fits.2),
          List.Sublist.refl _⟩
    · -- What was held is a gap, and the byte is read again.
      obtain ⟨later, holds_later, among⟩ := holds_first byte
      exact ⟨later, holds_later, among.trans (List.sublist_append_right _ _)⟩

/-- A run: the bytes of the decoded text are among those held and read, in their order. -/
theorem Holds.run (holds : Holds state held) (bytes : List UInt8) :
    encode ((run state bytes).filterMap id) <+ held ++ bytes := by
  induction bytes generalizing state held with
  | nil => cases holds <;> exact List.nil_sublist _
  | cons byte rest ih =>
    obtain ⟨later, holds_later, here⟩ := holds.step byte
    rw [Utf8.run, List.filterMap_append, encode_append]
    generalize encode ((Utf8.step state byte).1.filterMap id) = complete at here ⊢
    calc complete ++ encode ((Utf8.run (Utf8.step state byte).2 rest).filterMap id)
      _ <+ complete ++ (later ++ rest) := (ih holds_later).append_left complete
      _ = complete ++ later ++ rest := (List.append_assoc _ _ _).symm
      _ <+ held ++ [byte] ++ rest := here.append_right rest
      _ = held ++ byte :: rest := by rw [List.append_assoc, List.singleton_append]

/-! ### Bytes of the basic Latin block -/

/-- Such a byte is a character, after a gap if the decoder is inside of another character. -/
theorem Holds.step_latin (holds : Holds state held) {byte : UInt8} (latin : byte.toNat < 0x80) :
    (Utf8.step state byte).1.filterMap id = [Char.ofNat byte.toNat] ∧
      (Utf8.step state byte).2 = .between := by
  cases holds with
  | between =>
    rw [Utf8.step, first_one byte latin]
    exact ⟨rfl, rfl⟩
  | inside past_latin completes =>
    rw [Utf8.step, if_neg (by omega), first_one byte latin]
    exact ⟨rfl, rfl⟩

theorem Holds.run_latin (holds : Holds state held) (front : List UInt8) {byte : UInt8}
    (latin : byte.toNat < 0x80) (back : List UInt8) :
    (Utf8.run state (front ++ byte :: back)).filterMap id =
      (Utf8.run state front).filterMap id ++ Char.ofNat byte.toNat :: decodeSkipping back := by
  induction front generalizing state held with
  | nil =>
    obtain ⟨complete, after⟩ := holds.step_latin latin
    have nothing : (Utf8.run state []).filterMap id = [] := by cases holds <;> rfl
    rw [List.nil_append, Utf8.run, List.filterMap_append, complete, after, nothing]
    rfl
  | cons first rest ih =>
    obtain ⟨later, holds_later, _⟩ := holds.step first
    rw [List.cons_append, Utf8.run, Utf8.run, List.filterMap_append, List.filterMap_append,
      ih holds_later, List.append_assoc]

theorem decodeSkipping_latin (front : List UInt8) {byte : UInt8} (latin : byte.toNat < 0x80)
    (back : List UInt8) :
    decodeSkipping (front ++ byte :: back) =
      decodeSkipping front ++ Char.ofNat byte.toNat :: decodeSkipping back :=
  Holds.between.run_latin front latin back

theorem encode_decodeSkipping_sublist (bytes : List UInt8) :
    encode (decodeSkipping bytes) <+ bytes :=
  Holds.between.run bytes

theorem decodeSkipping_encode_append (text : List Char) (bytes : List UInt8) :
    decodeSkipping (encode text ++ bytes) = text ++ decodeSkipping bytes := by
  have kept : (text.map some).filterMap id = text := by
    rw [List.filterMap_map]
    exact List.filterMap_some
  rw [decodeSkipping, decode_encode_append, List.filterMap_append, kept, ← decodeSkipping]

theorem decodeSkipping_encode (text : List Char) : decodeSkipping (encode text) = text := by
  have whole := decodeSkipping_encode_append text []
  rw [List.append_nil] at whole
  rw [whole]
  exact List.append_nil text

/-! ### Characters of the basic Latin block -/

/-- A character of the basic Latin block is decoded from its own byte only. -/
theorem byte_mem_of_mem {c : Char} (latin : c.toNat < 0x80) {bytes : List UInt8}
    (member : c ∈ decodeSkipping bytes) : UInt8.ofNat c.toNat ∈ bytes := by
  have value : (UInt8.ofNat c.toNat).toNat = c.toNat := toNat_ofNat_of_lt (by omega)
  have alone : String.utf8EncodeChar (Char.ofNat (UInt8.ofNat c.toNat).toNat) =
      [UInt8.ofNat c.toNat] := utf8EncodeChar_one (by omega)
  rw [value, Char.ofNat_toNat] at alone
  apply (encode_decodeSkipping_sublist bytes).subset
  apply List.mem_flatMap.mpr
  exact ⟨c, member, alone ▸ List.mem_cons_self⟩

/-- A property of all byte strings is shown of those without a byte of a certain kind, and of those put
together around such a byte. -/
theorem induction_on_bytes {motive : List UInt8 → Prop} (kind : UInt8 → Prop)
    (free : ∀ bytes, (∀ byte ∈ bytes, ¬ kind byte) → motive bytes)
    (parted : ∀ front byte back, kind byte → motive front → motive back →
      motive (front ++ byte :: back)) (bytes : List UInt8) : motive bytes := by
  -- The induction is on the length: what stands in front and what stands behind is shorter.
  induction size : bytes.length using Nat.strongRecOn generalizing bytes with
  | ind n ih =>
    by_cases some_byte : ∃ byte ∈ bytes, kind byte
    · obtain ⟨byte, member, of_kind⟩ := some_byte
      obtain ⟨front, back, rfl⟩ := List.append_of_mem member
      rw [List.length_append, List.length_cons] at size
      exact parted front byte back of_kind (ih front.length (by omega) front rfl)
        (ih back.length (by omega) back rfl)
    · apply free
      exact fun byte member of_kind => some_byte ⟨byte, member, of_kind⟩

/-- Decoding keeps the characters of the basic Latin block, each once and in order. -/
theorem filter_decodeSkipping (bytes : List UInt8) :
    (decodeSkipping bytes).filter (·.toNat < 0x80) =
      (bytes.filter (·.toNat < 0x80)).map fun byte => Char.ofNat byte.toNat := by
  induction bytes using induction_on_bytes (fun byte => byte.toNat < 0x80) with
  | free bytes past =>
    have no_byte : bytes.filter (·.toNat < 0x80) = [] := by
      rw [List.filter_eq_nil_iff]
      simpa using past
    have no_char : (decodeSkipping bytes).filter (·.toNat < 0x80) = [] := by
      rw [List.filter_eq_nil_iff]
      -- Its byte would be one of the block, and there is none.
      intro c member latin
      have small : c.toNat < 0x80 := of_decide_eq_true latin
      apply past _ (byte_mem_of_mem small member)
      rw [toNat_ofNat_of_lt (by omega)]
      exact small
    rw [no_byte, no_char, List.map_nil]
  | parted front byte back latin front_kept back_kept =>
    have code : (Char.ofNat byte.toNat).toNat = byte.toNat := val_ofNat (.inl (by omega))
    rw [decodeSkipping_latin front latin back, List.filter_append, List.filter_append,
      List.filter_cons_of_pos (by simpa [code] using latin),
      List.filter_cons_of_pos (by simpa using latin), front_kept, back_kept, List.map_append,
      List.map_cons]

/-- Each line is decoded as if it stood alone. -/
theorem pieces_decodeSkipping (bytes : List UInt8) :
    pieces '\n' (decodeSkipping bytes) = (bytes.splitOn 0x0A).map decodeSkipping := by
  induction bytes using induction_on_bytes (· = 0x0A) with
  | free bytes unbroken =>
    have no_byte : (0x0A : UInt8) ∉ bytes := fun member => unbroken _ member rfl
    have no_feed : '\n' ∉ decodeSkipping bytes :=
      fun member => no_byte (byte_mem_of_mem (by decide) member)
    rw [pieces_eq_singleton '\n' _ no_feed, List.splitOn_eq_singleton no_byte, List.map_singleton]
  | parted front byte back feed front_lines back_lines =>
    subst feed
    rw [decodeSkipping_latin front (by decide) back, List.splitOn_append_cons_self, List.map_append,
      ← front_lines, ← back_lines]
    exact pieces_append_cons '\n' _ _

/-- Gaps are confined. Encoded text is decoded to itself, whatever stands behind it, and a byte of the
basic Latin block parts what is decoded in front of it from what is decoded behind it. So the characters
of that block are kept in order, and no line depends on the bytes of another. The bytes of the decoded
text are those of the input with some left out. -/
theorem decodeSkipping_confined :
    (∀ text bytes, decodeSkipping (encode text ++ bytes) = text ++ decodeSkipping bytes) ∧
    (∀ text, decodeSkipping (encode text) = text) ∧
    (∀ front byte back, byte.toNat < 0x80 →
      decodeSkipping (front ++ byte :: back) =
        decodeSkipping front ++ Char.ofNat byte.toNat :: decodeSkipping back) ∧
    (∀ bytes, (decodeSkipping bytes).filter (·.toNat < 0x80) =
      (bytes.filter (·.toNat < 0x80)).map fun byte => Char.ofNat byte.toNat) ∧
    (∀ bytes, pieces '\n' (decodeSkipping bytes) = (bytes.splitOn 0x0A).map decodeSkipping) ∧
    ∀ bytes, encode (decodeSkipping bytes) <+ bytes := by
  refine ⟨decodeSkipping_encode_append, decodeSkipping_encode, ?_, filter_decodeSkipping,
    pieces_decodeSkipping, encode_decodeSkipping_sublist⟩
  exact fun front byte back latin => decodeSkipping_latin front latin back

/-- Three bytes begin a character of four, and the comma behind them ends it. -/
theorem decodeSkipping_confined_comma :
    let begun : List UInt8 := [0x35, 0xF0, 0x9F, 0x98]
    (0x2C : UInt8).toNat < 0x80 ∧ decodeSkipping (begun ++ 0x2C :: [0x80, 0x41]) = "5,A".toList := by
  intro begun
  have latin : (0x2C : UInt8).toNat < 0x80 := by decide
  refine ⟨latin, ?_⟩
  rw [decodeSkipping_confined.2.2.1 begun 0x2C [0x80, 0x41] latin]
  decide

end LayerTiming.Text.Utf8
