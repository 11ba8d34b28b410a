import Mathlib.Data.List.Forall2
import LayerTiming.Proofs.Toml.Scalars

/-!
# Lines read back

A flat settings file: lines that hold nothing, a comment, or a bare key with a scalar, in tables that
are named by headers. Each line is read by itself, whatever lines follow it, and so the file is read
as the statements of its lines.

## Main result

`statements?_document`: a flat file is read as its statements, line by line.
-/
namespace LayerTiming.Toml
open Text

/-! ## What lines are made of -/

abbrev Blanks := {text : List Char // ∀ c ∈ text, isBlank c = true}

def Blanks.empty : Blanks := ⟨[], by simp⟩

def Blanks.one : Blanks := ⟨[' '], List.forall_mem_singleton.mpr rfl⟩

theorem Blanks.val_empty : Blanks.empty.val = [] := rfl

abbrev Printable := {text : List Char // ∀ c ∈ text, isPrintable c = true}

/-- A key without quotes. -/
structure BareKey where
  chars : List Char
  some_char : chars ≠ []
  bare : ∀ c ∈ chars, isKeyChar c = true

def BareKey.name (key : BareKey) : String := String.ofList key.chars

def BareKey.ofString (name : String)
    (bare : name.toList ≠ [] ∧ name.toList.all isKeyChar = true) : BareKey where
  chars := name.toList
  some_char := bare.1
  bare := List.all_eq_true.mp bare.2

/-- The rest of a line behind what it says. -/
structure Tail where
  blanks : Blanks
  comment : Option Printable

def Tail.empty : Tail where
  blanks := .empty
  comment := none

def Tail.commentChars (tail : Tail) : List Char := tail.comment.elim [] fun text => '#' :: text.val

def Tail.chars (tail : Tail) : List Char := tail.blanks.val ++ tail.commentChars

/-- A line that gives a key a value. -/
structure Pair where
  indent : Blanks
  key : BareKey
  before : Blanks
  after : Blanks
  scalar : Scalar
  tail : Tail

def Pair.chars (pair : Pair) : List Char :=
  pair.indent.val ++ (pair.key.chars ++ (pair.before.val ++
    '=' :: (pair.after.val ++ (pair.scalar.chars ++ pair.tail.chars))))

/-- A line of a table. A line that says nothing is blank or a comment. -/
inductive Line
  | silent (tail : Tail)
  | pair (pair : Pair)

def Line.chars : Line → List Char
  | .silent tail => tail.chars
  | .pair written => written.chars

def Line.statements : Line → List Statement
  | .silent _ => []
  | .pair written => [.pair { last := written.key.name } written.scalar.value]

/-- A line that names the table of the lines behind it. -/
structure Header where
  indent : Blanks
  before : Blanks
  key : BareKey
  after : Blanks
  tail : Tail

def Header.chars (header : Header) : List Char :=
  header.indent.val ++ '[' :: (header.before.val ++ (header.key.chars ++ (header.after.val ++
    ']' :: header.tail.chars)))

structure Table where
  header : Header
  lines : List Line

/-- A flat file: the lines in front of the first header, and the tables. -/
structure Document where
  top : List Line
  tables : List Table

namespace Document

def lineTexts (document : Document) : List (List Char) :=
  document.top.map Line.chars ++ document.tables.flatMap fun table =>
    table.header.chars :: table.lines.map Line.chars

def text (document : Document) : List Char := joinPieces '\n' document.lineTexts

/-- The statements of the lines, line by line. -/
def lineStatements (document : Document) : List (List Statement) :=
  document.top.map Line.statements ++ document.tables.flatMap fun table =>
    [.header { last := table.header.key.name }] :: table.lines.map Line.statements

end Document

/-! ## Characters -/

theorem isKeyChar_of_isBlank {c : Char} (blank : isBlank c = true) : isKeyChar c = false := by
  rcases isBlank_iff.mp blank with rfl | rfl <;> decide

theorem isBlank_of_isKeyChar {c : Char} (bare : isKeyChar c = true) : isBlank c = false :=
  isBlank_eq_false (by decide) (by decide) bare

/-! ## Parts of a line -/

theorem dropBlanks_append (blanks : Blanks) {rest : List Char}
    (ends : ∀ c ∈ rest.head?, isBlank c = false) : dropBlanks (blanks.val ++ rest) = rest :=
  (takeWhile_kind blanks.property ends).2

theorem head?_blanks_append (blanks : Blanks) {rest : List Char} {c : Char}
    (first : c ∈ (blanks.val ++ rest).head?) : isBlank c = true ∨ c ∈ rest.head? := by
  obtain ⟨text, blank⟩ := blanks
  cases text with
  | nil => exact .inr first
  | cons d others =>
    cases first
    exact .inl (blank c List.mem_cons_self)

/-- What may stand behind a line. -/
def IsEnding (ending : List Char) : Prop := ∀ c ∈ ending.head?, c = '\n'

theorem isEnding_nil : IsEnding [] := fun _ first => nomatch first

theorem isEnding_feed (rest : List Char) : IsEnding ('\n' :: rest) :=
  fun _ first => (Option.some.inj first).symm

section
variable {ending : List Char} (ends : IsEnding ending)
include ends

theorem IsEnding.stops {test : Char → Bool} (feed : test '\n' = false) :
    ∀ c ∈ ending.head?, test c = false := by
  intro c first
  rw [ends c first, feed]

theorem IsEnding.eq_nil_or_feed : ending = [] ∨ ending = '\n' :: ending.tail := by
  cases ending with
  | nil => exact .inl rfl
  | cons c rest => exact .inr (congrArg (· :: rest) (ends c rfl))

theorem Tail.dropBlanks_chars (tail : Tail) :
    dropBlanks (tail.chars ++ ending) = tail.commentChars ++ ending := by
  rw [chars, List.append_assoc]
  refine dropBlanks_append tail.blanks ?_
  unfold commentChars
  cases tail.comment with
  | none => exact ends.stops (by decide)
  | some text =>
    intro c first
    cases first
    decide

theorem Tail.endsValue (tail : Tail) : EndsValue (tail.chars ++ ending) := by
  intro c first
  rw [chars, List.append_assoc] at first
  refine (head?_blanks_append tail.blanks first).imp_right fun behind => ?_
  unfold commentChars at behind
  cases found : tail.comment with
  | some text =>
    rw [found] at behind
    exact .inl (Option.some.inj behind).symm
  | none =>
    rw [found] at behind
    exact .inr (ends c behind)

/-- What a line says may be followed by blanks and a comment up to the end of the line. -/
theorem endOfLine?_tail (tail : Tail) : endOfLine? (tail.chars ++ ending) = some ending.tail := by
  unfold endOfLine?
  rw [tail.dropBlanks_chars ends]
  unfold Tail.commentChars
  cases tail.comment with
  | none => rcases ends.eq_nil_or_feed with same | same <;> (rw [same]; rfl)
  | some text =>
    have printable : ∀ c ∈ '#' :: text.val, isPrintable c = true :=
      List.forall_mem_cons.mpr ⟨by decide, text.property⟩
    have dropped : ('#' :: text.val ++ ending).dropWhile isPrintable = ending :=
      (takeWhile_kind printable (ends.stops (by decide))).2
    simp only [Option.elim_some, List.cons_append, List.head?_cons, if_true] at dropped ⊢
    rw [dropped]
    rcases ends.eq_nil_or_feed with same | same <;> (rw [same]; rfl)

end

theorem BareKey.isKeyChar_head (key : BareKey) {rest : List Char} {c : Char}
    (first : c ∈ (key.chars ++ rest).head?) : isKeyChar c = true := by
  obtain ⟨d, others, shape⟩ := List.exists_cons_of_ne_nil key.some_char
  rw [shape] at first
  cases first
  exact key.bare c (shape ▸ List.mem_cons_self)

/-- A bare key with blanks around it, in front of an equals sign or a closing bracket. -/
theorem readKey?_bare (front back : Blanks) (key : BareKey) {c : Char}
    (closing : c = '=' ∨ c = ']') (rest : List Char) :
    readKey? (front.val ++ (key.chars ++ (back.val ++ c :: rest))) =
      some ({ last := key.name }, c :: rest) := by
  obtain ⟨unblank, foreign, no_dot⟩ : isBlank c = false ∧ isKeyChar c = false ∧ c ≠ '.' := by
    rcases closing with rfl | rfl <;> decide
  have key_head : ∀ d ∈ (key.chars ++ (back.val ++ c :: rest)).head?, isBlank d = false :=
    fun d first => isBlank_of_isKeyChar (key.isKeyChar_head first)
  have key_ends : ∀ d ∈ (back.val ++ c :: rest).head?, isKeyChar d = false := by
    intro d head
    rcases head?_blanks_append back head with blank | last
    · exact isKeyChar_of_isBlank blank
    · cases last
      exact foreign
  obtain ⟨taken, dropped⟩ := takeWhile_kind key.bare key_ends
  have simple : readSimpleKey? (key.chars ++ (back.val ++ c :: rest)) =
      some (key.name, back.val ++ c :: rest) := by
    simp only [readSimpleKey?, taken, dropped, if_neg key.some_char, BareKey.name]
  have behind : dropBlanks (back.val ++ c :: rest) = c :: rest :=
    dropBlanks_append back (by simpa using unblank)
  -- What follows the key is no dot, so it has no further part.
  have keys : readKeys? nestingLimit (front.val ++ (key.chars ++ (back.val ++ c :: rest))) =
      some ([key.name], c :: rest) := by
    unfold nestingLimit readKeys?
    simp only [dropBlanks_append front key_head, simple, Option.bind_eq_bind, Option.bind_some,
      behind]
    split
    · next same => exact absurd (List.cons.inj same).1 no_dot
    · rfl
  simp only [readKey?, keys, Option.bind_eq_bind, Option.bind_some]
  rfl

/-! ## Statements -/

/-- A text that is read as these statements, up to the line feed behind it or the end. -/
def Reads (text : List Char) (found : List Statement) : Prop :=
  ∀ ⦃ending : List Char⦄, IsEnding ending →
    readStatement? (text ++ ending) = some (found, ending.tail)

theorem Tail.reads (tail : Tail) : Reads tail.chars [] := by
  intro ending ends
  have comment_read (text : Printable) :
      endOfLine? ('#' :: (text.val ++ ending)) = some ending.tail :=
    endOfLine?_tail ends { blanks := .empty, comment := some text }
  unfold readStatement?
  rw [tail.dropBlanks_chars ends]
  unfold commentChars
  cases tail.comment with
  | none => rcases ends.eq_nil_or_feed with same | same <;> (rw [same]; rfl)
  | some text => simp [comment_read text]

/-- A line that begins with a key is no header. -/
theorem Pair.reads (written : Pair) :
    Reads written.chars [.pair { last := written.key.name } written.scalar.value] := by
  intro ending ends
  obtain ⟨indent, key, before, after, scalar, tail⟩ := written
  have key_read := readKey?_bare .empty before key (.inl rfl)
    (after.val ++ (scalar.chars ++ (tail.chars ++ ending)))
  have value_read := scalar.readValue?_chars (tail.endsValue ends) nestingLimit
  have unblank : ∀ c ∈ (scalar.chars ++ (tail.chars ++ ending)).head?, isBlank c = false :=
    fun c first => scalar.isBlank_head first
  have key_head : ∀ c ∈ (key.chars ++ (before.val ++
      '=' :: (after.val ++ (scalar.chars ++ (tail.chars ++ ending))))).head?, isKeyChar c = true :=
    fun c first => key.isKeyChar_head first
  simp only [Pair.chars, List.append_assoc, List.cons_append, Blanks.val_empty,
    List.nil_append] at key_read ⊢
  -- What the reader decides on is the first character of the key and what reading the key leaves.
  generalize key.chars ++ (before.val ++
    '=' :: (after.val ++ (scalar.chars ++ (tail.chars ++ ending)))) = text at key_read key_head ⊢
  have pair_read : readPair? (readValue? nestingLimit) text =
      some (({ last := key.name }, scalar.value), tail.chars ++ ending) := by
    simp only [readPair?, key_read, expect?, if_true, dropBlanks_append after unblank, value_read,
      Option.bind_eq_bind, Option.bind_some]
    rfl
  have begins {c : Char} {rest : List Char} (foreign : isKeyChar c = false) : text ≠ c :: rest := by
    rintro rfl
    rw [key_head c rfl] at foreign
    cases foreign
  unfold readStatement?
  rw [dropBlanks_append indent fun c first => isBlank_of_isKeyChar (key_head c first)]
  -- The end, a line feed, a comment and the two headers do not begin with a character of a key.
  split
  · cases key_read
  · exact absurd rfl (begins (by decide))
  · exact absurd rfl (begins (by decide))
  · exact absurd rfl (begins (by decide))
  · exact absurd rfl (begins (by decide))
  · simp only [pair_read, endOfLine?_tail ends tail, Option.bind_eq_bind, Option.bind_some]
    rfl

/-- A header with one bracket is not taken for a repeated one. -/
theorem Header.reads (header : Header) :
    Reads header.chars [.header { last := header.key.name }] := by
  intro ending ends
  obtain ⟨indent, before, key, after, tail⟩ := header
  have key_read := readKey?_bare before after key (.inr rfl) (tail.chars ++ ending)
  have single : ∀ c ∈ (before.val ++ (key.chars ++
      (after.val ++ ']' :: (tail.chars ++ ending)))).head?, c ≠ '[' := by
    intro c first
    rcases head?_blanks_append before first with blank | bare
    · exact ne_of_apply_ne isBlank (by rw [blank]; decide)
    · exact ne_of_apply_ne isKeyChar (by rw [key.isKeyChar_head bare]; decide)
  simp only [Header.chars, List.append_assoc, List.cons_append] at key_read ⊢
  generalize before.val ++ (key.chars ++ (after.val ++ ']' :: (tail.chars ++ ending))) = text
    at key_read single ⊢
  have header_read : readHeader? [']'] text = some ({ last := key.name }, ending.tail) := by
    simp only [readHeader?, key_read, after?, if_true, endOfLine?_tail ends tail,
      Option.bind_eq_bind, Option.bind_some]
    rfl
  -- Only a bracket begins a header, and a second one is excluded by `single`.
  unfold readStatement?
  rw [dropBlanks_append indent (by simp; decide)]
  split
  next same => cases same
  next same => cases same
  next same => cases same
  next same =>
    cases same
    exact absurd rfl (single '[' rfl)
  next same =>
    cases same
    rw [header_read, Option.map_some]
  next no_header =>
    exact absurd rfl (no_header text)

theorem Line.reads (line : Line) : Reads line.chars line.statements := by
  cases line with
  | silent tail => exact tail.reads
  | pair written => exact written.reads

theorem readStatements?_step {fuel : Nat} {text rest : List Char} {found others : List Statement}
    (some_char : text ≠ []) (read : readStatement? text = some (found, rest))
    (behind : readStatements? fuel rest = some others) :
    readStatements? (fuel + 1) text = some (found ++ others) := by
  obtain ⟨c, text, rfl⟩ := List.exists_cons_of_ne_nil some_char
  simp only [readStatements?, read, behind, Option.bind_eq_bind, Option.bind_some]
  rfl

theorem readStatements?_nil (fuel : Nat) : readStatements? fuel [] = some [] := by
  cases fuel <;> rfl

/-- Texts that are read each by itself are read one after the other. -/
theorem readStatements?_lines {texts : List (List Char)} {found : List (List Statement)}
    (all : List.Forall₂ Reads texts found) {fuel : Nat}
    (enough : (joinPieces '\n' texts).length ≤ fuel) :
    readStatements? fuel (joinPieces '\n' texts) = some found.flatten := by
  -- By induction on the lines; the fuel is at least the length of what is left.
  induction all generalizing fuel with
  | nil => exact readStatements?_nil fuel
  | @cons text statements texts found first others ih =>
    cases others with
    | nil =>
      have read : readStatement? text = some (statements, []) := by
        simpa using first isEnding_nil
      -- An empty last line is not even read, but it says nothing.
      cases text with
      | nil =>
        cases read
        exact readStatements?_nil fuel
      | cons c rest =>
        obtain ⟨fuel, rfl⟩ := Nat.exists_eq_add_one_of_ne_zero
          (Nat.pos_iff_ne_zero.mp (Nat.lt_of_lt_of_le (Nat.succ_pos _) enough))
        exact readStatements?_step (List.cons_ne_nil c rest) read (readStatements?_nil fuel)
    | @cons next _ others _ _ _ =>
      have parts : joinPieces '\n' (text :: next :: others) =
          text ++ '\n' :: joinPieces '\n' (next :: others) := rfl
      rw [parts, List.length_append, List.length_cons] at enough
      obtain ⟨fuel, rfl⟩ := Nat.exists_eq_add_one_of_ne_zero (show fuel ≠ 0 by omega)
      have read := first (isEnding_feed (joinPieces '\n' (next :: others)))
      rw [parts]
      exact readStatements?_step (by simp) read (ih (by omega))

/-! ## Whole files -/

theorem unifyLineBreaks_eq_self {text : List Char} (absent : '\r' ∉ text) :
    unifyLineBreaks text = text := by
  induction text with
  | nil => rfl
  | cons c rest ih =>
    obtain ⟨other, later⟩ := not_or.mp (mt List.mem_cons.mpr absent)
    rw [unifyLineBreaks, if_neg fun both => other both.1.symm, ih later]

theorem dropMark_eq_self {text : List Char} (unmarked : '\ufeff' ∉ text.head?) :
    dropMark text = text := by
  cases text with
  | nil => rfl
  | cons c rest => exact if_neg fun same => unmarked (congrArg some same)

/-- A line that is left as it is before lines are read. -/
structure IsUnified (text : List Char) : Prop where
  no_return : '\r' ∉ text
  unmarked : '\ufeff' ∉ text.head?

theorem Blanks.no_return (blanks : Blanks) : '\r' ∉ blanks.val :=
  fun member => absurd (blanks.property _ member) (by decide)

theorem BareKey.no_return (key : BareKey) : '\r' ∉ key.chars :=
  fun member => absurd (key.bare _ member) (by decide)

theorem Tail.no_return (tail : Tail) : '\r' ∉ tail.chars := by
  unfold chars commentChars
  cases tail.comment with
  | none => simpa using Blanks.no_return tail.blanks
  | some text =>
    have printable : '\r' ∉ text.val := fun member => absurd (text.property _ member) (by decide)
    simp [Blanks.no_return, printable]

theorem Scalar.no_return (scalar : Scalar) : '\r' ∉ scalar.chars := by
  cases scalar with
  | boolean truth => cases truth <;> decide
  | integer n => exact n.not_mem_chars (by decide) (by decide)
  | text quoted =>
    have printable : '\r' ∉ quoted.chars := fun member => absurd (quoted.plain _ member).1 (by decide)
    rcases quoted.kind with kind | kind <;> simp [chars, kind, printable]

theorem isUnified_of_indent {indent : Blanks} {rest : List Char} (no_return : '\r' ∉ rest)
    (unmarked : '\ufeff' ∉ rest.head?) : IsUnified (indent.val ++ rest) where
  no_return := by simp [Blanks.no_return, no_return]
  unmarked := by
    intro first
    rcases head?_blanks_append indent first with blank | behind
    · exact absurd blank (by decide)
    · exact unmarked behind

theorem Line.isUnified (line : Line) : IsUnified line.chars := by
  cases line with
  | silent tail =>
    refine ⟨tail.no_return, fun first => ?_⟩
    have ends := tail.endsValue isEnding_nil
    rw [List.append_nil] at ends
    exact absurd (ends.head first) (by decide)
  | pair written =>
    refine isUnified_of_indent ?_ fun first => ?_
    · simp [BareKey.no_return, Blanks.no_return, Scalar.no_return, Tail.no_return]
    · exact absurd (written.key.isKeyChar_head first) (by decide)

theorem Header.isUnified (header : Header) : IsUnified header.chars := by
  refine isUnified_of_indent ?_ fun first => ?_
  · simp [BareKey.no_return, Blanks.no_return, Tail.no_return]
  · exact absurd (Option.some.inj first) (by decide)

theorem Document.isUnified (document : Document) :
    ∀ text ∈ document.lineTexts, IsUnified text := by
  simp only [lineTexts, List.mem_append, List.mem_map, List.mem_flatMap, List.mem_cons]
  rintro _ (⟨line, _, rfl⟩ | ⟨table, _, rfl | ⟨line, _, rfl⟩⟩)
  · exact line.isUnified
  · exact table.header.isUnified
  · exact line.isUnified

theorem Document.reads (document : Document) :
    List.Forall₂ Reads document.lineTexts document.lineStatements := by
  have lines (these : List Line) :
      List.Forall₂ Reads (these.map Line.chars) (these.map Line.statements) := by
    induction these with
    | nil => exact .nil
    | cons line others ih => exact .cons line.reads ih
  obtain ⟨top, tables⟩ := document
  refine List.rel_append (lines top) ?_
  induction tables with
  | nil => exact .nil
  | cons table others ih => exact List.rel_append (.cons table.header.reads (lines table.lines)) ih

/-- A flat file is read line by line. -/
theorem statements?_document (document : Document) :
    statements? document.text = some document.lineStatements.flatten := by
  have no_return : '\r' ∉ document.text := by
    intro member
    rcases mem_joinPieces member with feed | ⟨line, among, inside⟩
    · exact absurd feed (by decide)
    · exact (document.isUnified line among).no_return inside
  have unmarked : '\ufeff' ∉ document.text.head? := by
    intro first
    rcases head?_joinPieces first with feed | ⟨line, among, head⟩
    · exact absurd feed (by decide)
    · exact (document.isUnified line among).unmarked head
  unfold statements?
  dsimp only
  rw [dropMark_eq_self unmarked, unifyLineBreaks_eq_self no_return]
  exact readStatements?_lines document.reads (Nat.le_refl _)

end LayerTiming.Toml
