import LayerTiming.Proofs.Capture.Markers
import LayerTiming.Proofs.Capture.Segments
import LayerTiming.Proofs.Text.Cutting
import LayerTiming.Proofs.Text.Numerals

/-!
# Printed captures

A capture that is printed item by item reads back as the items: each line says what was printed on
it, so cutting the lines at their headers is cutting the items at theirs.
-/
namespace LayerTiming
open Text

/-- The text of an operation tag. -/
def IsTag (text : List Char) : Prop := text ≠ [] ∧ ∀ c ∈ text, isTagChar c = true

/-- What is printed on one line of a capture. Noise is any line without a meaning. -/
inductive Item
  | header
  | event (event : Event) (tagged : IsTag event.operation.toList)
  | sample (cycles : UInt64)
  | noise (text : List Char) (unbroken : '\n' ∉ text) (idle : Line.ofText text = .noise)
  deriving DecidableEq

/-- How a printed line ends. -/
inductive LineBreak
  | feed
  | returnFeed
  deriving DecidableEq

/-- What stands in front of the line feed of a line break. -/
def LineBreak.padding : LineBreak → List Char
  | .feed => []
  | .returnFeed => ['\r']

namespace Item

/-- The line of an item as it is printed, without its line break. -/
def text : Item → List Char
  | .header => headerText
  | .event found _ =>
    numeral found.id.toNat ++ ',' :: (found.operation.toList ++ ',' :: numeral found.ticks.toNat)
  | .sample cycles => "( ".toList ++ (numeral cycles.toNat ++ " ) cycles total".toList)
  | .noise text _ _ => text

/-- What the line of an item says. -/
def line : Item → Line
  | .header => .header
  | .event found _ => .event found
  | .sample cycles => .sample cycles
  | .noise _ _ _ => .noise

/-- The event of an item, if it is one. -/
def event? : Item → Option Event
  | .event found _ => some found
  | _ => none

/-- The sample of an item, if it is one. -/
def sample? : Item → Option UInt64
  | .sample cycles => some cycles
  | _ => none

/-- Print items one per line. -/
def print (items : List (Item × LineBreak)) : List Char :=
  items.flatMap fun printed => printed.1.text ++ printed.2.padding ++ ['\n']

theorem not_mem_tag (text : List Char) (tagged : IsTag text) (c : Char)
    (other : isTagChar c = false) : c ∉ text := by
  intro member
  simp [tagged.2 c member] at other

/-! ### Reading an event -/

theorem event_read?_printed (found : Event) (tagged : IsTag found.operation.toList) :
    Event.read? (numeral found.id.toNat ++
      ',' :: (found.operation.toList ++ ',' :: numeral found.ticks.toNat)) = some found := by
  have cut : pieces ',' (numeral found.id.toNat ++
      ',' :: (found.operation.toList ++ ',' :: numeral found.ticks.toNat)) =
      [numeral found.id.toNat, found.operation.toList, numeral found.ticks.toNat] := by
    rw [pieces_append_cons, pieces_append_cons,
      pieces_eq_singleton ',' _ (not_mem_numeral _ ',' (by decide)),
      pieces_eq_singleton ',' _ (not_mem_tag _ tagged ',' (by decide)),
      pieces_eq_singleton ',' _ (not_mem_numeral _ ',' (by decide))]
    rfl
  have allowed : found.operation.toList ≠ [] ∧ found.operation.toList.all isTagChar = true :=
    ⟨tagged.1, List.all_eq_true.mpr tagged.2⟩
  simp only [Event.read?, cut, if_pos allowed, readWord?_numeral, String.ofList_toList]
  rfl

/-! ### Reading a sample -/

/-- The marker that is printed with a sample. -/
def marker (cycles : UInt64) : Marker where
  lead := [' ']
  digits := numeral cycles.toNat
  trail := [' ']
  gap := [' ']
  lead_blank := List.forall_mem_singleton.mpr rfl
  some_digit := numeral_ne_nil _
  decimal c member := isDecimalDigit_of_isAsciiDigit c (isAsciiDigit_of_mem_numeral _ c member)
  trail_blank := List.forall_mem_singleton.mpr rfl
  gap_blank := List.forall_mem_singleton.mpr rfl
  some_gap := List.cons_ne_nil ' ' []

theorem text_sample (cycles : UInt64) : text (.sample cycles) = (marker cycles).text := rfl

theorem readSample?_printed (cycles : UInt64) :
    readSample? (text (.sample cycles)) = some cycles := by
  have nothing : Marker.Free [] := Marker.free_of_no_words (by decide)
  have first := nothing.isFirst (marker cycles) []
  rw [List.nil_append, List.append_nil] at first
  rw [text_sample, first.readSample?]
  exact readWord?_numeral cycles

/-! ### Lines of items -/

theorem feed_not_mem_text (item : Item) : '\n' ∉ item.text := by
  have no_digit (n : Nat) : '\n' ∉ numeral n := not_mem_numeral n '\n' (by decide)
  cases item with
  | header => decide
  | event found tagged =>
    have no_tag := not_mem_tag _ tagged '\n' (by decide)
    simp [text, no_digit, no_tag]
  | sample cycles =>
    have ends : '\n' ∉ "( ".toList ∧ '\n' ∉ " ) cycles total".toList := by decide
    simp only [text, List.mem_append, no_digit, ends.1, ends.2, or_self, not_false_eq_true]
  | noise text unbroken _ => exact unbroken

theorem ne_headerText (c : Char) (rest : List Char) (other : c ≠ '"') : c :: rest ≠ headerText := by
  intro same
  have first : headerText.head? = some '"' := by decide
  rw [← same] at first
  exact other (by simpa using first)

/-- The last character of a printed numeral is a digit. -/
theorem getLast?_append_numeral (front : List Char) (n : Nat) (c : Char)
    (last : c ∈ (front ++ numeral n).getLast?) : isAsciiDigit c = true := by
  rw [List.getLast?_append_of_ne_nil _ (numeral_ne_nil n)] at last
  exact isAsciiDigit_of_mem_numeral n c (List.mem_of_getLast? last)

theorem ofText_event (found : Event) (tagged : IsTag found.operation.toList) :
    Line.ofText (text (.event found tagged)) = .event found := by
  obtain ⟨c, rest, shape, digit⟩ := exists_numeral_eq_cons found.id.toNat
  -- The line begins and ends with a digit, so there is nothing to trim.
  have trimmed : trim (text (.event found tagged)) = text (.event found tagged) := by
    apply trim_eq_self
    · intro d first
      have same : c = d := by simpa [text, shape] using first
      exact isSpace_of_isAsciiDigit d (same ▸ digit)
    · intro d last
      apply isSpace_of_isAsciiDigit d
      apply getLast?_append_numeral (numeral found.id.toNat ++ ',' :: found.operation.toList ++ [','])
        found.ticks.toNat d
      simpa [text] using last
  have no_header : text (.event found tagged) ≠ headerText := by
    rw [text, shape]
    apply ne_headerText
    rintro rfl
    exact absurd digit (by decide)
  rw [Line.ofText, trimmed, Line.ofTrimmed, if_neg no_header, text,
    event_read?_printed found tagged]

theorem ofText_sample (cycles : UInt64) : Line.ofText (text (.sample cycles)) = .sample cycles := by
  have trimmed : trim (text (.sample cycles)) = text (.sample cycles) := by
    apply trim_eq_self
    · intro d first
      have same : d = '(' := by simpa [text] using first.symm
      exact same ▸ by decide
    · intro d last
      have ending : " ) cycles total".toList.getLast? = some 'l' := by decide
      rw [text, List.getLast?_append_of_ne_nil _ (by simp),
        List.getLast?_append_of_ne_nil _ (by decide), ending] at last
      have same : d = 'l' := (Option.mem_some.mp last).symm
      exact same ▸ by decide
  have no_header : text (.sample cycles) ≠ headerText :=
    ne_headerText '(' (' ' :: (numeral cycles.toNat ++ " ) cycles total".toList)) (by decide)
  have unparted : ',' ∉ text (.sample cycles) := by
    have no_digit := not_mem_numeral cycles.toNat ',' (by decide)
    have ends : ',' ∉ "( ".toList ∧ ',' ∉ " ) cycles total".toList := by decide
    simp only [text, List.mem_append, no_digit, ends.1, ends.2, or_self, not_false_eq_true]
  have no_event : Event.read? (text (.sample cycles)) = none := by
    rw [Event.read?, pieces_eq_singleton ',' _ unparted]
  -- The line is no event, so it is a sample if the words of a marker occur in it.
  have marked : occurs markerWords (text (.sample cycles)) = true := by
    have found := (marker cycles).occurs_markerWords [] []
    rwa [List.nil_append, List.append_nil] at found
  rw [Line.ofText, trimmed, Line.ofTrimmed, if_neg no_header, no_event]
  simp only [marked, if_true, readSample?_printed]

/-- The line of an item says what was printed on it. -/
theorem ofText_text (item : Item) : Line.ofText item.text = item.line := by
  cases item with
  | header => decide
  | event found tagged => exact ofText_event found tagged
  | sample cycles => exact ofText_sample cycles
  | noise text unbroken idle => exact idle

/-- A printed item and its line break are one line, which says what the item says. -/
theorem map_ofText_lines_print (items : List (Item × LineBreak)) :
    (lines (print items)).map Line.ofText = items.map fun printed => printed.1.line := by
  have unbroken : ∀ body ∈ items.map fun printed => printed.1.text ++ printed.2.padding,
      '\n' ∉ body := by
    intro body member
    obtain ⟨⟨item, ending⟩, _, rfl⟩ := List.mem_map.mp member
    have no_feed : '\n' ∉ ending.padding := by cases ending <;> decide
    simp only [List.mem_append, feed_not_mem_text item, no_feed, or_self, not_false_eq_true]
  have printed_lines : print items =
      (items.map fun printed => printed.1.text ++ printed.2.padding).flatMap (· ++ ['\n']) := by
    rw [print, List.flatMap_map]
  rw [printed_lines, lines_flatMap_feed _ unbroken, List.map_map, List.map_map]
  apply List.map_congr_left
  rintro ⟨item, ending⟩ _
  -- A carriage return in front of the line feed is white space at the end of the line.
  have blank : ∀ c ∈ ending.padding, isSpace c = true := by
    cases ending with
    | feed => exact List.forall_mem_nil _
    | returnFeed => exact List.forall_mem_singleton.mpr (by decide)
  change Line.ofTrimmed (trim (dropReturn (item.text ++ ending.padding))) = item.line
  rw [trim_dropReturn, trim_append_spaces _ _ blank]
  exact ofText_text item

theorem event?_line (item : Item) : Recording.event? item.line = item.event? := by
  cases item <;> rfl

theorem sample?_line (item : Item) : Recording.sample? item.line = item.sample? := by
  cases item <;> rfl

theorem splitOn_map_line (items : List Item) :
    (items.map line).splitOn .header = (items.splitOn .header).map (List.map line) := by
  induction items with
  | nil => rfl
  | cons item rest ih =>
    rw [List.map_cons, List.splitOn_cons_eq_if_modifyHead, List.splitOn_cons_eq_if_modifyHead, ih]
    cases item with
    | header => rfl
    | event found tagged => cases rest.splitOn header <;> rfl
    | sample cycles => cases rest.splitOn header <;> rfl
    | noise text unbroken idle => cases rest.splitOn header <;> rfl

theorem segments_map_line (policy : LeadingEvents) (items : List Item) :
    policy.segments .header (items.map line) = (policy.segments .header items).map (List.map line) := by
  cases policy with
  | leftOut => rw [LeadingEvents.segments, LeadingEvents.segments, splitOn_map_line, List.map_tail]
  | ownRun => exact splitOn_map_line items

/-- Reading undoes printing. The runs are the events between the printed headers, and the samples
are the printed ones, each with the values that were printed. -/
theorem ofText_print (policy : LeadingEvents) (items : List (Item × LineBreak)) :
    Recording.ofText policy (print items) =
      { runs := ((policy.segments .header (items.map Prod.fst)).map (List.filterMap event?)).filter
          (· ≠ [])
        samples := (items.map Prod.fst).filterMap sample? } := by
  have said : (lines (print items)).map Line.ofText = (items.map Prod.fst).map line := by
    rw [map_ofText_lines_print, List.map_map]
    rfl
  have events : List.filterMap Recording.event? ∘ List.map line = List.filterMap event? := by
    funext segment
    rw [Function.comp_apply, List.filterMap_map]
    exact congrArg (List.filterMap · segment) (funext event?_line)
  have samples : Recording.sample? ∘ line = sample? := funext sample?_line
  rw [Recording.ofText, said, Recording.ofLines, Recording.mk.injEq]
  constructor
  · change (Recording.ofLines policy ((items.map Prod.fst).map line)).runs = _
    rw [Recording.runs_ofLines, segments_map_line, Recording.runsOfSegments, List.map_map, events]
  · rw [List.filterMap_map, samples]

end Item
end LayerTiming
