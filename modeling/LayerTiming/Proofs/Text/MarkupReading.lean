import Mathlib.Data.List.Infix
import Mathlib.Data.List.Nodup
import LayerTiming.Text.Markup

/-!
# Markup read back

A strict reader of the part of XML that trees are written in. Elements are closed in their own tag
or by an end tag of the same name, innermost first, attributes are named once and their values stand
in double quotes, no tag begins inside of another, and of the references only the four entities are
known. A tree of proper names is read back from its text, whatever the strings in it are.
-/
namespace LayerTiming.Markup

def entities : List (List Char) :=
  ["&amp;".toList, "&lt;".toList, "&gt;".toList, "&quot;".toList]

/-- Text without its entities. An ampersand that begins none of them has no reading. -/
def unescape? : List Char → Option (List Char)
  | [] => some []
  | '&' :: 'a' :: 'm' :: 'p' :: ';' :: rest => (unescape? rest).map ('&' :: ·)
  | '&' :: 'l' :: 't' :: ';' :: rest => (unescape? rest).map ('<' :: ·)
  | '&' :: 'g' :: 't' :: ';' :: rest => (unescape? rest).map ('>' :: ·)
  | '&' :: 'q' :: 'u' :: 'o' :: 't' :: ';' :: rest => (unescape? rest).map ('"' :: ·)
  | c :: rest => if c = '&' then none else (unescape? rest).map (c :: ·)

def isNameStart (c : Char) : Bool := c.isAlpha || c == '_' || c == ':'

def isNameChar (c : Char) : Bool := isNameStart c || c.isDigit || c == '-' || c == '.'

/-- Whether a name may go on with a character, behind what has been read of it. -/
def isNamePart (raw : List Char) (c : Char) : Bool :=
  if raw.isEmpty then isNameStart c else isNameChar c

/-- A start tag as far as it has been read, its attributes latest first. -/
structure Tag where
  name : String
  attributes : List (String × List Char) := []

/-- An element whose end tag is still to come, its children latest first. -/
structure Opened where
  tag : Tag
  children : List Markup := []

/-- The element at its end tag. With nothing between its tags it holds an empty text. -/
def Opened.close (element : Opened) : Markup :=
  .element element.tag.name element.tag.attributes.reverse
    (if element.children.isEmpty then [.content []] else element.children.reverse)

/-- Where a reader stands, with the characters of what it is in the middle of, latest first. -/
inductive Place
  | text (raw : List Char)
  /-- Behind the bracket that begins a tag. -/
  | name (raw : List Char)
  /-- In a start tag, behind its name or behind an attribute. -/
  | tag (tag : Tag)
  | key (tag : Tag) (raw : List Char)
  | equals (tag : Tag) (key : String)
  | value (tag : Tag) (key : String) (raw : List Char)
  /-- Behind the slash of an element that is closed in its own tag. -/
  | slash (tag : Tag)
  | endName (raw : List Char)

/-- What has been read: the open elements, innermost first, and the closed ones outside of them,
latest first. -/
structure Scan where
  opened : List Opened := []
  roots : List Markup := []
  place : Place := .text []

namespace Scan

def moved (scan : Scan) (place : Place) : Scan := { scan with place }

/-- The state behind a node. -/
def add (scan : Scan) (node : Markup) : Scan :=
  match scan.opened with
  | [] => { roots := node :: scan.roots }
  | inner :: outer =>
    { opened := { inner with children := node :: inner.children } :: outer, roots := scan.roots }

/-- The state behind the text in front of a tag. -/
def endText? (scan : Scan) (raw : List Char) : Option Scan :=
  if raw.isEmpty then some scan
  else (unescape? raw.reverse).map fun text => scan.add (.content text)

/-- The state behind an end tag. It has to close the innermost element. -/
def close? (scan : Scan) (name : String) : Option Scan :=
  match scan.opened with
  | [] => none
  | inner :: outer =>
    if inner.tag.name = name then some (add { scan with opened := outer } inner.close) else none

/-- One character of a start tag, behind its name or an attribute. -/
def inTag? (scan : Scan) (tag : Tag) (c : Char) : Option Scan :=
  if c = ' ' then some (scan.moved (.key tag []))
  else if c = '/' then some (scan.moved (.slash tag))
  else if c = '>' then some { scan with opened := { tag } :: scan.opened, place := .text [] }
  else none

def step? (scan : Scan) (c : Char) : Option Scan :=
  match scan.place with
  | .text raw =>
    if c = '<' then (scan.endText? raw).map fun next => next.moved (.name [])
    -- Text stands in elements only.
    else if scan.opened.isEmpty then none
    else some (scan.moved (.text (c :: raw)))
  | .name raw =>
    if isNamePart raw c then some (scan.moved (.name (c :: raw)))
    -- A slash in front of the name makes it the name of an end tag.
    else if raw.isEmpty then if c = '/' then some (scan.moved (.endName [])) else none
    else scan.inTag? { name := String.ofList raw.reverse } c
  | .tag tag => scan.inTag? tag c
  | .key tag raw =>
    let key := String.ofList raw.reverse
    if isNamePart raw c then some (scan.moved (.key tag (c :: raw)))
    else if c = '=' ∧ raw ≠ [] ∧ key ∉ tag.attributes.map Prod.fst then
      some (scan.moved (.equals tag key))
    else none
  | .equals tag key => if c = '"' then some (scan.moved (.value tag key [])) else none
  | .value tag key raw =>
    if c = '"' then
      (unescape? raw.reverse).map fun value =>
        scan.moved (.tag { tag with attributes := (key, value) :: tag.attributes })
    -- A tag cannot begin while a value is open.
    else if c = '<' then none
    else some (scan.moved (.value tag key (c :: raw)))
  | .slash tag =>
    if c = '>' then some (scan.add (.element tag.name tag.attributes.reverse [])) else none
  | .endName raw =>
    if c = '>' then scan.close? (String.ofList raw.reverse)
    else some (scan.moved (.endName (c :: raw)))

def run? : Scan → List Char → Option Scan
  | scan, [] => some scan
  | scan, c :: rest => (scan.step? c).bind fun next => run? next rest

/-- The root element, if it is the only one and nothing is left open. -/
def root? (scan : Scan) : Option Markup :=
  match scan.opened, scan.roots, scan.place with
  | [], [root], .text [] => some root
  | _, _, _ => none

end Scan

/-- Read a document of one root element. -/
def read? (text : List Char) : Option Markup := (Scan.run? {} text).bind Scan.root?

theorem unescape?_cons (c : Char) (rest : List Char) (ordinary : c ≠ '&') :
    unescape? (c :: rest) = (unescape? rest).map (c :: ·) := by
  simp [unescape?, ordinary]

theorem unescape?_escape (text : List Char) : unescape? (escape text) = some text := by
  induction text with
  | nil => rfl
  | cons c text ih =>
    rw [escape, List.flatMap_cons, ← escape, escapeChar]
    split
    next amp => simp [unescape?, ih, amp]
    split
    next less => simp [unescape?, ih, less]
    split
    next greater => simp [unescape?, ih, greater]
    split
    next quote => simp [unescape?, ih, quote]
    · rw [List.singleton_append, unescape?_cons c _ (by assumption), ih, Option.map_some]

theorem escapeChar_ne_nil (c : Char) : escapeChar c ≠ [] := by
  unfold escapeChar
  repeat' split
  all_goals simp

/-- Whether a text can name an element or an attribute: ASCII letters, and further characters behind
the first. -/
def isName : List Char → Bool
  | [] => false
  | first :: rest => isNameStart first && rest.all isNameChar

/-- Whether names make a start tag. Those of its attributes have to be different. -/
def isTag (name : String) (keys : List String) : Bool :=
  isName name.toList && keys.all (fun key => isName key.toList) && decide keys.Nodup

theorem isNamePart_of_ne_nil {raw : List Char} (some_raw : raw ≠ []) (c : Char) :
    isNamePart raw c = isNameChar c := by
  simp [isNamePart, some_raw]

theorem ne_empty_of_isName {name : String} (proper : isName name.toList = true) : name ≠ "" := by
  rintro rfl
  cases proper

/-- Trees with proper names in which text stands alone in its element. -/
inductive Regular : Markup → Prop
  | leaf {name attributes} (text : List Char)
    (proper : isTag name (attributes.map Prod.fst) = true) :
    Regular (.element name attributes [.content text])
  | branch {name attributes children} (proper : isTag name (attributes.map Prod.fst) = true)
    (inside : ∀ child ∈ children, Regular child) : Regular (.element name attributes children)

theorem isTag_iff {name : String} {keys : List String} :
    isTag name keys = true ↔
      isName name.toList = true ∧ (∀ key ∈ keys, isName key.toList = true) ∧ keys.Nodup := by
  simp [isTag, and_assoc]

theorem writeAll_eq_flatMap (nodes : List Markup) : writeAll nodes = nodes.flatMap write := by
  induction nodes with
  | nil => rfl
  | cons first rest ih => rw [writeAll, ih, List.flatMap_cons]

theorem write_append (name : String) (attributes : List (String × List Char))
    {children : List Markup} (some_child : children ≠ []) (rest : List Char) :
    write (.element name attributes children) ++ rest =
      '<' :: (name.toList ++ (attributes.flatMap writeAttribute ++ '>' ::
        (writeAll children ++ '<' :: '/' :: (name.toList ++ '>' :: rest)))) := by
  simp [write, some_child]

namespace Scan

variable {opened : List Opened} {roots : List Markup}

theorem run?_cons {scan next : Scan} {c : Char} {rest : List Char}
    (stepped : scan.step? c = some next) : run? scan (c :: rest) = run? next rest := by
  rw [run?, stepped, Option.bind_some]

theorem run?_push (place : List Char → Place) (text before rest : List Char)
    (pushed : ∀ c ∈ text, ∀ raw, before <:+ raw →
      step? ⟨opened, roots, place raw⟩ c = some ⟨opened, roots, place (c :: raw)⟩) :
    run? ⟨opened, roots, place before⟩ (text ++ rest) =
      run? ⟨opened, roots, place (text.reverse ++ before)⟩ rest := by
  induction text generalizing before with
  | nil => rfl
  | cons c text ih =>
    have here := pushed c List.mem_cons_self before (List.suffix_refl before)
    have later : ∀ d ∈ text, ∀ raw, c :: before <:+ raw →
        step? ⟨opened, roots, place raw⟩ d = some ⟨opened, roots, place (d :: raw)⟩ :=
      fun d member raw ends => pushed d (List.mem_cons_of_mem c member) raw
        ((List.suffix_cons c before).trans ends)
    rw [List.cons_append, run?_cons here, ih (c :: before) later,
      List.reverse_cons, List.append_assoc, List.singleton_append]

theorem run?_name (place : List Char → Place) (name rest : List Char) (proper : isName name = true)
    (pushed : ∀ raw c, isNamePart raw c = true →
      step? ⟨opened, roots, place raw⟩ c = some ⟨opened, roots, place (c :: raw)⟩) :
    run? ⟨opened, roots, place []⟩ (name ++ rest) =
      run? ⟨opened, roots, place name.reverse⟩ rest := by
  cases name with
  | nil => cases proper
  | cons first others =>
    obtain ⟨starts, goes_on⟩ := Bool.and_eq_true_iff.mp proper
    have others_pushed : ∀ c ∈ others, ∀ raw, [first] <:+ raw →
        step? ⟨opened, roots, place raw⟩ c = some ⟨opened, roots, place (c :: raw)⟩ := by
      intro c member raw ends
      have some_raw : raw ≠ [] := fun nothing => by simp [nothing] at ends
      have part := List.all_eq_true.mp goes_on c member
      exact pushed raw c ((isNamePart_of_ne_nil some_raw c).trans part)
    have first_pushed := pushed [] first starts
    rw [List.cons_append, run?_cons first_pushed, run?_push place others [first] rest others_pushed,
      List.reverse_cons]

theorem run?_attribute (tag : Tag) (named : String × List Char) (rest : List Char)
    (proper : isName named.1.toList = true) (fresh : named.1 ∉ tag.attributes.map Prod.fst) :
    run? ⟨opened, roots, .tag tag⟩ (writeAttribute named ++ rest) =
      run? ⟨opened, roots, .tag { tag with attributes := named :: tag.attributes }⟩ rest := by
  obtain ⟨key, value⟩ := named
  -- One fact for each part of the attribute: blank, key, sign, quote, value and quote.
  have blank : step? ⟨opened, roots, .tag tag⟩ ' ' = some ⟨opened, roots, .key tag []⟩ := rfl
  have key_read := @run?_name opened roots (Place.key tag) key.toList
    ('=' :: '"' :: (escape value ++ '"' :: rest)) proper
    fun raw c part => by simp [step?, part, moved]
  have key_ends : step? ⟨opened, roots, .key tag key.toList.reverse⟩ '=' =
      some ⟨opened, roots, .equals tag key⟩ := by
    have some_key : key ≠ "" := ne_empty_of_isName proper
    have no_part : isNamePart key.toList.reverse '=' = false :=
      (isNamePart_of_ne_nil (by simpa using some_key) '=').trans rfl
    simp [step?, no_part, some_key, moved, fresh]
  have value_begins : step? ⟨opened, roots, .equals tag key⟩ '"' =
      some ⟨opened, roots, .value tag key []⟩ := rfl
  have value_read := @run?_push opened roots (Place.value tag key)
    (escape value) [] ('"' :: rest) fun c member raw _ => by
      obtain ⟨less, _, quote⟩ := ne_of_mem_escape member
      simp [step?, less, quote, moved]
  have value_ends : step? ⟨opened, roots, .value tag key ((escape value).reverse ++ [])⟩ '"' =
      some ⟨opened, roots, .tag { tag with attributes := (key, value) :: tag.attributes }⟩ := by
    simp [step?, unescape?_escape, moved]
  simp only [writeAttribute, List.cons_append, List.append_assoc, List.nil_append]
  rw [run?_cons blank, key_read, run?_cons key_ends, run?_cons value_begins, value_read,
    run?_cons value_ends]

theorem run?_attributes (name : String) (attributes before : List (String × List Char))
    (rest : List Char) (proper : ∀ named ∈ attributes, isName named.1.toList = true)
    (distinct : (attributes.reverse ++ before).map Prod.fst |>.Nodup) :
    run? ⟨opened, roots, .tag ⟨name, before⟩⟩ (attributes.flatMap writeAttribute ++ rest) =
      run? ⟨opened, roots, .tag ⟨name, attributes.reverse ++ before⟩⟩ rest := by
  induction attributes generalizing before with
  | nil => rfl
  | cons named attributes ih =>
    rw [List.reverse_cons, List.append_assoc, List.singleton_append] at distinct ⊢
    have fresh : named.1 ∉ before.map Prod.fst := by
      rw [List.map_append] at distinct
      exact (List.nodup_cons.mp (List.nodup_append.mp distinct).2.1).1
    rw [List.flatMap_cons, List.append_assoc,
      run?_attribute ⟨name, before⟩ named _ (proper named List.mem_cons_self) fresh]
    exact ih (named :: before) (fun other member => proper other (List.mem_cons_of_mem _ member))
      distinct

/-- A name and attributes, up to the character that ends the tag or its content. -/
theorem run?_startTag (name : String) (attributes : List (String × List Char)) (c : Char)
    (rest : List Char) (proper : isTag name (attributes.map Prod.fst) = true)
    (ends : c = '/' ∨ c = '>') :
    run? ⟨opened, roots, .name []⟩
        (name.toList ++ (attributes.flatMap writeAttribute ++ c :: rest)) =
      run? ⟨opened, roots, .tag ⟨name, attributes.reverse⟩⟩ (c :: rest) := by
  obtain ⟨name_proper, keys_proper, distinct⟩ := isTag_iff.mp proper
  have name_read := @run?_name opened roots Place.name name.toList
    (attributes.flatMap writeAttribute ++ c :: rest) name_proper
    fun raw c part => by simp [step?, part, moved]
  -- The character behind the name is read as it is read behind an attribute.
  have name_ends (d : Char) (other : isNameChar d = false) (later : List Char) :
      run? ⟨opened, roots, .name name.toList.reverse⟩ (d :: later) =
        run? ⟨opened, roots, .tag ⟨name, []⟩⟩ (d :: later) := by
    have some_raw : name.toList.reverse ≠ [] := by simpa using ne_empty_of_isName name_proper
    have no_part := (isNamePart_of_ne_nil some_raw d).trans other
    rw [run?, step?]
    dsimp only
    rw [if_neg (by simp [no_part]), if_neg (by simpa using some_raw), List.reverse_reverse,
      String.ofList_toList]
    rfl
  have attributes_read := @run?_attributes opened roots name attributes []
    (c :: rest)
    (fun named member => keys_proper named.1 (List.mem_map_of_mem member))
    (by simpa [List.nodup_reverse] using distinct)
  rw [List.append_nil] at attributes_read
  rw [name_read, ← attributes_read]
  cases attributes with
  | nil =>
    refine name_ends c ?_ rest
    rcases ends with rfl | rfl <;> rfl
  | cons named later => exact name_ends ' ' rfl _

theorem run?_opening (name : String) (attributes : List (String × List Char)) (rest : List Char)
    (proper : isTag name (attributes.map Prod.fst) = true) :
    run? ⟨opened, roots, .text []⟩
        ('<' :: (name.toList ++ (attributes.flatMap writeAttribute ++ '>' :: rest))) =
      run? ⟨{ tag := ⟨name, attributes.reverse⟩ } :: opened, roots, .text []⟩ rest := by
  have begun : step? ⟨opened, roots, .text []⟩ '<' = some ⟨opened, roots, .name []⟩ := rfl
  have ends : step? ⟨opened, roots, .tag ⟨name, attributes.reverse⟩⟩ '>' =
      some ⟨{ tag := ⟨name, attributes.reverse⟩ } :: opened, roots, .text []⟩ := rfl
  rw [run?_cons begun, run?_startTag name attributes '>' rest proper (.inr rfl), run?_cons ends]

theorem run?_selfClosing (name : String) (attributes : List (String × List Char))
    (rest : List Char) (proper : isTag name (attributes.map Prod.fst) = true) :
    run? ⟨opened, roots, .text []⟩
        ('<' :: (name.toList ++ (attributes.flatMap writeAttribute ++ '/' :: '>' :: rest))) =
      run? (add ⟨opened, roots, .text []⟩ (.element name attributes [])) rest := by
  have begun : step? ⟨opened, roots, .text []⟩ '<' = some ⟨opened, roots, .name []⟩ := rfl
  have slash : step? ⟨opened, roots, .tag ⟨name, attributes.reverse⟩⟩ '/' =
      some ⟨opened, roots, .slash ⟨name, attributes.reverse⟩⟩ := rfl
  have ends : step? ⟨opened, roots, .slash ⟨name, attributes.reverse⟩⟩ '>' =
      some (add ⟨opened, roots, .text []⟩ (.element name attributes [])) := by
    simp [step?, add]
  rw [run?_cons begun, run?_startTag name attributes '/' ('>' :: rest) proper (.inl rfl),
    run?_cons slash, run?_cons ends]

theorem run?_endTag (inner : Opened) (rest : List Char)
    (proper : isName inner.tag.name.toList = true) :
    run? ⟨inner :: opened, roots, .name []⟩ ('/' :: (inner.tag.name.toList ++ '>' :: rest)) =
      run? (add ⟨opened, roots, .text []⟩ inner.close) rest := by
  have slash : step? ⟨inner :: opened, roots, .name []⟩ '/' =
      some ⟨inner :: opened, roots, .endName []⟩ := rfl
  have name_read := @run?_name (inner :: opened) roots Place.endName
    inner.tag.name.toList ('>' :: rest) proper fun raw c part => by
      have free : c ≠ '>' := by
        rintro rfl
        cases raw <;> cases part
      simp [step?, free, moved]
  have closed : step? ⟨inner :: opened, roots, .endName inner.tag.name.toList.reverse⟩ '>' =
      some (add ⟨opened, roots, .text []⟩ inner.close) := by
    simp [step?, close?, add]
  rw [run?_cons slash, name_read, run?_cons closed]

theorem run?_text (text rest : List Char) (inside : opened ≠ []) :
    run? ⟨opened, roots, .text []⟩ (escape text ++ rest) =
      run? ⟨opened, roots, .text (escape text).reverse⟩ rest := by
  have ran := @run?_push opened roots Place.text (escape text) [] rest
    fun c member raw _ => by simp [step?, (ne_of_mem_escape member).1, inside, moved]
  rwa [List.append_nil] at ran

theorem run?_leaf (tag : Tag) (text rest : List Char) (proper : isName tag.name.toList = true) :
    run? ⟨{ tag } :: opened, roots, .text []⟩
        (escape text ++ '<' :: '/' :: (tag.name.toList ++ '>' :: rest)) =
      run? (add ⟨opened, roots, .text []⟩
        (.element tag.name tag.attributes.reverse [.content text])) rest := by
  rw [run?_text text _ (List.cons_ne_nil _ _)]
  -- Of an empty text nothing is there to be read, and the end tag supplies it.
  by_cases nothing : text = []
  · subst nothing
    exact run?_endTag { tag } rest proper
  · have some_raw : escape text ≠ [] := by
      cases text with
      | nil => exact absurd rfl nothing
      | cons c later =>
        simp [escape, escapeChar_ne_nil c]
    have text_ends : step? ⟨{ tag } :: opened, roots, .text (escape text).reverse⟩ '<' =
        some ⟨{ tag, children := [.content text] } :: opened, roots, .name []⟩ := by
      simp [step?, endText?, some_raw, unescape?_escape, add, moved]
    rw [run?_cons text_ends]
    exact run?_endTag { tag, children := [.content text] } rest proper

theorem run?_children {tag : Tag} (children before : List Markup) (rest : List Char)
    (each : ∀ child ∈ children, ∀ (opened : List Opened) (rest : List Char),
      run? ⟨opened, roots, .text []⟩ (write child ++ rest) =
        run? (add ⟨opened, roots, .text []⟩ child) rest) :
    run? ⟨⟨tag, before⟩ :: opened, roots, .text []⟩ (writeAll children ++ rest) =
      run? ⟨⟨tag, children.reverse ++ before⟩ :: opened, roots, .text []⟩ rest := by
  induction children generalizing before with
  | nil => rfl
  | cons child children ih =>
    obtain ⟨first, others⟩ := List.forall_mem_cons.mp each
    rw [writeAll, List.append_assoc, first, List.reverse_cons, List.append_assoc,
      List.singleton_append]
    exact ih (child :: before) others

/-- The text of a tree adds the tree. -/
theorem run?_write {tree : Markup} (regular : tree.Regular) (opened : List Opened)
    (rest : List Char) :
    run? ⟨opened, roots, .text []⟩ (write tree ++ rest) =
      run? (add ⟨opened, roots, .text []⟩ tree) rest := by
  -- The induction is on the tree, with the open elements around it free.
  induction regular generalizing opened rest with
  | @leaf name attributes text proper =>
    have leaf_read := @run?_leaf opened roots ⟨name, attributes.reverse⟩ text
      rest (isTag_iff.mp proper).1
    rw [write_append name attributes (List.cons_ne_nil _ _), run?_opening name attributes _ proper,
      writeAll_eq_flatMap, List.flatMap_singleton]
    simpa [write] using leaf_read
  | @branch name attributes children proper inside ih =>
    by_cases nothing : children = []
    · subst nothing
      simpa [write] using @run?_selfClosing opened roots name attributes rest proper
    · have children_read := @run?_children opened roots ⟨name, attributes.reverse⟩ children []
        ('<' :: '/' :: (name.toList ++ '>' :: rest)) fun child member => ih child member
      let inner : Opened := ⟨⟨name, attributes.reverse⟩, children.reverse⟩
      have begun : step? ⟨inner :: opened, roots, .text []⟩ '<' =
          some ⟨inner :: opened, roots, .name []⟩ := rfl
      have closed := @run?_endTag opened roots inner rest (isTag_iff.mp proper).1
      rw [List.append_nil] at children_read
      rw [write_append name attributes nothing, run?_opening name attributes _ proper,
        children_read, run?_cons begun, closed]
      simp [inner, Opened.close, nothing]

end Scan

/-- A tree of proper names is read back from its text. -/
theorem read?_write {name : String} {attributes : List (String × List Char)}
    {children : List Markup} (regular : Regular (.element name attributes children)) :
    read? (write (.element name attributes children)) =
      some (.element name attributes children) := by
  have ran := @Scan.run?_write [] _ regular [] []
  rw [List.append_nil] at ran
  rw [read?, ran]
  rfl

example : read? "<a><b></a></b>".toList = none := by decide

example : read? "<a b=\"\" c=\"\"onload=\"\"/>".toList = none := by decide

end LayerTiming.Markup
