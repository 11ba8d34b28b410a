import LayerTiming.Proofs.Text.MarkupReading

/-!
# Markup without its strings

The outline of a tree is the tree without the strings in it. The brackets and quotes of the text of
a tree are those of its outline, so none of them comes from a string, and each ampersand of the text
begins an entity.
-/
namespace LayerTiming.Markup

mutual

/-- The tree with nothing in its texts and in the values of its attributes. -/
def outline : Markup → Markup
  | .content _ => .content []
  | .element name attributes children =>
    .element name (attributes.map fun named => (named.1, [])) (outlineAll children)

def outlineAll : List Markup → List Markup
  | [] => []
  | first :: rest => outline first :: outlineAll rest

end

mutual

/-- The elements of a tree, in the order in which they begin. -/
def elements : Markup → List Markup
  | .content _ => []
  | .element name attributes children => .element name attributes children :: elementsAll children

def elementsAll : List Markup → List Markup
  | [] => []
  | first :: rest => elements first ++ elementsAll rest

end

def isNamed (name : String) : Markup → Bool
  | .content _ => false
  | .element own _ _ => own == name

def attribute? (key : String) : Markup → Option (List Char)
  | .content _ => none
  | .element _ attributes _ => attributes.lookup key

def children : Markup → List Markup
  | .content _ => []
  | .element _ _ children => children

/-- The text that stands directly in an element. -/
def words (node : Markup) : List Char :=
  node.children.flatMap fun
    | .content text => text
    | .element _ _ _ => []

/-- Whether a character begins or ends tags or values. -/
def isMark (c : Char) : Bool := c == '<' || c == '>' || c == '"'

/-- Text in which each ampersand begins an entity. -/
def EntitiesOnly (text : List Char) : Prop :=
  ∀ front back, text = front ++ '&' :: back → ∃ entity ∈ entities, entity <+: '&' :: back

theorem outlineAll_eq_map (nodes : List Markup) : outlineAll nodes = nodes.map outline := by
  induction nodes with
  | nil => rfl
  | cons first rest ih => rw [outlineAll, ih, List.map_cons]

theorem elementsAll_eq_flatMap (nodes : List Markup) :
    elementsAll nodes = nodes.flatMap elements := by
  induction nodes with
  | nil => rfl
  | cons first rest ih => rw [elementsAll, ih, List.flatMap_cons]

theorem filter_escape (text : List Char) : (escape text).filter isMark = [] := by
  refine List.filter_eq_nil_iff.mpr fun c member => ?_
  obtain ⟨less, greater, quote⟩ := ne_of_mem_escape member
  simp [isMark, less, greater, quote]

/-- What stands in the value of an attribute leaves no mark. -/
theorem filter_writeAttribute (named : String × List Char) :
    (writeAttribute named).filter isMark = (writeAttribute (named.1, [])).filter isMark := by
  simp [writeAttribute, List.filter_cons, filter_escape]

theorem filter_attributes (attributes : List (String × List Char)) :
    (attributes.flatMap writeAttribute).filter isMark =
      ((attributes.map fun named => (named.1, [])).flatMap writeAttribute).filter isMark := by
  induction attributes with
  | nil => rfl
  | cons named rest ih =>
    rw [List.flatMap_cons, List.filter_append, ih, filter_writeAttribute, ← List.filter_append]
    rfl

mutual

/-- The brackets and quotes of a text are those of the outline. -/
theorem filter_write : (tree : Markup) →
    (write tree).filter isMark = (write tree.outline).filter isMark
  | .content text => filter_escape text
  | .element name attributes children => by
    have inside := filter_writeAll children
    have empty : (outlineAll children).isEmpty = children.isEmpty := by
      rw [outlineAll_eq_map, List.isEmpty_map]
    simp only [write, outline, empty]
    split <;> simp [List.filter_cons, inside, filter_attributes attributes]

theorem filter_writeAll : (nodes : List Markup) →
    (writeAll nodes).filter isMark = (writeAll (outlineAll nodes)).filter isMark
  | [] => rfl
  | first :: rest => by
    rw [writeAll, List.filter_append, filter_write first, filter_writeAll rest, outlineAll,
      writeAll, List.filter_append]

end

namespace EntitiesOnly

theorem of_not_mem (text : List Char) (free : '&' ∉ text) : EntitiesOnly text := by
  rintro front back rfl
  simp at free

theorem append {first second : List Char} (here : EntitiesOnly first)
    (there : EntitiesOnly second) : EntitiesOnly (first ++ second) := by
  intro front back same
  rcases List.append_eq_append_iff.mp same with ⟨between, rfl, rest⟩ | ⟨between, rfl, rest⟩
  · exact there between back rest
  · cases between with
    | nil => exact there [] back rest.symm
    | cons c between =>
      -- The entity ends in the first text, and the second only follows it.
      obtain ⟨rfl, rfl⟩ := List.cons_eq_cons.mp rest
      obtain ⟨entity, known, begins⟩ := here front between rfl
      exact ⟨entity, known, begins.trans (List.prefix_append _ second)⟩

theorem cons {c : Char} {text : List Char} (other : c ≠ '&') (rest : EntitiesOnly text) :
    EntitiesOnly (c :: text) :=
  append (of_not_mem [c] (by simpa using other.symm)) rest

theorem flatMap {α : Type} {items : List α} {text : α → List Char}
    (each : ∀ item ∈ items, EntitiesOnly (text item)) : EntitiesOnly (items.flatMap text) := by
  induction items with
  | nil => exact of_not_mem [] List.not_mem_nil
  | cons item items ih =>
    rw [List.flatMap_cons]
    exact (each item List.mem_cons_self).append
      (ih fun other member => each other (List.mem_cons_of_mem item member))

theorem of_mem_entities {entity : List Char} (known : entity ∈ entities) : EntitiesOnly entity := by
  have front_only : entity.head? = some '&' ∧ '&' ∉ entity.tail :=
    (by decide : ∀ entity ∈ entities, entity.head? = some '&' ∧ '&' ∉ entity.tail) entity known
  rintro front back rfl
  cases front with
  | nil => exact ⟨_, known, List.prefix_refl _⟩
  | cons c front => simp at front_only

theorem escapeChar (c : Char) : EntitiesOnly (escapeChar c) := by
  unfold Markup.escapeChar
  split
  · exact of_mem_entities (by decide)
  split
  · exact of_mem_entities (by decide)
  split
  · exact of_mem_entities (by decide)
  split
  · exact of_mem_entities (by decide)
  next amp _ _ _ => exact of_not_mem [c] (by simpa using Ne.symm amp)

theorem escape (text : List Char) : EntitiesOnly (escape text) :=
  flatMap fun c _ => escapeChar c

theorem of_isName {name : List Char} (proper : isName name = true) : EntitiesOnly name := by
  refine of_not_mem name fun member => ?_
  cases name with
  | nil => cases proper
  | cons first rest =>
    obtain ⟨starts, goes_on⟩ := Bool.and_eq_true_iff.mp proper
    rcases List.mem_cons.mp member with rfl | later
    · cases starts
    · cases List.all_eq_true.mp goes_on '&' later

theorem writeAttribute {named : String × List Char} (proper : isName named.1.toList = true) :
    EntitiesOnly (writeAttribute named) := by
  have value := (escape named.2).append (of_not_mem ['"'] (by decide))
  have assigned := cons (c := '=') (by decide) (cons (c := '"') (by decide) value)
  have named := (of_isName proper).append assigned
  simpa [Markup.writeAttribute] using cons (c := ' ') (by decide) named

theorem startTag {name : String} {attributes : List (String × List Char)} {rest : List Char}
    (proper : isTag name (attributes.map Prod.fst) = true) (behind : EntitiesOnly rest) :
    EntitiesOnly ('<' :: (name.toList ++ (attributes.flatMap Markup.writeAttribute ++ rest))) := by
  obtain ⟨name_proper, keys_proper, _⟩ := isTag_iff.mp proper
  have written : EntitiesOnly (attributes.flatMap Markup.writeAttribute) :=
    flatMap fun named member => writeAttribute (keys_proper named.1 (List.mem_map_of_mem member))
  exact cons (by decide) ((of_isName name_proper).append (written.append behind))

theorem element {name : String} {attributes : List (String × List Char)} {children : List Markup}
    (proper : isTag name (attributes.map Prod.fst) = true)
    (inside : EntitiesOnly (writeAll children)) :
    EntitiesOnly (write (.element name attributes children)) := by
  by_cases nothing : children = []
  · subst nothing
    have closed : EntitiesOnly ['/', '>'] := of_not_mem _ (by decide)
    simpa [Markup.write] using startTag proper closed
  · have closed : EntitiesOnly ('<' :: '/' :: (name.toList ++ ['>'])) :=
      cons (by decide) (cons (by decide)
        ((of_isName (isTag_iff.mp proper).1).append (of_not_mem _ (by decide))))
    rw [← List.append_nil (write _), write_append name attributes nothing]
    exact startTag proper (cons (by decide) (inside.append closed))

/-- Ampersands are written at the beginning of entities only. -/
theorem write {tree : Markup} (regular : tree.Regular) : EntitiesOnly (write tree) := by
  induction regular with
  | leaf text proper =>
    refine element proper ?_
    rw [writeAll_eq_flatMap, List.flatMap_singleton, Markup.write]
    exact escape text
  | branch proper _ ih =>
    refine element proper ?_
    rw [writeAll_eq_flatMap]
    exact flatMap ih

end EntitiesOnly

end LayerTiming.Markup
