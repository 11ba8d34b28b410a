import Mathlib.Data.List.DropRight
import LayerTiming.Files.Path
import LayerTiming.Proofs.Text.Cutting

/-!
# Names of paths

The name of a path is its last segment with a meaning, and it is told apart into a stem and an
extension. A path with another extension keeps the directory and the stem, with one exception: a name
that is an extension behind two dots. Without the extension the dots lead upward, and no name is left.
-/
namespace LayerTiming
open Text

theorem Text.joinPieces_cons_eq_flatMap (separator : Char) (piece : List Char)
    (others : List (List Char)) :
    joinPieces separator (piece :: others) = piece ++ others.flatMap (separator :: ·) := by
  induction others generalizing piece with
  | nil => rw [List.flatMap_nil, List.append_nil, joinPieces]
  | cons other others ih =>
    rw [joinPieces_cons separator piece (List.cons_ne_nil _ _), ih, List.flatMap_cons]
    rfl

namespace Path

/-! ### Stems and extensions -/

theorem splitAtDot?_eq_none_iff {text : List Char} : splitAtDot? text = none ↔ '.' ∉ text := by
  induction text with
  | nil => simp [splitAtDot?]
  | cons c rest ih =>
    cases found : splitAtDot? rest with
    | none => simp [splitAtDot?, found, ih.mp found, eq_comm]
    | some parts =>
      have later : '.' ∈ rest := by simpa [found] using ih
      simp [splitAtDot?, found, later]

theorem splitAtDot?_append (front : List Char) {back : List Char} (free : '.' ∉ back) :
    splitAtDot? (front ++ '.' :: back) = some (front, back) := by
  induction front with
  | nil => simp [splitAtDot?, splitAtDot?_eq_none_iff.mpr free]
  | cons c front ih => simp [splitAtDot?, ih]

theorem eq_of_splitAtDot? {text front back : List Char}
    (found : splitAtDot? text = some (front, back)) :
    text = front ++ '.' :: back ∧ '.' ∉ back := by
  -- A text with a dot has a last one, and there it is split.
  have dotted : '.' ∈ text := by
    by_contra free
    rw [splitAtDot?_eq_none_iff.mpr free] at found
    cases found
  obtain ⟨before, behind, split, free⟩ := List.eq_append_cons_of_mem (List.mem_reverse.mpr dotted)
  have parts : text = behind.reverse ++ '.' :: before.reverse := by
    rw [← text.reverse_reverse, split]
    simp
  have last : '.' ∉ before.reverse := by simpa using free
  rw [parts, splitAtDot?_append _ last] at found
  cases found
  exact ⟨parts, last⟩

variable {name stem extension : List Char}

theorem splitName_append (some_stem : stem ≠ []) (free : '.' ∉ extension) :
    splitName (stem ++ '.' :: extension) = (stem, some extension) := by
  rw [splitName, splitAtDot?_append stem free]
  split
  next found => exact absurd (congrArg Prod.fst (Option.some.inj found)) some_stem
  next found =>
    cases found
    rfl
  next found => cases found

/-- A name has an extension if a dot stands in front of it that does not begin the name. -/
theorem splitName_eq_some (found : splitName name = (stem, some extension)) :
    name = stem ++ '.' :: extension ∧ stem ≠ [] ∧ '.' ∉ extension := by
  unfold splitName at found
  split at found
  · cases found
  next dotted =>
    cases found
    obtain ⟨parts, free⟩ := eq_of_splitAtDot? dotted
    refine ⟨parts, ?_, free⟩
    rintro rfl
    contradiction
  · cases found

theorem splitName_eq_none (found : splitName name = (stem, none)) : name = stem := by
  unfold splitName at found
  split at found
  · exact (congrArg Prod.fst found)
  · cases found
  · exact (congrArg Prod.fst found)

/-- A name is put together again from its stem and its extension. -/
theorem splitName_cases (name : List Char) :
    splitName name = (name, none) ∨
      ∃ stem extension, splitName name = (stem, some extension) ∧
        name = stem ++ '.' :: extension ∧ stem ≠ [] ∧ '.' ∉ extension := by
  rcases parts : splitName name with ⟨stem, _ | extension⟩
  · exact .inl (by rw [splitName_eq_none parts])
  · exact .inr ⟨stem, extension, rfl, splitName_eq_some parts⟩

theorem stem_ne_nil (some_name : name ≠ []) : (splitName name).1 ≠ [] := by
  rcases splitName_cases name with parts | ⟨stem, extension, parts, rfl, some_stem, free⟩
  · rwa [parts]
  · rwa [parts]

theorem stem_begins (name : List Char) : (splitName name).1 <+: name := by
  rcases splitName_cases name with parts | ⟨stem, extension, parts, rfl, some_stem, free⟩
  · simp [parts]
  · rw [parts]
    exact List.prefix_append stem _

/-! ### The name among the segments -/

theorem dropIdleEnd_eq_rdropWhile (parts : List (List Char)) :
    dropIdleEnd parts = parts.rdropWhile isIdle := by
  induction parts with
  | nil => rfl
  | cons part rest ih =>
    rw [List.rdropWhile, List.reverse_cons, List.dropWhile_append, dropIdleEnd, ih]
    cases kept : rest.reverse.dropWhile isIdle with
    | nil => cases meaning : isIdle part <;> simp [List.rdropWhile, kept, meaning]
    | cons last others => simp [List.rdropWhile, kept]

/-- The segments of a path with a name: those in front of it, and those without a meaning behind. -/
structure IsNamed (path : Path) (front : List (List Char)) (name : List Char)
    (idle : List (List Char)) : Prop where
  segments : path.segments = front ++ name :: idle
  meaning : isIdle name = false
  down : name ≠ upward
  idle : ∀ part ∈ idle, isIdle part = true

section Named
variable {path : Path} {front idle : List (List Char)}

theorem dropIdleEnd_append (meaning : isIdle name = false)
    (all_idle : ∀ part ∈ idle, isIdle part = true) :
    dropIdleEnd (front ++ name :: idle) = front ++ [name] := by
  have kept : idle.rdropWhile isIdle = [] := List.rdropWhile_eq_nil_iff.mpr all_idle
  rw [dropIdleEnd_eq_rdropWhile, List.rdropWhile, List.reverse_append, List.reverse_cons,
    List.append_assoc, List.dropWhile_append_of_pos (by simpa using all_idle)]
  simp [meaning]

theorem IsNamed.named? (found : path.IsNamed front name idle) :
    path.named? = some (front, name) := by
  rw [Path.named?, found.segments, dropIdleEnd_append found.meaning found.idle]
  simp [found.down]

theorem exists_isNamed (found : path.named? = some (front, name)) :
    ∃ idle, path.IsNamed front name idle := by
  -- Idle segments at the end do not count; the name is the last one that does.
  have split := List.rdropWhile_append_rtakeWhile (p := isIdle) (l := path.segments)
  have all_idle : ∀ part ∈ path.segments.rtakeWhile isIdle, isIdle part = true :=
    fun part member => List.mem_rtakeWhile_imp member
  unfold Path.named? at found
  extract_lets kept at found
  rw [← dropIdleEnd_eq_rdropWhile] at split
  change kept ++ _ = _ at split
  cases last : kept.getLast? with
  | none =>
    rw [last] at found
    cases found
  | some final =>
    rw [last] at found
    dsimp only at found
    split at found
    · cases found
    next down =>
      cases found
      obtain ⟨initial, parts⟩ := List.getLast?_eq_some_iff.mp last
      have meaning : isIdle name = false := by
        have named := List.rdropWhile_last_not isIdle path.segments
        rw [← dropIdleEnd_eq_rdropWhile] at named
        change ∀ some_part : kept ≠ [], ¬ isIdle (kept.getLast some_part) = true at named
        simpa [parts] using named
      refine ⟨_, split.symm.trans ?_, meaning, down, all_idle⟩
      rw [parts, List.dropLast_concat, List.append_assoc, List.singleton_append]

/-- Only slashes part the segments of a path. -/
theorem IsNamed.free (found : path.IsNamed front name idle) :
    (∀ part ∈ front, '/' ∉ part) ∧ '/' ∉ name := by
  have each : ∀ part ∈ front ++ name :: idle, '/' ∉ part := by
    rw [← found.segments]
    exact fun part member => not_mem_of_mem_pieces member
  rw [List.forall_mem_append, List.forall_mem_cons] at each
  exact ⟨each.1, each.2.1⟩

theorem slash_not_mem_of_isIdle {part : List Char} (idle : isIdle part = true) : '/' ∉ part := by
  unfold isIdle at idle
  rw [Bool.or_eq_true, beq_iff_eq, beq_iff_eq] at idle
  rcases idle with rfl | rfl
  · exact List.not_mem_nil
  · decide

/-- A path is the text in front of its name, the name, and slashes and dots behind it. -/
theorem IsNamed.text (found : path.IsNamed front name idle) :
    path.text = front.flatMap (· ++ ['/']) ++ (name ++ idle.flatMap ('/' :: ·)) := by
  have whole := joinPieces_pieces '/' path.text
  change joinPieces '/' path.segments = path.text at whole
  rw [← whole, found.segments, joinPieces_append front (List.cons_ne_nil _ _),
    joinPieces_cons_eq_flatMap]

/-- The other way round, such a text has the name. -/
theorem isNamed_of_text (meaning : isIdle name = false) (down : name ≠ upward)
    (all_idle : ∀ part ∈ idle, isIdle part = true) (front_free : ∀ part ∈ front, '/' ∉ part)
    (name_free : '/' ∉ name) :
    IsNamed ⟨front.flatMap (· ++ ['/']) ++ (name ++ idle.flatMap ('/' :: ·))⟩ front name idle := by
  refine ⟨?_, meaning, down, all_idle⟩
  rw [← joinPieces_cons_eq_flatMap, ← joinPieces_append front (List.cons_ne_nil _ _)]
  apply pieces_joinPieces '/' (by simp)
  rw [List.forall_mem_append, List.forall_mem_cons]
  exact ⟨front_free, name_free, fun part member => slash_not_mem_of_isIdle (all_idle part member)⟩

/-! ### Components -/

/-- The components of a path that has these segments in front of its name. -/
def directoryComponents : List (List Char) → List (List Char)
  | [] => []
  | first :: rest => first :: rest.filter (!isIdle ·)

theorem ne_nil_of_isIdle_eq_false (meaning : isIdle name = false) : name ≠ [] := by
  rintro rfl
  exact absurd meaning (by decide)

theorem IsNamed.components (found : path.IsNamed front name idle) :
    path.components = directoryComponents front ++ [name] := by
  have no_idle : idle.filter (!isIdle ·) = [] := by simpa using found.idle
  have some_name := ne_nil_of_isIdle_eq_false found.meaning
  have filtered (rest : List (List Char)) :
      (rest ++ name :: idle).filter (!isIdle ·) = rest.filter (!isIdle ·) ++ [name] := by
    rw [List.filter_append, List.filter_cons_of_pos (by simp [found.meaning]), no_idle]
  rw [Path.components, found.segments]
  cases front with
  | nil => cases idle <;> simp_all [directoryComponents]
  | cons first rest =>
    obtain ⟨second, others, shape⟩ : ∃ second others, rest ++ name :: idle = second :: others :=
      List.exists_cons_of_ne_nil (by simp)
    rw [directoryComponents, List.cons_append, List.cons_append, ← filtered, shape]
    cases first <;> rfl

end Named

/-! ### Another extension -/

/-- Whether a path ends in a name that is an extension behind two dots. -/
def endsInDots (path : Path) : Bool :=
  match path.segments.getLast? with
  | some ('.' :: '.' :: extension) => !extension.isEmpty && !extension.contains '.'
  | _ => false

theorem endsInDots_eq_true_iff {path : Path} :
    path.endsInDots = true ↔ ∃ front extension,
      path.segments = front ++ ['.' :: '.' :: extension] ∧ extension ≠ [] ∧ '.' ∉ extension := by
  unfold endsInDots
  constructor
  · intro holds
    split at holds
    next extension last =>
      obtain ⟨front, parts⟩ := List.getLast?_eq_some_iff.mp last
      exact ⟨front, extension, parts, by simpa using holds⟩
    · cases holds
  · rintro ⟨front, extension, parts, some_extension, free⟩
    simp [parts, some_extension, free]

theorem isIdle_take {part : List Char} (all_idle : isIdle part = true) (n : Nat) :
    isIdle (part.take n) = true := by
  unfold isIdle at all_idle ⊢
  rw [Bool.or_eq_true, beq_iff_eq, beq_iff_eq] at all_idle
  rcases all_idle with rfl | rfl
  · simp
  · cases n <;> simp

/-- What is cut off from segments without a meaning leaves such segments. -/
theorem exists_take_idle {idle : List (List Char)} (all_idle : ∀ part ∈ idle, isIdle part = true)
    (n : Nat) : ∃ kept : List (List Char), (idle.flatMap ('/' :: ·)).take n = kept.flatMap ('/' :: ·) ∧
      ∀ part ∈ kept, isIdle part = true := by
  induction idle generalizing n with
  | nil => exact ⟨[], by simp, List.forall_mem_nil _⟩
  | cons part rest ih =>
    obtain ⟨part_idle, rest_idle⟩ := List.forall_mem_cons.mp all_idle
    cases n with
    | zero => exact ⟨[], by simp, List.forall_mem_nil _⟩
    | succ n =>
      obtain ⟨kept, cut, kept_idle⟩ := ih rest_idle (n - part.length)
      refine ⟨part.take n :: kept, ?_, List.forall_mem_cons.mpr ⟨isIdle_take part_idle n, kept_idle⟩⟩
      rw [List.flatMap_cons, List.cons_append, List.take_succ_cons, List.take_append, cut]
      rfl

/-- Two dots are a stem of one dot without an extension. -/
theorem dotted_eq_upward_iff {stem extension : List Char} (some_stem : stem ≠ []) :
    stem ++ '.' :: extension = upward ↔ stem = ['.'] ∧ extension = [] := by
  obtain ⟨c, rest, rfl⟩ := List.exists_cons_of_ne_nil some_stem
  cases rest <;> simp [upward]

theorem two_le_length_of_dotted {stem extension : List Char} (some_stem : stem ≠ []) :
    2 ≤ (stem ++ '.' :: extension).length := by
  have some_char := List.length_pos_of_ne_nil some_stem
  rw [List.length_append, List.length_cons]
  omega

theorem isIdle_of_long {name : List Char} (long : 2 ≤ name.length) : isIdle name = false := by
  unfold isIdle
  rw [Bool.or_eq_false_iff, beq_eq_false_iff_ne, beq_eq_false_iff_ne]
  constructor
  all_goals
    rintro rfl
    exact absurd long (by decide)

theorem take_length_sub (front extension trail : List Char) :
    (front ++ (extension ++ trail)).take
        ((front ++ (extension ++ trail)).length - extension.length) =
      front ++ (extension.take trail.length ++ trail.take (trail.length - extension.length)) := by
  have rest : (front ++ (extension ++ trail)).length - extension.length =
      front.length + trail.length := by
    rw [List.length_append, List.length_append]
    omega
  rw [rest, List.take_length_add_append, List.take_append]

section Extension
variable {path : Path} {front idle : List (List Char)} {name stem extension : List Char}

theorem upToStem?_eq (named : path.named? = some (front, name)) :
    path.upToStem? = some (joinPieces '/' (front ++ [(splitName name).1])) := by
  rw [upToStem?, named, Option.map_some]

/-- What is left of a path without its extension has the same directory and the same stem, unless the
path ends in dots. -/
theorem IsNamed.dropExtension (found : path.IsNamed front name idle)
    (plain : path.endsInDots = false) :
    ∃ left, path.dropExtension.named? = some (front, left) ∧
      (splitName left).1 = (splitName name).1 := by
  have named := found.named?
  rcases splitName_cases name with parts | ⟨stem, extension, parts, rfl, some_stem, free⟩
  · rw [Path.dropExtension, extension?, named, Option.bind_some, parts]
    exact ⟨name, named, by rw [parts]⟩
  -- As many characters as the extension has are cut off at the end, wherever the extension stands.
  obtain ⟨kept, cut, kept_idle⟩ := exists_take_idle found.idle
    ((idle.flatMap ('/' :: ·)).length - extension.length)
  obtain ⟨left, left_eq⟩ : ∃ left,
    stem ++ '.' :: extension.take (idle.flatMap ('/' :: ·)).length = left := ⟨_, rfl⟩
  have taken : path.dropExtension =
      ⟨front.flatMap (· ++ ['/']) ++ (left ++ kept.flatMap ('/' :: ·))⟩ := by
    have text : path.text = (front.flatMap (· ++ ['/']) ++ (stem ++ ['.'])) ++
        (extension ++ idle.flatMap ('/' :: ·)) := by
      rw [found.text]
      simp
    rw [Path.dropExtension, extension?, named, Option.bind_some, parts]
    dsimp only
    rw [text, take_length_sub, cut, ← left_eq]
    simp
  have down : left ≠ upward := by
    rw [← left_eq, Ne, dotted_eq_upward_iff some_stem, List.take_eq_nil_iff]
    rintro ⟨rfl, no_trail | rfl⟩
    · -- The extension itself was cut off, from the end of the path.
      obtain rfl : idle = [] := by
        cases idle with
        | nil => rfl
        | cons part rest => cases no_trail
      have some_extension : extension ≠ [] := by
        rintro rfl
        exact found.down rfl
      have dotted := endsInDots_eq_true_iff.mpr ⟨front, extension, found.segments, some_extension, free⟩
      rw [plain] at dotted
      cases dotted
    · exact found.down rfl
  have left_named : IsNamed path.dropExtension front left kept := by
    rw [taken]
    have long : 2 ≤ left.length := left_eq ▸ two_le_length_of_dotted some_stem
    have shorter : left <+: stem ++ '.' :: extension := by
      rw [← left_eq, List.prefix_append_right_inj, List.cons_prefix_cons]
      exact ⟨rfl, List.take_prefix _ _⟩
    obtain ⟨front_free, name_free⟩ := found.free
    exact isNamed_of_text (isIdle_of_long long) down kept_idle front_free
      fun member => name_free (shorter.subset member)
  refine ⟨left, left_named.named?, ?_⟩
  rw [parts, ← left_eq, splitName_append some_stem]
  exact fun member => free (List.mem_of_mem_take member)

/-- A path with another extension has the name of the stem with that extension. -/
theorem IsNamed.withExtension (found : path.IsNamed front name idle)
    (plain : path.endsInDots = false) {added : String} (some_char : added.toList ≠ [])
    (free : '/' ∉ added.toList) :
    (path.withExtension added).IsNamed front ((splitName name).1 ++ '.' :: added.toList) [] := by
  obtain ⟨left, left_named, same_stem⟩ := found.dropExtension plain
  have some_stem := stem_ne_nil (ne_nil_of_isIdle_eq_false found.meaning)
  have made : path.withExtension added =
      ⟨front.flatMap (· ++ ['/']) ++ (((splitName name).1 ++ '.' :: added.toList) ++
        ([] : List (List Char)).flatMap ('/' :: ·))⟩ := by
    rw [Path.withExtension, upToStem?_eq left_named, same_stem,
      joinPieces_append front (List.cons_ne_nil _ _)]
    simp [joinPieces]
  obtain ⟨front_free, name_free⟩ := found.free
  rw [made]
  apply isNamed_of_text _ _ (List.forall_mem_nil _) front_free
  · rw [List.mem_append, List.mem_cons, not_or, not_or]
    exact ⟨fun member => name_free ((stem_begins name).subset member), by decide, free⟩
  · exact isIdle_of_long (two_le_length_of_dotted some_stem)
  · rw [Ne, dotted_eq_upward_iff some_stem]
    exact fun both => some_char both.2

/-- A path that ends in dots gets no other extension: without its own it has no name. -/
theorem withExtension_of_endsInDots (dotted : path.endsInDots = true) (added : String) :
    path.withExtension added = path.dropExtension ∧ path.dropExtension.named? = none ∧
      path.named? ≠ none := by
  obtain ⟨front, extension, parts, some_extension, free⟩ := endsInDots_eq_true_iff.mp dotted
  have found : path.IsNamed front (['.'] ++ '.' :: extension) [] := by
    refine ⟨parts, isIdle_of_long (two_le_length_of_dotted (by decide)), ?_, List.forall_mem_nil _⟩
    rw [Ne, dotted_eq_upward_iff (by decide)]
    exact fun both => some_extension both.2
  -- Without its extension and the dot the name is `..`, which leads upward and names nothing.
  have left : path.dropExtension = ⟨joinPieces '/' (front ++ [upward])⟩ := by
    have text : path.text = (front.flatMap (· ++ ['/']) ++ upward) ++ (extension ++ []) := by
      rw [found.text]
      simp [upward]
    rw [Path.dropExtension, extension?, found.named?, Option.bind_some,
      splitName_append (by decide) free]
    dsimp only
    rw [text, take_length_sub, joinPieces_append front (List.cons_ne_nil _ _)]
    simp [joinPieces]
  have unnamed : path.dropExtension.named? = none := by
    have segments : path.dropExtension.segments = front ++ [upward] := by
      rw [left]
      apply pieces_joinPieces '/' (by simp)
      simp only [List.forall_mem_append, List.forall_mem_singleton]
      exact ⟨found.free.1, by decide⟩
    rw [Path.named?, segments, dropIdleEnd_append (by decide) (List.forall_mem_nil _)]
    simp
  refine ⟨?_, unnamed, ?_⟩
  · rw [Path.withExtension, upToStem?, unnamed, Option.map_none]
  · rw [found.named?]
    exact Option.some_ne_none _

/-- A path without a name has no extension. -/
theorem withExtension_of_unnamed (unnamed : path.named? = none) (added : String) :
    path.withExtension added = path := by
  have whole : path.dropExtension = path := by
    rw [Path.dropExtension, extension?, unnamed, Option.bind_none]
  rw [withExtension, whole, upToStem?, unnamed, Option.map_none]

end Extension
end Path
end LayerTiming
