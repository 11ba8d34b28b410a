import LayerTiming.Text.Lines

/-!
# Searches

What is found where in a text that is put together from parts.
-/
namespace LayerTiming.Text

/-- A search gives what is found at a place in front of which nothing is found. -/
theorem leftmost?_eq_some_iff {α : Type} {find : List Char → Option α} {text : List Char}
    {found : α} :
    leftmost? find text = some found ↔
      ∃ front rest, text = front ++ rest ∧ find rest = some found ∧
        ∀ shorter other, text = shorter ++ other → shorter.length < front.length →
          find other = none := by
  induction text with
  | nil =>
    constructor
    · intro here
      exact ⟨[], [], rfl, here, fun _ _ _ less => absurd less (Nat.not_lt_zero _)⟩
    · rintro ⟨front, rest, shape, here, _⟩
      obtain ⟨rfl, rfl⟩ := List.append_eq_nil_iff.mp shape.symm
      exact here
  | cons c text ih =>
    rw [leftmost?]
    cases here : find (c :: text) with
    | some first =>
      constructor
      · intro same
        exact ⟨[], c :: text, rfl, here.trans same, fun _ _ _ less => absurd less (Nat.not_lt_zero _)⟩
      · rintro ⟨front, rest, shape, there, nothing⟩
        cases front with
        | nil =>
          obtain rfl : c :: text = rest := shape
          exact here.symm.trans there
        | cons d front =>
          -- Something is found at the very start, which is further left.
          have none_here := nothing [] (c :: text) rfl (Nat.succ_pos _)
          rw [here] at none_here
          cases none_here
    | none =>
      simp only [ih]
      constructor
      · rintro ⟨front, rest, rfl, there, nothing⟩
        refine ⟨c :: front, rest, rfl, there, ?_⟩
        intro shorter other shape less
        cases shorter with
        | nil =>
          obtain rfl : c :: (front ++ rest) = other := shape
          exact here
        | cons d shorter =>
          exact nothing shorter other (List.cons.inj shape).2 (Nat.lt_of_succ_lt_succ less)
      · rintro ⟨front, rest, shape, there, nothing⟩
        cases front with
        | nil =>
          obtain rfl : c :: text = rest := shape
          rw [here] at there
          cases there
        | cons d front =>
          refine ⟨front, rest, (List.cons.inj shape).2, there, ?_⟩
          intro shorter other shape less
          exact nothing (c :: shorter) other (congrArg (c :: ·) shape) (Nat.succ_lt_succ less)

theorem leftmost?_eq_none_iff {α : Type} {find : List Char → Option α} {text : List Char} :
    leftmost? find text = none ↔ ∀ front rest, text = front ++ rest → find rest = none := by
  induction text with
  | nil =>
    constructor
    · intro nothing front rest shape
      rwa [(List.append_eq_nil_iff.mp shape.symm).2]
    · exact fun nothing => nothing [] [] rfl
  | cons c text ih =>
    rw [leftmost?]
    cases here : find (c :: text) with
    | some first =>
      refine iff_of_false (Option.some_ne_none first) fun nothing => ?_
      rw [nothing [] (c :: text) rfl] at here
      cases here
    | none =>
      simp only [ih]
      constructor
      · intro later front rest shape
        cases front with
        | nil =>
          obtain rfl : c :: text = rest := shape
          exact here
        | cons d front => exact later front rest (List.cons.inj shape).2
      · exact fun nothing front rest shape => nothing (c :: front) rest (congrArg (c :: ·) shape)

theorem occurs_eq_true_iff {part text : List Char} :
    occurs part text = true ↔ ∃ front back, text = front ++ (part ++ back) := by
  constructor
  · intro found
    obtain ⟨back, first⟩ := Option.isSome_iff_exists.mp found
    obtain ⟨front, rest, rfl, here, _⟩ := leftmost?_eq_some_iff.mp first
    exact ⟨front, back, congrArg (front ++ ·) ((after?_eq_some_iff part rest back).mp here)⟩
  · rintro ⟨front, back, rfl⟩
    rw [occurs, Option.isSome_iff_ne_none]
    intro nothing
    have none_here := leftmost?_eq_none_iff.mp nothing front (part ++ back) rfl
    rw [after?_append] at none_here
    cases none_here

theorem occurs_iff_infix {part text : List Char} : occurs part text = true ↔ part <:+: text := by
  rw [occurs_eq_true_iff]
  constructor
  · rintro ⟨front, back, rfl⟩
    exact ⟨front, back, List.append_assoc _ _ _⟩
  · rintro ⟨front, back, rfl⟩
    exact ⟨front, back, List.append_assoc _ _ _⟩

/-- What occurs has a last occurrence. -/
theorem exists_last_occurrence {part text : List Char} (nonempty : part ≠ [])
    (found : occurs part text = true) :
    ∃ front back, text = front ++ (part ++ back) ∧ occurs part back = false := by
  -- The induction is on the length of what stands behind an occurrence.
  induction size : text.length using Nat.strongRecOn generalizing text with
  | ind n ih =>
    obtain ⟨front, back, shape⟩ := occurs_eq_true_iff.mp found
    by_cases again : occurs part back = true
    · have shorter : back.length < n := by
        have some_char := List.length_pos_iff.mpr nonempty
        simp only [← size, shape, List.length_append]
        omega
      obtain ⟨before, after, later, last⟩ := ih back.length shorter again rfl
      exact ⟨front ++ (part ++ before), after, by simp [shape, later], last⟩
    · exact ⟨front, back, shape, Bool.eq_false_iff.mpr again⟩

section Separated

variable {separator : Char} {part : List Char}

/-- What holds no separator occurs on one side of a separator. -/
theorem occurs_append_separator (nonempty : part ≠ []) (free : separator ∉ part)
    (front back : List Char) :
    occurs part (front ++ separator :: back) = (occurs part front || occurs part back) := by
  rw [Bool.eq_iff_iff, Bool.or_eq_true, occurs_eq_true_iff, occurs_eq_true_iff, occurs_eq_true_iff]
  constructor
  · rintro ⟨before, after, shape⟩
    rcases List.append_eq_append_iff.mp shape with ⟨gap, rfl, rest⟩ | ⟨gap, rfl, rest⟩
    · -- The occurrence begins behind the front, so the separator stands in front of it.
      cases gap with
      | nil =>
        obtain ⟨c, tail, rfl⟩ := List.exists_cons_of_ne_nil nonempty
        simp only [List.nil_append, List.cons_append, List.cons.injEq] at rest
        exact absurd (rest.1 ▸ List.mem_cons_self) free
      | cons c gap =>
        simp only [List.cons_append, List.cons.injEq] at rest
        exact .inr ⟨gap, after, rest.2⟩
    · -- The occurrence begins in the front. It ends there too, or the separator would be in it.
      rcases List.append_eq_append_iff.mp rest with ⟨tail, rfl, _⟩ | ⟨tail, rfl, behind⟩
      · exact .inl ⟨before, tail, rfl⟩
      · cases tail with
        | nil => exact .inl ⟨before, [], by simp⟩
        | cons c tail =>
          simp only [List.cons_append, List.cons.injEq] at behind
          exact absurd (by simp [behind.1]) free
  · rintro (⟨before, after, rfl⟩ | ⟨before, after, rfl⟩)
    · exact ⟨before, after ++ separator :: back, by simp⟩
    · exact ⟨front ++ separator :: before, after, by simp⟩

theorem occurs_joinPieces (nonempty : part ≠ []) (free : separator ∉ part)
    (parts : List (List Char)) :
    occurs part (joinPieces separator parts) = parts.any (occurs part) := by
  induction parts with
  | nil =>
    obtain ⟨c, tail, rfl⟩ := List.exists_cons_of_ne_nil nonempty
    rfl
  | cons piece others ih =>
    cases others with
    | nil => simp [joinPieces]
    | cons next others =>
      rw [joinPieces, occurs_append_separator nonempty free, ih, List.any_cons]
      all_goals simp

end Separated

theorem fromLast?_eq_none {α : Type} {test : α → Bool} {items : List α}
    (nothing : fromLast? test items = none) : items.any test = false := by
  induction items with
  | nil => rfl
  | cons item items ih =>
    rw [fromLast?] at nothing
    split at nothing
    · cases nothing
    next later =>
      split at nothing
      · cases nothing
      next other => rw [List.any_cons, Bool.eq_false_iff.mpr other, ih later, Bool.or_false]

theorem fromLast?_eq_some {α : Type} {test : α → Bool} {items kept : List α}
    (found : fromLast? test items = some kept) :
    ∃ before item rest, items = before ++ kept ∧ kept = item :: rest ∧ test item = true ∧
      rest.any test = false := by
  induction items with
  | nil => cases found
  | cons first items ih =>
    rw [fromLast?] at found
    split at found
    next later =>
      obtain ⟨before, item, rest, shape, others⟩ := ih (later.trans found)
      exact ⟨first :: before, item, rest, congrArg (first :: ·) shape, others⟩
    next later =>
      split at found
      next here =>
        cases found
        exact ⟨[], first, items, rfl, rfl, here, fromLast?_eq_none later⟩
      · cases found

end LayerTiming.Text
