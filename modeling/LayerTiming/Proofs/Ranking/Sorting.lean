import Mathlib.Algebra.Order.Group.Int
import LayerTiming.Ranking

/-!
# Stable sorting

What a descending sort promises of its order and of the elements with the same key, and what the
sums are that run over a list.
-/
namespace LayerTiming

section Sorting
variable {α : Type} {key : α → Int} {R : α → α → Prop}

/-- Greater keys come first, and a relation decides between the same keys. -/
def Precedes (key : α → Int) (R : α → α → Prop) (first second : α) : Prop :=
  key second < key first ∨ key second = key first ∧ R first second

/-- An element inserted in front of all that it is related to is in its place among them. -/
theorem insertDescending_precedes {x : α} {items : List α} (before : ∀ y ∈ items, R x y)
    (ordered : items.Pairwise (Precedes key R)) :
    (insertDescending key x items).Pairwise (Precedes key R) := by
  induction items with
  | nil => exact List.pairwise_singleton _ x
  | cons y rest ih =>
    obtain ⟨x_before_y, x_before_rest⟩ := List.forall_mem_cons.mp before
    obtain ⟨y_first, rest_ordered⟩ := List.pairwise_cons.mp ordered
    rw [insertDescending]
    split
    next at_most =>
      refine List.pairwise_cons.mpr ⟨fun z member => ?_, ordered⟩
      have below_y : key z ≤ key y := by
        rcases List.mem_cons.mp member with rfl | later
        · exact le_rfl
        · rcases y_first z later with less | ⟨same, _⟩
          · exact less.le
          · exact same.le
      rcases (below_y.trans at_most).lt_or_eq with less | same
      · exact .inl less
      · exact .inr ⟨same, before z member⟩
    next above =>
      -- Behind `y` stand the new element, whose key is smaller, and what stood there.
      refine List.pairwise_cons.mpr ⟨fun z member => ?_, ih x_before_rest rest_ordered⟩
      rcases List.mem_cons.mp ((insertDescending_perm key x rest).mem_iff.mp member) with
        rfl | later
      · exact .inl (not_le.mp above)
      · exact y_first z later

/-- Sorting leaves the greatest keys in front. Elements with the same key keep what holds between an
element and those behind it. -/
theorem sortDescending_precedes {items : List α} (related : items.Pairwise R) :
    (sortDescending key items).Pairwise (Precedes key R) := by
  induction items with
  | nil => exact List.Pairwise.nil
  | cons x rest ih =>
    obtain ⟨before, rest_related⟩ := List.pairwise_cons.mp related
    refine insertDescending_precedes (fun y member => ?_) (ih rest_related)
    exact before y ((sortDescending_perm key rest).mem_iff.mp member)

theorem sortDescending_pairwise (key : α → Int) (items : List α) :
    (sortDescending key items).Pairwise fun first second => key second ≤ key first := by
  have related : items.Pairwise fun _ _ => True := List.pairwise_of_forall fun _ _ => trivial
  refine (sortDescending_precedes related).imp fun {first second} order => ?_
  rcases order with less | ⟨same, _⟩
  · exact less.le
  · exact same.le

variable {p : α → Bool}

theorem filter_insertDescending (alike : ∀ x y, p x → p y → key x = key y) (x : α)
    (items : List α) : (insertDescending key x items).filter p = (x :: items).filter p := by
  induction items with
  | nil => rfl
  | cons y rest ih =>
    rw [insertDescending]
    split
    · rfl
    -- The element goes behind `y`, whose key differs, so they are not both filtered.
    next above =>
      have alone (here : p x = true) : p y = false := by
        refine Bool.eq_false_iff.mpr fun there => ?_
        exact above (alike x y here there).ge
      simp only [List.filter_cons, ih]
      cases here : p x with
      | false => simp
      | true => simp [alone here]

/-- Sorting is stable: elements that all have one key come out as they went in. -/
theorem filter_sortDescending (alike : ∀ x y, p x → p y → key x = key y) (items : List α) :
    (sortDescending key items).filter p = items.filter p := by
  induction items with
  | nil => rfl
  | cons x rest ih =>
    change (insertDescending key x (sortDescending key rest)).filter p = _
    rw [filter_insertDescending alike, List.filter_cons, List.filter_cons, ih]

theorem insertDescending_map {β : Type} (f : β → α) (x : β) (items : List β) :
    insertDescending key (f x) (items.map f) =
      (insertDescending (fun x => key (f x)) x items).map f := by
  induction items with
  | nil => rfl
  | cons y rest ih =>
    rw [List.map_cons, insertDescending, insertDescending, ih]
    split <;> rfl

/-- The order sees of elements only their keys. -/
theorem sortDescending_map {β : Type} (f : β → α) (items : List β) :
    sortDescending key (items.map f) = (sortDescending (fun x => key (f x)) items).map f := by
  induction items with
  | nil => rfl
  | cons x rest ih =>
    change insertDescending key (f x) (sortDescending key (rest.map f)) = _
    rw [ih, insertDescending_map]
    rfl

end Sorting

/-! ### Shares and running sums -/

theorem inPercent_of_pos {part total : Float} (pos : 0.0 < total) :
    inPercent part total = part / total * 100.0 := if_pos pos

theorem inPercent_of_not_pos {part total : Float} (not_pos : ¬ 0.0 < total) :
    inPercent part total = 0.0 := if_neg not_pos

theorem length_runningSums (start : Float) (values : List Float) :
    (runningSums start values).length = values.length := by
  induction values generalizing start with
  | nil => rfl
  | cons x rest ih => simp [runningSums, ih]

/-- Each running sum is that of the values up to its place. -/
theorem getElem_runningSums (start : Float) (values : List Float) {k : Nat}
    (within : k < (runningSums start values).length) :
    (runningSums start values)[k] = (values.take (k + 1)).foldl (· + ·) start := by
  induction values generalizing start k with
  | nil => exact absurd within (Nat.not_lt_zero k)
  | cons x rest ih =>
    cases k with
    | zero => rfl
    | succ k => exact ih (start + x) (Nat.lt_of_succ_lt_succ within)

end LayerTiming
