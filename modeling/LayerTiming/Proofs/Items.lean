import Mathlib.Data.List.Forall2

/-!
# Lists read item by item

A list is read if each of its items is, and what is read stands in the order of the items.
-/
namespace LayerTiming

variable {α β : Type}

theorem mapM_eq_some_iff {decode : α → Option β} {items : List α} {found : List β} :
    items.mapM decode = some found ↔
      List.Forall₂ (fun item back => decode item = some back) items found := by
  induction items generalizing found with
  | nil => simp [eq_comm]
  | cons item items ih =>
    rw [List.mapM_cons]
    constructor
    · intro decoded
      obtain ⟨back, here, later⟩ := Option.bind_eq_some_iff.mp decoded
      obtain ⟨others, there, same⟩ := Option.bind_eq_some_iff.mp later
      cases same
      exact .cons here (ih.mp there)
    · rintro (_ | ⟨here, there⟩)
      rw [here, Option.bind_eq_bind, Option.bind_some, ih.mpr there]
      rfl

/-- A list of which every item comes back comes back. -/
theorem mapM_map_eq_some {encode : α → β} {decode : β → Option α} {items : List α}
    (each : ∀ item ∈ items, decode (encode item) = some item) :
    (items.map encode).mapM decode = some items := by
  rw [mapM_eq_some_iff, List.forall₂_map_left_iff, List.forall₂_same]
  exact each

theorem exists_forall₂_iff {R : α → β → Prop} {items : List α} :
    (∃ found, List.Forall₂ R items found) ↔ ∀ item ∈ items, ∃ back, R item back := by
  induction items with
  | nil => simp
  | cons item items ih =>
    rw [List.forall_mem_cons, ← ih]
    constructor
    · rintro ⟨_, _ | ⟨here, there⟩⟩
      exact ⟨⟨_, here⟩, ⟨_, there⟩⟩
    · rintro ⟨⟨back, here⟩, ⟨found, there⟩⟩
      exact ⟨back :: found, .cons here there⟩

/-- Two lists that both belong to a third one, item by item, belong to each other. -/
theorem forall₂_of_common {γ : Type} {R : γ → α → Prop} {S : γ → β → Prop} {T : α → β → Prop}
    (both : ∀ place a b, R place a → S place b → T a b) {places : List γ} {as : List α}
    {bs : List β} (left : List.Forall₂ R places as) (right : List.Forall₂ S places bs) :
    List.Forall₂ T as bs := by
  induction left generalizing bs with
  | nil => cases right; exact .nil
  | cons here _ ih =>
    rcases right with _ | ⟨there, others⟩
    exact .cons (both _ _ _ here there) (ih others)

end LayerTiming
