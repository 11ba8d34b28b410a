import LayerTiming.Proofs.Number.Values
import LayerTiming.Proofs.Ranking.Sorting

/-!
# Shares

A part of some ticks is given in percent of all of them by a division and a product, which both
round. Rounding keeps the order, so the shares of the leading operations do not fall, and none of
them is greater than a hundred.
-/
namespace LayerTiming
open Number

section Percent
variable {a b whole : Float} {p q t : ℚ}

/-- What is rounded on the way from a part of some ticks to its share. -/
theorem exists_inPercent (part : Denotes a p) (all : Denotes whole t) (nonneg : 0 ≤ p)
    (below : p ≤ t) (some_tick : 0 < t) :
    ∃ ratio share, RoundsTo (p / t) ratio ∧ Denotes (a / whole) ratio ∧
      RoundsTo (ratio * 100) share ∧ Denotes (a / whole * 100.0) share ∧ 0 ≤ share ∧
      share ≤ 100 := by
  have hundred : Denotes 100.0 100 := denotes_literal (25 * 2 ^ 48) (-46) rfl (by norm_num)
  have quotient_nonneg : 0 ≤ p / t := div_nonneg nonneg some_tick.le
  have quotient_le : p / t ≤ 2 ^ 0 := by rwa [pow_zero, div_le_one some_tick]
  obtain ⟨ratio, divided, denotes_ratio⟩ := part.div all some_tick.ne' (k := 0)
    (by rwa [abs_of_nonneg quotient_nonneg]) (by decide)
  have ratio_nonneg : 0 ≤ ratio := divided.nonneg quotient_nonneg
  have ratio_le : ratio ≤ 2 ^ 0 := divided.le_pow quotient_le
  have product_nonneg : 0 ≤ ratio * 100 := by positivity
  have product_le : ratio * 100 ≤ 100 := by linarith
  obtain ⟨share, scaled, denotes⟩ := denotes_ratio.mul hundred (k := 7)
    (by rw [abs_of_nonneg product_nonneg]; linarith) (by decide)
  exact ⟨ratio, share, divided, denotes_ratio, scaled, denotes, scaled.nonneg product_nonneg,
    scaled.le hundred.isRepresentable product_le⟩

/-- A greater part has no smaller share, and no share is greater than a hundred. -/
theorem exists_inPercent_le (part : Denotes a p) (part' : Denotes b q) (all : Denotes whole t)
    (nonneg : 0 ≤ p) (more : p ≤ q) (at_most : q ≤ t) :
    ∃ u v, Denotes (inPercent a whole) u ∧ Denotes (inPercent b whole) v ∧ 0 ≤ u ∧ u ≤ v ∧
      v ≤ 100 := by
  rcases (nonneg.trans (more.trans at_most)).eq_or_lt with rfl | some_tick
  · have none : ¬ whole > 0.0 := (denotes_zero.lt_iff all).not.mpr (lt_irrefl 0)
    rw [inPercent_of_not_pos none, inPercent_of_not_pos none]
    exact ⟨0, 0, denotes_zero, denotes_zero, le_rfl, le_rfl, by norm_num⟩
  · have positive : whole > 0.0 := (denotes_zero.lt_iff all).mpr some_tick
    obtain ⟨ratio, u, divided, denotes_ratio, scaled, share, u_nonneg, _⟩ :=
      exists_inPercent part all nonneg (more.trans at_most) some_tick
    obtain ⟨ratio', v, divided', denotes_ratio', scaled', share', _, v_le⟩ :=
      exists_inPercent part' all (nonneg.trans more) at_most some_tick
    have origin : IsRepresentable |(0 : ℚ)| := denotes_zero.isRepresentable
    have ratios : ratio ≤ ratio' := part.le_of_rounds part' (g := (· / t)) (f := (· / whole)) divided
      denotes_ratio divided' denotes_ratio' (by simpa using origin)
      (more.eq_or_lt.imp_right fun less => div_lt_div_of_pos_right less some_tick)
    have shares : u ≤ v := denotes_ratio.le_of_rounds denotes_ratio' (g := (· * 100))
      (f := (· * 100.0)) scaled share scaled' share' (by simpa using origin)
      (ratios.eq_or_lt.imp_right fun less => mul_lt_mul_of_pos_right less (by norm_num))
    rw [inPercent_of_pos positive, inPercent_of_pos positive]
    exact ⟨u, v, share, share', u_nonneg, shares, v_le⟩

end Percent

/-- Further terms do not make a sum smaller. -/
theorem exists_sum_append (front rest : List Float) {k : Nat}
    (within : ∀ x ∈ front ++ rest, Within x k) (least : k + 55 < 1024) :
    ∃ p q, Denotes (front.foldl (· + ·) 0.0) p ∧ Denotes ((front ++ rest).foldl (· + ·) 0.0) q ∧
      0 ≤ p ∧ p ≤ q := by
  obtain ⟨here, there⟩ := List.forall_mem_append.mp within
  have start := within_total here least
  have grown := start.le_foldl there least
  rw [← List.foldl_append] at grown
  obtain ⟨p, nonneg, _, holds⟩ := start.denotes
  obtain ⟨q, _, _, holds'⟩ := (within_total within least).denotes
  exact ⟨p, q, holds, holds', nonneg, (holds.le_iff holds').mp grown⟩

end LayerTiming
