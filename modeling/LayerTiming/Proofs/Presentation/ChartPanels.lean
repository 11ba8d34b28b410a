import Mathlib
import LayerTiming.Presentation.Chart
import LayerTiming.Proofs.Number.Values
import LayerTiming.Proofs.Timing.Bounds

/-!
# The panels of a chart

What the parts of a panel measure. The sides of a panel are exact. The slots and the bars in it are
rounded, but rounding keeps the order of what is compared with doubles, and it moves the last slot
by two units at most. It also keeps the order of shares, so that a greater one is drawn no lower.
-/
namespace LayerTiming
open Number

namespace Chart

/-- A panel and what its sides measure. -/
structure PlotArea.Spans (panel : PlotArea) (left top width height : ℚ) : Prop where
  left : Denotes panel.left left
  top : Denotes panel.top top
  width : Denotes panel.width width
  height : Denotes panel.height height

theorem denotes_two : Denotes 2.0 2 := denotes_literal (2 ^ 52) (-51) rfl (by norm_num)

/-- The margin above the panels. The one between them is as wide. -/
theorem denotes_seventy : Denotes 70.0 70 := denotes_literal (35 * 2 ^ 47) (-46) rfl (by norm_num)

theorem le_toNat_of_fault? {style : ChartStyle} (fine : style.fault? = none) :
    800 ≤ style.width.toNat ∧ 400 ≤ style.height.toNat := by
  obtain ⟨width_ge, height_ge⟩ := ChartStyle.least_of_fault? fine
  exact ⟨UInt64.le_iff_toNat_le.mp width_ge, UInt64.le_iff_toNat_le.mp height_ge⟩

section Panels

variable {width height : UInt64}

theorem denotes_half_width (wide : width.toNat < 2 ^ 51) :
    Denotes (width.toFloat / 2.0) (width.toNat / 2) :=
  (denotes_toFloat (by omega)).div_halves denotes_two two_ne_zero
    (isHalves_of width.toNat (by push_cast; ring) (by omega) (by omega))

theorem denotes_panel_height (high : height.toNat < 2 ^ 51) :
    Denotes (height.toFloat - 70.0 - 110.0) (height.toNat - 180) := by
  have labels : Denotes 110.0 110 := denotes_literal (55 * 2 ^ 47) (-46) rfl (by norm_num)
  have below : Denotes (height.toFloat - 70.0) (height.toNat - 70) :=
    (denotes_toFloat (by omega)).sub_halves denotes_seventy
      (isHalves_of (2 * height.toNat - 140) (by push_cast; ring) (by omega) (by omega))
  have rest := below.sub_halves labels
    (isHalves_of (2 * height.toNat - 360) (by push_cast; ring) (by omega) (by omega))
  rwa [show (height.toNat - 70 - 110 : ℚ) = height.toNat - 180 by ring] at rest

theorem spans_leftPanel (wide : width.toNat < 2 ^ 51) (high : height.toNat < 2 ^ 51) :
    (leftPanel width.toFloat height.toFloat).Spans 80 70 (width.toNat / 2 - 130)
      (height.toNat - 180) where
  left := (denotes_literal (5 * 2 ^ 50) (-46) rfl (by norm_num) : Denotes 80.0 80)
  top := denotes_seventy
  width := (denotes_half_width wide).sub_halves
    (denotes_literal (65 * 2 ^ 46) (-45) rfl (by norm_num))
    (isHalves_of (width.toNat - 260) (by push_cast; ring) (by omega) (by omega))
  height := denotes_panel_height high

theorem spans_rightPanel (wide : width.toNat < 2 ^ 51) (high : height.toNat < 2 ^ 51) :
    (rightPanel width.toFloat height.toFloat).Spans (width.toNat / 2 + 70) 70
      (width.toNat / 2 - 110) (height.toNat - 180) where
  left := (denotes_half_width wide).add_halves denotes_seventy
    (isHalves_of (width.toNat + 140) (by push_cast; ring) (by omega) (by omega))
  top := denotes_seventy
  width := (denotes_half_width wide).sub_halves
    (denotes_literal (55 * 2 ^ 47) (-46) rfl (by norm_num))
    (isHalves_of (width.toNat - 220) (by push_cast; ring) (by omega) (by omega))
  height := denotes_panel_height high

end Panels

section Slots

variable {count index : Nat}

/-- The number of slots as a double is at least one and hardly less than the number itself. -/
theorem exists_count (some_slot : 0 < count) (few : count ≤ 2 ^ 64) :
    ∃ c, Denotes (Float.ofNat count) c ∧ 1 ≤ c ∧ c ≤ 2 ^ 64 ∧
      count ≤ (1 + 2 * unitError) * c := by
  obtain ⟨c, rounded, holds⟩ := exists_denotes_ofNat few (by decide)
  have one_le := rounded.ge_nat (n := 1) (by decide) (by exact_mod_cast some_slot)
  refine ⟨c, holds, by exact_mod_cast one_le, rounded.le_pow (by exact_mod_cast few), ?_⟩
  have near := (abs_le.mp rounded.abs_sub_le_nat).2
  norm_num [unitError] at near ⊢
  linarith

/-- The number of slots in front of the middle of one. -/
theorem exists_halfway (in_range : index < count) (few : count ≤ 2 ^ 64) :
    ∃ m, Denotes (Float.ofNat index + 0.5) m ∧ 1 / 2 ≤ m ∧ m ≤ 2 ^ 65 ∧
      m ≤ (1 + unitError) ^ 2 * count := by
  have half : Denotes 0.5 (1 / 2) := denotes_literal (2 ^ 52) (-53) rfl (by norm_num)
  obtain ⟨i, indexed, denotes⟩ := exists_denotes_ofNat (n := index) (k := 64) (by omega) (by decide)
  have i_nonneg : 0 ≤ i := indexed.nonneg (Nat.cast_nonneg index)
  have i_le : i ≤ 2 ^ 64 := indexed.le_pow (by exact_mod_cast (by omega : index ≤ 2 ^ 64))
  have sum_le : i + 1 / 2 ≤ 2 ^ 65 := by
    norm_num at i_le ⊢
    linarith
  obtain ⟨m, rounded, middle⟩ :=
    denotes.add half (by rwa [abs_of_nonneg (by positivity)]) (by decide)
  refine ⟨m, middle, rounded.ge half.isRepresentable (by linarith), rounded.le_pow sum_le, ?_⟩
  -- Both roundings add to what is still less than the number of slots.
  have next : (index : ℚ) + 1 ≤ count := by exact_mod_cast in_range
  have here := (abs_le.mp indexed.abs_sub_le_nat).1
  have there := (abs_le.mp (rounded.abs_sub_le (k := -1) (by decide) (by norm_num; linarith))).1
  norm_num [unitError] at here there ⊢
  linarith

variable {panel : PlotArea} {left top width height : ℚ}
  (spans : panel.Spans left top width height) (at_least : 1 ≤ width) (at_most : width ≤ 2 ^ 51)
  (few : count ≤ 2 ^ 64)
include spans at_least few

/-- What a slot measures. All slots together are hardly wider than the panel. -/
theorem PlotArea.Spans.exists_slot (at_most : width ≤ 2 ^ 51) (some_slot : 0 < count) :
    ∃ slot, Denotes (panel.width / Float.ofNat count) slot ∧ 2 ^ (-64 : Int) ≤ slot ∧
      slot ≤ width ∧ slot * count ≤ (1 + 4 * unitError) * width := by
  obtain ⟨c, denotes, one_le, c_le, count_le⟩ := exists_count some_slot few
  have c_pos : 0 < c := zero_lt_one.trans_le one_le
  have width_nonneg : 0 ≤ width := zero_le_one.trans at_least
  have quotient_le : width / c ≤ width := div_le_self width_nonneg one_le
  have quotient_nonneg : 0 ≤ width / c := div_nonneg width_nonneg c_pos.le
  obtain ⟨slot, rounded, holds⟩ := spans.width.div denotes c_pos.ne' (k := 51)
    (by rw [abs_of_nonneg quotient_nonneg]; exact quotient_le.trans at_most) (by decide)
  have least : (2 : ℚ) ^ (-64 : Int) ≤ width / c := by
    rw [le_div_iff₀ c_pos]
    calc (2 : ℚ) ^ (-64 : Int) * c ≤ 2 ^ (-64 : Int) * 2 ^ 64 :=
        mul_le_mul_of_nonneg_left c_le (zpow_pos two_pos _).le
      _ = 1 := by norm_num
      _ ≤ width := at_least
  have unit : IsRepresentable |(2 : ℚ) ^ (-64 : Int)| := by
    rw [abs_of_pos (zpow_pos two_pos _)]
    exact isRepresentable_zpow (by decide)
  refine ⟨slot, holds, rounded.ge unit least,
    rounded.le spans.width.isRepresentable quotient_le, ?_⟩
  -- The number of slots and the quotient are both rounded, and the bound leaves room for both.
  have slot_nonneg : 0 ≤ slot := rounded.nonneg quotient_nonneg
  have error := (abs_le.mp (rounded.abs_sub_le (by decide) least)).1
  calc slot * count ≤ slot * ((1 + 2 * unitError) * c) :=
      mul_le_mul_of_nonneg_left count_le slot_nonneg
    _ = (1 + 2 * unitError) * (slot * c) := by ring
    _ ≤ (1 + 2 * unitError) * ((1 + unitError) * (width / c) * c) := by
      refine mul_le_mul_of_nonneg_left (mul_le_mul_of_nonneg_right ?_ c_pos.le) ?_
      · linarith
      · linarith [unitError_nonneg]
    _ = (1 + 2 * unitError) * (1 + unitError) * width := by
      rw [mul_assoc (1 + unitError), div_mul_cancel₀ _ c_pos.ne', mul_assoc]
    _ ≤ (1 + 4 * unitError) * width :=
      mul_le_mul_of_nonneg_right (by norm_num [unitError]) width_nonneg

variable (in_range : index < count)
include at_most in_range

/-- How far the middle of a slot is from the left side of the panel. -/
theorem PlotArea.Spans.exists_offset :
    ∃ slot offset, Denotes (panel.width / Float.ofNat count) slot ∧ 2 ^ (-64 : Int) ≤ slot ∧
      slot ≤ width ∧
      Denotes (panel.width / Float.ofNat count * (Float.ofNat index + 0.5)) offset ∧
      slot / 2 ≤ offset ∧ offset ≤ width + 2 := by
  obtain ⟨slot, holds, slot_ge, slot_le, together⟩ :=
    spans.exists_slot at_least few at_most (Nat.zero_lt_of_lt in_range)
  obtain ⟨m, middle, m_ge, m_le, m_near⟩ := exists_halfway in_range few
  have slot_pos : 0 < slot := (zpow_pos two_pos _).trans_le slot_ge
  have nonneg : 0 ≤ slot * m := by positivity
  have bound : slot * m ≤ 2 ^ 116 := by
    rw [show (2 : ℚ) ^ 116 = 2 ^ 51 * 2 ^ 65 by norm_num]
    exact mul_le_mul (slot_le.trans at_most) m_le (by positivity) (by positivity)
  obtain ⟨offset, rounded, denotes⟩ :=
    holds.mul middle (by rwa [abs_of_nonneg nonneg]) (by decide)
  have half_slot : slot / 2 ≤ slot * m := by
    have grown := mul_le_mul_of_nonneg_left m_ge slot_pos.le
    linarith
  refine ⟨slot, offset, holds, slot_ge, slot_le, denotes,
    rounded.ge (holds.isRepresentable_half slot_ge) half_slot, ?_⟩
  -- Eight roundings at most, and the panel is too narrow for them to make three units.
  have small : (2 : ℚ) ^ (-65 : Int) ≤ slot * m := by
    refine le_trans ?_ half_slot
    norm_num at slot_ge ⊢
    linarith
  have here := (abs_le.mp (rounded.abs_sub_le (by decide) small)).1
  have there : slot * m ≤ (1 + unitError) ^ 2 * ((1 + 4 * unitError) * width) :=
    calc slot * m ≤ slot * ((1 + unitError) ^ 2 * count) :=
        mul_le_mul_of_nonneg_left m_near slot_pos.le
      _ = (1 + unitError) ^ 2 * (slot * count) := by ring
      _ ≤ (1 + unitError) ^ 2 * ((1 + 4 * unitError) * width) :=
        mul_le_mul_of_nonneg_left together (by positivity)
  norm_num [unitError] at here there at_most
  linarith

variable (left_nonneg : 0 ≤ left) (past : IsHalves (left + (width + 2)))
include left_nonneg past

/-- Where the middle of a slot lies: at least half a slot away from the edge of the canvas, and
hardly past the right side of the panel. -/
theorem PlotArea.Spans.exists_middle :
    ∃ slot center, Denotes (panel.width / Float.ofNat count) slot ∧ 2 ^ (-64 : Int) ≤ slot ∧
      slot ≤ width ∧ Denotes (panel.slotMiddle index count) center ∧ slot / 2 ≤ center ∧
      center ≤ left + (width + 2) := by
  obtain ⟨slot, offset, holds, slot_ge, slot_le, denotes, offset_ge, offset_le⟩ :=
    spans.exists_offset at_least at_most few in_range
  have slot_pos : 0 < slot := (zpow_pos two_pos _).trans_le slot_ge
  have sum_nonneg : 0 ≤ left + offset := by linarith
  have sum_le : left + offset ≤ left + (width + 2) := by linarith
  -- The addition goes past neither end, since both are doubles.
  obtain ⟨center, rounded, denotes_center⟩ := spans.left.add denotes
    (by rw [abs_of_nonneg sum_nonneg]; exact sum_le.trans ((le_abs_self _).trans past.abs_le))
    (by decide)
  have center_ge : offset ≤ center := rounded.ge denotes.isRepresentable (by linarith)
  exact ⟨slot, center, holds, slot_ge, slot_le, denotes_center, offset_ge.trans center_ge,
    rounded.le past.isRepresentable sum_le⟩

/-- The sides of a bar lie on the canvas. -/
theorem PlotArea.Spans.exists_bar_sides :
    ∃ x wide, Denotes (panel.width / Float.ofNat count * 0.7) wide ∧
      Denotes (panel.slotMiddle index count - panel.width / Float.ofNat count * 0.7 / 2.0) x ∧
      0 ≤ wide ∧ 0 ≤ x ∧ x + wide ≤ left + (width + 2) + width := by
  obtain ⟨slot, center, holds, slot_ge, slot_le, middle, center_ge, center_le⟩ :=
    spans.exists_middle at_least at_most few in_range left_nonneg past
  have slot_pos : 0 < slot := (zpow_pos two_pos _).trans_le slot_ge
  have slot_bound : slot ≤ 2 ^ 51 := slot_le.trans at_most
  -- The double that is written 0.7 is not seven tenths, but it is less than one.
  have share : Denotes 0.7 (3152519739159347 / 2 ^ 52) :=
    denotes_literal (3152519739159347 * 2) (-53) rfl (by norm_num)
  have product_le : slot * (3152519739159347 / 2 ^ 52) ≤ slot :=
    mul_le_of_le_one_right slot_pos.le (by norm_num)
  have product_nonneg : 0 ≤ slot * (3152519739159347 / 2 ^ 52) := by positivity
  obtain ⟨wide, rounded, denotes_wide⟩ := holds.mul share (k := 51)
    (by rw [abs_of_nonneg product_nonneg]; exact product_le.trans slot_bound) (by decide)
  have wide_nonneg : 0 ≤ wide := rounded.nonneg product_nonneg
  have wide_le : wide ≤ slot := rounded.le holds.isRepresentable product_le
  obtain ⟨half, halved, denotes_half⟩ := denotes_wide.div denotes_two two_ne_zero (k := 51)
    (by rw [abs_of_nonneg (by positivity)]; linarith) (by decide)
  have half_nonneg : 0 ≤ half := halved.nonneg (by positivity)
  have half_le : half ≤ slot / 2 := halved.le (holds.isRepresentable_half slot_ge) (by linarith)
  -- Half a bar is no wider than half a slot, which the middle is away from the edge.
  have x_exact : 0 ≤ center - half := by linarith
  have x_bound : center - half ≤ center := sub_le_self _ half_nonneg
  have center_bound : center ≤ 2 ^ 53 := center_le.trans ((le_abs_self _).trans past.abs_le)
  obtain ⟨x, moved, denotes_x⟩ := middle.sub denotes_half (k := 53)
    (by rw [abs_of_nonneg x_exact]; exact x_bound.trans center_bound) (by decide)
  have x_le : x ≤ center := moved.le middle.isRepresentable x_bound
  exact ⟨x, wide, denotes_wide, denotes_x, wide_nonneg, moved.nonneg x_exact, by linarith⟩

end Slots

section Bars

variable {panel : PlotArea} {left top width height : ℚ}

/-- The ends of a bar lie on the canvas. -/
theorem PlotArea.Spans.exists_bar_ends (spans : panel.Spans left top width height)
    {ticks full : Float} {t f : ℚ} (counted : Denotes ticks t) (scale : Denotes full f)
    (t_nonneg : 0 ≤ t) (t_le : t ≤ f) (f_pos : 0 < f) (top_ge : 1 ≤ top)
    (height_nonneg : 0 ≤ height) (bottom : IsHalves (top + height)) :
    ∃ y high, Denotes (ticks / full * panel.height) high ∧
      Denotes (panel.bottom - ticks / full * panel.height) y ∧
      0 ≤ high ∧ 0 ≤ y ∧ y + high ≤ top + height + 1 := by
  have bottom_le : top + height ≤ 2 ^ 53 := (le_abs_self _).trans bottom.abs_le
  have denotes_bottom : Denotes panel.bottom (top + height) :=
    spans.top.add_halves spans.height bottom
  have ratio_nonneg : 0 ≤ t / f := div_nonneg t_nonneg f_pos.le
  have ratio_le : t / f ≤ 1 := (div_le_one f_pos).mpr t_le
  obtain ⟨part, divided, denotes_part⟩ := counted.div scale f_pos.ne' (k := 0)
    (by rwa [abs_of_nonneg ratio_nonneg, pow_zero]) (by decide)
  -- A share of at most one stays one when it is rounded, so the bar is no higher than the panel.
  have part_nonneg : 0 ≤ part := divided.nonneg ratio_nonneg
  have part_le : part ≤ 1 := by simpa using divided.le_pow (k := 0) (by rwa [pow_zero])
  have product_nonneg : 0 ≤ part * height := mul_nonneg part_nonneg height_nonneg
  have product_le : part * height ≤ height := mul_le_of_le_one_left height_nonneg part_le
  obtain ⟨high, scaled, denotes_high⟩ := denotes_part.mul spans.height (k := 53)
    (by rw [abs_of_nonneg product_nonneg]; linarith) (by decide)
  have high_nonneg : 0 ≤ high := scaled.nonneg product_nonneg
  have high_le : high ≤ height := scaled.le spans.height.isRepresentable product_le
  have one_le : 1 ≤ top + height - high := by linarith
  obtain ⟨y, moved, denotes_y⟩ := denotes_bottom.sub denotes_high (k := 53)
    (by rw [abs_of_nonneg (by linarith)]; linarith) (by decide)
  have y_le : y ≤ top + height - high + 1 := by
    have error := (abs_le.mp (moved.abs_sub_le (k := 0) (by decide) (by simpa using one_le))).1
    norm_num [unitError] at error bottom_le
    linarith
  exact ⟨y, high, denotes_high, denotes_y, high_nonneg, moved.nonneg (by linarith), by linarith⟩

end Bars

/-! ### The scale of the bars -/

theorem exists_greatest {values : List Float} {k : Nat} (within : ∀ x ∈ values, Within x k)
    {best : Float} {b : ℚ} (begun : Denotes best b) :
    ∃ g, Denotes (values.foldl (fun best x => if best < x then x else best) best) g ∧ b ≤ g ∧
      ∀ x ∈ values, ∀ v, Denotes x v → v ≤ g := by
  induction values generalizing best b with
  | nil => exact ⟨b, begun, le_rfl, List.forall_mem_nil _⟩
  | cons x rest ih =>
    obtain ⟨here, there⟩ := List.forall_mem_cons.mp within
    obtain ⟨u, _, _, denotes⟩ := here.denotes
    rw [List.foldl_cons]
    by_cases less : best < x
    · rw [if_pos less]
      obtain ⟨g, holds, above, each⟩ := ih there denotes
      have grown : b < u := (begun.lt_iff denotes).mp less
      refine ⟨g, holds, grown.le.trans above, List.forall_mem_cons.mpr ⟨fun v same => ?_, each⟩⟩
      rwa [same.unique denotes]
    · rw [if_neg less]
      obtain ⟨g, holds, above, each⟩ := ih there begun
      refine ⟨g, holds, above, List.forall_mem_cons.mpr ⟨fun v same => ?_, each⟩⟩
      exact (not_lt.mp fun greater => less ((begun.lt_iff same).mpr greater)).trans above

/-- No bar stands for more ticks than one of full height, which stands for some. -/
theorem exists_fullScale {totals : List OperationTotal} {k : Nat}
    (within : ∀ entry ∈ totals, Within entry.totalTicks k) :
    ∃ f, Denotes (fullScale totals) f ∧ 1 ≤ f ∧
      ∀ entry ∈ totals, ∀ t, Denotes entry.totalTicks t → t ≤ f := by
  have one : Denotes 1.0 1 := denotes_literal (2 ^ 52) (-52) rfl (by norm_num)
  obtain ⟨most, holds, _, each⟩ :=
    exists_greatest (List.forall_mem_map.mpr within) denotes_zero
  have each : ∀ entry ∈ totals, ∀ t, Denotes entry.totalTicks t → t ≤ most :=
    List.forall_mem_map.mp each
  change Denotes (greatest (totals.map OperationTotal.totalTicks)) most at holds
  rw [fullScale]
  by_cases less : greatest (totals.map OperationTotal.totalTicks) < 1.0
  · have below : most < 1 := (holds.lt_iff one).mp less
    refine ⟨1, by rwa [if_pos less], le_rfl, fun entry member t same => ?_⟩
    exact (each entry member t same).trans below.le
  · exact ⟨most, by rwa [if_neg less], not_lt.mp ((holds.lt_iff one).not.mp less), each⟩

/-! ### The places of shares -/

section Heights

variable {panel : PlotArea} {left top width height : ℚ} {x y : Float} {u v : ℚ}
  (spans : panel.Spans left top width height) (top_nonneg : 0 ≤ top) (height_pos : 0 < height)
  (bottom : IsHalves (top + height))
include spans top_nonneg height_pos bottom

/-- What is rounded on the way from a share to its place on the vertical axis. -/
theorem PlotArea.Spans.exists_percentHeight (share : Denotes x u) (nonneg : 0 ≤ u)
    (bound : u ≤ 2 ^ 128) :
    ∃ part tall place, RoundsTo (u / 105) part ∧ Denotes (x / 105.0) part ∧
      RoundsTo (part * height) tall ∧ Denotes (x / 105.0 * panel.height) tall ∧
      RoundsTo (top + height - tall) place ∧ Denotes (panel.percentHeight x) place := by
  have scale : Denotes 105.0 105 := denotes_literal (105 * 2 ^ 46) (-46) rfl (by norm_num)
  have bottom_le : top + height ≤ 2 ^ 53 := (le_abs_self _).trans bottom.abs_le
  have quotient_nonneg : 0 ≤ u / 105 := by positivity
  have quotient_le : u / 105 ≤ 2 ^ 128 := (div_le_self nonneg (by norm_num)).trans bound
  obtain ⟨part, divided, denotes_part⟩ := share.div scale (by norm_num) (k := 128)
    (by rwa [abs_of_nonneg quotient_nonneg]) (by decide)
  have part_nonneg : 0 ≤ part := divided.nonneg quotient_nonneg
  have product_nonneg : 0 ≤ part * height := mul_nonneg part_nonneg height_pos.le
  have product_le : part * height ≤ 2 ^ 181 := by
    rw [show (2 : ℚ) ^ 181 = 2 ^ 128 * 2 ^ 53 from pow_add 2 128 53]
    exact mul_le_mul (divided.le_pow quotient_le) (by linarith) height_pos.le (by positivity)
  obtain ⟨tall, scaled, denotes_tall⟩ := denotes_part.mul spans.height (k := 181)
    (by rwa [abs_of_nonneg product_nonneg]) (by decide)
  have tall_nonneg : 0 ≤ tall := scaled.nonneg product_nonneg
  have tall_le : tall ≤ 2 ^ 181 := scaled.le_pow product_le
  obtain ⟨place, moved, drawn⟩ := (spans.top.add_halves spans.height bottom).sub denotes_tall
    (k := 181) (abs_le.mpr ⟨by linarith, by linarith⟩) (by decide)
  exact ⟨part, tall, place, divided, denotes_part, scaled, denotes_tall, moved, drawn⟩

/-- A greater share is drawn no lower, which is no farther from the top. -/
theorem PlotArea.Spans.percentHeight_le (share : Denotes x u) (greater : Denotes y v)
    (nonneg : 0 ≤ u) (order : u ≤ v) (bound : v ≤ 2 ^ 128) :
    panel.percentHeight y ≤ panel.percentHeight x := by
  have zero : IsRepresentable |(0 : ℚ)| := denotes_zero.isRepresentable
  have denotes_bottom := spans.top.add_halves spans.height bottom
  obtain ⟨part, tall, place, divided, denotes_part, scaled, denotes_tall, moved, drawn⟩ :=
    spans.exists_percentHeight top_nonneg height_pos bottom share nonneg (order.trans bound)
  obtain ⟨part', tall', place', divided', denotes_part', scaled', denotes_tall', moved', drawn'⟩ :=
    spans.exists_percentHeight top_nonneg height_pos bottom greater (nonneg.trans order) bound
  -- Division and product keep the order of the shares, and the difference turns it around.
  have parts : part ≤ part' := share.le_of_rounds greater (g := (· / 105)) (f := (· / 105.0))
    divided denotes_part divided' denotes_part' (by simpa using zero)
    (order.eq_or_lt.imp_right fun less => div_lt_div_of_pos_right less (by norm_num))
  have products : tall ≤ tall' := denotes_part.le_of_rounds denotes_part' (g := (· * height))
    (f := (· * panel.height)) scaled denotes_tall scaled' denotes_tall' (by simpa using zero)
    (parts.eq_or_lt.imp_right fun less => mul_lt_mul_of_pos_right less height_pos)
  have places : place' ≤ place := denotes_tall'.le_of_rounds denotes_tall
    (g := (top + height - ·)) (f := (panel.bottom - ·)) moved' drawn' moved drawn
    (by simpa using denotes_bottom.isRepresentable)
    (products.eq_or_lt.imp Eq.symm fun less => sub_lt_sub_left less _)
  exact (drawn'.le_iff drawn).mpr places

end Heights

/-- In the right panel of a chart a greater share is drawn no lower. -/
theorem percentHeight_rightPanel {width height : UInt64} {x y : Float} {u v : ℚ}
    (wide : width.toNat < 2 ^ 51) (high : height.toNat < 2 ^ 51) (room : 180 < height.toNat)
    (share : Denotes x u) (greater : Denotes y v) (nonneg : 0 ≤ u) (order : u ≤ v)
    (bound : v ≤ 2 ^ 128) :
    (rightPanel width.toFloat height.toFloat).percentHeight y ≤
      (rightPanel width.toFloat height.toFloat).percentHeight x := by
  have some_height : (0 : ℚ) < height.toNat - 180 := sub_pos.mpr (by exact_mod_cast room)
  have bottom : IsHalves (70 + ((height.toNat : ℚ) - 180)) :=
    isHalves_of (2 * height.toNat - 220) (by push_cast; ring) (by omega) (by omega)
  exact (spans_rightPanel wide high).percentHeight_le (by norm_num) some_height bottom share greater
    nonneg order bound

/-! ### The box on time -/

section Time

theorem denotes_box_width : Denotes 230.0 230 :=
  denotes_literal (115 * 2 ^ 46) (-45) rfl (by norm_num)

/-- The height of some lines in a box. It is exact for lines that are not too many. -/
theorem exists_lines_height {lines : Nat} (few : lines ≤ 2 ^ 65) :
    ∃ high, Denotes (Float.ofNat lines * 14.0 + 10.0) high ∧ high ≤ 2 ^ 70 ∧
      (lines ≤ 2 ^ 48 → high = 14 * lines + 10) ∧ (2 ^ 48 ≤ lines → 2 ^ 51 ≤ high) := by
  have line : Denotes 14.0 14 := denotes_literal (7 * 2 ^ 50) (-49) rfl (by norm_num)
  have margin : Denotes 10.0 10 := denotes_literal (5 * 2 ^ 50) (-49) rfl (by norm_num)
  obtain ⟨n, counted, denotes⟩ := exists_denotes_ofNat few (by decide)
  have n_nonneg : 0 ≤ n := counted.nonneg (Nat.cast_nonneg lines)
  have n_le : n ≤ 2 ^ 65 := counted.le_pow (by exact_mod_cast few)
  obtain ⟨all, product, denotes_all⟩ := denotes.mul line (k := 69)
    (by rw [abs_of_nonneg (by positivity)]; norm_num at n_le ⊢; linarith) (by decide)
  have all_nonneg : 0 ≤ all := product.nonneg (by positivity)
  have all_le : all ≤ 2 ^ 69 := product.le_pow (by norm_num at n_le ⊢; linarith)
  have sum_le : all + 10 ≤ 2 ^ 70 := by
    norm_num at all_le ⊢
    linarith
  obtain ⟨high, sum, denotes_high⟩ := denotes_all.add margin
    (by rwa [abs_of_nonneg (by positivity)]) (by decide)
  -- Few lines have a whole number for a height, which is exact. Many need only a bound.
  refine ⟨high, denotes_high, sum.le_pow sum_le, fun short => ?_, fun long => ?_⟩
  · have counted_exact : n = lines := counted.eq
      (isHalves_of (2 * lines) (by push_cast; ring) (by omega) (by omega)).isRepresentable
    subst counted_exact
    have product_exact : all = lines * 14 := product.eq
      (isHalves_of (28 * lines) (by push_cast; ring) (by omega) (by omega)).isRepresentable
    subst product_exact
    have exact : high = lines * 14 + 10 := sum.eq
      (isHalves_of (28 * lines + 20) (by push_cast; ring) (by omega) (by omega)).isRepresentable
    rw [exact]
    ring
  · have least := counted.ge_nat (n := 2 ^ 48) (by decide) (by exact_mod_cast long)
    norm_num at least
    have power : (2 : ℚ) ^ 51 = (2 ^ 51 : Nat) := by norm_num
    rw [power]
    refine sum.ge_nat (by decide) ?_
    have product_ge := product.ge_nat (n := 2 ^ 51) (by decide) (by norm_num; linarith)
    linarith

variable {width height : UInt64} {lines : Nat}

/-- Where the box on time lies. It is exact if there is room for it, and else it begins above the
canvas. -/
theorem exists_timeBox_sides (wide : width.toNat < 2 ^ 51) (high : height.toNat < 2 ^ 51)
    (few : lines ≤ 2 ^ 65) :
    let panel := rightPanel width.toFloat height.toFloat
    ∃ y tall, Denotes (panel.left + panel.width - 230.0 - 6.0) (width.toNat - 276) ∧
      Denotes (panel.bottom - (Float.ofNat lines * 14.0 + 10.0) - 6.0) y ∧
      Denotes (Float.ofNat lines * 14.0 + 10.0) tall ∧
      (14 * lines + 126 ≤ height.toNat →
        tall = 14 * lines + 10 ∧ y = height.toNat - 126 - 14 * lines) ∧
      (height.toNat < 14 * lines + 126 → y ≤ -1) := by
  intro panel
  have spans := spans_rightPanel wide high
  have margin : Denotes 6.0 6 := denotes_literal (3 * 2 ^ 51) (-50) rfl (by norm_num)
  have x : Denotes (panel.left + panel.width - 230.0 - 6.0) (width.toNat - 276) := by
    have right := spans.left.add_halves spans.width
      (isHalves_of (2 * width.toNat - 80) (by push_cast; ring) (by omega) (by omega))
    have inside := right.sub_halves denotes_box_width
      (isHalves_of (2 * width.toNat - 540) (by push_cast; ring) (by omega) (by omega))
    have moved := inside.sub_halves margin
      (isHalves_of (2 * width.toNat - 552) (by push_cast; ring) (by omega) (by omega))
    convert moved using 1
    ring
  have bottom : Denotes panel.bottom (70 + (height.toNat - 180)) :=
    spans.top.add_halves spans.height
      (isHalves_of (2 * height.toNat - 220) (by push_cast; ring) (by omega) (by omega))
  obtain ⟨tall, denotes, tall_le, short, long⟩ := exists_lines_height few
  rcases Nat.le_total lines (2 ^ 48) with at_most | at_least
  · obtain rfl := short at_most
    have above := bottom.sub_halves denotes
      (isHalves_of (2 * height.toNat - 240 - 28 * lines) (by push_cast; ring) (by omega) (by omega))
    have y := above.sub_halves margin
      (isHalves_of (2 * height.toNat - 252 - 28 * lines) (by push_cast; ring) (by omega) (by omega))
    refine ⟨_, _, x, y, denotes, fun _ => ⟨rfl, by ring⟩, fun past => ?_⟩
    have past : (height.toNat : ℚ) + 1 ≤ 14 * lines + 126 := by exact_mod_cast past
    linarith
  · -- So many lines are higher than any canvas, however they are rounded.
    have tall_ge := long at_least
    have high_le : (height.toNat : ℚ) ≤ 2 ^ 51 := by exact_mod_cast high.le
    have height_nonneg : (0 : ℚ) ≤ height.toNat := Nat.cast_nonneg _
    obtain ⟨above, lifted, denotes_above⟩ := bottom.sub denotes (k := 71)
      (by rw [abs_le]; constructor <;> linarith) (by decide)
    have above_nonpos : above ≤ 0 := lifted.nonpos (by linarith)
    have above_ge : -2 ^ 71 ≤ above := neg_le.mp (lifted.neg.le_pow (by linarith))
    obtain ⟨y, moved, denotes_y⟩ := denotes_above.sub margin (k := 72)
      (by rw [abs_le]; constructor <;> linarith) (by decide)
    have y_le : y ≤ -6 :=
      moved.le (by rw [abs_neg]; exact margin.isRepresentable) (by linarith)
    refine ⟨y, tall, x, denotes_y, denotes, fun fits => ?_, fun _ => by linarith⟩
    exact absurd fits (by omega)

end Time

end Chart
end LayerTiming
