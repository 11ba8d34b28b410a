import LayerTiming.Proofs.Number.Order
import LayerTiming.Proofs.Presentation.ChartPanels
import LayerTiming.Proofs.Presentation.ChartReading
import LayerTiming.Proofs.Ranking.Shares
import LayerTiming.Proofs.Ranking.Sorting

/-!
# Coverage

How many leading operations reach a share of all ticks is the place of the first cumulative share
that is as great, and the chart draws the same shares. So the summary and the chart agree on where
the mark is reached. A greater share is drawn no lower, so in a chart of runs the line can be read by
its heights.

## Main results

* `Profile.line_never_falls`: in a chart of runs the line does not fall, and the shares tell on which
  side of the line of the mark it lies.
* `coverage_shown`: the count is the least one that reaches a share, a greater share needs no fewer
  operations, and the line in the summary agrees with the line in the chart.
-/
namespace LayerTiming
open Number Text

/-- The share of all ticks that the first `k` operations have, in percent. -/
def leadingShare (totals : List OperationTotal) (k : Nat) : Float :=
  inPercent (((totals.map OperationTotal.totalTicks).take k).foldl (· + ·) 0.0)
    (summedTicks totals)

/-- Some leading operations, `k` of them, reach a share. -/
def Covers (totals : List OperationTotal) (percent : Float) (k : Nat) : Prop :=
  1 ≤ k ∧ k ≤ totals.length ∧ percent ≤ leadingShare totals k

/-- How many leading operations are needed to reach a share. -/
structure IsCoverage (totals : List OperationTotal) (percent : Float) (count : Nat) : Prop where
  within : count ≤ totals.length
  nothing : totals = [] ∨ summedTicks totals ≤ 0.0 → count = 0
  least : ¬ summedTicks totals ≤ 0.0 → (∃ k, Covers totals percent k) →
    IsLeast {k | Covers totals percent k} count
  all : ¬ summedTicks totals ≤ 0.0 → (¬ ∃ k, Covers totals percent k) → count = totals.length

/-- Whether a share is as great as the one that is asked for. -/
def reaches (percent share : Float) : Bool := percent ≤ share

section Leading
variable {totals : List OperationTotal} {percent : Float}

/-- Operations are counted up to the first running sum that has the share. -/
theorem leadingCount_eq (total percent start : Float) (totals : List OperationTotal) :
    leadingCount total percent start totals =
      min (((runningSums start (totals.map OperationTotal.totalTicks)).map
        (inPercent · total)).findIdx (reaches percent) + 1) totals.length := by
  -- Count and index go on by one together, with the ticks that are summed up so far.
  induction totals generalizing start with
  | nil => rfl
  | cons entry rest ih =>
    rw [leadingCount, ih, List.map_cons, runningSums, List.map_cons, List.findIdx_cons, reaches,
      List.length_cons]
    split
    next reached =>
      rw [decide_eq_true reached, cond_true]
      omega
    next missed =>
      rw [decide_eq_false missed, cond_false]
      omega

namespace Chart

theorem length_cumulativeShares : (cumulativeShares totals).length = totals.length := by
  simp [cumulativeShares, length_runningSums]

theorem getElem_cumulativeShares {i : Nat} (within : i < (cumulativeShares totals).length) :
    (cumulativeShares totals)[i] = leadingShare totals (i + 1) := by
  simp only [cumulativeShares, List.getElem_map, getElem_runningSums, leadingShare]

end Chart

open Chart (cumulativeShares)

theorem coverageCount_eq (positive : ¬ summedTicks totals ≤ 0.0) :
    coverageCount totals percent =
      min ((cumulativeShares totals).findIdx (reaches percent) + 1) totals.length :=
  (if_neg positive).trans (leadingCount_eq ..)

/-- A count of operations reaches what the cumulative share at its place reaches. -/
theorem covers_iff {k : Nat} : Covers totals percent k ↔
    ∃ (i : Nat) (within : i < (cumulativeShares totals).length),
      reaches percent (cumulativeShares totals)[i] = true ∧ i + 1 = k := by
  simp only [Chart.getElem_cumulativeShares, reaches, decide_eq_true_eq]
  constructor
  · rintro ⟨some_operation, at_most, share⟩
    have place : k - 1 + 1 = k := Nat.sub_add_cancel some_operation
    refine ⟨k - 1, ?_, ?_, place⟩
    · rw [Chart.length_cumulativeShares]
      omega
    · rwa [place]
  · rintro ⟨i, within, share, rfl⟩
    rw [Chart.length_cumulativeShares] at within
    exact ⟨Nat.succ_pos i, within, share⟩

theorem exists_covers_iff : (∃ k, Covers totals percent k) ↔
    (cumulativeShares totals).findIdx (reaches percent) < totals.length := by
  rw [← Chart.length_cumulativeShares, List.findIdx_lt_length, List.exists_mem_iff_getElem]
  simp only [covers_iff]
  constructor
  · rintro ⟨_, i, within, share, _⟩
    exact ⟨i, within, share⟩
  · rintro ⟨i, within, share⟩
    exact ⟨i + 1, i, within, share, rfl⟩

theorem isLeast_covers (reached : ∃ k, Covers totals percent k) :
    IsLeast {k | Covers totals percent k}
      ((cumulativeShares totals).findIdx (reaches percent) + 1) := by
  have within := exists_covers_iff.mp reached
  rw [← Chart.length_cumulativeShares] at within
  constructor
  · exact covers_iff.mpr ⟨_, within, List.findIdx_getElem, rfl⟩
  · intro k covers
    obtain ⟨i, _, share, rfl⟩ := covers_iff.mp covers
    -- A share in front of the first one that is great enough is not great enough.
    refine Nat.succ_le_succ (not_lt.mp fun earlier => ?_)
    exact Bool.noConfusion (share.symm.trans (List.not_of_lt_findIdx earlier))

theorem isCoverage_coverageCount (totals : List OperationTotal) (percent : Float) :
    IsCoverage totals percent (coverageCount totals percent) := by
  have no_total (small : summedTicks totals ≤ 0.0) : coverageCount totals percent = 0 :=
    if_pos small
  constructor
  case within =>
    by_cases small : summedTicks totals ≤ 0.0
    · exact (no_total small).trans_le (Nat.zero_le _)
    · rw [coverageCount_eq small]
      exact Nat.min_le_right _ _
  case nothing =>
    rintro (rfl | small)
    · rfl
    · exact no_total small
  case least =>
    intro positive reached
    have least := isLeast_covers reached
    rwa [coverageCount_eq positive, Nat.min_eq_left (exists_covers_iff.mp reached)]
  case all =>
    intro positive missed
    rw [exists_covers_iff] at missed
    rw [coverageCount_eq positive]
    omega

example : coverageCount [⟨"CONV_2D", 60.0, 1, 60.0⟩, ⟨"ADD", 30.0, 2, 15.0⟩, ⟨"MUL", 10.0, 1, 10.0⟩]
    coverageMark = 2 := by decide

/-- A greater share needs no fewer operations. -/
theorem coverageCount_mono {higher : Float} (order : percent ≤ higher) :
    coverageCount totals percent ≤ coverageCount totals higher := by
  by_cases small : summedTicks totals ≤ 0.0
  · rw [(isCoverage_coverageCount totals percent).nothing (.inr small)]
    exact Nat.zero_le _
  · have earlier : (cumulativeShares totals).findIdx (reaches percent) ≤
        (cumulativeShares totals).findIdx (reaches higher) := by
      refine List.findIdx_le_findIdx fun share _ reached => ?_
      exact decide_eq_true (le_trans_number order (of_decide_eq_true reached))
    rw [coverageCount_eq small, coverageCount_eq small]
    omega

/-- The first cumulative share that is great enough stands where the count ends. -/
theorem findIdx?_cumulativeShares (some_share : ¬ percent ≤ 0.0)
    (reached : ∃ share ∈ cumulativeShares totals, percent ≤ share) :
    (cumulativeShares totals).findIdx? (reaches percent) =
      some (coverageCount totals percent - 1) := by
  -- Without a positive total all shares are zero, and none of them is great enough.
  have positive : ¬ summedTicks totals ≤ 0.0 := by
    intro small
    obtain ⟨share, member, great⟩ := reached
    obtain ⟨ticks, _, rfl⟩ := List.mem_map.mp member
    rw [inPercent_of_not_pos (not_lt_of_le_number small)] at great
    exact some_share great
  have found : ∃ share ∈ cumulativeShares totals, reaches percent share = true := by
    simpa [reaches] using reached
  have within := List.findIdx_lt_length.mpr found
  rw [Chart.length_cumulativeShares] at within
  rw [List.findIdx?_eq_some_of_exists found, coverageCount_eq positive, Nat.min_eq_left within]
  rfl

/-- The shares of leading operations do not fall, and they are no greater than a hundred. -/
theorem exists_leadingShare_le {k n m : Nat} (within : ∀ entry ∈ totals, Within entry.totalTicks k)
    (least : k + 55 < 1024) (order : n ≤ m) :
    ∃ u v, Denotes (leadingShare totals n) u ∧ Denotes (leadingShare totals m) v ∧ 0 ≤ u ∧ u ≤ v ∧
      v ≤ 100 := by
  obtain ⟨j, rfl⟩ := Nat.exists_eq_add_of_le order
  have each : ∀ x ∈ totals.map OperationTotal.totalTicks, Within x k := List.forall_mem_map.mpr within
  rw [leadingShare, leadingShare, summedTicks]
  generalize totals.map OperationTotal.totalTicks = ticks at each ⊢
  have parts : ticks.take n ++ (ticks.drop n).take j = ticks.take (n + j) := List.take_add.symm
  have all : ticks.take (n + j) ++ ticks.drop (n + j) = ticks := List.take_append_drop ..
  have leading : ∀ x ∈ ticks.take (n + j), Within x k :=
    fun x member => each x (List.mem_of_mem_take member)
  -- A further operation adds to the sum of those before it, and the total adds the rest.
  have fewer := exists_sum_append (ticks.take n) ((ticks.drop n).take j) (by rwa [parts]) least
  have most := exists_sum_append (ticks.take (n + j)) (ticks.drop (n + j)) (by rwa [all]) least
  rw [parts] at fewer
  rw [all] at most
  obtain ⟨p, q, part, part', nonneg, more⟩ := fewer
  obtain ⟨q', t, part'', total, _, at_most⟩ := most
  obtain rfl := part'.unique part''
  exact exists_inPercent_le part part' (denotes_sum each total) nonneg more at_most

end Leading

/-! ### What is shown -/

/-- The line of the summary on the operations that reach the mark. -/
def coverageLine (count total : Nat) : List Char :=
  numeral count ++ " of ".toList ++ numeral total ++ " operations cover 80% of layer ticks".toList

namespace Profile
variable {profile : Profile} {style : ChartStyle} {text : List Char}

theorem getLast?_operationLines (profile : Profile) :
    profile.operationLines.getLast? =
      some (.text (coverageLine (coverageCount (operationTotals profile.layers) coverageMark)
        (operationTotals profile.layers).length)) := by
  have mark : fixed 0 coverageMark = "80".toList := by decide
  have line (count total : Nat) : numeral count ++ " of ".toList ++ numeral total
      ++ " operations cover ".toList ++ fixed 0 coverageMark ++ "% of layer ticks".toList =
      coverageLine count total := by
    simp [mark, coverageLine]
  rw [operationLines, List.getLast?_append, line]
  rfl

/-- The line on the mark is the last one before the closing rule of the summary. -/
theorem summaryText_coverage (layers : profile.layers ≠ []) (limit : Nat) (color : Bool) :
    ∃ lines, profile.summaryText limit color = joinPieces '\n' (lines ++
      [coverageLine (coverageCount (operationTotals profile.layers) coverageMark)
        (operationTotals profile.layers).length, [], List.replicate 70 '=']) := by
  have some_layer : ¬ profile.isEmpty = true := by simpa [isEmpty] using layers
  obtain ⟨table, last⟩ := List.getLast?_eq_some_iff.mp (getLast?_operationLines profile)
  obtain ⟨top, whole⟩ : ∃ top, profile.summaryLines limit =
      top ++ (profile.operationLines ++ [SummaryLine.blank, SummaryLine.rule]) := by
    rw [summaryLines, if_neg some_layer, List.append_assoc _ profile.operationLines]
    exact ⟨_, rfl⟩
  refine ⟨(top ++ table).map (SummaryLine.render color), ?_⟩
  rw [summaryText, whole, last, List.append_assoc, ← List.append_assoc top, List.map_append]
  rfl

/-- The line of the chart goes through the cumulative shares. -/
theorem polyline_of_chart (made : profile.chart style = .ok text) :
    let panel := Chart.rightPanel style.width.toFloat style.height.toFloat
    let points := Chart.points panel (operationTotals profile.layers)
    ∃ root, Markup.read? text = some root ∧
      root.elements.filter (Markup.isNamed "polyline") = [Chart.polyline points] ∧
      points.map Prod.snd =
        (Chart.cumulativeShares (operationTotals profile.layers)).map panel.percentHeight := by
  intro panel points
  obtain ⟨_, rfl⟩ := chart_eq_ok made
  refine ⟨Chart.drawing style profile, ?_, ?_, ?_⟩
  · exact Markup.read?_write (Chart.regular_drawing style profile)
  · simpa [Chart.pick, Markup.elementsAll] using Chart.pick_polyline_drawing style profile
  · exact List.ext_getElem (by simp [points, Chart.points]) (by simp [points, Chart.points])

/-- In a chart of runs the line does not fall from operation to operation, and it lies on that side
of the line of the mark on which its share lies. -/
theorem line_never_falls (clock : Clock) (runs : List Run) (samples : List UInt64)
    {style : ChartStyle} (fine : style.fault? = none) (wide : style.width.toNat < 2 ^ 51)
    (high : style.height.toNat < 2 ^ 51) :
    let shares := Chart.cumulativeShares (operationTotals (ofRuns clock runs samples).layers)
    let panel := Chart.rightPanel style.width.toFloat style.height.toFloat
    (shares.map panel.percentHeight).Pairwise (fun height next => next ≤ height) ∧
      ∀ share ∈ shares,
        (coverageMark ≤ share → panel.percentHeight share ≤ panel.percentHeight coverageMark) ∧
        (share ≤ coverageMark → panel.percentHeight coverageMark ≤ panel.percentHeight share) := by
  intro shares panel
  have room : 180 < style.height.toNat := by
    have height_ge := (Chart.le_toNat_of_fault? fine).2
    omega
  have mark : Denotes coverageMark 80 := denotes_literal (5 * 2 ^ 50) (-46) rfl (by norm_num)
  have within : ∀ entry ∈ operationTotals (ofRuns clock runs samples).layers,
      Within entry.totalTicks 172 := fun entry member => (within_totalTicks member).1
  -- The shares of runs are numbers up to a hundred, in the order of the operations.
  have rises {n m : Nat} (order : n ≤ m) := exists_leadingShare_le within (by decide) order
  constructor
  · rw [List.pairwise_map, List.pairwise_iff_getElem]
    intro i j first second less
    rw [Chart.getElem_cumulativeShares, Chart.getElem_cumulativeShares]
    obtain ⟨u, v, share, greater, nonneg, order, bound⟩ := rises (Nat.succ_le_succ less.le)
    exact Chart.percentHeight_rightPanel wide high room share greater nonneg order (by linarith)
  · intro share member
    obtain ⟨i, first, rfl⟩ := List.getElem_of_mem member
    rw [Chart.getElem_cumulativeShares]
    obtain ⟨u, _, share, _, nonneg, order, bound⟩ := rises (le_refl (i + 1))
    refine ⟨fun reached => ?_, fun missed => ?_⟩
    · exact Chart.percentHeight_rightPanel wide high room mark share (by norm_num)
        ((mark.le_iff share).mp reached) (by linarith)
    · exact Chart.percentHeight_rightPanel wide high room share mark nonneg
        ((share.le_iff mark).mp missed) (by norm_num)

end Profile

/-- The count of leading operations is the least one that reaches a share, and a greater share needs
no fewer operations. The summary shows the count for the mark, and where the line of the chart
reaches the mark, it does so first at the point with this count. -/
theorem coverage_shown :
    (∀ totals percent, IsCoverage totals percent (coverageCount totals percent)) ∧
    (∀ totals percent higher, percent ≤ higher →
      coverageCount totals percent ≤ coverageCount totals higher) ∧
    ∀ profile : Profile, profile.layers ≠ [] →
      let totals := operationTotals profile.layers
      (∀ limit color, ∃ lines, profile.summaryText limit color = joinPieces '\n' (lines ++
        [coverageLine (coverageCount totals coverageMark) totals.length, [],
          List.replicate 70 '='])) ∧
      (∀ style text, profile.chart style = .ok text →
        let panel := Chart.rightPanel style.width.toFloat style.height.toFloat
        let points := Chart.points panel totals
        ∃ root, Markup.read? text = some root ∧
          root.elements.filter (Markup.isNamed "polyline") = [Chart.polyline points] ∧
          points.map Prod.snd = (Chart.cumulativeShares totals).map panel.percentHeight) ∧
      ((∃ share ∈ Chart.cumulativeShares totals, coverageMark ≤ share) →
        (Chart.cumulativeShares totals).findIdx? (reaches coverageMark) =
          some (coverageCount totals coverageMark - 1)) := by
  refine ⟨isCoverage_coverageCount, fun totals percent higher => coverageCount_mono, ?_⟩
  intro profile layers totals
  refine ⟨Profile.summaryText_coverage layers, fun style text => Profile.polyline_of_chart, ?_⟩
  exact findIdx?_cumulativeShares (by decide)

/-- Two of three operations have four fifths of the ticks, and the chart shows it. -/
theorem coverage_shown_two_of_three :
    let profile := Profile.ofRuns {} [[⟨0, "CONV_2D", 60⟩, ⟨1, "ADD", 30⟩, ⟨2, "MUL", 10⟩]] []
    let totals := operationTotals profile.layers
    let style : ChartStyle := {}
    IsCoverage totals coverageMark 2 ∧ 2 ≤ coverageCount totals 95.0 ∧
      (∃ lines, profile.summaryText 50 false = joinPieces '\n' (lines ++
        ["2 of 3 operations cover 80% of layer ticks".toList, [], List.replicate 70 '='])) ∧
      (∃ text root points, profile.chart style = .ok text ∧ Markup.read? text = some root ∧
        root.elements.filter (Markup.isNamed "polyline") = [Chart.polyline points] ∧
        points.map Prod.snd = [60.0, 90.0, 100.0].map
          (Chart.rightPanel style.width.toFloat style.height.toFloat).percentHeight) ∧
      (Chart.cumulativeShares totals).findIdx? (reaches coverageMark) = some 1 := by
  intro profile totals style
  have layers : profile.layers ≠ [] := List.cons_ne_nil _ _
  have count : coverageCount totals coverageMark = 2 := by decide +kernel
  have length : totals.length = 3 := by decide +kernel
  have shares : Chart.cumulativeShares totals = [60.0, 90.0, 100.0] := by decide +kernel
  obtain ⟨covers, grows, shown⟩ := coverage_shown
  obtain ⟨line, drawn, reached⟩ := shown profile layers
  have made : profile.chart style = .ok (Chart.drawing style profile).write := rfl
  obtain ⟨root, read, polyline, heights⟩ := drawn style _ made
  refine ⟨?_, ?_, ?_, ?_, ?_⟩
  · rw [← count]
    exact covers totals coverageMark
  · rw [← count]
    exact grows totals coverageMark 95.0 (by decide)
  · obtain ⟨lines, whole⟩ := line 50 false
    refine ⟨lines, whole.trans ?_⟩
    rw [count, length]
    rfl
  · rw [shares] at heights
    exact ⟨_, root, _, made, read, polyline, heights⟩
  · have mark : (90.0 : Float) ∈ Chart.cumulativeShares totals := by simp [shares]
    rw [reached ⟨90.0, mark, by decide⟩, count]

end LayerTiming
