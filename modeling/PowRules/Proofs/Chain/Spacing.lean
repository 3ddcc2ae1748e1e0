import PowRules.Proofs.Chain.Audit
import PowRules.Proofs.Chain.WindowTime
import PowRules.Proofs.Retarget.Shield

/-! Accepted headers keep their distance, so no time measured along them is short: neither that between two
whole windows nor that of an interval. Their lower bounds are out of reach. -/
namespace PowRules

open Rules

/-- Headers at the least spacing keep the dampened time of either retarget above its lower bound. -/
theorem Shield.dampened_of_spacing {regime : Regime} {shield : Shield} {measured : Int}
    (hRegime : regime.shield? = some shield)
    (hLong : ((minSpacing * (shield.window - 1) : Nat) : Int) ≤ measured) :
    (shield = .v1 → 28380 ≤ shield.dampened measured) ∧
      (shield = .v2 → 9000 ≤ shield.dampened measured) ∧
        shield.least < shield.dampened measured := by
  have hDampened := shield.dampened_mono hLong
  rcases Regime.shield?_eq_some hRegime with rfl | rfl
  · have hBound : 28380 ≤ v1.dampened measured := hDampened
    exact ⟨fun _ => hBound, nofun, Int.lt_of_lt_of_le (by decide) hBound⟩
  · have hBound : 9000 ≤ v2.dampened measured := hDampened
    exact ⟨nofun, fun _ => hBound, Int.lt_of_lt_of_le (by decide) hBound⟩

namespace Segment

variable {params : Params} {segment : Segment} {tip window : Nat}

theorem cursor_bounds (hTip : segment.tipHeight = some tip) {cursor : Cursor}
    (hView : cursor.view = segment.view) :
    segment.base.toNat ≤ cursor.height ∧ cursor.height ≤ tip :=
  (exists_headerAt_iff hTip).mp ⟨cursor.header, headerAt_cursor hView⟩

theorem exists_cursor (hTip : segment.tipHeight = some tip) {height : Nat}
    (hLow : segment.base.toNat ≤ height) (hHigh : height ≤ tip) :
    ∃ cursor : Cursor, cursor.view = segment.view ∧ cursor.height = height := by
  obtain ⟨cursor, hCursor⟩ := (exists_at?_iff hTip).mpr ⟨hLow, hHigh⟩
  exact ⟨cursor, View.at?_eq_some_iff.mp hCursor⟩

namespace Accepted

/-- Between two headers of an accepted segment lies at least the least spacing for each block. -/
theorem times_cursor (h : segment.Accepted params) (hTip : segment.tipHeight = some tip)
    {low high : Cursor} (hLow : low.view = segment.view) (hHigh : high.view = segment.view)
    {gap : Nat} (hGap : low.height + gap = high.height) :
    low.time.toNat + minSpacing * gap ≤ high.time.toNat := by
  have hLast := headerAt_cursor hHigh
  rw [← hGap] at hLast
  exact h.times hTip (headerAt_cursor hLow) hLast

/-- The extremes of a whole window are the times at its two ends. -/
theorem windowTime_eq (h : segment.Accepted params) (hTip : segment.tipHeight = some tip)
    {start cursor : Cursor} (hStart : start.view = segment.view)
    (hView : cursor.view = segment.view)
    (hWhole : start.height + (max window 1 - 1) = cursor.height) :
    cursor.windowTime window =
      .ok (start.time.toNat + (cursor.time.toNat - start.time.toNat) / 2) := by
  have hLow := cursor_bounds hTip hStart
  have hHigh := cursor_bounds hTip hView
  have hTop := headerAt_cursor hView
  apply Cursor.windowTime_of_bounds
  · intro k hBelow hWithin
    rw [hView]
    exact (exists_headerAt_iff hTip).mpr ⟨by omega, by omega⟩
  · refine ⟨start.height, start.header, by omega, by omega, ?_, rfl⟩
    rw [hView]
    exact headerAt_cursor hStart
  · exact ⟨cursor.height, cursor.header, Nat.le_refl _, by omega, cursor.held, rfl⟩
  · intro k header hBelow hWithin hHeader
    rw [hView] at hHeader
    obtain ⟨below, rfl⟩ := Nat.exists_eq_add_of_le (show start.height ≤ k by omega)
    obtain ⟨above, hAbove⟩ := Nat.exists_eq_add_of_le hBelow
    rw [hAbove] at hTop
    exact ⟨Nat.le_of_add_right_le (h.times hTip (headerAt_cursor hStart) hHeader),
      Nat.le_of_add_right_le (h.times hTip hHeader hTop)⟩

/-- The times of two whole windows are as far apart as the spacing of their last headers. -/
theorem windowTime_gap (h : segment.Accepted params) (hTip : segment.tipHeight = some tip)
    {first last : Cursor} (hFirst : first.view = segment.view) (hLast : last.view = segment.view)
    {gap : Nat} (hGap : first.height + gap = last.height)
    (hWhole : segment.base.toNat + (max window 1 - 1) ≤ first.height) :
    ∃ late early, last.windowTime window = .ok late ∧ first.windowTime window = .ok early ∧
      early + minSpacing * gap ≤ late := by
  have hHigh := cursor_bounds hTip hLast
  obtain ⟨low, hLow, hLowHeight⟩ := exists_cursor hTip
    (show segment.base.toNat ≤ first.height - (max window 1 - 1) by omega) (by omega)
  obtain ⟨high, hHighView, hHighHeight⟩ := exists_cursor hTip
    (show segment.base.toNat ≤ last.height - (max window 1 - 1) by omega) (by omega)
  have hStarts := h.times_cursor hTip hLow hHighView
    (show low.height + gap = high.height by omega)
  have hEnds := h.times_cursor hTip hFirst hLast hGap
  have hEarly := h.times_cursor hTip hLow hFirst
    (show low.height + (max window 1 - 1) = first.height by omega)
  have hLate := h.times_cursor hTip hHighView hLast
    (show high.height + (max window 1 - 1) = last.height by omega)
  refine ⟨_, _, h.windowTime_eq hTip hHighView hLast (by omega),
    h.windowTime_eq hTip hLow hFirst (by omega), ?_⟩
  omega

theorem exists_target (h : segment.Accepted params) (hTip : segment.tipHeight = some tip)
    {cursor : Cursor} (hView : cursor.view = segment.view)
    (hAbove : segment.base.toNat < cursor.height) : ∃ target, cursor.target = .ok target := by
  have hHeader := headerAt_cursor hView
  obtain ⟨height, hHeight⟩ : ∃ height, cursor.height = height + 1 := ⟨cursor.height - 1, by omega⟩
  rw [hHeight] at hHeader
  obtain ⟨_, _, _, hFollows⟩ := h.exists_prev hTip hHeader (by omega)
  obtain ⟨target, _, hBits⟩ := hFollows.required
  exact ⟨target, hBits⟩

/-- A per-block retarget with whole windows measures at least what the spacing leaves to them. -/
theorem exists_measures (h : segment.Accepted params) (hTip : segment.tipHeight = some tip)
    {prev : Cursor} (hView : prev.view = segment.view) {shield : Shield} (hWindow : 0 < shield.window)
    (hWhole : segment.base.toNat + (max shield.sample 1 - 1) + shield.window ≤ prev.height + 1) :
    ∃ measured, shield.Measures prev measured ∧
      ((minSpacing * (shield.window - 1) : Nat) : Int) ≤ measured := by
  have hBounds := cursor_bounds hTip hView
  obtain ⟨first, hFirst, hHeight⟩ := exists_cursor hTip
    (show segment.base.toNat ≤ prev.height + 1 - shield.window by omega) (by omega)
  obtain ⟨late, early, hLate, hEarly, hApart⟩ := h.windowTime_gap hTip hFirst hView
    (show first.height + (shield.window - 1) = prev.height by omega)
    (show segment.base.toNat + (max shield.sample 1 - 1) ≤ first.height by omega)
  have hAncestor : prev.ancestor (prev.height + 1 - shield.window) = .ok first :=
    Cursor.ancestor_eq_ok_iff.mpr ⟨by omega, hFirst.trans hView.symm, hHeight⟩
  exact ⟨_, ⟨first, late, early, hAncestor, hLate, hEarly, rfl⟩, by omega⟩

end Accepted

/-- No measured time is short along an accepted segment. The lower bound of a per-block retarget with
whole windows never applies, nor does that of an interval unless the spacing is small beside it. -/
theorem measured_of_audit {checked : Nat} (hTip : segment.tipHeight = some tip)
    (hAudit : segment.audit params = .ok checked) :
    (∀ low high first last, low ≤ high → segment.headerAt low = some first →
      segment.headerAt high = some last → first.time.toNat + 480 * (high - low) ≤ last.time.toNat) ∧
    (∀ (prev : Cursor) (shield : Shield), prev.view = segment.view → prev.height < maxHeight →
      (Regime.ofHeight params (prev.height + 1)).shield? = some shield →
      ¬shield.IsAnchorHeight params (prev.height + 1) →
      segment.base.toNat + (shield.sample - 1) + shield.window ≤ prev.height + 1 →
        ∃ measured old, shield.Measures prev measured ∧ prev.target = .ok old ∧
          (shield = .v1 → 28380 ≤ shield.dampened measured) ∧
          (shield = .v2 → 9000 ≤ shield.dampened measured) ∧
          shield.least < shield.dampened measured ∧
          ∀ time, requiredTarget params (some prev) time =
            .ok (old.rescale (min shield.greatest (shield.dampened measured)).natAbs shield.expected
              params.earlyFloor)) ∧
    (∀ prev first : Cursor, prev.view = segment.view →
      Regime.ofHeight params (prev.height + 1) = .interval →
      (prev.height + 1) % params.interval = 0 →
      prev.ancestor (prev.height + 1 - params.interval) = .ok first →
        first.time.toNat + 480 * (params.interval - 1) ≤ prev.time.toNat ∧
          (params.timespan.toNat / 4 ≤ 480 * (params.interval - 1) →
            Interval.measuredTimespan params first prev =
              min ((params.timespan.toNat : Int) * 4) ((prev.time.toNat : Int) - first.time.toNat))) ∧
    ∀ network, (Params.ofNetwork network).timespan.toNat / 4 ≤
      480 * ((Params.ofNetwork network).interval - 1) := by
  obtain ⟨_, hAccepted⟩ := (audit_eq_ok_iff hTip).mp hAudit
  refine ⟨?_, ?_, ?_, ?_⟩
  · intro low high first last hOrder hFirst hLast
    obtain ⟨gap, rfl⟩ := Nat.exists_eq_add_of_le hOrder
    rw [Nat.add_sub_cancel_left]
    exact hAccepted.times hTip hFirst hLast
  · intro prev shield hView hHeight hRegime hAnchor hWhole
    obtain ⟨hSample, hWindow⟩ := Regime.shield?_sample hRegime
    have hBounds := Regime.shield?_bounds hRegime
    obtain ⟨measured, hMeasures, hLong⟩ :=
      hAccepted.exists_measures hTip hView (Nat.zero_lt_of_lt hWindow) (by omega)
    obtain ⟨old, hOld⟩ := hAccepted.exists_target hTip hView (by omega)
    obtain ⟨hFirst, hSecond, hAboveLeast⟩ := Shield.dampened_of_spacing hRegime hLong
    refine ⟨measured, old, hMeasures, hOld, hFirst, hSecond, hAboveLeast, ?_⟩
    intro time
    rw [requiredTarget_eq_ok_iff,
      ← Shield.adjusted_of_least_le hBounds (Int.le_of_lt hAboveLeast)]
    exact ⟨hHeight, .rescaled (hMeasures.rescales hRegime hAnchor (by omega) hOld)⟩
  · intro prev first hView hRegime hBoundary hFirst
    obtain ⟨_, hFirstView, hFirstHeight⟩ := Cursor.ancestor_eq_ok_iff.mp hFirst
    have hPositive := params.interval_pos
    have hStart := Nat.le_of_dvd (Nat.succ_pos _) (Nat.dvd_of_mod_eq_zero hBoundary)
    have hTimes : first.time.toNat + 480 * (params.interval - 1) ≤ prev.time.toNat :=
      hAccepted.times_cursor hTip (hFirstView.trans hView) hView (by omega)
    refine ⟨hTimes, ?_⟩
    intro hSmall
    apply clampBetween_of_low_le
    · omega
    · omega
  · intro network
    cases network with
    | mainnet => decide
    | testnet => decide
    | regtest => decide

def shieldAboveTwenty : Params :=
  { Params.testnet with earlyEnd := 1000, shieldV2After := 20 }

def leastSpaced : Segment where
  headers := ((List.range 21).map fun n =>
    { time := 1540000000 + 480 * UInt32.ofNat n, bits := 0x1e0fffff : Header }).toArray

def leastSpacedTip : Cursor where
  view := leastSpaced.view
  height := 20
  header := { time := 1540009600, bits := 0x1e0fffff }
  held := rfl

/-- Even at the least spacing the dampened time is above the lower bound, which therefore never acts. -/
theorem measured_of_audit_leastSpaced :
    leastSpaced.audit shieldAboveTwenty = .ok 20 ∧
      ∃ measured old, Shield.v2.Measures leastSpacedTip measured ∧
        leastSpacedTip.target = .ok old ∧ 9000 ≤ Shield.v2.dampened measured ∧
          ∀ time, requiredTarget shieldAboveTwenty (some leastSpacedTip) time =
            .ok (old.rescale (min Shield.v2.greatest (Shield.v2.dampened measured)).natAbs
              Shield.v2.expected shieldAboveTwenty.earlyFloor) := by
  have hTip : leastSpaced.tipHeight = some 20 := by rfl
  have hAudit : leastSpaced.audit shieldAboveTwenty = .ok 20 := by rfl
  obtain ⟨measured, old, hMeasures, hOld, _, hSecond, _, hRequired⟩ :=
    (measured_of_audit hTip hAudit).2.1 leastSpacedTip .v2 rfl (by decide) (by decide) (by decide)
      (by decide)
  exact ⟨hAudit, measured, old, hMeasures, hOld, hSecond rfl, hRequired⟩

end Segment

end PowRules
