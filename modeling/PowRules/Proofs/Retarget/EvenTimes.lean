import PowRules.Proofs.Chain.LowerEdge
import PowRules.Proofs.Retarget.Greatest
import PowRules.Proofs.Retarget.Regime

/-! What a retarget makes of a target where the times form an arithmetic progression. The start of an interval
measures one gap less than the interval has blocks, and a per-block retarget one gap less than its window: half of
the spread of a window is rounded alike in both windows and cancels. -/
namespace PowRules

/-- Each header comes `gap` seconds after the one below it, or before it where the gap is negative. -/
def View.EvenTimes (start gap : Int) (view : View) : Prop :=
  ∀ height header, view.headerAt height = some header →
    (header.time.toNat : Int) = start + gap * height

/-- A target scaled by `held / expected` and rounded down, no easier than the early floor, in compact form. -/
def Params.scaled (params : Params) (target : Target) (held : Int) (expected : Nat) : Target :=
  .rounded ⟨min params.earlyFloor.value (target.value * held.toNat / expected)⟩

def Params.evenStep (params : Params) (gap : Int) (target : Target) : Target :=
  params.scaled target
    (max ((params.timespan.toNat / 4 : Nat) : Int)
      (min (4 * params.timespan.toNat) ((params.interval - 1 : Nat) * gap)))
    params.timespan.toNat

/-- What a per-block retarget with two whole windows makes of a target. -/
def Shield.evenStep (shield : Shield) (params : Params) (gap : Int) (target : Target) : Target :=
  params.scaled target
    (max shield.least
      (min shield.greatest
        (shield.expected + ((shield.window - 1 : Nat) * gap - shield.expected) / 4)))
    shield.expected

/-- Targets are scaled at the start of each interval, and nothing else changes them in the early era. -/
structure Params.RetargetsEarly (params : Params) : Prop where
  timespan : 0 < params.timespan.toNat
  floor : params.earlyFloor.IsExact
  exceptionless : params.slowAtFloor = false
  adjusts : params.keepsBits = false

section Scaled

variable {params : Params} {target : Target} {expected : Nat} {held gap : Int}

theorem Params.rescale_eq_scaled (hExpected : 0 < expected) :
    target.rescale held.toNat expected params.earlyFloor = params.scaled target held expected := by
  apply Target.ext_value
  rw [Target.rescale_value, Nat.max_eq_left hExpected, Nat.min_comm]
  rfl

/-- Rounding comes last, so a scaled target can be carried by a header as long as it is positive. -/
theorem Params.isExact_scaled (hFloor : params.earlyFloor.IsExact)
    (hPositive : 0 < (params.scaled target held expected).value) :
    (params.scaled target held expected).IsExact := by
  have hRound := Compact.round_le (min params.earlyFloor.value (target.value * held.toNat / expected))
  have hLimit := hFloor.lt_limit
  rw [scaled, Target.rounded_value] at hPositive
  exact Target.isExact_rounded (Nat.lt_of_lt_of_le hPositive hRound)
    (Nat.lt_of_le_of_lt (Nat.min_le_left _ _) hLimit)

theorem Shield.natAbs_adjusted {regime : Regime} {shield : Shield} (h : regime.shield? = some shield)
    (measured : Int) :
    (shield.adjusted measured).natAbs =
      (max shield.least (min shield.greatest
        (shield.expected + (measured - shield.expected) / 4))).toNat := by
  have hLeast : 0 ≤ shield.least := by
    rcases Regime.shield?_eq_some h with rfl | rfl
    · decide
    · decide
  rw [adjusted, clampBetween, Int.fdiv_eq_ediv_of_nonneg _ (by decide)]
  omega

/-- Blocks that take exactly the time of an interval leave the floor as it is. -/
theorem Params.RetargetsEarly.evenStep_floor (h : params.RetargetsEarly)
    (hGap : ((params.interval - 1 : Nat) : Int) * gap = params.timespan.toNat) :
    params.evenStep gap params.earlyFloor = params.earlyFloor := by
  have hHeld : max ((params.timespan.toNat / 4 : Nat) : Int)
      (min (4 * params.timespan.toNat) ((params.interval - 1 : Nat) * gap)) =
        params.timespan.toNat := by
    rw [hGap]
    omega
  rw [evenStep, hHeld, scaled, Int.toNat_natCast, Nat.mul_div_cancel _ h.timespan, Nat.min_self]
  exact h.floor.rounded_eq

end Scaled

namespace View.EvenTimes

variable {view : View} {start gap : Int} {low high : Nat} {first last : Header}

theorem time_le_of_nonneg (h : view.EvenTimes start gap) (hGap : 0 ≤ gap) (hOrder : low ≤ high)
    (hFirst : view.headerAt low = some first) (hLast : view.headerAt high = some last) :
    first.time.toNat ≤ last.time.toNat := by
  have hLow := h low first hFirst
  have hHigh := h high last hLast
  have hProduct : gap * low ≤ gap * high := mul_le_mul_of_nonneg_left (by omega) hGap
  omega

theorem time_le_of_nonpos (h : view.EvenTimes start gap) (hGap : gap ≤ 0) (hOrder : low ≤ high)
    (hFirst : view.headerAt low = some first) (hLast : view.headerAt high = some last) :
    last.time.toNat ≤ first.time.toNat := by
  have hLow := h low first hFirst
  have hHigh := h high last hLast
  have hProduct : gap * high ≤ gap * low := mul_le_mul_of_nonpos_left (by omega) hGap
  omega

/-- The times at two heights differ by as many gaps as lie between them. -/
theorem time_sub (h : view.EvenTimes start gap) {count : Nat}
    (hFirst : view.headerAt low = some first) (hLast : view.headerAt (low + count) = some last) :
    (last.time.toNat : Int) - first.time.toNat = count * gap := by
  rw [h _ _ hFirst, h _ _ hLast]
  push_cast
  ring

end View.EvenTimes

section Boundary

variable {params : Params} {prev : Cursor} {time : UInt32} {old : Target} {start gap : Int}

/-- An interval is measured from its first to its last header, which is one gap less than it has blocks.
-/
theorem Interval.measuredTimespan_of_even {first : Cursor} (hEven : prev.view.EvenTimes start gap)
    (hFirst : prev.ancestor (prev.height + 1 - params.interval) = .ok first)
    (hInterval : params.interval ≤ prev.height + 1) :
    measuredTimespan params first prev =
      max ((params.timespan.toNat / 4 : Nat) : Int)
        (min (4 * params.timespan.toNat) ((params.interval - 1 : Nat) * gap)) := by
  obtain ⟨_, hView, hHeight⟩ := Cursor.ancestor_eq_ok_iff.mp hFirst
  have hPositive := params.interval_pos
  have hGap : first.height + (params.interval - 1) = prev.height := by omega
  have hMeasured : (prev.time.toNat : Int) - first.time.toNat = (params.interval - 1 : Nat) * gap :=
    hEven.time_sub (hView ▸ first.held) (hGap.symm ▸ prev.held)
  rw [measuredTimespan, clampBetween, hMeasured, Int.mul_comm 4]

/-- In the early era the target changes at the start of each interval, always in the same way. -/
theorem requiredTarget_of_even (hParams : params.RetargetsEarly)
    (hEven : prev.view.EvenTimes start gap)
    (hRegime : Regime.ofHeight params (prev.height + 1) = .interval)
    (hEarly : prev.height + 1 ≤ params.earlyEnd.toNat)
    (hHeld : ∃ header, prev.view.headerAt (prev.height + 1 - params.interval) = some header)
    (hOld : prev.target = .ok old) :
    requiredTarget params (some prev) time =
      .ok (if (prev.height + 1) % params.interval = 0 then params.evenStep gap old else old) := by
  have hEnd := params.earlyEnd.toNat_lt
  have hHeight : prev.height < maxHeight := by
    simp only [maxHeight]
    omega
  rw [requiredTarget_eq_ok_iff, and_iff_right hHeight]
  split
  next hBoundary =>
    have hInterval : params.interval ≤ prev.height + 1 :=
      Nat.le_of_dvd (Nat.succ_pos _) (Nat.dvd_of_mod_eq_zero hBoundary)
    obtain ⟨header, hHeader⟩ := hHeld
    obtain ⟨first, hFirst⟩ := Cursor.exists_ancestor
      (show prev.height + 1 - params.interval ≤ prev.height by
        have hPositive := params.interval_pos
        omega) hHeader
    have hRescales := Rescales.boundary hRegime hBoundary hFirst hParams.adjusts hOld
    rw [Params.evenStep, ← Interval.measuredTimespan_of_even hEven hFirst hInterval,
      ← Params.rescale_eq_scaled hParams.timespan, ← Params.floorAt_early hEarly]
    exact .rescaled hRescales
  next hInside => exact .copied hRegime hInside hParams.exceptionless hOld

end Boundary

/-- How far the time of a whole window lies from that of its last header depends on the gap alone. -/
theorem Cursor.exists_windowTime_of_even {cursor : Cursor} {window : Nat} {start gap : Int}
    (hEven : cursor.view.EvenTimes start gap) (hWindow : 0 < window)
    (hWhole : window ≤ cursor.height + 1)
    (hHeld : ∀ k, k ≤ cursor.height → cursor.height < k + window →
      ∃ header, cursor.view.headerAt k = some header) :
    ∃ middle, cursor.windowTime window = .ok middle ∧
      (middle : Int) = cursor.time.toNat - max ((window - 1 : Nat) * gap) 0 +
        (((window - 1 : Nat) * gap).natAbs / 2 : Nat) := by
  obtain ⟨oldest, hOldest⟩ := hHeld (cursor.height - (window - 1)) (Nat.sub_le _ _) (by omega)
  have hTop : cursor.view.headerAt (cursor.height - (window - 1) + (window - 1)) =
      some cursor.header := by
    rw [Nat.sub_add_cancel (by omega)]
    exact cursor.held
  have hSpread : (cursor.time.toNat : Int) - oldest.time.toNat = (window - 1 : Nat) * gap :=
    hEven.time_sub hOldest hTop
  have hBelow : ∀ k, k < cursor.height → cursor.height < k + max window 1 →
      ∃ header, cursor.view.headerAt k = some header :=
    fun k hLower hWithin => hHeld k (Nat.le_of_lt hLower) (by omega)
  have hOldestMem : oldest.time.toNat ∈ cursor.sampled window :=
    ⟨_, oldest, Nat.sub_le _ _, by omega, hOldest, rfl⟩
  have hTopMem : cursor.time.toNat ∈ cursor.sampled window :=
    ⟨_, _, Nat.le_refl _, by omega, cursor.held, rfl⟩
  -- The extremes are the times at the two ends of the window, in one order or the other.
  rcases le_total 0 gap with hUp | hDown
  · have hOrder : oldest.time.toNat ≤ cursor.time.toNat :=
      hEven.time_le_of_nonneg hUp (Nat.le_add_right _ _) hOldest hTop
    refine ⟨_, windowTime_of_bounds hBelow hOldestMem hTopMem ?_, by omega⟩
    intro k header hLower hWithin hHeader
    exact ⟨hEven.time_le_of_nonneg hUp (by omega) hOldest hHeader,
      hEven.time_le_of_nonneg hUp hLower hHeader cursor.held⟩
  · have hOrder : cursor.time.toNat ≤ oldest.time.toNat :=
      hEven.time_le_of_nonpos hDown (Nat.le_add_right _ _) hOldest hTop
    refine ⟨_, windowTime_of_bounds hBelow hTopMem hOldestMem ?_, by omega⟩
    intro k header hLower hWithin hHeader
    exact ⟨hEven.time_le_of_nonpos hDown hLower hHeader cursor.held,
      hEven.time_le_of_nonpos hDown (by omega) hOldest hHeader⟩

namespace Segment

variable {params : Params} {segment : Segment} {cursor prev : Cursor} {time : UInt32} {window : Nat}
  {target : Target} {start gap : Int}

/-- The middle of an even window lies half its length from its last header, toward the first one. The
half is rounded down and added to the earlier of the two, which is the last one where times go down. -/
theorem windowTime_of_even {found : Nat} (hEven : segment.view.EvenTimes start gap)
    (hView : cursor.view = segment.view) (hWindow : 0 < window) (hWhole : window ≤ cursor.height + 1)
    (hTime : cursor.windowTime window = .ok found) :
    (found : Int) = cursor.time.toNat - max ((window - 1 : Nat) * gap) 0 +
      (((window - 1 : Nat) * gap).natAbs / 2 : Nat) := by
  have hBase := base_le_of_windowTime hView hTime
  obtain ⟨middle, hMiddle, hOffset⟩ : ∃ middle, cursor.windowTime window = .ok middle ∧
      (middle : Int) = cursor.time.toNat - max ((window - 1 : Nat) * gap) 0 +
        (((window - 1 : Nat) * gap).natAbs / 2 : Nat) := by
    refine Cursor.exists_windowTime_of_even (hView ▸ hEven) hWindow hWhole fun k hBelow hWithin => ?_
    rw [hView]
    exact exists_headerAt_below hView (by omega) hBelow
  obtain rfl := Except.ok.inj (hTime.symm.trans hMiddle)
  exact hOffset

/-- Two whole windows are as far apart as their last headers. -/
theorem measured_of_even {shield : Shield} {measured : Int}
    (hEven : segment.view.EvenTimes start gap) (hView : prev.view = segment.view)
    (hSample : 0 < shield.sample ∧ shield.sample < shield.window)
    (hWhole : shield.window + shield.sample ≤ prev.height + 2)
    (h : shield.Measures prev measured) : measured = (shield.window - 1 : Nat) * gap := by
  obtain ⟨first, late, early, hFirst, hLate, hEarly, rfl⟩ := h
  obtain ⟨_, hFirstView, hHeight⟩ := Cursor.ancestor_eq_ok_iff.mp hFirst
  have hGap : first.height + (shield.window - 1) = prev.height := by omega
  have hLater := windowTime_of_even hEven hView hSample.1 (by omega) hLate
  have hEarlier := windowTime_of_even hEven (hFirstView.trans hView) hSample.1 (by omega) hEarly
  rw [← hView] at hEven
  have hApart : (prev.time.toNat : Int) - first.time.toNat = (shield.window - 1 : Nat) * gap :=
    hEven.time_sub (hFirstView ▸ first.held) (hGap.symm ▸ prev.held)
  omega

/-- Between the middles of two whole windows lie as many gaps as there are heights between the headers
they end with, whatever the windows are. -/
theorem shieldTarget_of_even {shield : Shield} (hEven : segment.view.EvenTimes start gap)
    (hView : prev.view = segment.view)
    (hRegime : (Regime.ofHeight params (prev.height + 1)).shield? = some shield)
    (hAnchor : ¬shield.IsAnchorHeight params (prev.height + 1))
    (hWhole : shield.window + shield.sample ≤ prev.height + 2)
    (h : Required params prev time target) :
    shield.Measures prev ((shield.window - 1 : Nat) * gap) ∧
      ∃ old, prev.target = .ok old ∧ target = shield.evenStep params gap old := by
  obtain ⟨measured, old, hMeasures, hOld, rfl⟩ := h.exists_measures hRegime hAnchor
  obtain rfl := measured_of_even hEven hView (Regime.shield?_sample hRegime) hWhole hMeasures
  refine ⟨hMeasures, old, hOld, ?_⟩
  rw [Shield.natAbs_adjusted hRegime,
    Params.rescale_eq_scaled (Regime.shield?_expected_pos hRegime)]
  rfl

end Segment

end PowRules
