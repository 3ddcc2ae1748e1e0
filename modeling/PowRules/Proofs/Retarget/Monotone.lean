import Mathlib.Data.List.Forall2
import PowRules.Proofs.Chain.WindowTime
import PowRules.Proofs.Compact.Canonical
import PowRules.Proofs.Retarget.Greatest

/-! Two branches of one height are compared. Where the recent times of the second are no earlier, its old times no
later and its last target no smaller, it measures no less time and its next target is no smaller. Each stage of a
retarget keeps this order: midpoints, differences, dampening, bounds, scaling, the cap and rounding. -/
namespace PowRules

/-- At these heights the headers of the first view, where both hold one, are no later than those of the second. -/
def View.NoLaterOn (first second : View) (heights : Set Nat) : Prop :=
  ∀ k ∈ heights, ∀ header other, first.headerAt k = some header → second.headerAt k = some other →
    header.time.toNat ≤ other.time.toNat

/-- The `count` heights that end with this one, or fewer where genesis ends them. -/
def heightsTo (top count : Nat) : Set Nat :=
  {k | k ≤ top ∧ top < k + count}

/-- The retarget at a height compares the times of the recent heights with those of the old ones. -/
inductive Compares (params : Params) (height : Nat) : Set Nat → Set Nat → Prop where
  | boundary (hRegime : Regime.ofHeight params height = .interval)
      (hBoundary : height % params.interval = 0) (hKeeps : params.keepsBits = false) :
      Compares params height {height - 1} {height - params.interval}
  | shieldV1 (hRegime : Regime.ofHeight params height = .shieldV1)
      (hAnchor : ¬Shield.v1.IsAnchorHeight params height) :
      Compares params height (heightsTo (height - 1) 11) (heightsTo (height - 50) 11)
  | shieldV2 (hRegime : Regime.ofHeight params height = .shieldV2) :
      Compares params height (heightsTo (height - 1) 5) (heightsTo (height - 16) 5)

namespace Cursor

section Midpoint

variable {first second : Nat} {others others' : List Nat}

theorem foldl_min_le_foldl_max (h : first ≤ second) :
    others.foldl min first ≤ others.foldl max second := by
  induction others generalizing first second with
  | nil => exact h
  | cons head others ih => exact ih (by omega)

/-- Moving all times up moves their middle up. -/
theorem midpoint_mono (hFirst : first ≤ second) (h : List.Forall₂ (· ≤ ·) others others') :
    midpoint first others ≤ midpoint second others' := by
  have hLeast : others.foldl min first ≤ others'.foldl min second := by
    refine List.rel_foldl (P := (· ≤ ·)) ?_ hFirst h
    intro before before' hBefore next next' hNext
    exact min_le_min hBefore hNext
  have hGreatest : others.foldl max first ≤ others'.foldl max second := by
    refine List.rel_foldl (P := (· ≤ ·)) ?_ hFirst h
    intro before before' hBefore next next' hNext
    exact max_le_max hBefore hNext
  have hOrder : others.foldl min first ≤ others.foldl max first :=
    foldl_min_le_foldl_max (Nat.le_refl first)
  unfold midpoint
  dsimp only
  omega

end Midpoint

variable {first second : Cursor} {count window : Nat}

theorem time_mono (hHeight : first.height = second.height) {heights : Set Nat}
    (hMem : first.height ∈ heights) (h : first.view.NoLaterOn second.view heights) :
    first.time.toNat ≤ second.time.toNat :=
  h _ hMem _ _ first.held (hHeight ▸ second.held)

/-- Listed headers are compared one by one. Both lists end at the same header, since a gap would have
failed and genesis has one height. -/
theorem earlierTimes_mono (hHeight : first.height = second.height) {times times' : List Nat}
    (h : first.view.NoLaterOn second.view (heightsTo first.height (count + 1)))
    (hFirst : first.earlierTimes count = .ok times)
    (hSecond : second.earlierTimes count = .ok times') : List.Forall₂ (· ≤ ·) times times' := by
  induction count generalizing first second times times' with
  | zero =>
      obtain rfl := Except.ok.inj hFirst
      obtain rfl := Except.ok.inj hSecond
      exact .nil
  | succ count ih =>
      cases hTop : first.height with
      | zero =>
          rw [earlierTimes_genesis hTop] at hFirst
          rw [earlierTimes_genesis (hHeight ▸ hTop)] at hSecond
          obtain rfl := Except.ok.inj hFirst
          obtain rfl := Except.ok.inj hSecond
          exact .nil
      | succ height =>
          have hTop' : second.height = height + 1 := hHeight ▸ hTop
          cases hHeader : first.view.headerAt height with
          | none => cases (earlierTimes_missing hTop hHeader).symm.trans hFirst
          | some header =>
              cases hOther : second.view.headerAt height with
              | none => cases (earlierTimes_missing hTop' hOther).symm.trans hSecond
              | some other =>
                  rw [earlierTimes_succ hTop hHeader] at hFirst
                  rw [earlierTimes_succ hTop' hOther] at hSecond
                  obtain ⟨rest, hRest, rfl⟩ := map_eq_ok_iff.mp hFirst
                  obtain ⟨rest', hRest', rfl⟩ := map_eq_ok_iff.mp hSecond
                  rw [hTop] at h
                  refine .cons (h height ⟨by omega, by omega⟩ _ _ hHeader hOther) ?_
                  refine ih (by rfl) ?_ hRest hRest'
                  rintro k ⟨hBelow, hWithin⟩
                  dsimp only at hBelow hWithin
                  exact h k ⟨by omega, by omega⟩

/-- If no header of a window comes later on one side, then its time does not either. -/
theorem windowTime_mono (hHeight : first.height = second.height) (hWindow : 0 < window)
    {time time' : Nat} (h : first.view.NoLaterOn second.view (heightsTo first.height window))
    (hFirst : first.windowTime window = .ok time) (hSecond : second.windowTime window = .ok time') :
    time ≤ time' := by
  obtain ⟨times, hTimes, rfl⟩ := map_eq_ok_iff.mp hFirst
  obtain ⟨times', hTimes', rfl⟩ := map_eq_ok_iff.mp hSecond
  have hCount : max window 1 - 1 + 1 = window := by omega
  apply midpoint_mono
  · refine time_mono hHeight ?_ h
    exact ⟨Nat.le_refl _, by omega⟩
  · exact earlierTimes_mono hHeight (hCount.symm ▸ h) hTimes hTimes'

end Cursor

theorem clampBetween_mono {low high m n : Int} (h : m ≤ n) :
    clampBetween low high m ≤ clampBetween low high n :=
  max_le_max_left low (min_le_min_left high h)

theorem Shield.adjusted_mono (shield : Shield) {measured other : Int} (h : measured ≤ other) :
    shield.adjusted measured ≤ shield.adjusted other :=
  clampBetween_mono (shield.dampened_mono h)

/-- The factors of a retarget are words of 64 bits, so a product with a target can be encoded. -/
theorem Target.rescale_mono {old new cap : Target} {actual actual' expected : Nat}
    (hNew : new.value < Compact.limit) (hFactor : actual' < 0x10000000000000000)
    (hTargets : old.value ≤ new.value) (hActual : actual ≤ actual') :
    (old.rescale actual expected cap).value ≤ (new.rescale actual' expected cap).value := by
  have hRoom : Compact.IsEncodable (Compact.limit * 0x10000000000000000) := by
    unfold Compact.IsEncodable
    decide +kernel
  have hProduct : new.value * actual' ≤ Compact.limit * 0x10000000000000000 :=
    Nat.mul_le_mul hNew.le hFactor.le
  have hScaled : old.value * actual / max expected 1 ≤ new.value * actual' / max expected 1 :=
    Nat.div_le_div_right (Nat.mul_le_mul hTargets hActual)
  rw [rescale_value, rescale_value]
  apply Compact.round_mono
  · apply hRoom.mono
    calc min (new.value * actual' / max expected 1) cap.value
        ≤ new.value * actual' / max expected 1 := Nat.min_le_left _ _
      _ ≤ new.value * actual' := Nat.div_le_self _ _
      _ ≤ Compact.limit * 0x10000000000000000 := hProduct
  · exact min_le_min_right cap.value hScaled

section Retargets

variable {params : Params} {first second : Cursor} {low high old new : Target}

theorem Interval.measuredTimespan_mono {start start' : Cursor}
    (hLast : first.time.toNat ≤ second.time.toNat) (hStart : start'.time.toNat ≤ start.time.toNat) :
    measuredTimespan params start first ≤ measuredTimespan params start' second := by
  unfold measuredTimespan
  exact clampBetween_mono (by omega)

theorem Interval.measuredTimespan_lt (start last : Cursor) :
    (measuredTimespan params start last).toNat < 0x10000000000000000 := by
  have hTimespan := params.timespan.toNat_lt
  unfold measuredTimespan clampBetween
  dsimp only
  omega

/-- The time on top of a header goes up with the recent times and down with the old ones. -/
theorem Shield.measured_mono {shield : Shield} {measured measured' : Int}
    (hHeight : first.height = second.height) (hSample : 0 < shield.sample)
    (hRecent : first.view.NoLaterOn second.view (heightsTo first.height shield.sample))
    (hPast : second.view.NoLaterOn first.view
      (heightsTo (first.height + 1 - shield.window) shield.sample))
    (hFirst : shield.Measures first measured) (hSecond : shield.Measures second measured') :
    measured ≤ measured' := by
  obtain ⟨start, late, early, hStart, hLate, hEarly, rfl⟩ := hFirst
  obtain ⟨start', late', early', hStart', hLate', hEarly', rfl⟩ := hSecond
  obtain ⟨_, hView, hStartHeight⟩ := Cursor.ancestor_eq_ok_iff.mp hStart
  obtain ⟨_, hView', hStartHeight'⟩ := Cursor.ancestor_eq_ok_iff.mp hStart'
  have hLater : late ≤ late' := Cursor.windowTime_mono hHeight hSample hRecent hLate hLate'
  have hEarlier : early' ≤ early := by
    refine Cursor.windowTime_mono ?_ hSample ?_ hEarly' hEarly
    · rw [hStartHeight, hStartHeight', hHeight]
    · rw [hView, hView', hStartHeight', ← hHeight]
      exact hPast
  omega

/-- A longer measured time and an easier old target never make the new target harder. -/
theorem Shield.rescale_mono {regime : Regime} {shield : Shield} {measured measured' : Int}
    (hShield : regime.shield? = some shield) (hNew : new.value < Compact.limit)
    (hTargets : old.value ≤ new.value) (h : measured ≤ measured') (cap : Target) :
    (old.rescale (shield.adjusted measured).natAbs shield.expected cap).value ≤
      (new.rescale (shield.adjusted measured').natAbs shield.expected cap).value := by
  have hAdjusted := shield.adjusted_mono h
  have hBounds : 0 ≤ shield.least ∧ max shield.least shield.greatest < 0x10000000000000000 := by
    rcases Regime.shield?_eq_some hShield with rfl | rfl
    · decide
    · decide
  have hLow : shield.least ≤ shield.adjusted measured := low_le_clampBetween
  have hHigh : shield.adjusted measured' ≤ max shield.least shield.greatest :=
    max_le_max_left _ (min_le_left _ _)
  exact Target.rescale_mono hNew (by omega) hTargets (by omega)

/-- Later recent headers lengthen the measured time of a per-block retarget, and earlier old ones do as
well. -/
theorem Required.shield_mono {time time' : UInt32} {shield : Shield}
    (hHeight : first.height = second.height)
    (hShield : (Regime.ofHeight params (first.height + 1)).shield? = some shield)
    (hAnchor : ¬shield.IsAnchorHeight params (first.height + 1))
    (hRecent : first.view.NoLaterOn second.view (heightsTo first.height shield.sample))
    (hPast : second.view.NoLaterOn first.view
      (heightsTo (first.height + 1 - shield.window) shield.sample))
    (hOld : first.target = .ok old) (hNew : second.target = .ok new) (hTargets : old.value ≤ new.value)
    (hFirst : Required params first time low) (hSecond : Required params second time' high) :
    low.value ≤ high.value := by
  obtain ⟨measured, _, hMeasures, hOld', rfl⟩ := hFirst.exists_measures hShield hAnchor
  obtain ⟨measured', _, hMeasures', hNew', rfl⟩ :=
    hSecond.exists_measures (hHeight ▸ hShield) (hHeight ▸ hAnchor)
  cases hOld.symm.trans hOld'
  cases hNew.symm.trans hNew'
  have hMeasured := Shield.measured_mono hHeight (Regime.shield?_sample hShield).1 hRecent hPast
    hMeasures hMeasures'
  exact Shield.rescale_mono hShield (Target.isExact_of_ofBits hNew).lt_limit hTargets hMeasured _

/-- The start of an interval compares the last header with one header an interval back. -/
theorem Required.boundary_mono {time time' : UInt32} (hHeight : first.height = second.height)
    (hRegime : Regime.ofHeight params (first.height + 1) = .interval)
    (hBoundary : (first.height + 1) % params.interval = 0) (hKeeps : params.keepsBits = false)
    (hRecent : first.view.NoLaterOn second.view {first.height})
    (hPast : second.view.NoLaterOn first.view {first.height + 1 - params.interval})
    (hOld : first.target = .ok old) (hNew : second.target = .ok new) (hTargets : old.value ≤ new.value)
    (hFirst : Required params first time low) (hSecond : Required params second time' high) :
    low.value ≤ high.value := by
  obtain ⟨start, _, hStart, hOld', rfl⟩ := hFirst.exists_boundary hRegime hBoundary hKeeps
  obtain ⟨start', _, hStart', hNew', rfl⟩ :=
    hSecond.exists_boundary (hHeight ▸ hRegime) (hHeight ▸ hBoundary) hKeeps
  cases hOld.symm.trans hOld'
  cases hNew.symm.trans hNew'
  obtain ⟨_, hView, hStartHeight⟩ := Cursor.ancestor_eq_ok_iff.mp hStart
  obtain ⟨_, hView', hStartHeight'⟩ := Cursor.ancestor_eq_ok_iff.mp hStart'
  have hLast : first.time.toNat ≤ second.time.toNat := Cursor.time_mono hHeight (Set.mem_singleton _) hRecent
  have hStarts : start'.time.toNat ≤ start.time.toNat := by
    refine Cursor.time_mono ?_ ?_ (hView ▸ hView' ▸ hPast)
    · rw [hStartHeight, hStartHeight', hHeight]
    · rw [hStartHeight', ← hHeight]
      rfl
  have hMeasured : (Interval.measuredTimespan params start first).toNat ≤
      (Interval.measuredTimespan params start' second).toNat :=
    Int.toNat_le_toNat (Interval.measuredTimespan_mono hLast hStarts)
  rw [hHeight]
  exact Target.rescale_mono (Target.isExact_of_ofBits hNew).lt_limit
    (Interval.measuredTimespan_lt start' second) hTargets hMeasured

end Retargets

/-- Retargets of two branches, at one height and by one rule, keep their order. Nothing is asked of the views at
other heights, nor of the candidates' times. -/
theorem requiredTarget_mono {params : Params} {first second : Cursor} {time time' : UInt32}
    {recent past : Set Nat} {old new low high : Target}
    (hHeight : first.height = second.height)
    (hCompares : Compares params (first.height + 1) recent past)
    (hRecent : first.view.NoLaterOn second.view recent)
    (hPast : second.view.NoLaterOn first.view past)
    (hOld : first.target = .ok old) (hNew : second.target = .ok new) (hTargets : old.value ≤ new.value)
    (hFirst : requiredTarget params (some first) time = .ok low)
    (hSecond : requiredTarget params (some second) time' = .ok high) : low.value ≤ high.value := by
  have hLow := (requiredTarget_eq_ok_iff.mp hFirst).2
  have hHigh := (requiredTarget_eq_ok_iff.mp hSecond).2
  cases hCompares with
  | boundary hRegime hBoundary hKeeps =>
      exact hLow.boundary_mono hHeight hRegime hBoundary hKeeps hRecent hPast hOld hNew hTargets hHigh
  | shieldV1 hRegime hAnchor =>
      exact hLow.shield_mono hHeight (Regime.shield?_eq_v1_iff.mpr hRegime) hAnchor hRecent hPast hOld
        hNew hTargets hHigh
  | shieldV2 hRegime =>
      have hAnchor : ¬Shield.v2.IsAnchorHeight params (first.height + 1) := by
        rintro ⟨hAnchored, _⟩
        cases hAnchored
      exact hLow.shield_mono hHeight (Regime.shield?_eq_v2_iff.mpr hRegime) hAnchor hRecent hPast hOld
        hNew hTargets hHigh

def soonShielded : Params :=
  { Params.testnet with shieldV2After := 11 }

/-- Blocks ten minutes apart with the same bits, except that one at height 24 comes later. -/
def delayedAt24 (delay : Nat) (bits : UInt32) : View where
  headerAt k :=
    if k < 48 then some { time := UInt32.ofNat (1540000000 + 600 * k + k / 24 * delay), bits } else none

def delayedTop (delay : Nat) (bits : UInt32) : Cursor where
  view := delayedAt24 delay bits
  height := 31
  header := { time := UInt32.ofNat (1540000000 + 600 * 31 + 31 / 24 * delay), bits }
  held := rfl

/-- Only the block at height 24 moves, so its delay decides the order of all times. -/
theorem noLaterOn_delayedAt24 {delay delay' : Nat} {bits bits' : UInt32} {heights : Set Nat}
    (hSmall : delay < 0x1000000 ∧ delay' < 0x1000000)
    (h : ∀ k ∈ heights, k / 24 * delay ≤ k / 24 * delay') :
    (delayedAt24 delay bits).NoLaterOn (delayedAt24 delay' bits') heights := by
  intro k hk header other hHeader hOther
  have hDelays := h k hk
  by_cases hHeld : k < 48
  · obtain rfl := Option.some.inj ((if_pos hHeld).symm.trans hHeader)
    obtain rfl := Option.some.inj ((if_pos hHeld).symm.trans hOther)
    have hFactor : k / 24 ≤ 1 := by omega
    have hFirst : k / 24 * delay ≤ 1 * delay := Nat.mul_le_mul_right _ hFactor
    have hSecond : k / 24 * delay' ≤ 1 * delay' := Nat.mul_le_mul_right _ hFactor
    dsimp only
    rw [UInt32.toNat_ofNat', UInt32.toNat_ofNat', Nat.mod_eq_of_lt (by omega),
      Nat.mod_eq_of_lt (by omega)]
    omega
  · cases (if_neg hHeld).symm.trans hHeader

/-- Fifteen minutes more within the measured time, and a target that is easier by one unit. -/
theorem requiredTarget_mono_delayedTop :
    requiredTarget soonShielded (some (delayedTop 0 0x1c00ffff)) 1540019200 =
        .ok (.expand 0x1c00fbff) ∧
      requiredTarget soonShielded (some (delayedTop 900 0x1c010000)) 1540020100 =
        .ok (.expand 0x1c010200) ∧
      (Target.expand 0x1c00fbff).value ≤ (Target.expand 0x1c010200).value := by
  have hFirst : requiredTarget soonShielded (some (delayedTop 0 0x1c00ffff)) 1540019200 =
      .ok (.expand 0x1c00fbff) := by rfl
  have hSecond : requiredTarget soonShielded (some (delayedTop 900 0x1c010000)) 1540020100 =
      .ok (.expand 0x1c010200) := by rfl
  have hOld : (delayedTop 0 0x1c00ffff).target = .ok (.expand 0x1c00ffff) := by rfl
  have hNew : (delayedTop 900 0x1c010000).target = .ok (.expand 0x1c010000) := by rfl
  have hHeight : (delayedTop 0 0x1c00ffff).height = (delayedTop 900 0x1c010000).height := rfl
  refine ⟨hFirst, hSecond, requiredTarget_mono hHeight (.shieldV2 rfl) ?_ ?_ hOld hNew (by decide)
    hFirst hSecond⟩
  · apply noLaterOn_delayedAt24 (by decide)
    intro k _
    omega
  · apply noLaterOn_delayedAt24 (by decide)
    rintro k ⟨hPast, _⟩
    change k ≤ 16 at hPast
    have hEarly : k / 24 = 0 := Nat.div_eq_of_lt (by omega)
    rw [hEarly, Nat.zero_mul]

end PowRules
