import PowRules.Proofs.Chain.FromGenesis
import PowRules.Proofs.Retarget.Regime
import PowRules.Proofs.Target

/-! On a chain that is accepted from genesis on, the floor of an era bounds the targets of its heights,
with one exception. The search for the nearest regular header compares with the late floor and may pass
all late headers, the step between the eras included, and so bring back a target of the early era. -/
namespace PowRules

variable {params : Params} {prev : Cursor} {time : UInt32} {target : Target}

/-- No interval starts between the early era and a header on top of `prev`. -/
structure ReachesEarly (params : Params) (prev : Cursor) : Prop where
  late : params.earlyEnd.toNat < prev.height
  regime : Regime.ofHeight params (prev.height + 1) = .interval
  inside : ∀ k, params.earlyEnd.toNat < k → k ≤ prev.height + 1 → k % params.interval ≠ 0

/-- The search with the late floor, from the last early height back, finds an easier target. -/
def View.EndsEasier (params : Params) (view : View) : Prop :=
  ∃ target, Interval.Finds view params.interval params.lateFloor params.earlyEnd.toNat target ∧
    params.lateFloor.value < target.value

/-- Each way to a target keeps the floor of the era, except for a search that reaches the early era. -/
theorem Required.le_floorAt_or_reaches (hRegime : Regime.ofHeight params (prev.height + 1) = .interval)
    (hBelow : ∀ k target, k ≤ prev.height → prev.view.HasTarget k target →
      target.value ≤ (params.floorAt k).value)
    (h : Required params prev time target) :
    target.value ≤ (params.floorAt (prev.height + 1)).value ∨
      params.slowAtFloor = true ∧ ¬Interval.IsSlow params prev time ∧
        ReachesEarly params prev ∧ prev.view.EndsEasier params := by
  have hCopied : ∀ {target}, prev.target = .ok target →
      target.value ≤ (params.floorAt (prev.height + 1)).value := by
    intro target hTarget
    rw [Params.floorAt_succ_of_interval hRegime]
    exact hBelow _ _ (Nat.le_refl _) (Cursor.target_eq_ok_iff.mp hTarget)
  cases h with
  | floorStep hStep => cases hRegime.symm.trans hStep
  | anchor hShield _ => exact absurd hRegime (Regime.ne_interval_of_shield? hShield)
  | slow => exact .inl (Nat.le_refl _)
  | regular _ hInside hException hFast hTarget =>
      obtain ⟨source, hSource, hEnds, hPassed⟩ := Interval.regularTarget_eq_ok_iff.mp hTarget
      have hBound := hBelow source target hSource hEnds.1
      obtain ⟨_, hNoStep, _⟩ := Regime.ofHeight_eq_interval_iff.mp hRegime
      -- A source in the same era is bounded by the same floor.
      by_cases hEarly : prev.height + 1 ≤ params.earlyEnd.toNat
      · rw [Params.floorAt_early (by omega)] at hBound
        rw [Params.floorAt_early hEarly]
        exact .inl hBound
      · rw [Params.floorAt_late (Nat.lt_of_not_le hEarly)] at hEnds hPassed ⊢
        by_cases hLate : params.earlyEnd.toNat < source
        · rw [Params.floorAt_late hLate] at hBound
          exact .inl hBound
        · by_cases hEasier : params.lateFloor.value < target.value
          · refine .inr ⟨hException, hFast, ⟨by omega, hRegime, ?_⟩, target, ?_, hEasier⟩
            · intro k hAbove hk
              rcases Nat.lt_or_eq_of_le hk with hUnder | rfl
              · exact (hPassed k (by omega) (Nat.le_of_lt_succ hUnder)).1
              · exact hInside
            · refine ⟨source, Nat.le_of_not_lt hLate, hEnds, ?_⟩
              intro k hAbove hk
              exact hPassed k hAbove (by omega)
          · exact .inl (Nat.le_of_not_lt hEasier)
  | copied _ _ _ hTarget => exact .inl (hCopied hTarget)
  | kept _ _ _ _ hTarget => exact .inl (hCopied hTarget)
  | rescaled hRescales =>
      cases hRescales with
      | boundary _ _ _ _ _ => exact .inl Target.rescale_le
      | shield hShield _ _ _ _ _ _ => exact absurd hRegime (Regime.ne_interval_of_shield? hShield)

namespace Segment

variable {segment : Segment} {height tip : Nat}

/-- A header that is not late, held or yet to come, takes over an easier target from the early era. -/
structure CrossesEras (params : Params) (segment : Segment) : Prop where
  exception : params.slowAtFloor = true
  easier : segment.view.EndsEasier params
  crossing : ∃ prev : Cursor, prev.view = segment.view ∧ ReachesEarly params prev ∧
    ∀ header, segment.headerAt (prev.height + 1) = some header →
      ¬Interval.IsSlow params prev header.time

/-- Every header on top of a lower one that could cross the eras is late. -/
def LateBelow (params : Params) (segment : Segment) (height : Nat) : Prop :=
  ∀ before : Cursor, before.view = segment.view → before.height < height →
    ReachesEarly params before → ∀ header, segment.headerAt (before.height + 1) = some header →
      Interval.IsSlow params before header.time

theorem crossesEras_of_header {header : Header} (hView : prev.view = segment.view)
    (hHeader : segment.headerAt (prev.height + 1) = some header)
    (hException : params.slowAtFloor = true) (hFast : ¬Interval.IsSlow params prev header.time)
    (hReaches : ReachesEarly params prev) (hEasier : segment.view.EndsEasier params) :
    CrossesEras params segment := by
  refine ⟨hException, hEasier, prev, hView, hReaches, ?_⟩
  intro other hOther
  cases hHeader.symm.trans hOther
  exact hFast

namespace FromGenesis

/-- The step between the eras always has the late floor, whatever stands below it. -/
theorem hasTarget_step (h : FromGenesis params segment) (hTip : segment.tipHeight = some tip)
    (hLate : params.earlyEnd.toNat < tip) :
    segment.view.HasTarget (params.earlyEnd.toNat + 1) params.lateFloor := by
  obtain ⟨header, hHeader⟩ := h.exists_header hTip hLate
  obtain ⟨prev, _, hHeight, hFollows⟩ := h.exists_prev hTip hHeader
  obtain ⟨target, hRequired, hBits⟩ := hFollows.required
  obtain rfl := hRequired.unique (.floorStep (Regime.ofHeight_eq_floorStep_iff.mpr (by omega)))
  exact ⟨header, hHeader, hBits⟩

/-- Up to a height of the interval regime all targets are within their floors, if no late header up to
there crosses the eras. -/
theorem le_floorAt (h : FromGenesis params segment) (hTip : segment.tipHeight = some tip)
    (hCrosses : params.earlyEnd.toNat < height → ¬CrossesEras params segment)
    (hRegime : Regime.ofHeight params height = .interval) {k : Nat} (hk : k ≤ height)
    (hTarget : segment.view.HasTarget k target) : target.value ≤ (params.floorAt k).value := by
  refine h.targets_of_step hTip
    (P := fun k target => k ≤ height → target.value ≤ (params.floorAt k).value) ?_ ?_ hTarget hk
  · intro _
    rw [Params.floorAt_early (Nat.zero_le _)]
  · intro prev header target hView hHeader hBelow hRequired hHere
    rcases Regime.ofHeight_below_interval hRegime (Nat.succ_pos _) hHere with hInterval | hStep
    · have hFloored : ∀ j target, j ≤ prev.height → prev.view.HasTarget j target →
          target.value ≤ (params.floorAt j).value := by
        intro j found hj hFound
        exact hBelow j found hj hFound (by omega)
      rcases hRequired.le_floorAt_or_reaches hInterval hFloored with
        hBound | ⟨hException, hFast, hReaches, hEasier⟩
      · exact hBound
      · rw [hView] at hEasier
        have hLate := Nat.lt_of_lt_of_le (Nat.lt_succ_of_lt hReaches.late) hHere
        exact absurd (crossesEras_of_header hView hHeader hException hFast hReaches hEasier)
          (hCrosses hLate)
    · have hHeight := Regime.ofHeight_eq_floorStep_iff.mp hStep
      rw [hRequired.unique (.floorStep hStep), Params.floorAt_late (by omega)]

/-- Where no header crosses the eras before this one, all late headers below it have the late floor. -/
theorem hasTarget_late (h : FromGenesis params segment) (hTip : segment.tipHeight = some tip)
    (hException : params.slowAtFloor = true) (hReaches : ReachesEarly params prev)
    (hView : prev.view = segment.view)
    (hSlow : LateBelow params segment prev.height)
    {k : Nat} (hLate : params.earlyEnd.toNat < k) (hk : k ≤ prev.height) :
    segment.view.HasTarget k params.lateFloor := by
  have hHeld := (exists_headerAt_iff hTip).mp ⟨_, headerAt_cursor hView⟩
  rcases Nat.lt_or_eq_of_le (Nat.succ_le_of_lt hLate) with hAbove | rfl
  · obtain ⟨before, rfl⟩ : ∃ before, k = before + 1 := ⟨k - 1, by omega⟩
    obtain ⟨header, hHeader⟩ := h.exists_header hTip (Nat.le_trans hk hHeld.2)
    obtain ⟨cursor, hCursor, rfl, hFollows⟩ := h.exists_prev hTip hHeader
    obtain ⟨target, hRequired, hBits⟩ := hFollows.required
    have hRegime : Regime.ofHeight params (cursor.height + 1) = .interval := by
      rcases Regime.ofHeight_below_interval hReaches.regime (Nat.succ_pos _)
        (Nat.le_succ_of_le hk) with hHere | hStep
      · exact hHere
      · have hHeight := Regime.ofHeight_eq_floorStep_iff.mp hStep
        omega
    have hHere : ReachesEarly params cursor :=
      ⟨by omega, hRegime, fun j hj hle => hReaches.inside j hj (by omega)⟩
    have hLater := hSlow cursor hCursor hk hHere header hHeader
    have hInside := hReaches.inside _ hLate (Nat.le_succ_of_le hk)
    have hFloor := hRequired.unique (.slow hRegime hInside hException hLater)
    rw [Params.floorAt_late hLate] at hFloor
    obtain rfl := hFloor
    exact ⟨header, hHeader, hBits⟩
  · exact h.hasTarget_step hTip (by omega)

/-- A header that crosses the eras in time is required to have the easier target. -/
theorem required_crossing (h : FromGenesis params segment) (hTip : segment.tipHeight = some tip)
    (hException : params.slowAtFloor = true) (hReaches : ReachesEarly params prev)
    (hView : prev.view = segment.view)
    (hSlow : LateBelow params segment prev.height)
    (hFinds : Interval.Finds segment.view params.interval params.lateFloor params.earlyEnd.toNat
      target)
    (hFast : ¬Interval.IsSlow params prev time) : Required params prev time target := by
  have hInside := hReaches.inside _ (Nat.lt_succ_of_lt hReaches.late) (Nat.le_refl _)
  apply Required.regular hReaches.regime hInside hException hFast
  rw [Interval.regularTarget_eq_ok_iff, hView, Params.floorAt_late (Nat.lt_succ_of_lt hReaches.late),
    Interval.finds_iff_of_passed (Nat.le_of_lt hReaches.late)]
  · exact hFinds
  · intro k hLate hk
    exact ⟨hReaches.inside k hLate (Nat.le_succ_of_le hk),
      h.hasTarget_late hTip hException hReaches hView hSlow hLate hk⟩

/-- An interval height needs no window, so it always has a target. -/
theorem exists_required (h : FromGenesis params segment) (hTip : segment.tipHeight = some prev.height)
    (hView : prev.view = segment.view)
    (hRegime : Regime.ofHeight params (prev.height + 1) = .interval) (time : UInt32) :
    ∃ target, Required params prev time target := by
  have hWindow : ∀ shield, (Regime.ofHeight params (prev.height + 1)).shield? = some shield →
      ¬shield.IsAnchorHeight params (prev.height + 1) → shield.window ≤ prev.height + 1 :=
    fun _ hShield => absurd hRegime (Regime.ne_interval_of_shield? hShield)
  obtain ⟨target, hTarget⟩ := h.exists_requiredTarget hTip hView hWindow time
  exact ⟨target, (requiredTarget_eq_ok_iff.mp hTarget).2⟩

/-- If the floors hold at every height and for what comes next, then no header crosses the eras. -/
theorem not_crossesEras (h : FromGenesis params segment) {tip : Cursor} (hTip : segment.tip = some tip)
    (hHeld : ∀ height target, Regime.ofHeight params (height + 1) = .interval →
      segment.view.HasTarget (height + 1) target →
        target.value ≤ (params.floorAt (height + 1)).value)
    (hNext : Regime.ofHeight params (tip.height + 1) = .interval →
      ∀ time target, Required params tip time target →
        target.value ≤ (params.floorAt (tip.height + 1)).value) :
    ¬CrossesEras params segment := by
  rintro ⟨hException, ⟨target, hFinds, hEasier⟩, prev, hView, hReaches, hFast⟩
  obtain ⟨hTipHeight, hTipView⟩ := tip_eq_some_iff.mp hTip
  -- The first header that crosses is the one to look at: below it all late headers have the floor.
  induction hHeight : prev.height using Nat.strongRecOn generalizing prev with
  | _ height ih =>
      subst hHeight
      have hSlow : LateBelow params segment prev.height := by
        intro before hBefore hLower hThere header hHeader
        by_contra hNotSlow
        refine ih before.height hLower before hBefore hThere ?_ rfl
        intro other hOther
        cases hHeader.symm.trans hOther
        exact hNotSlow
      have hRequired : ∀ time, ¬Interval.IsSlow params prev time → Required params prev time target :=
        fun time => h.required_crossing hTipHeight hException hReaches hView hSlow hFinds
      have hLate := Params.floorAt_late (Nat.lt_succ_of_lt hReaches.late)
      by_cases hAbove : prev.height + 1 ≤ tip.height
      · obtain ⟨header, hHeader⟩ := h.exists_header hTipHeight hAbove
        obtain ⟨carried, hCarried, hBits⟩ := (h.accepted prev header hView hHeader).required
        obtain rfl := hCarried.unique (hRequired _ (hFast header hHeader))
        have hBound := hHeld prev.height _ hReaches.regime ⟨header, hHeader, hBits⟩
        rw [hLate] at hBound
        exact absurd hEasier (Nat.not_lt_of_le hBound)
      · have hTop := ((exists_headerAt_iff hTipHeight).mp ⟨_, headerAt_cursor hView⟩).2
        obtain rfl := at?_unique hView hTipView (by omega)
        have hInTime : ¬Interval.IsSlow params prev prev.time := by
          unfold Interval.IsSlow
          omega
        have hBound := hNext hReaches.regime _ _ (hRequired _ hInTime)
        rw [hLate] at hBound
        exact absurd hEasier (Nat.not_lt_of_le hBound)

/-- Headers cross the eras only where the settings are of this kind. -/
theorem settings_of_crossesEras (h : FromGenesis params segment)
    (hTip : segment.tipHeight = some tip) (hCrosses : CrossesEras params segment) :
    params.slowAtFloor = true ∧ params.lateFloor.value < params.earlyFloor.value ∧
      (params.earlyEnd.toNat + 1) % params.interval ≠ 0 ∧
        (params.earlyEnd.toNat + 2) % params.interval ≠ 0 ∧
          params.earlyEnd.toNat + 2 ≤ params.shieldV1After.toNat ∧
            params.earlyEnd.toNat + 2 ≤ params.shieldV2After.toNat := by
  obtain ⟨hException, ⟨target, ⟨source, hSource, hEnds, _⟩, hEasier⟩, prev, _, hReaches, _⟩ :=
    hCrosses
  obtain ⟨_, _, hFirst, hSecond⟩ := Regime.ofHeight_eq_interval_iff.mp hReaches.regime
  have hLate := hReaches.late
  have hBound : target.value ≤ params.earlyFloor.value := by
    rw [← Params.floorAt_early hSource]
    cases source with
    | zero =>
        rw [hEnds.1.unique h.genesis, Params.floorAt_early hSource]
    | succ source =>
        have hRegime : Regime.ofHeight params (source + 1) = .interval := by
          rw [Regime.ofHeight_eq_interval_iff]
          omega
        exact h.le_floorAt hTip (by omega) hRegime (Nat.le_refl _) hEnds.1
  refine ⟨hException, by omega, ?_, ?_, by omega, by omega⟩
  · exact hReaches.inside _ (by omega) (by omega)
  · exact hReaches.inside _ (by omega) (by omega)

end FromGenesis

/-- From genesis on every target of the interval regime, held or required next, is within the floor of
its era exactly when no header crosses the eras. -/
theorem le_floorAt_iff_not_crossesEras {tip : Cursor} {genesis : Header} {time : UInt32}
    {first : Target} {checked : Nat} (hBase : segment.base = 0)
    (hTip : segment.tip = some tip) (hHeld : segment.headerAt 0 = some genesis)
    (hFirst : requiredTarget params none time = .ok first)
    (hGenesis : (Rules.difficultyBits first genesis).verdict = .ok ())
    (hAudit : segment.audit params = .ok checked) :
    ((∀ height header, 1 ≤ height → segment.headerAt height = some header →
        Regime.ofHeight params height = .interval →
          ∃ target, Target.ofBits header.bits = .ok target ∧
            target.value ≤ (params.floorAt height).value) ∧
      (Regime.ofHeight params (tip.height + 1) = .interval →
        ∀ candidate, ∃ target, requiredTarget params (some tip) candidate = .ok target ∧
          target.value ≤ (params.floorAt (tip.height + 1)).value)) ↔
      ¬CrossesEras params segment := by
  obtain ⟨hTipHeight, hTipView⟩ := tip_eq_some_iff.mp hTip
  have hChain := FromGenesis.of_audit hBase hTipHeight hHeld hFirst hGenesis hAudit
  have hHeight := hChain.tip_lt hTipHeight
  constructor
  · rintro ⟨hAll, hNext⟩
    apply hChain.not_crossesEras hTip
    · rintro height target hRegime ⟨header, hHeader, hBits⟩
      obtain ⟨other, hOther, hBound⟩ := hAll _ header (Nat.succ_pos height) hHeader hRegime
      obtain rfl := Except.ok.inj (hBits.symm.trans hOther)
      exact hBound
    · intro hRegime candidate target hRequired
      obtain ⟨other, hOther, hBound⟩ := hNext hRegime candidate
      obtain rfl := hRequired.unique (requiredTarget_eq_ok_iff.mp hOther).2
      exact hBound
  · intro hCrosses
    constructor
    · intro height header _ hHeader hRegime
      have hLow := ((exists_headerAt_iff hTipHeight).mp ⟨header, hHeader⟩).2
      obtain ⟨target, hTarget⟩ := hChain.hasTarget hTipHeight hLow
      exact ⟨target, (View.hasTarget_iff hHeader).mp hTarget,
        hChain.le_floorAt hTipHeight (fun _ => hCrosses) hRegime (Nat.le_refl _) hTarget⟩
    · intro hRegime candidate
      obtain ⟨target, hRequired⟩ := hChain.exists_required hTipHeight hTipView hRegime candidate
      refine ⟨target, requiredTarget_eq_ok_iff.mpr ⟨hHeight, hRequired⟩, ?_⟩
      have hBelow : ∀ k target, k ≤ tip.height → tip.view.HasTarget k target →
          target.value ≤ (params.floorAt k).value := by
        intro k found hk hFound
        rw [hTipView] at hFound
        exact hChain.le_floorAt hTipHeight (fun _ => hCrosses) hRegime
          (Nat.le_succ_of_le hk) hFound
      rcases hRequired.le_floorAt_or_reaches hRegime hBelow with
        hBound | ⟨hException, _, hReaches, hEasier⟩
      · exact hBound
      · rw [hTipView] at hEasier
        refine absurd ⟨hException, hEasier, tip, hTipView, hReaches, ?_⟩ hCrosses
        intro header hHeader
        have hAbove := ((exists_headerAt_iff hTipHeight).mp ⟨header, hHeader⟩).2
        omega

def early (count : Nat) : Segment where
  headers := ((List.range count).map fun n =>
    { time := 1540000000 + 600 * UInt32.ofNat n, bits := 0x1e0fffff : Header }).toArray

/-- The early era of the test network and the step after it. -/
def crossing : Segment :=
  (early 11).push { time := 1540006600, bits := 0x1d00ffff }

def crossingTip : Cursor where
  view := crossing.view
  height := 11
  header := { time := 1540006600, bits := 0x1d00ffff }
  held := rfl

/-- The test network with an interval that starts soon after the early era, at height 14. -/
def soonInterval : Params :=
  { Params.testnet with timespan := 8400 }

/-- Two late blocks on top of the step, up to the start of the interval. -/
def lateBlocks : Segment :=
  (crossing.push { time := 1540007801, bits := 0x1d00ffff }).push
    { time := 1540009002, bits := 0x1d00ffff }

def lateBlocksTip : Cursor where
  view := lateBlocks.view
  height := 13
  header := { time := 1540009002, bits := 0x1d00ffff }
  held := rfl

/-- The step itself, as the predecessor of the first late block. -/
def lateBlocksStep : Cursor where
  view := lateBlocks.view
  height := 11
  header := { time := 1540006600, bits := 0x1d00ffff }
  held := rfl

/-- On top of the step a block in time would take over the early floor. -/
theorem reachesEarly_lateBlocksStep : ReachesEarly soonInterval lateBlocksStep where
  late := by decide
  regime := by rfl
  inside := by
    intro k hLate hk
    change 10 < k at hLate
    change k ≤ 12 at hk
    obtain rfl | rfl : k = 11 ∨ k = 12 := by omega
    · decide
    · decide

/-- Each block between the step and the start of the interval is late, so none crosses the eras. -/
theorem not_crossesEras_lateBlocks : ¬CrossesEras soonInterval lateBlocks := by
  rintro ⟨_, _, prev, hView, hReaches, hFast⟩
  have hHeld := headerAt_cursor hView
  have hTip : lateBlocks.tipHeight = some 13 := by rfl
  have hBelow := ((exists_headerAt_iff hTip).mp ⟨_, hHeld⟩).2
  have hAbove : 10 < prev.height := hReaches.late
  have hInside : prev.height ≠ 13 := by
    intro hStart
    exact hReaches.inside 14 (by decide) (by omega) (by rfl)
  have hInTime (header next : Header) (hHere : lateBlocks.headerAt prev.height = some header)
      (hNext : lateBlocks.headerAt (prev.height + 1) = some next) :
      next.time.toNat ≤ header.time.toNat + 2 * 600 := by
    obtain rfl := Option.some.inj (hHere.symm.trans hHeld)
    exact Nat.le_of_not_lt (hFast next hNext)
  obtain hHeight | hHeight : prev.height = 11 ∨ prev.height = 12 := by omega
  · rw [hHeight] at hInTime
    exact absurd (hInTime { time := 1540006600, bits := 0x1d00ffff }
      { time := 1540007801, bits := 0x1d00ffff } rfl rfl) (by decide)
  · rw [hHeight] at hInTime
    exact absurd (hInTime { time := 1540007801, bits := 0x1d00ffff }
      { time := 1540009002, bits := 0x1d00ffff } rfl rfl) (by decide)

/-- The two late blocks and the start of the interval on top of them stay within the late floor, though
the early era is in reach from the step. -/
theorem le_floorAt_iff_not_crossesEras_lateBlocks :
    ReachesEarly soonInterval lateBlocksStep ∧ lateBlocks.audit soonInterval = .ok 13 ∧
      (∀ height header, 1 ≤ height → lateBlocks.headerAt height = some header →
        Regime.ofHeight soonInterval height = .interval →
          ∃ target, Target.ofBits header.bits = .ok target ∧
            target.value ≤ (soonInterval.floorAt height).value) ∧
      ∀ candidate, ∃ target,
        requiredTarget soonInterval (some lateBlocksTip) candidate = .ok target ∧
          target.value ≤ soonInterval.lateFloor.value := by
  have hTip : lateBlocks.tip = some lateBlocksTip := by rfl
  have hHeld : lateBlocks.headerAt 0 = some { time := 1540000000, bits := 0x1e0fffff } := by rfl
  have hFirst : requiredTarget soonInterval none 1540000000 = .ok soonInterval.earlyFloor := by rfl
  have hGenesis : (Rules.difficultyBits soonInterval.earlyFloor
      { time := 1540000000, bits := 0x1e0fffff }).verdict = .ok () := by rfl
  have hAudit : lateBlocks.audit soonInterval = .ok 13 := by rfl
  obtain ⟨hAll, hNext⟩ := (le_floorAt_iff_not_crossesEras rfl hTip hHeld hFirst hGenesis hAudit).mpr
    not_crossesEras_lateBlocks
  exact ⟨reachesEarly_lateBlocksStep, hAudit, hAll, hNext (by rfl)⟩

/-- A block in time on top of the step between the eras is required to have the early floor. -/
theorem floorAt_lt_required_crossing :
    crossing.base = 0 ∧ crossing.tip = some crossingTip ∧
      (∃ genesis first, crossing.headerAt 0 = some genesis ∧
        requiredTarget .testnet none 1540000000 = .ok first ∧
          (Rules.difficultyBits first genesis).verdict = .ok ()) ∧
      crossing.audit .testnet = .ok 11 ∧
      Regime.ofHeight .testnet (crossingTip.height + 1) = .interval ∧
      ∃ target, requiredTarget .testnet (some crossingTip) 1540007200 = .ok target ∧
        (Params.testnet.floorAt (crossingTip.height + 1)).value < target.value := by
  have hFirst : requiredTarget .testnet none 1540000000 = .ok Params.testnet.earlyFloor := by rfl
  have hGenesis : (Rules.difficultyBits Params.testnet.earlyFloor
      { time := 1540000000, bits := 0x1e0fffff }).verdict = .ok () := by rfl
  have hAudit : crossing.audit .testnet = .ok 11 := by rfl
  have hRequired : requiredTarget .testnet (some crossingTip) 1540007200 =
      .ok Params.testnet.earlyFloor := by rfl
  refine ⟨rfl, by rfl, ⟨_, _, by rfl, hFirst, hGenesis⟩, hAudit, by decide, _, hRequired, ?_⟩
  decide

end Segment

end PowRules
