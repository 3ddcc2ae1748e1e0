import PowRules.Proofs.Chain.FromGenesis
import PowRules.Proofs.Retarget.Regime
import PowRules.Proofs.Retarget.Shield
import PowRules.Proofs.Target

/-! Where the bits are kept and both eras have one floor, every target should be that floor. It is, as long
as no per-block retarget measures less time than it expects: only the start of an interval keeps its bits,
the per-block retargets never do. -/
namespace PowRules

/-- The bits are kept at the start of an interval, and one target is the floor of both eras. -/
structure Params.HasFixedFloor (params : Params) (floor : Target) : Prop where
  unanchored : params.network ≠ .mainnet
  keeps : params.keepsBits = true
  late : params.lateFloor = floor
  early : params.earlyFloor = floor
  isExact : floor.IsExact

/-- No per-block retarget on top of `prev` measures less time than it expects. -/
def Cursor.KeepsPace (params : Params) (prev : Cursor) : Prop :=
  ∀ shield measured, (Regime.ofHeight params (prev.height + 1)).shield? = some shield →
    shield.window ≤ prev.height + 1 → shield.Measures prev measured →
      (shield.expected : Int) ≤ measured

variable {params : Params} {floor target : Target} {prev : Cursor} {time : UInt32}

theorem Cursor.keepsPace_of_interval
    (h : Regime.ofHeight params (prev.height + 1) = .interval) : prev.KeepsPace params :=
  fun _ _ hShield => absurd h (Regime.ne_interval_of_shield? hShield)

theorem Cursor.keepsPace_of_floorStep
    (h : Regime.ofHeight params (prev.height + 1) = .floorStep) : prev.KeepsPace params :=
  fun _ _ hShield => absurd h (Regime.ne_floorStep_of_shield? hShield)

/-- There is nothing to measure below the per-block retargets. -/
theorem Cursor.keepsPace_of_le (hFirst : prev.height + 1 ≤ params.shieldV1After.toNat)
    (hSecond : prev.height + 1 ≤ params.shieldV2After.toNat) : prev.KeepsPace params := by
  by_cases hStep : prev.height + 1 = params.earlyEnd.toNat + 1
  · exact keepsPace_of_floorStep (Regime.ofHeight_eq_floorStep_iff.mpr hStep)
  · exact keepsPace_of_interval
      (Regime.ofHeight_eq_interval_iff.mpr ⟨Nat.succ_ne_zero _, hStep, hFirst, hSecond⟩)

theorem Params.hasFixedFloor_regtest : regtest.HasFixedFloor regtest.earlyFloor where
  unanchored := by decide
  keeps := rfl
  late := rfl
  early := rfl
  isExact := (floorsExact_ofNetwork .regtest).early

/-- One floor for both eras is the floor of every height. -/
theorem Params.HasFixedFloor.floorAt (h : params.HasFixedFloor floor) (height : Nat) :
    params.floorAt height = floor := by
  unfold Params.floorAt
  split
  · exact h.late
  · exact h.early

theorem Params.HasFixedFloor.not_isAnchorHeight (h : params.HasFixedFloor floor) (shield : Shield)
    (height : Nat) : ¬shield.IsAnchorHeight params height := by
  rintro ⟨_, hAnchored, _⟩
  exact h.unanchored (of_decide_eq_true hAnchored)

/-- On top of headers with the floor it is required again exactly when the pace is kept. -/
theorem Required.eq_floor_iff (hFixed : params.HasFixedFloor floor)
    (hBelow : ∀ k target, k ≤ prev.height → prev.view.HasTarget k target → target = floor)
    (h : Required params prev time target) : target = floor ↔ prev.KeepsPace params := by
  have hCopied : ∀ {target}, prev.target = .ok target → target = floor :=
    fun hTarget => hBelow _ _ (Nat.le_refl _) (Cursor.target_eq_ok_iff.mp hTarget)
  cases h with
  | floorStep hStep => exact iff_of_true hFixed.late (Cursor.keepsPace_of_floorStep hStep)
  | anchor _ hAnchor => exact absurd hAnchor (hFixed.not_isAnchorHeight _ _)
  | slow hRegime => exact iff_of_true (hFixed.floorAt _) (Cursor.keepsPace_of_interval hRegime)
  | regular hRegime _ _ _ hTarget =>
      obtain ⟨source, hSource, hEnds, _⟩ := Interval.regularTarget_eq_ok_iff.mp hTarget
      exact iff_of_true (hBelow source target hSource hEnds.1) (Cursor.keepsPace_of_interval hRegime)
  | copied hRegime _ _ hTarget =>
      exact iff_of_true (hCopied hTarget) (Cursor.keepsPace_of_interval hRegime)
  | kept hRegime _ _ _ hTarget =>
      exact iff_of_true (hCopied hTarget) (Cursor.keepsPace_of_interval hRegime)
  | rescaled hRescales =>
      cases hRescales with
      | boundary _ _ _ hKeeps => cases hKeeps.symm.trans hFixed.keeps
      | @shield shield _ late early _ hRegime _ hWindow hFirst hLate hEarly hOld =>
          have hMeasures : shield.Measures prev ((late : Int) - early) :=
            ⟨_, _, _, hFirst, hLate, hEarly, rfl⟩
          obtain rfl := hCopied hOld
          rw [hFixed.early, Target.rescale_eq_self_iff hFixed.isExact
            (Regime.shield?_expected_pos hRegime), Shield.expected_le_adjusted_iff hRegime]
          constructor
          · intro hEnough other measured hShield _ hOther
            obtain rfl := Option.some.inj (hRegime.symm.trans hShield)
            rw [hOther.unique hMeasures]
            exact hEnough
          · intro hPace
            exact hPace shield _ hRegime hWindow hMeasures

namespace Segment

variable {segment : Segment}

namespace FromGenesis

/-- As long as no measured time falls short, every required target is the floor again. All other ways to
a target copy one from below or take the floor. -/
theorem eq_floor (h : FromGenesis params segment) {tip : Nat} (hTip : segment.tipHeight = some tip)
    (hFixed : params.HasFixedFloor floor)
    (hPace : ∀ prev : Cursor, prev.view = segment.view → prev.KeepsPace params) {height : Nat}
    (hTarget : segment.view.HasTarget height target) : target = floor := by
  refine h.targets_of_step hTip (P := fun _ target => target = floor) hFixed.early ?_ hTarget
  intro prev header required hView _ hBelow hRequired
  exact (hRequired.eq_floor_iff hFixed hBelow).mpr (hPace prev hView)

/-- The header above `prev`, or what is required next, tells whether the pace is kept there. -/
theorem keepsPace (h : FromGenesis params segment) {tip : Cursor} (hTip : segment.tip = some tip)
    (hFixed : params.HasFixedFloor floor)
    (hHeld : ∀ height target, segment.view.HasTarget height target → target = floor)
    (hNext : ∀ time target, Required params tip time target → target = floor)
    (hView : prev.view = segment.view) : prev.KeepsPace params := by
  obtain ⟨hTipHeight, hTipView⟩ := tip_eq_some_iff.mp hTip
  have hBelow : ∀ k target, k ≤ prev.height → prev.view.HasTarget k target → target = floor := by
    intro k target _ hFound
    rw [hView] at hFound
    exact hHeld k target hFound
  by_cases hAbove : prev.height + 1 ≤ tip.height
  · obtain ⟨header, hHeader⟩ := h.exists_header hTipHeight hAbove
    obtain ⟨target, hRequired, hBits⟩ := (h.accepted prev header hView hHeader).required
    exact (hRequired.eq_floor_iff hFixed hBelow).mp (hHeld _ target ⟨header, hHeader, hBits⟩)
  · have hTop := ((exists_headerAt_iff hTipHeight).mp ⟨_, headerAt_cursor hView⟩).2
    obtain rfl := at?_unique hView hTipView (by omega)
    obtain ⟨old, hOld⟩ := h.hasTarget hTipHeight hTop
    rw [← hView, ← Cursor.target_eq_ok_iff] at hOld
    intro shield measured hShield hWindow hMeasures
    have hRescales :=
      hMeasures.rescales hShield (hFixed.not_isAnchorHeight _ _) hWindow hOld
    have hRequired : Required params prev prev.time _ := .rescaled hRescales
    exact (hRequired.eq_floor_iff hFixed hBelow).mp (hNext _ _ hRequired) _ _ hShield hWindow hMeasures

end FromGenesis

/-- From genesis on all bits stand for the floor, and nothing else is required next, exactly when every
per-block retarget measures at least the time it expects. -/
theorem eq_floor_iff_keepsPace {tip : Cursor} {genesis : Header} {first : Target} {checked : Nat}
    (hFixed : params.HasFixedFloor floor) (hBase : segment.base = 0) (hTip : segment.tip = some tip)
    (hHeld : segment.headerAt 0 = some genesis)
    (hFirst : requiredTarget params none time = .ok first)
    (hGenesis : (Rules.difficultyBits first genesis).verdict = .ok ())
    (hAudit : segment.audit params = .ok checked) :
    ((∀ height header, segment.headerAt height = some header →
        Target.ofBits header.bits = .ok floor) ∧
      ∀ candidate target, requiredTarget params (some tip) candidate = .ok target →
        target = floor) ↔
      ∀ prev : Cursor, prev.view = segment.view → prev.KeepsPace params := by
  obtain ⟨hTipHeight, hTipView⟩ := tip_eq_some_iff.mp hTip
  have hChain := FromGenesis.of_audit hBase hTipHeight hHeld hFirst hGenesis hAudit
  constructor
  · rintro ⟨hAll, hNext⟩ prev hView
    refine hChain.keepsPace hTip hFixed ?_ ?_ hView
    · rintro height target ⟨header, hHeader, hBits⟩
      exact Except.ok.inj (hBits.symm.trans (hAll height header hHeader))
    · intro candidate target hRequired
      exact hNext candidate target
        (requiredTarget_eq_ok_iff.mpr ⟨hChain.tip_lt hTipHeight, hRequired⟩)
  · intro hPace
    constructor
    · intro height header hHeader
      obtain ⟨target, hBits⟩ := hChain.decodes hTipHeight height header hHeader
      rw [hBits, hChain.eq_floor hTipHeight hFixed hPace ⟨header, hHeader, hBits⟩]
    · intro candidate target hRequired
      refine ((requiredTarget_eq_ok_iff.mp hRequired).2.eq_floor_iff hFixed ?_).mpr
        (hPace tip hTipView)
      intro k found _ hFound
      rw [hTipView] at hFound
      exact hChain.eq_floor hTipHeight hFixed hPace hFound

/-- Headers with the floor of the regression network, this many seconds apart. -/
def evenlySpaced (count gap : Nat) : Segment where
  headers := ((List.range count).map fun n =>
    { time := 1540000000 + UInt32.ofNat (gap * n), bits := 0x207fffff : Header }).toArray

def regtestAboveFifteen : Params :=
  { Params.regtest with shieldV2After := 15 }

def unhurriedTip : Cursor where
  view := (evenlySpaced 16 750).view
  height := 15
  header := { time := 1540011250, bits := 0x207fffff }
  held := rfl

/-- At 750 seconds a block even the per-block retarget finds nothing too fast, so all targets stay at
the floor. -/
theorem eq_floor_iff_keepsPace_unhurried :
    (evenlySpaced 16 750).audit regtestAboveFifteen = .ok 15 ∧
      Regime.ofHeight regtestAboveFifteen (unhurriedTip.height + 1) = .shieldV2 ∧
      (∀ height header, (evenlySpaced 16 750).headerAt height = some header →
        Target.ofBits header.bits = .ok Params.regtest.earlyFloor) ∧
      ∀ candidate target,
        requiredTarget regtestAboveFifteen (some unhurriedTip) candidate = .ok target →
          target = Params.regtest.earlyFloor := by
  have hFixed : regtestAboveFifteen.HasFixedFloor Params.regtest.earlyFloor :=
    { Params.hasFixedFloor_regtest with }
  have hTip : (evenlySpaced 16 750).tip = some unhurriedTip := by rfl
  have hHeld : (evenlySpaced 16 750).headerAt 0 =
      some { time := 1540000000, bits := 0x207fffff } := by rfl
  have hFirst : requiredTarget regtestAboveFifteen none 1540000000 =
      .ok Params.regtest.earlyFloor := by rfl
  have hGenesis : (Rules.difficultyBits Params.regtest.earlyFloor
      { time := 1540000000, bits := 0x207fffff }).verdict = .ok () := by rfl
  have hAudit : (evenlySpaced 16 750).audit regtestAboveFifteen = .ok 15 := by rfl
  have hPace : ∀ prev : Cursor, prev.view = (evenlySpaced 16 750).view →
      prev.KeepsPace regtestAboveFifteen := by
    obtain ⟨hTipHeight, hTipView⟩ := tip_eq_some_iff.mp hTip
    intro prev hView
    have hTop : prev.height ≤ 15 :=
      ((exists_headerAt_iff hTipHeight).mp ⟨_, headerAt_cursor hView⟩).2
    rcases Nat.lt_or_eq_of_le hTop with hLow | hHigh
    · apply Cursor.keepsPace_of_le
      · exact Nat.le_trans hLow (by decide)
      · exact hLow
    · obtain rfl := at?_unique hView hTipView hHigh
      intro shield measured hShield _ hMeasures
      obtain rfl : Shield.v2 = shield := Option.some.inj hShield
      have hHere : Shield.v2.Measures unhurriedTip 9750 := ⟨_, _, _, by rfl, by rfl, by rfl, by rfl⟩
      rw [hMeasures.unique hHere]
      decide
  exact ⟨hAudit, by decide,
    (eq_floor_iff_keepsPace hFixed rfl hTip hHeld hFirst hGenesis hAudit).mpr hPace⟩

def onTimeTip : Cursor where
  view := (evenlySpaced 101 600).view
  height := 100
  header := { time := 1540060000, bits := 0x207fffff }
  held := rfl

/-- Even ten minutes between blocks are too few, since the two windows lie 49 blocks apart and not 50. -/
theorem required_lt_floor_onTime :
    Params.regtest.HasFixedFloor Params.regtest.earlyFloor ∧
      (evenlySpaced 101 600).base = 0 ∧ (evenlySpaced 101 600).tip = some onTimeTip ∧
      (∃ genesis first, (evenlySpaced 101 600).headerAt 0 = some genesis ∧
        requiredTarget .regtest none 1540000000 = .ok first ∧
          (Rules.difficultyBits first genesis).verdict = .ok ()) ∧
      (evenlySpaced 101 600).audit .regtest = .ok 100 ∧
      ∃ target, requiredTarget .regtest (some onTimeTip) 1540060600 = .ok target ∧
        target.value < Params.regtest.earlyFloor.value := by
  have hFirst : requiredTarget .regtest none 1540000000 = .ok Params.regtest.earlyFloor := by rfl
  have hGenesis : (Rules.difficultyBits Params.regtest.earlyFloor
      { time := 1540000000, bits := 0x207fffff }).verdict = .ok () := by rfl
  have hAudit : (evenlySpaced 101 600).audit .regtest = .ok 100 := by decide +kernel
  have hRequired : requiredTarget .regtest (some onTimeTip) 1540060600 =
      .ok (.expand 0x207f5c27) := by decide +kernel
  exact ⟨Params.hasFixedFloor_regtest, rfl, by rfl, ⟨_, _, by rfl, hFirst, hGenesis⟩, hAudit, _,
    hRequired, by decide⟩

end Segment

end PowRules
