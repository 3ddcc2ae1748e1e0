import Mathlib.Logic.Function.Iterate
import PowRules.Proofs.Chain.Segment
import PowRules.Proofs.Retarget.EvenTimes

/-! A chain that is grown from genesis at even times, each header with the bits that are required of it. Every
interval applies one and the same step to the target, so the target of a height is an iterate of the floor. -/
namespace PowRules

/-- The first `count` heights belong to the early era and, above genesis, to the interval regime. -/
def Params.EarlyIntervals (params : Params) (count : Nat) : Prop :=
  ∀ height, height < count → height ≤ params.earlyEnd.toNat ∧
    (height = 0 ∨ Regime.ofHeight params height = .interval)

/-- The target of a height: the early floor after one step for each interval that has been completed. -/
def Params.evenTarget (params : Params) (gap : Int) (height : Nat) : Target :=
  (params.evenStep gap)^[height / params.interval] params.earlyFloor

/-- Counting one more height makes a step exactly where an interval is completed. -/
theorem iterate_succ_div {α : Type} (f : α → α) (x : α) (n k : Nat) :
    f^[(n + 1) / k] x = if (n + 1) % k = 0 then f (f^[n / k] x) else f^[n / k] x := by
  rw [Nat.succ_div]
  by_cases hMod : (n + 1) % k = 0
  · rw [if_pos (Nat.dvd_of_mod_eq_zero hMod), if_pos hMod, Function.iterate_succ_apply']
  · rw [if_neg (mt Nat.mod_eq_zero_of_dvd hMod), if_neg hMod, Nat.add_zero]

namespace Params

variable {params : Params} {count : Nat} {gap : Int}

theorem EarlyIntervals.of_succ (h : params.EarlyIntervals (count + 1)) : params.EarlyIntervals count :=
  fun height hHeight => h height (Nat.lt_succ_of_lt hHeight)

theorem EarlyIntervals.le_maxHeight (h : params.EarlyIntervals (count + 1)) : count ≤ maxHeight := by
  have hEnd := params.earlyEnd.toNat_lt
  have hEarly := (h count (Nat.lt_succ_self count)).1
  simp only [maxHeight]
  omega

/-- All targets of the progression are in compact form, so the bits of a header can carry them, unless
they have fallen to zero. -/
theorem isExact_evenTarget (hFloor : params.earlyFloor.IsExact) {height : Nat}
    (hPositive : 0 < (params.evenTarget gap height).value) :
    (params.evenTarget gap height).IsExact := by
  unfold evenTarget at hPositive ⊢
  generalize height / params.interval = steps at hPositive ⊢
  cases steps with
  | zero => exact hFloor
  | succ steps =>
      rw [Function.iterate_succ_apply'] at hPositive ⊢
      exact isExact_scaled hFloor hPositive

/-- At the spacing at which an interval takes the time it should, the floor stays. The interval counts
one spacing less than it has blocks. -/
theorem RetargetsEarly.evenTarget_eq_floor (h : params.RetargetsEarly)
    (hGap : ((params.interval - 1 : Nat) : Int) * gap = params.timespan.toNat) (height : Nat) :
    params.evenTarget gap height = params.earlyFloor :=
  Function.iterate_fixed (h.evenStep_floor hGap) _

end Params

namespace Segment

/-- Headers from genesis on, each with the bits of a nonzero required target. Their times form an arithmetic
progression, and their other fields are arbitrary. -/
inductive Grown (params : Params) (start gap : Int) : Segment → Prop where
  | empty : Grown params start gap {}
  | push {segment : Segment} {header : Header} {target : Target}
      (h : Grown params start gap segment)
      (hTime : (header.time.toNat : Int) = start + gap * segment.headers.size)
      (hRequired : requiredTarget params segment.tip header.time = .ok target)
      (hNonzero : target.value ≠ 0)
      (hBits : header.bits = target.bits) :
      Grown params start gap (segment.push header)

namespace Grown

variable {params : Params} {start gap : Int} {segment : Segment}

theorem base_toNat (h : Grown params start gap segment) : segment.base.toNat = 0 := by
  induction h with
  | empty => rfl
  | push _ _ _ _ _ ih => exact ih

theorem headerAt_push (h : Grown params start gap segment) (header : Header) (height : Nat) :
    (segment.push header).headerAt height =
      if height ≤ maxHeight ∧ height = segment.headers.size then some header
      else segment.headerAt height := by
  rw [Segment.headerAt_push, h.base_toNat, Nat.zero_add]

/-- The times of the held headers are in progression, by induction on how the segment has grown. -/
theorem evenTimes (h : Grown params start gap segment) : segment.view.EvenTimes start gap := by
  induction h with
  | empty =>
      intro height header hHeader
      change (if _ then (#[] : Array Header)[height - 0]? else none) = some header at hHeader
      simp at hHeader
  | @push segment header target h hTime _ _ _ ih =>
      intro height other hOther
      change (segment.push header).headerAt height = some other at hOther
      rw [h.headerAt_push] at hOther
      split at hOther
      next hTop =>
        obtain rfl := Option.some.inj hOther
        rw [hTop.2]
        exact hTime
      next => exact ih height other hOther

/-- A chain that is grown so far requires the next target of the closed form. -/
theorem requiredTarget_tip (h : Grown params start gap segment) (hParams : params.RetargetsEarly)
    (hEarly : params.EarlyIntervals (segment.headers.size + 1))
    (hTargets : ∀ height, height < segment.headers.size →
      segment.view.HasTarget height (params.evenTarget gap height)) (time : UInt32) :
    requiredTarget params segment.tip time = .ok (params.evenTarget gap segment.headers.size) := by
  have hBase := h.base_toNat
  have hMax := hEarly.le_maxHeight
  obtain ⟨hEra, hRegime⟩ := hEarly _ (Nat.lt_succ_self _)
  cases hSize : segment.headers.size with
  | zero =>
      have hTip : segment.tip = none := by
        simp [tip, tipHeight, hSize]
      rw [hTip, Params.evenTarget, Nat.zero_div]
      rfl
  | succ height =>
      have hTipHeight : segment.tipHeight = some height := by
        rw [tipHeight_eq_some_iff]
        omega
      obtain ⟨tip, hTip, rfl⟩ := exists_tip hTipHeight
      obtain ⟨_, hView⟩ := tip_eq_some_iff.mp hTip
      have hOld : tip.target = .ok (params.evenTarget gap tip.height) := by
        rw [Cursor.target_eq_ok_iff, hView]
        exact hTargets tip.height (by omega)
      have hEven : tip.view.EvenTimes start gap := hView ▸ h.evenTimes
      have hHeld : ∃ header, tip.view.headerAt (tip.height + 1 - params.interval) = some header := by
        have hPositive := params.interval_pos
        rw [hView]
        exact (exists_headerAt_iff hTipHeight).mpr ⟨by omega, by omega⟩
      rw [hSize] at hEra hRegime
      rw [hTip, requiredTarget_of_even hParams hEven (hRegime.resolve_left (Nat.succ_ne_zero _)) hEra
        hHeld hOld, Params.evenTarget, Params.evenTarget, iterate_succ_div]

/-- By induction on the growth: each header carries on the closed form of those below it. -/
theorem hasTarget (h : Grown params start gap segment) (hParams : params.RetargetsEarly)
    (hEarly : params.EarlyIntervals segment.headers.size) {height : Nat}
    (hHeight : height < segment.headers.size) :
    segment.view.HasTarget height (params.evenTarget gap height) := by
  induction h generalizing height with
  | empty => cases hHeight
  | @push segment header target h _ hRequired hNonzero hBits ih =>
      rw [Segment.push, Array.size_push] at hEarly hHeight
      have hBelow : ∀ k, k < segment.headers.size →
          segment.view.HasTarget k (params.evenTarget gap k) := fun _ hk => ih hEarly.of_succ hk
      have hMax := hEarly.le_maxHeight
      rcases Nat.lt_or_eq_of_le (Nat.le_of_lt_succ hHeight) with hOlder | rfl
      · obtain ⟨other, hOther, hTarget⟩ := hBelow height hOlder
        refine ⟨other, ?_, hTarget⟩
        change (segment.push header).headerAt height = some other
        rw [h.headerAt_push, if_neg (by omega)]
        exact hOther
      · have hNext := h.requiredTarget_tip hParams hEarly hBelow header.time
        obtain rfl := Except.ok.inj (hRequired.symm.trans hNext)
        have hExact := Params.isExact_evenTarget hParams.floor (Nat.pos_of_ne_zero hNonzero)
        refine ⟨header, ?_, ?_⟩
        · change (segment.push header).headerAt segment.headers.size = some header
          rw [h.headerAt_push, if_pos ⟨hMax, rfl⟩]
        · rw [hBits]
          exact hExact.ofBits_bits

end Grown

/-- Along times that form an arithmetic progression every target is known. In the early era of a chain grown
from genesis it is an iterate of one step, and the floor where the gaps of an interval add up to its time. A
per-block retarget with two whole windows measures one gap less than its window, for gaps of either sign. -/
theorem targets_of_even_times (params : Params) (start gap : Int) :
    (params.RetargetsEarly → ∀ segment, Grown params start gap segment →
      (params.EarlyIntervals segment.headers.size → ∀ height, height < segment.headers.size →
        segment.view.HasTarget height
          ((params.evenStep gap)^[height / params.interval] params.earlyFloor) ∧
        (((params.interval - 1 : Nat) : Int) * gap = params.timespan.toNat →
          segment.view.HasTarget height params.earlyFloor)) ∧
      (params.EarlyIntervals (segment.headers.size + 1) → ∀ time,
        requiredTarget params segment.tip time =
          .ok ((params.evenStep gap)^[segment.headers.size / params.interval] params.earlyFloor))) ∧
    ∀ (segment : Segment) (prev : Cursor) (shield : Shield) (time : UInt32) (target : Target),
      segment.view.EvenTimes start gap → prev.view = segment.view →
        (Regime.ofHeight params (prev.height + 1)).shield? = some shield →
          ¬shield.IsAnchorHeight params (prev.height + 1) →
            shield.window + shield.sample ≤ prev.height + 2 →
              requiredTarget params (some prev) time = .ok target →
                shield.Measures prev ((shield.window - 1 : Nat) * gap) ∧
                  ∃ old, prev.target = .ok old ∧ target = shield.evenStep params gap old := by
  constructor
  · intro hParams segment hGrown
    constructor
    · intro hEarly height hHeight
      have hTarget := hGrown.hasTarget hParams hEarly hHeight
      refine ⟨hTarget, ?_⟩
      intro hGap
      rw [hParams.evenTarget_eq_floor hGap] at hTarget
      exact hTarget
    · intro hEarly time
      exact hGrown.requiredTarget_tip hParams hEarly
        (fun _ hHeight => hGrown.hasTarget hParams hEarly.of_succ hHeight) time
  · intro segment prev shield time target hEven hView hRegime hAnchor hWhole hRequired
    exact shieldTarget_of_even hEven hView hRegime hAnchor hWhole (requiredTarget_eq_ok_iff.mp hRequired).2

def twoByTwo : Params :=
  { Params.mainnet with timespan := 1200, shieldV2After := 19 }

/-- Four headers, seven and a half minutes apart, so that an interval takes its target to three eighths. -/
def quickened : Segment :=
  [{ time := 1540000000, bits := 0x1d00ffff },
    { time := 1540000450, bits := 0x1d00ffff },
    { time := 1540000900, bits := 0x1c5fffa0 },
    { time := 1540001350, bits := 0x1c5fffa0 }].foldl push {}

theorem grown_quickened : Grown twoByTwo 1540000000 450 quickened := by
  have hPush : ∀ (segment : Segment) (header : Header), Grown twoByTwo 1540000000 450 segment →
      (header.time.toNat : Int) = 1540000000 + 450 * segment.headers.size →
        requiredTarget twoByTwo segment.tip header.time = .ok (.expand header.bits) →
          (Target.expand header.bits).value ≠ 0 → header.bits = (Target.expand header.bits).bits →
            Grown twoByTwo 1540000000 450 (segment.push header) :=
    fun _ _ h hTime hRequired hNonzero hBits => .push h hTime hRequired hNonzero hBits
  have hFirst := hPush _ { time := 1540000000, bits := 0x1d00ffff } .empty
    (by decide) (by rfl) (by decide) (by rfl)
  have hSecond := hPush _ { time := 1540000450, bits := 0x1d00ffff } hFirst
    (by decide) (by rfl) (by decide) (by rfl)
  have hThird := hPush _ { time := 1540000900, bits := 0x1c5fffa0 } hSecond
    (by decide) (by rfl) (by decide) (by rfl)
  exact hPush _ { time := 1540001350, bits := 0x1c5fffa0 } hThird
    (by decide) (by rfl) (by decide) (by rfl)

def fallingBack : Segment where
  headers := ((List.range 20).map fun n =>
    { time := UInt32.ofNat (1540000000 - 601 * n), bits := 0x1c00ffff : Header }).toArray

def fallingBackTip : Cursor where
  view := fallingBack.view
  height := 19
  header := { time := 1539988581, bits := 0x1c00ffff }
  held := rfl

theorem evenTimes_fallingBack : fallingBack.view.EvenTimes 1540000000 (-601) := by
  intro height header hHeader
  obtain ⟨hHeld, hHere⟩ : height < 20 ∧
      { time := UInt32.ofNat (1540000000 - 601 * height), bits := 0x1c00ffff } = header := by
    change (if _ then fallingBack.headers[height - 0]? else none) = some header at hHeader
    split at hHeader
    · simp only [fallingBack, List.getElem?_toArray, List.getElem?_map, Option.map_eq_some_iff,
        Nat.sub_zero, List.getElem?_eq_some_iff, List.getElem_range, List.length_range] at hHeader
      obtain ⟨n, ⟨hHeld, rfl⟩, hHere⟩ := hHeader
      exact ⟨hHeld, hHere⟩
    · cases hHeader
  rw [← hHere]
  dsimp only
  rw [UInt32.toNat_ofNat', Nat.mod_eq_of_lt (by omega)]
  omega

/-- Each interval of fast blocks takes the target to three eighths of the one before. Over falling times
the measured time is negative, and the target still stays above half of the old one. -/
theorem targets_of_even_times_fallingBack :
    quickened.view.HasTarget 3 (.expand 0x1c5fffa0) ∧
      requiredTarget twoByTwo quickened.tip 1540001800 = .ok (.expand 0x1c23ffdc) ∧
      requiredTarget twoByTwo (some fallingBackTip) 1540000000 = .ok (.expand 0x1c0083e4) ∧
      Shield.v2.Measures fallingBackTip (-9015) ∧
      Target.expand 0x1c0083e4 = Shield.v2.evenStep twoByTwo (-601) (.expand 0x1c00ffff) := by
  have hParams : twoByTwo.RetargetsEarly :=
    ⟨by decide, (Params.floorsExact_ofNetwork .mainnet).early, rfl, rfl⟩
  have hEarly : twoByTwo.EarlyIntervals (quickened.headers.size + 1) := by
    intro height hHeight
    change height < 5 at hHeight
    rw [Regime.ofHeight_eq_interval_iff]
    change height ≤ 1648 ∧ (height = 0 ∨ height ≠ 0 ∧ height ≠ 1649 ∧ height ≤ 136135 ∧ height ≤ 19)
    omega
  have hRequired : requiredTarget twoByTwo (some fallingBackTip) 1540000000 =
      .ok (.expand 0x1c0083e4) := by rfl
  have hTarget : fallingBackTip.target = .ok (.expand 0x1c00ffff) := by rfl
  obtain ⟨hGrown, hNext⟩ :=
    (targets_of_even_times twoByTwo 1540000000 450).1 hParams quickened grown_quickened
  obtain ⟨hMeasures, old, hOld, hStep⟩ := (targets_of_even_times twoByTwo 1540000000 (-601)).2
    fallingBack fallingBackTip .v2 1540000000 _ evenTimes_fallingBack rfl rfl (by decide) (by decide)
    hRequired
  obtain rfl : Target.expand 0x1c00ffff = old := Except.ok.inj (hTarget.symm.trans hOld)
  have hTop := (hGrown hEarly.of_succ 3 (by decide)).1
  have hGap : ((Shield.v2.window - 1 : Nat) : Int) * (-601) = -9015 := by decide
  rw [hGap] at hMeasures
  exact ⟨hTop, hNext hEarly 1540001800, hRequired, hMeasures, hStep⟩

end Segment

end PowRules
