import PowRules.Proofs.Chain.Audit
import PowRules.Proofs.Chain.LowerEdge
import PowRules.Proofs.Retarget.Regime

/-! Chains that are accepted from genesis on. All their bits stand for targets and nothing lies below
genesis, so only a window that is longer than the chain could keep a target from being required. -/
namespace PowRules.Segment

variable {params : Params} {segment : Segment} {prev : Cursor} {time : UInt32} {height tip : Nat}

/-- The first header is a right genesis, and each header above it follows. -/
structure FromGenesis (params : Params) (segment : Segment) : Prop where
  base : segment.base = 0
  genesis : segment.view.HasTarget 0 params.earlyFloor
  accepted : segment.Accepted params

/-- A segment from genesis on can only be too short for a window. -/
theorem NeedsBelow.short_of_base (hBase : segment.base.toNat = 0)
    (h : NeedsBelow params segment prev time height) :
    ∃ shield, (Regime.ofHeight params (prev.height + 1)).shield? = some shield ∧
      ¬shield.IsAnchorHeight params (prev.height + 1) ∧ prev.height + 1 < shield.window := by
  cases h with
  | start _ _ hBelow => omega
  | regular _ _ _ _ hPassed =>
      have hGenesis := (hPassed 0 (Nat.le_of_eq hBase) (Nat.zero_le _)).1
      exact absurd (Nat.zero_mod _) hGenesis
  | @short shield hRegime hAnchor hShort => exact ⟨shield, hRegime, hAnchor, hShort⟩
  | first _ _ _ hBelow => omega
  | sample _ _ _ _ hPositive _ => omega

namespace FromGenesis

/-- A right genesis and an audit without fault are all that it takes. The time asked for at genesis does
not matter, since its target is fixed. -/
theorem of_audit {genesis : Header} {first : Target} {checked : Nat} (hBase : segment.base = 0)
    (hTip : segment.tipHeight = some tip) (hHeld : segment.headerAt 0 = some genesis)
    (hFirst : requiredTarget params none time = .ok first)
    (hGenesis : (Rules.difficultyBits first genesis).verdict = .ok ())
    (hAudit : segment.audit params = .ok checked) : FromGenesis params segment := by
  obtain rfl := Except.ok.inj hFirst
  exact ⟨hBase, ⟨genesis, hHeld, Rules.difficultyBits_eq_ok_iff.mp hGenesis⟩,
    ((audit_eq_ok_iff hTip).mp hAudit).2⟩

theorem base_toNat (h : FromGenesis params segment) : segment.base.toNat = 0 := by
  rw [h.base]
  rfl

/-- Nothing lies below the base, so each header above genesis has its predecessor in the segment. -/
theorem exists_prev (h : FromGenesis params segment) (hTip : segment.tipHeight = some tip)
    {header : Header} (hHeader : segment.headerAt (height + 1) = some header) :
    ∃ prev : Cursor, prev.view = segment.view ∧ prev.height = height ∧
      Rules.Follows params prev header := by
  apply h.accepted.exists_prev hTip hHeader
  rw [h.base]
  exact Nat.zero_le height

theorem exists_header (h : FromGenesis params segment) (hTip : segment.tipHeight = some tip)
    (hHeight : height ≤ tip) : ∃ header, segment.headerAt height = some header := by
  rw [exists_headerAt_iff hTip, h.base]
  exact ⟨Nat.zero_le height, hHeight⟩

/-- The bits of every held header stand for a target: those of genesis by assumption, and those above as
what was required of them. -/
theorem hasTarget (h : FromGenesis params segment) (hTip : segment.tipHeight = some tip)
    (hHeight : height ≤ tip) : ∃ target, segment.view.HasTarget height target := by
  cases height with
  | zero => exact ⟨_, h.genesis⟩
  | succ height =>
      obtain ⟨header, hHeader⟩ := h.exists_header hTip hHeight
      obtain ⟨_, _, _, hFollows⟩ := h.exists_prev hTip hHeader
      obtain ⟨target, _, hBits⟩ := hFollows.required
      exact ⟨target, header, hHeader, hBits⟩

/-- No look-up in an accepted chain meets bits without a target. -/
theorem decodes (h : FromGenesis params segment) (hTip : segment.tipHeight = some tip) :
    segment.Decodes := by
  intro height header hHeader
  have hHeld := (exists_headerAt_iff hTip).mp ⟨header, hHeader⟩
  obtain ⟨target, hTarget⟩ := h.hasTarget hTip hHeld.2
  exact ⟨target, (View.hasTarget_iff hHeader).mp hTarget⟩

/-- A segment of all heights has no tip, so a tip of a chain from genesis is below the last height. -/
theorem tip_lt (h : FromGenesis params segment) (hTip : segment.tipHeight = some tip) :
    tip < maxHeight := by
  have hSize := h.accepted.size_lt hTip
  have hBase := h.base_toNat
  obtain ⟨_, _, hLength, _⟩ := tipHeight_eq_some_iff.mp hTip
  omega

/-- What holds of the early floor, and is carried over by each required target, holds of all targets. -/
theorem targets_of_step (h : FromGenesis params segment) (hTip : segment.tipHeight = some tip)
    {P : Nat → Target → Prop} (hStart : P 0 params.earlyFloor)
    (hStep : ∀ (prev : Cursor) (header : Header) (target : Target), prev.view = segment.view →
      segment.headerAt (prev.height + 1) = some header →
        (∀ k target, k ≤ prev.height → prev.view.HasTarget k target → P k target) →
          Required params prev header.time target → P (prev.height + 1) target)
    {target : Target} (hTarget : segment.view.HasTarget height target) : P height target := by
  refine h.accepted.targets_of_step hTip (Nat.le_of_eq h.base_toNat) ?_ ?_ (Nat.zero_le height) hTarget
  · intro first hFirst
    rw [hFirst.unique h.genesis]
    exact hStart
  · intro prev header required hView hHeader _ hBelow hRequired
    refine hStep prev header required hView hHeader ?_ hRequired
    intro k found hk hFound
    rw [hView] at hFound
    exact hBelow k found (Nat.zero_le k) hk hFound

/-- On top of each header some target is required, unless a window does not fit below it. -/
theorem exists_requiredTarget (h : FromGenesis params segment)
    (hTip : segment.tipHeight = some tip) (hView : prev.view = segment.view)
    (hWindow : ∀ shield, (Regime.ofHeight params (prev.height + 1)).shield? = some shield →
      ¬shield.IsAnchorHeight params (prev.height + 1) → shield.window ≤ prev.height + 1)
    (time : UInt32) : ∃ target, requiredTarget params (some prev) time = .ok target := by
  have hHeld := (exists_headerAt_iff hTip).mp ⟨_, headerAt_cursor hView⟩
  have hBelow := h.tip_lt hTip
  apply Segment.exists_requiredTarget (h.decodes hTip) hView (by omega)
  intro height hNeeds
  obtain ⟨shield, hRegime, hAnchor, hShort⟩ := hNeeds.short_of_base h.base_toNat
  exact absurd (hWindow shield hRegime hAnchor) (Nat.not_le_of_lt hShort)

end FromGenesis

end PowRules.Segment

/-! On a chain that is accepted from genesis on, a header is judged by what it carries and never by what is
missing. All bits below it stand for targets and nothing lies below genesis, so only a window that is longer
than the chain could be in the way, and the per-block retargets start too high for that. -/
namespace PowRules

open Rules

variable {params : Params} {height : Nat} {shield : Shield}

/-- Neither per-block retarget starts so low that its window would reach below genesis. On the production
network the first one starts with a fixed target, which lasts long enough at any height. -/
structure Params.WindowsFit (params : Params) : Prop where
  first : params.network = .mainnet ∨ 49 ≤ params.shieldV1After.toNat
  second : 15 ≤ params.shieldV2After.toNat

/-- On each network the retargets start high enough. -/
theorem Params.windowsFit_ofNetwork (network : Network) : (Params.ofNetwork network).WindowsFit := by
  cases network with
  | mainnet => exact ⟨by decide, by decide⟩
  | testnet => exact ⟨by decide, by decide⟩
  | regtest => exact ⟨by decide, by decide⟩

/-- Wherever a window is measured, it ends at genesis or above. -/
theorem Params.WindowsFit.window_le (h : params.WindowsFit)
    (hRegime : (Regime.ofHeight params height).shield? = some shield)
    (hAnchor : ¬shield.IsAnchorHeight params height) : shield.window ≤ height := by
  rcases Regime.shield?_eq_some hRegime with rfl | rfl
  · obtain ⟨_, hAbove, _⟩ :=
      Regime.ofHeight_eq_shieldV1_iff.mp (Regime.shield?_eq_v1_iff.mp hRegime)
    change 50 ≤ height
    rcases h.first with hMain | hHigh
    · have hLast : ¬height - params.shieldV1After.toNat ≤ 61 := by
        intro hLow
        exact hAnchor ⟨rfl, decide_eq_true hMain, hLow⟩
      omega
    · omega
  · obtain ⟨_, hAbove⟩ :=
      Regime.ofHeight_eq_shieldV2_iff.mp (Regime.shield?_eq_v2_iff.mp hRegime)
    have hHigh := h.second
    change 16 ≤ height
    omega

namespace Segment

variable {segment : Segment} {time : UInt32}

/-- On top of a chain that is accepted from genesis on, some target is required at any time, and a header
is good or breaks one of the three rules. Nothing is reported as missing or malformed. -/
theorem verdict_on_tip {tip : Cursor} {genesis : Header} {first : Target} {checked : Nat}
    (hFit : params.WindowsFit) (hBase : segment.base = 0) (hTip : segment.tip = some tip)
    (hHeld : segment.headerAt 0 = some genesis)
    (hFirst : requiredTarget params none time = .ok first)
    (hGenesis : (difficultyBits first genesis).verdict = .ok ())
    (hAudit : segment.audit params = .ok checked) :
    (∀ candidate, ∃ target, requiredTarget params (some tip) candidate = .ok target) ∧
    (∀ header hasher, ∃ target, requiredTarget params (some tip) header.time = .ok target ∧
      ((accept params tip header hasher).verdict = .ok () ∨
        (accept params tip header hasher).verdict = .error .highHash ∨
        (accept params tip header hasher).verdict =
          .error (.wrongBits target.bits header.bits) ∨
        (accept params tip header hasher).verdict =
          .error (.tooEarly header.time (tip.time.toNat + minSpacing)))) ∧
    ∀ network, (Params.ofNetwork network).WindowsFit := by
  obtain ⟨hTipHeight, hTipView⟩ := tip_eq_some_iff.mp hTip
  have hChain := FromGenesis.of_audit hBase hTipHeight hHeld hFirst hGenesis hAudit
  refine ⟨?_, ?_, Params.windowsFit_ofNetwork⟩
  · intro candidate
    exact hChain.exists_requiredTarget hTipHeight hTipView (fun _ => hFit.window_le) candidate
  · intro header hasher
    obtain ⟨target, hRequired⟩ :=
      hChain.exists_requiredTarget hTipHeight hTipView (fun _ => hFit.window_le) header.time
    exact ⟨target, hRequired, accept_cases hRequired⟩

def shieldAboveFifteen : Params :=
  { Params.testnet with earlyEnd := 1000, shieldV2After := 15 }

def wholeWindow : Segment where
  headers := ((List.range 16).map fun n =>
    { time := 1540000000 + 600 * UInt32.ofNat n, bits := 0x1e0fffff : Header }).toArray

def belowShield : Cursor where
  view := wholeWindow.view
  height := 15
  header := { time := 1540009000, bits := 0x1e0fffff }
  held := rfl

/-- Sixteen headers, on top of which the first per-block retarget has just the window it needs. -/
theorem verdict_on_tip_belowShield :
    wholeWindow.audit shieldAboveFifteen = .ok 15 ∧
      Regime.ofHeight shieldAboveFifteen (belowShield.height + 1) = .shieldV2 ∧
      (∀ candidate, ∃ target,
        requiredTarget shieldAboveFifteen (some belowShield) candidate = .ok target) ∧
      ∀ header hasher, ∃ target,
        requiredTarget shieldAboveFifteen (some belowShield) header.time = .ok target ∧
          ((accept shieldAboveFifteen belowShield header hasher).verdict = .ok () ∨
            (accept shieldAboveFifteen belowShield header hasher).verdict = .error .highHash ∨
            (accept shieldAboveFifteen belowShield header hasher).verdict =
              .error (.wrongBits target.bits header.bits) ∨
            (accept shieldAboveFifteen belowShield header hasher).verdict =
              .error (.tooEarly header.time (belowShield.time.toNat + minSpacing))) := by
  have hFit : shieldAboveFifteen.WindowsFit := ⟨by decide, by decide⟩
  have hTip : wholeWindow.tip = some belowShield := by rfl
  have hHeld : wholeWindow.headerAt 0 = some { time := 1540000000, bits := 0x1e0fffff } := by rfl
  have hFirst : requiredTarget shieldAboveFifteen none 1540000000 =
      .ok Params.testnet.earlyFloor := by rfl
  have hGenesis : (difficultyBits Params.testnet.earlyFloor
      { time := 1540000000, bits := 0x1e0fffff }).verdict = .ok () := by rfl
  have hAudit : wholeWindow.audit shieldAboveFifteen = .ok 15 := by rfl
  obtain ⟨hRequired, hVerdict, _⟩ :=
    verdict_on_tip hFit rfl hTip hHeld hFirst hGenesis hAudit
  exact ⟨hAudit, by decide, hRequired, hVerdict⟩

end Segment

end PowRules
