import PowRules.Proofs.Chain.FromGenesis
import PowRules.Proofs.Target

/-! On a chain that is accepted from genesis on, no target is easier than the easiest one of the settings.
Copies and searches bring back a target from below, and every other origin names a setting or is capped by
one. The floors may be any numbers, since rounding never goes up. -/
namespace PowRules

/-- The easiest target of the settings: one of the floors, or the fixed target of the first per-block
retargets on the network that has one. -/
def Params.easiest (params : Params) : Nat :=
  max (max params.lateFloor.value params.earlyFloor.value)
    (if params.network = .mainnet then Shield.anchor.value else 0)

section Settings

variable {params : Params}

theorem Params.lateFloor_le_easiest : params.lateFloor.value ≤ params.easiest :=
  Nat.le_trans (Nat.le_max_left _ _) (Nat.le_max_left _ _)

theorem Params.earlyFloor_le_easiest : params.earlyFloor.value ≤ params.easiest :=
  Nat.le_trans (Nat.le_max_right _ _) (Nat.le_max_left _ _)

theorem Params.floorAt_le_easiest (height : Nat) :
    (params.floorAt height).value ≤ params.easiest := by
  unfold floorAt
  split
  · exact lateFloor_le_easiest
  · exact earlyFloor_le_easiest

/-- The anchor counts among the easiest targets only where it is ever required. -/
theorem Shield.IsAnchorHeight.le_easiest {shield : Shield} {height : Nat}
    (h : shield.IsAnchorHeight params height) : anchor.value ≤ params.easiest := by
  obtain ⟨_, hAnchored, _⟩ := h
  unfold Params.easiest
  rw [if_pos (of_decide_eq_true hAnchored)]
  exact Nat.le_max_right _ _

end Settings

variable {params : Params} {prev : Cursor} {time : UInt32} {target : Target}

/-- Scaling ends at its cap, which is one of the two floors. -/
theorem Rescales.le_easiest {old cap : Target} {actual expected : Nat}
    (h : Rescales params prev old actual expected cap) :
    (old.rescale actual expected cap).value ≤ params.easiest := by
  have hCap : cap.value ≤ params.easiest := by
    cases h with
    | boundary => exact Params.floorAt_le_easiest _
    | shield => exact Params.earlyFloor_le_easiest
  exact Nat.le_trans Target.rescale_le hCap

/-- Above targets within the easiest one of the settings, the required target is within it too. -/
theorem Required.le_easiest
    (hBelow : ∀ k target, k ≤ prev.height → prev.view.HasTarget k target →
      target.value ≤ params.easiest)
    (h : Required params prev time target) : target.value ≤ params.easiest := by
  have hCopied : ∀ {target}, prev.target = .ok target → target.value ≤ params.easiest :=
    fun hTarget => hBelow _ _ (Nat.le_refl _) (Cursor.target_eq_ok_iff.mp hTarget)
  cases h with
  | floorStep _ => exact Params.lateFloor_le_easiest
  | anchor _ hAnchor => exact hAnchor.le_easiest
  | slow => exact Params.floorAt_le_easiest _
  | regular _ _ _ _ hTarget =>
      obtain ⟨source, hSource, hEnds, _⟩ := Interval.regularTarget_eq_ok_iff.mp hTarget
      exact hBelow source target hSource hEnds.1
  | copied _ _ _ hTarget => exact hCopied hTarget
  | kept _ _ _ _ hTarget => exact hCopied hTarget
  | rescaled hRescales => exact hRescales.le_easiest

namespace Segment

variable {segment : Segment} {tip : Nat}

/-- No header of an accepted chain is easier than the settings allow at all. -/
theorem FromGenesis.le_easiest (h : FromGenesis params segment) (hTip : segment.tipHeight = some tip)
    {height : Nat} (hTarget : segment.view.HasTarget height target) :
    target.value ≤ params.easiest := by
  refine h.targets_of_step hTip (P := fun _ target => target.value ≤ params.easiest)
    Params.earlyFloor_le_easiest ?_ hTarget
  intro prev header required _ _ hBelow hRequired
  exact hRequired.le_easiest hBelow

/-- From genesis on no header is easier than the easiest target of the settings, and nothing easier is
required on top of any of them. -/
theorem le_easiest_of_audit {genesis : Header} {first : Target} {checked : Nat}
    (hBase : segment.base = 0) (hTip : segment.tipHeight = some tip)
    (hHeld : segment.headerAt 0 = some genesis)
    (hFirst : requiredTarget params none time = .ok first)
    (hGenesis : (Rules.difficultyBits first genesis).verdict = .ok ())
    (hAudit : segment.audit params = .ok checked) :
    (∀ height header, segment.headerAt height = some header →
      ∃ target, Target.ofBits header.bits = .ok target ∧ target.value ≤ params.easiest) ∧
    ∀ height prev, segment.at? height = some prev → ∀ candidate target,
      requiredTarget params (some prev) candidate = .ok target → target.value ≤ params.easiest := by
  have hChain := FromGenesis.of_audit hBase hTip hHeld hFirst hGenesis hAudit
  constructor
  · intro height header hHeader
    obtain ⟨target, hBits⟩ := hChain.decodes hTip height header hHeader
    exact ⟨target, hBits, hChain.le_easiest hTip ⟨header, hHeader, hBits⟩⟩
  · intro height prev hPrev candidate target hRequired
    obtain ⟨hView, _⟩ := View.at?_eq_some_iff.mp hPrev
    apply (requiredTarget_eq_ok_iff.mp hRequired).2.le_easiest
    intro k found _ hFound
    rw [hView] at hFound
    exact hChain.le_easiest hTip hFound

/-- The production network with hard floors, and per-block retargets right after genesis. -/
def hardFloors : Params :=
  { Params.mainnet with
    lateFloor := .expand 0x1a00ffff
    earlyFloor := .expand 0x1a00ffff
    shieldV1After := 0 }

def anchoredAbove : Segment where
  headers := #[{ time := 1540000000, bits := 0x1a00ffff }, { time := 1540000600, bits := 0x1b01a61a }]

def anchoredTip : Cursor where
  view := anchoredAbove.view
  height := 1
  header := { time := 1540000600, bits := 0x1b01a61a }
  held := rfl

/-- The fixed target is easier than both floors, and the headers after the first keep within it. -/
theorem le_easiest_of_audit_anchoredAbove :
    anchoredAbove.audit hardFloors = .ok 1 ∧
      hardFloors.lateFloor.value < hardFloors.easiest ∧
      hardFloors.earlyFloor.value < hardFloors.easiest ∧
      requiredTarget hardFloors (some anchoredTip) 1540001200 = .ok Shield.anchor ∧
      Shield.anchor.value = hardFloors.easiest ∧
      (∀ height header, anchoredAbove.headerAt height = some header →
        ∃ target, Target.ofBits header.bits = .ok target ∧ target.value ≤ hardFloors.easiest) ∧
      ∀ height prev, anchoredAbove.at? height = some prev → ∀ candidate target,
        requiredTarget hardFloors (some prev) candidate = .ok target →
          target.value ≤ hardFloors.easiest := by
  have hTip : anchoredAbove.tipHeight = some 1 := by rfl
  have hHeld : anchoredAbove.headerAt 0 = some { time := 1540000000, bits := 0x1a00ffff } := by rfl
  have hFirst : requiredTarget hardFloors none 1540000000 = .ok hardFloors.earlyFloor := by rfl
  have hGenesis : (Rules.difficultyBits hardFloors.earlyFloor
      { time := 1540000000, bits := 0x1a00ffff }).verdict = .ok () := by rfl
  have hAudit : anchoredAbove.audit hardFloors = .ok 1 := by rfl
  exact ⟨hAudit, by decide, by decide, by rfl, by decide,
    le_easiest_of_audit rfl hTip hHeld hFirst hGenesis hAudit⟩

end Segment

end PowRules
