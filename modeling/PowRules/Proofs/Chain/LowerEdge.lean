import PowRules.Proofs.Chain.Segment
import PowRules.Proofs.Chain.WindowTime
import PowRules.Proofs.Retarget.Refused
import PowRules.Proofs.Retarget.RegularTarget
import PowRules.Proofs.Retarget.Shield

/-! Where a segment starts too high for the rules. Of the heights up to a held header only those below the
base are missing, so each look-up and each walk back fails at a height known in advance, and where all bits
stand for targets nothing else fails. -/
namespace PowRules.Segment

variable {params : Params} {segment : Segment} {prev cursor : Cursor} {time : UInt32}
  {height window interval : Nat} {floor : Target} {error : RuleError}

/-- The bits of each held header stand for a target. -/
def Decodes (segment : Segment) : Prop :=
  ∀ height header, segment.headerAt height = some header →
    ∃ target, Target.ofBits header.bits = .ok target

/-- The target on top of `prev` needs the header at this height, which is below the segment. -/
inductive NeedsBelow (params : Params) (segment : Segment) (prev : Cursor) (time : UInt32) :
    Nat → Prop where
  /-- The first header of the interval. -/
  | start
      (hRegime : Regime.ofHeight params (prev.height + 1) = .interval)
      (hBoundary : (prev.height + 1) % params.interval = 0)
      (hBelow : prev.height + 1 - params.interval < segment.base.toNat) :
      NeedsBelow params segment prev time (prev.height + 1 - params.interval)
  /-- The nearest regular header, where the search passes all that are held. -/
  | regular
      (hRegime : Regime.ofHeight params (prev.height + 1) = .interval)
      (hInside : (prev.height + 1) % params.interval ≠ 0)
      (hException : params.slowAtFloor = true)
      (hFast : time.toNat ≤ prev.time.toNat + 2 * params.spacing.toNat)
      (hPassed : ∀ k, segment.base.toNat ≤ k → k ≤ prev.height → k % params.interval ≠ 0 ∧
        ∀ target, segment.view.HasTarget k target → target = params.floorAt (prev.height + 1)) :
      NeedsBelow params segment prev time (segment.base.toNat - 1)
  /-- A window that would start below genesis. -/
  | short {shield : Shield}
      (hRegime : (Regime.ofHeight params (prev.height + 1)).shield? = some shield)
      (hAnchor : ¬shield.IsAnchorHeight params (prev.height + 1))
      (hShort : prev.height + 1 < shield.window) :
      NeedsBelow params segment prev time 0
  /-- The last header of the earlier window. -/
  | first {shield : Shield}
      (hRegime : (Regime.ofHeight params (prev.height + 1)).shield? = some shield)
      (hAnchor : ¬shield.IsAnchorHeight params (prev.height + 1))
      (hWindow : shield.window ≤ prev.height + 1)
      (hBelow : prev.height + 1 - shield.window < segment.base.toNat) :
      NeedsBelow params segment prev time (prev.height + 1 - shield.window)
  /-- Another header of the earlier window, which only genesis may cut short. -/
  | sample {shield : Shield}
      (hRegime : (Regime.ofHeight params (prev.height + 1)).shield? = some shield)
      (hAnchor : ¬shield.IsAnchorHeight params (prev.height + 1))
      (hWindow : shield.window ≤ prev.height + 1)
      (hFirst : segment.base.toNat ≤ prev.height + 1 - shield.window)
      (hBase : 0 < segment.base.toNat)
      (hBelow : ((prev.height + 1 - shield.window : Nat) : Int) - (shield.sample - 1) <
        segment.base.toNat) :
      NeedsBelow params segment prev time (segment.base.toNat - 1)

section Held

theorem headerAt_of_lt_base (h : height < segment.base.toNat) : segment.headerAt height = none :=
  if_neg fun hHeld => Nat.not_le_of_lt h hHeld.2

/-- Nothing is held below the base. -/
theorem base_le_of_headerAt {header : Header} (h : segment.headerAt height = some header) :
    segment.base.toNat ≤ height := by
  apply Nat.le_of_not_lt
  intro hBelow
  cases (headerAt_of_lt_base hBelow).symm.trans h

theorem base_le_cursor (hView : cursor.view = segment.view) :
    segment.base.toNat ≤ cursor.height :=
  base_le_of_headerAt (headerAt_cursor hView)

/-- From a held header down to the base all headers are held. -/
theorem exists_headerAt_below (hView : cursor.view = segment.view)
    (hBase : segment.base.toNat ≤ height) (hHeight : height ≤ cursor.height) :
    ∃ header, segment.headerAt height = some header := by
  have hTop := headerAt_cursor hView
  have hLast : cursor.height ≤ maxHeight := by
    unfold headerAt at hTop
    split at hTop
    next hHeld => exact hHeld.1
    next => cases hTop
  rw [headerAt_eq_getElem? (base_le_cursor hView) hLast] at hTop
  obtain ⟨hSize, _⟩ := Array.getElem?_eq_some_iff.mp hTop
  rw [headerAt_eq_getElem? hBase (Nat.le_trans hHeight hLast)]
  exact ⟨_, Array.getElem?_eq_getElem (by omega)⟩

/-- Up to a held height, only the heights below the base are missing. -/
theorem headerAt_eq_none_iff (hView : cursor.view = segment.view) (hHeight : height ≤ cursor.height) :
    segment.headerAt height = none ↔ height < segment.base.toNat := by
  constructor
  · intro hMissing
    apply Nat.lt_of_not_le
    intro hBase
    obtain ⟨header, hHeader⟩ := exists_headerAt_below hView hBase hHeight
    cases hMissing.symm.trans hHeader
  · exact headerAt_of_lt_base

end Held

section Lookups

/-- A look-up by height fails below the segment and nowhere else. -/
theorem ancestor_eq_error_iff (hView : cursor.view = segment.view)
    (hHeight : height ≤ cursor.height) :
    cursor.ancestor height = .error error ↔
      height < segment.base.toNat ∧ error = .missingAncestor height := by
  rw [Cursor.ancestor_eq_error_iff, hView, ← headerAt_eq_none_iff hView hHeight]
  simp [hHeight, view]

theorem exists_ancestor (hView : cursor.view = segment.view)
    (hBase : segment.base.toNat ≤ height) (hHeight : height ≤ cursor.height) :
    ∃ found : Cursor, cursor.ancestor height = .ok found ∧ found.view = segment.view ∧
      found.height = height := by
  obtain ⟨header, hHeader⟩ := exists_headerAt_below hView hBase hHeight
  have hSeen : cursor.view.headerAt height = some header := by
    rw [hView]
    exact hHeader
  obtain ⟨found, hFound⟩ := Cursor.exists_ancestor hHeight hSeen
  obtain ⟨_, hFoundView, hFoundHeight⟩ := Cursor.ancestor_eq_ok_iff.mp hFound
  exact ⟨found, hFound, hFoundView.trans hView, hFoundHeight⟩

/-- A walk back over a window fails just below the base, unless it ends before that. -/
theorem windowTime_eq_error_iff (hView : cursor.view = segment.view) :
    cursor.windowTime window = .error error ↔
      0 < segment.base.toNat ∧ cursor.height < segment.base.toNat + (max window 1 - 1) ∧
        error = .missingAncestor (segment.base.toNat - 1) := by
  have hBase := base_le_cursor hView
  rw [Cursor.windowTime_eq_error_iff, hView]
  constructor
  · rintro ⟨k, hBelow, hWithin, hMissing, hHeld, rfl⟩
    have hUnder := (headerAt_eq_none_iff hView (Nat.le_of_lt hBelow)).mp hMissing
    have hNext : segment.base.toNat ≤ k + 1 := by
      rcases Nat.lt_or_ge (k + 1) cursor.height with hInner | hTop
      · obtain ⟨header, hHeader⟩ := hHeld (k + 1) (Nat.lt_succ_self k) hInner
        exact base_le_of_headerAt hHeader
      · omega
    obtain rfl : k = segment.base.toNat - 1 := by omega
    exact ⟨by omega, by omega, rfl⟩
  · rintro ⟨hPositive, hWithin, rfl⟩
    refine ⟨segment.base.toNat - 1, by omega, by omega, headerAt_of_lt_base (by omega), ?_, rfl⟩
    intro j hAbove hBelow
    exact exists_headerAt_below hView (by omega) (Nat.le_of_lt hBelow)

theorem exists_windowTime (hView : cursor.view = segment.view)
    (hWhole : segment.base.toNat + (max window 1 - 1) ≤ cursor.height) :
    ∃ time, cursor.windowTime window = .ok time := by
  cases hTime : cursor.windowTime window with
  | error error =>
      obtain ⟨_, hShort, _⟩ := (windowTime_eq_error_iff hView).mp hTime
      exact absurd hWhole (Nat.not_le_of_lt hShort)
  | ok time => exact ⟨time, rfl⟩

/-- A window with a time lies in the segment, down to its lowest height. -/
theorem base_le_of_windowTime {found : Nat} (hView : cursor.view = segment.view)
    (h : cursor.windowTime window = .ok found) :
    segment.base.toNat ≤ cursor.height + 1 - max window 1 := by
  by_contra hBelow
  have hMissing : cursor.windowTime window = .error (.missingAncestor (segment.base.toNat - 1)) :=
    (windowTime_eq_error_iff hView).mpr ⟨by omega, by omega, rfl⟩
  cases h.symm.trans hMissing

namespace Decodes

theorem of_mem (h : ∀ header ∈ segment.headers, ∃ target, Target.ofBits header.bits = .ok target) :
    segment.Decodes := by
  intro height header hHeader
  unfold headerAt at hHeader
  split at hHeader
  next => exact h header (Array.mem_of_getElem? hHeader)
  next => cases hHeader

theorem exists_target (h : segment.Decodes) (hView : cursor.view = segment.view) :
    ∃ target, cursor.target = .ok target :=
  h cursor.height cursor.header (headerAt_cursor hView)

/-- Where all bits decode, no target can be missing for its bits. -/
theorem target_ne_error (h : segment.Decodes) (hView : cursor.view = segment.view) :
    cursor.target ≠ .error error := by
  obtain ⟨target, hTarget⟩ := h.exists_target hView
  rw [hTarget]
  exact nofun

theorem isPassed_iff (h : segment.Decodes) {header : Header}
    (hHeader : segment.headerAt height = some header) :
    Interval.IsPassed segment.view interval floor height ↔
      height % interval ≠ 0 ∧ ∀ target, segment.view.HasTarget height target → target = floor := by
  obtain ⟨found, hFound⟩ := h height header hHeader
  have hTarget : segment.view.HasTarget height found := ⟨header, hHeader, hFound⟩
  apply and_congr_right
  intro _
  constructor
  · intro hFloor target hOther
    exact hOther.unique hFloor
  · intro hAll
    rw [← hAll found hTarget]
    exact hTarget

/-- The search fails just below the base, if it passes all headers down to there. -/
theorem regularTarget_eq_error_iff (h : segment.Decodes) (hView : cursor.view = segment.view) :
    Interval.regularTarget interval floor cursor = .error error ↔
      (∀ k, segment.base.toNat ≤ k → k ≤ cursor.height →
        Interval.IsPassed segment.view interval floor k) ∧
          error = .missingAncestor (segment.base.toNat - 1) := by
  have hBase := base_le_cursor hView
  rw [Interval.regularTarget_eq_error_iff, hView]
  constructor
  · rintro ⟨source, hSource, hFails, hPassed⟩
    cases hFails with
    | missing hMissing =>
        have hUnder := (headerAt_eq_none_iff hView hSource).mp hMissing
        have hNext : segment.base.toNat ≤ source + 1 := by
          obtain ⟨header, hHeader, _⟩ := (hPassed (source + 1) (Nat.lt_succ_self source) (by omega)).2
          exact base_le_of_headerAt hHeader
        obtain rfl : source = segment.base.toNat - 1 := by omega
        exact ⟨fun k hLow hHigh => hPassed k (by omega) hHigh, rfl⟩
    | malformed hHeader hBits =>
        obtain ⟨target, hTarget⟩ := h source _ hHeader
        cases hBits.symm.trans hTarget
  · rintro ⟨hPassed, rfl⟩
    have hPositive : 0 < segment.base.toNat := by
      apply Nat.pos_of_ne_zero
      intro hZero
      exact (hPassed 0 (Nat.le_of_eq hZero) (Nat.zero_le _)).1 (Nat.zero_mod interval)
    refine ⟨segment.base.toNat - 1, by omega, .missing (headerAt_of_lt_base (by omega)), ?_⟩
    intro k hAbove hHigh
    exact hPassed k (by omega) hHigh

end Decodes

end Lookups

section Edge

/-- A target that cannot be computed needs a header below the segment. Each reason is matched with its
case, and the reasons for malformed bits fall away since all bits decode. -/
theorem needsBelow_of_refused (hDecodes : segment.Decodes) (hView : prev.view = segment.view)
    (h : Refused params prev time error) :
    ∃ height, error = .missingAncestor height ∧ NeedsBelow params segment prev time height := by
  have hBase := base_le_cursor hView
  cases h with
  | noStart hRegime hBoundary hFirst =>
      have hInterval := params.interval_pos
      obtain ⟨hBelow, rfl⟩ := (ancestor_eq_error_iff hView (by omega)).mp hFirst
      exact ⟨_, rfl, .start hRegime hBoundary hBelow⟩
  | boundaryBits _ _ _ hBits => exact absurd hBits (hDecodes.target_ne_error hView)
  | noRegular hRegime hInside hException hFast hSearch =>
      obtain ⟨hPassed, rfl⟩ := (hDecodes.regularTarget_eq_error_iff hView).mp hSearch
      refine ⟨_, rfl, .regular hRegime hInside hException (Nat.le_of_not_lt hFast) ?_⟩
      intro k hLow hHigh
      obtain ⟨header, hHeader⟩ := exists_headerAt_below hView hLow hHigh
      exact (hDecodes.isPassed_iff hHeader).mp (hPassed k hLow hHigh)
  | copiedBits _ _ _ hBits => exact absurd hBits (hDecodes.target_ne_error hView)
  | short hRegime hAnchor hShort => exact ⟨0, rfl, .short hRegime hAnchor hShort⟩
  | noFirst hRegime hAnchor hWindow hFirst =>
      have hSample := Regime.shield?_sample hRegime
      obtain ⟨hBelow, rfl⟩ := (ancestor_eq_error_iff hView (by omega)).mp hFirst
      exact ⟨_, rfl, .first hRegime hAnchor hWindow hBelow⟩
  | @noLate shield first error hRegime hAnchor hWindow hFirst hLate =>
      have hSample := Regime.shield?_sample hRegime
      obtain ⟨_, hFirstView, hFirstHeight⟩ := Cursor.ancestor_eq_ok_iff.mp hFirst
      have hFirstBase := base_le_cursor (hFirstView.trans hView)
      -- The later window ends above the earlier one by more than its own length.
      obtain ⟨late, hOther⟩ := exists_windowTime hView
        (show segment.base.toNat + (max shield.sample 1 - 1) ≤ prev.height by omega)
      cases hLate.symm.trans hOther
  | @noEarly shield first late error hRegime hAnchor hWindow hFirst hLate hEarly =>
      have hSample := Regime.shield?_sample hRegime
      obtain ⟨_, hFirstView, hFirstHeight⟩ := Cursor.ancestor_eq_ok_iff.mp hFirst
      have hFirstBase := base_le_cursor (hFirstView.trans hView)
      obtain ⟨hPositive, hShort, rfl⟩ :=
        (windowTime_eq_error_iff (hFirstView.trans hView)).mp hEarly
      exact ⟨_, rfl, .sample hRegime hAnchor hWindow (by omega) hPositive (by omega)⟩
  | shieldBits _ _ _ _ _ _ hBits => exact absurd hBits (hDecodes.target_ne_error hView)

/-- Conversely each header that is needed and lies below the segment is reported as missing. -/
theorem NeedsBelow.refused (hDecodes : segment.Decodes) (hView : prev.view = segment.view)
    (h : NeedsBelow params segment prev time height) :
    Refused params prev time (.missingAncestor height) := by
  cases h with
  | start hRegime hBoundary hBelow =>
      have hInterval := params.interval_pos
      exact .noStart hRegime hBoundary
        ((ancestor_eq_error_iff hView (by omega)).mpr ⟨hBelow, rfl⟩)
  | regular hRegime hInside hException hFast hPassed =>
      refine .noRegular hRegime hInside hException (Nat.not_lt_of_le hFast) ?_
      refine (hDecodes.regularTarget_eq_error_iff hView).mpr ⟨?_, rfl⟩
      intro k hLow hHigh
      obtain ⟨header, hHeader⟩ := exists_headerAt_below hView hLow hHigh
      exact (hDecodes.isPassed_iff hHeader).mpr (hPassed k hLow hHigh)
  | short hRegime hAnchor hShort => exact .short hRegime hAnchor hShort
  | first hRegime hAnchor hWindow hBelow =>
      have hSample := Regime.shield?_sample hRegime
      exact .noFirst hRegime hAnchor hWindow
        ((ancestor_eq_error_iff hView (by omega)).mpr ⟨hBelow, rfl⟩)
  | @sample shield hRegime hAnchor hWindow hFirst hBase hBelow =>
      have hSample := Regime.shield?_sample hRegime
      obtain ⟨first, hAncestor, hFirstView, hFirstHeight⟩ :=
        exists_ancestor hView hFirst (by omega)
      obtain ⟨late, hLate⟩ := exists_windowTime hView
        (show segment.base.toNat + (max shield.sample 1 - 1) ≤ prev.height by omega)
      exact .noEarly hRegime hAnchor hWindow hAncestor hLate
        ((windowTime_eq_error_iff hFirstView).mpr ⟨hBase, by omega, rfl⟩)

/-- No target is required exactly where a header below the segment is needed. -/
theorem requiredTarget_eq_error_iff (hDecodes : segment.Decodes) (hView : prev.view = segment.view)
    (hHeight : prev.height < maxHeight) :
    requiredTarget params (some prev) time = .error error ↔
      ∃ height, error = .missingAncestor height ∧ NeedsBelow params segment prev time height := by
  rw [PowRules.requiredTarget_eq_error_iff hHeight]
  constructor
  · exact needsBelow_of_refused hDecodes hView
  · rintro ⟨height, rfl, hNeeds⟩
    exact hNeeds.refused hDecodes hView

/-- There is a target wherever no header is needed from below. -/
theorem exists_requiredTarget (hDecodes : segment.Decodes) (hView : prev.view = segment.view)
    (hHeight : prev.height < maxHeight)
    (hHeld : ∀ height, ¬NeedsBelow params segment prev time height) :
    ∃ target, requiredTarget params (some prev) time = .ok target := by
  cases hRequired : requiredTarget params (some prev) time with
  | error error =>
      obtain ⟨height, _, hNeeds⟩ :=
        (requiredTarget_eq_error_iff hDecodes hView hHeight).mp hRequired
      exact absurd hNeeds (hHeld height)
  | ok target => exact ⟨target, rfl⟩

end Edge

/-- Where all bits stand for targets, a missing header is reported exactly where a header below the
segment is needed, and that one is named. In every other case a target is required. -/
theorem requiredTarget_eq_missingAncestor_iff (hDecodes : segment.Decodes)
    (hView : prev.view = segment.view) (hHeight : prev.height < maxHeight) :
    (∀ height, requiredTarget params (some prev) time = .error (.missingAncestor height) ↔
      NeedsBelow params segment prev time height) ∧
    ((∀ height, ¬NeedsBelow params segment prev time height) →
      ∃ target, requiredTarget params (some prev) time = .ok target) := by
  refine ⟨?_, exists_requiredTarget hDecodes hView hHeight⟩
  intro height
  rw [requiredTarget_eq_error_iff hDecodes hView hHeight]
  simp

/-- Twenty headers of the test network from height 3000 on, under the second per-block retarget. -/
def fromThreeThousand : Segment where
  base := 3000
  headers := Array.replicate 20 { time := 1560000000, bits := 0x1d00ffff }

theorem decodes_fromThreeThousand : fromThreeThousand.Decodes := by
  apply Decodes.of_mem
  intro header hMem
  rw [Array.eq_of_mem_replicate hMem]
  exact ⟨Params.testnet.lateFloor, by rfl⟩

def shortOfOne : Cursor where
  view := fromThreeThousand.view
  height := 3018
  header := { time := 1560000000, bits := 0x1d00ffff }
  held := rfl

def justEnough : Cursor where
  view := fromThreeThousand.view
  height := 3019
  header := { time := 1560000000, bits := 0x1d00ffff }
  held := rfl

/-- Of twenty headers the last but one has a window one header too long, and the last one just has its
window. -/
theorem requiredTarget_eq_missingAncestor_iff_fromThreeThousand :
    requiredTarget .testnet (some shortOfOne) 1560000600 = .error (.missingAncestor 2999) ∧
      ∃ target, requiredTarget .testnet (some justEnough) 1560000600 = .ok target := by
  constructor
  · refine ((requiredTarget_eq_missingAncestor_iff decodes_fromThreeThousand rfl ?_).1 2999).mpr ?_
    · decide
    · exact .sample rfl (by decide) (by decide) (by decide) (by decide) (by decide)
  · refine (requiredTarget_eq_missingAncestor_iff decodes_fromThreeThousand rfl ?_).2 ?_
    · decide
    · intro height hNeeds
      cases hNeeds with
      | start hRegime _ _ => exact absurd hRegime (by decide)
      | regular hRegime _ _ _ _ => exact absurd hRegime (by decide)
      | short hRegime _ hShort =>
          obtain rfl := Option.some.inj hRegime
          exact absurd hShort (by decide)
      | first hRegime _ _ hBelow =>
          obtain rfl := Option.some.inj hRegime
          exact absurd hBelow (by decide)
      | sample hRegime _ _ _ _ hBelow =>
          obtain rfl := Option.some.inj hRegime
          exact absurd hBelow (by decide)

end PowRules.Segment
