import PowRules.Proofs.Chain.Segment
import PowRules.Proofs.Rules

/-! An audit accepts a segment exactly when each header above the first follows from its predecessor.
Auditing a segment after a push is auditing it before, and then the pushed header. -/
namespace PowRules.Segment

open Rules

variable {params : Params} {segment : Segment} {tip height count n : Nat}

/-- Each header above the first one carries what is required and comes late enough. -/
def Accepted (params : Params) (segment : Segment) : Prop :=
  ∀ (prev : Cursor) (header : Header), prev.view = segment.view →
    segment.headerAt (prev.height + 1) = some header → Follows params prev header

/-- The part of an audit for one header on top of `prev`. -/
def auditOne (params : Params) (prev : Cursor) (header : Header) : Except Rejection Unit :=
  (stored params prev header).verdict.mapError fun error => ⟨prev.height + 1, error⟩

theorem auditOne_eq_ok_iff {prev : Cursor} {header : Header} :
    auditOne params prev header = .ok () ↔ Follows params prev header := by
  unfold auditOne
  rw [← stored_eq_ok_iff]
  cases (stored params prev header).verdict with
  | ok _ => exact iff_of_true rfl rfl
  | error error =>
      constructor
      · intro h
        cases h
      · intro h
        cases h

theorem auditOne_congr {first second : Cursor} (h : first.Alike second) (header : Header) :
    auditOne params first header = auditOne params second header := by
  unfold auditOne
  rw [stored_congr h, h.1]

/-- One step of an audit, where both the header and its predecessor are held. -/
theorem auditFrom_succ {prev candidate : Cursor} (hPrev : segment.at? height = some prev)
    (hCandidate : segment.at? (height + 1) = some candidate) :
    auditFrom params segment (count + 1) (height + 1) =
      auditOne params prev candidate.header >>= fun _ =>
        (auditFrom params segment count (height + 2)).map (· + 1) := by
  obtain ⟨_, rfl⟩ := View.at?_eq_some_iff.mp hPrev
  rw [auditFrom, Nat.add_sub_cancel, hPrev, hCandidate]
  unfold auditOne
  dsimp only
  cases (stored params prev candidate.header).verdict with
  | ok _ => rfl
  | error error => rfl

/-- An audit of the top `count` heights succeeds when each held header above `height` follows the one
below it. The induction is on the number of heights left, since the audit walks upwards. -/
theorem auditFrom_eq_ok_iff (hTip : segment.tipHeight = some tip)
    (hBase : segment.base.toNat ≤ height) (hCount : height + count = tip) :
    auditFrom params segment count (height + 1) = .ok n ↔
      n = count ∧ ∀ (prev : Cursor) (header : Header), prev.view = segment.view →
        height ≤ prev.height → segment.headerAt (prev.height + 1) = some header →
          Follows params prev header := by
  induction count generalizing height n with
  | zero =>
      obtain rfl : height = tip := hCount
      rw [auditFrom, Except.ok.injEq, eq_comm, iff_self_and]
      intro _ prev header _ hHeight hHeader
      have hHeld := (exists_headerAt_iff hTip).mp ⟨header, hHeader⟩
      omega
  | succ count ih =>
      obtain ⟨prev, hPrev⟩ := (exists_at?_iff hTip).mpr ⟨hBase, by omega⟩
      obtain ⟨candidate, hCandidate⟩ :=
        (exists_at?_iff hTip).mpr ⟨Nat.le_succ_of_le hBase, show height + 1 ≤ tip by omega⟩
      obtain ⟨hPrevView, hPrevHeight⟩ := View.at?_eq_some_iff.mp hPrev
      obtain ⟨hView, hHeight⟩ := View.at?_eq_some_iff.mp hCandidate
      have hHeader : segment.headerAt (prev.height + 1) = some candidate.header := by
        have hHeld := headerAt_cursor hView
        rw [hHeight] at hHeld
        rw [hPrevHeight]
        exact hHeld
      rw [auditFrom_succ hPrev hCandidate, bind_eq_ok_iff]
      constructor
      · rintro ⟨_, hOne, hOthers⟩
        obtain ⟨m, hRest, rfl⟩ := map_eq_ok_iff.mp hOthers
        obtain ⟨rfl, hAbove⟩ := (ih (Nat.le_succ_of_le hBase) (by omega)).mp hRest
        refine ⟨rfl, ?_⟩
        intro other header hOther hLow hHeld
        rcases Nat.lt_or_eq_of_le hLow with hAboveLow | hSame
        · exact hAbove other header hOther hAboveLow hHeld
        · obtain rfl := at?_unique hPrevView hOther (hPrevHeight.trans hSame)
          cases hHeader.symm.trans hHeld
          exact auditOne_eq_ok_iff.mp hOne
      · rintro ⟨rfl, hAll⟩
        have hFollows := hAll prev _ hPrevView (Nat.le_of_eq hPrevHeight.symm) hHeader
        have hRest := (ih (Nat.le_succ_of_le hBase) (by omega)).mpr
          ⟨rfl, fun other header hOther hLow => hAll other header hOther (Nat.le_of_succ_le hLow)⟩
        exact ⟨(), auditOne_eq_ok_iff.mpr hFollows, map_eq_ok_iff.mpr ⟨count, hRest, rfl⟩⟩

/-- A whole audit counts all heights above the base, and succeeds for accepted segments only. -/
theorem audit_eq_ok_iff (hTip : segment.tipHeight = some tip) :
    segment.audit params = .ok n ↔ n = tip - segment.base.toNat ∧ segment.Accepted params := by
  obtain ⟨_, _, _, hBase⟩ := tipHeight_eq_some_iff.mp hTip
  unfold audit
  rw [hTip]
  dsimp only
  rw [auditFrom_eq_ok_iff hTip (Nat.le_refl _) (by omega)]
  apply and_congr_right
  rintro -
  constructor
  · intro hAll prev header hView hHeader
    have hHeld := (exists_headerAt_iff hTip).mp ⟨_, headerAt_cursor hView⟩
    exact hAll prev header hView hHeld.1 hHeader
  · intro hAccepted prev header hView _ hHeader
    exact hAccepted prev header hView hHeader

/-- In an accepted segment each header above the base has a predecessor that it follows. -/
theorem Accepted.exists_prev (h : segment.Accepted params) (hTip : segment.tipHeight = some tip)
    {header : Header} (hHeader : segment.headerAt (height + 1) = some header)
    (hBase : segment.base.toNat ≤ height) :
    ∃ prev : Cursor, prev.view = segment.view ∧ prev.height = height ∧ Follows params prev header := by
  have hHeld := (exists_headerAt_iff hTip).mp ⟨header, hHeader⟩
  obtain ⟨prev, hPrev⟩ := (exists_at?_iff hTip).mpr ⟨hBase, show height ≤ tip by omega⟩
  obtain ⟨hView, rfl⟩ := View.at?_eq_some_iff.mp hPrev
  exact ⟨prev, hView, rfl, h prev header hView hHeader⟩

/-- What holds of the target of one height, and is carried over by each required target, holds of all
targets from there on. -/
theorem Accepted.targets_of_step (h : segment.Accepted params) (hTip : segment.tipHeight = some tip)
    {P : Nat → Target → Prop} {start : Nat} (hBase : segment.base.toNat ≤ start)
    (hStart : ∀ target, segment.view.HasTarget start target → P start target)
    (hStep : ∀ (prev : Cursor) (header : Header) (target : Target), prev.view = segment.view →
      segment.headerAt (prev.height + 1) = some header → start ≤ prev.height →
        (∀ k target, start ≤ k → k ≤ prev.height → segment.view.HasTarget k target → P k target) →
          Required params prev header.time target → P (prev.height + 1) target)
    {target : Target} (hAbove : start ≤ height) (hTarget : segment.view.HasTarget height target) :
    P height target := by
  induction height using Nat.strongRecOn generalizing target with
  | _ height ih =>
      rcases Nat.lt_or_eq_of_le hAbove with hLater | rfl
      · obtain ⟨before, rfl⟩ : ∃ before, height = before + 1 := ⟨height - 1, by omega⟩
        obtain ⟨header, hHeader, hBits⟩ := hTarget
        obtain ⟨prev, hView, rfl, hFollows⟩ := h.exists_prev hTip hHeader (by omega)
        obtain ⟨required, hRequired, hCarried⟩ := hFollows.required
        obtain rfl := Except.ok.inj (hBits.symm.trans hCarried)
        refine hStep prev header _ hView hHeader (Nat.le_of_lt_succ hLater) ?_ hRequired
        intro k found hLow hHigh hFound
        exact ih k (Nat.lt_succ_of_le hHigh) hLow hFound
      · exact hStart target hTarget

/-- The spacing of neighbours adds up over any stretch of the segment. -/
theorem Accepted.times (h : segment.Accepted params) (hTip : segment.tipHeight = some tip)
    {low gap : Nat} {first last : Header} (hFirst : segment.headerAt low = some first)
    (hLast : segment.headerAt (low + gap) = some last) :
    first.time.toNat + minSpacing * gap ≤ last.time.toNat := by
  induction gap generalizing last with
  | zero =>
      cases hFirst.symm.trans hLast
      simp
  | succ gap ih =>
      have hLow := (exists_headerAt_iff hTip).mp ⟨first, hFirst⟩
      obtain ⟨prev, hView, hHeight, hFollows⟩ :=
        h.exists_prev hTip hLast (show segment.base.toNat ≤ low + gap by omega)
      have hStretch := ih (hHeight ▸ headerAt_cursor hView)
      have hSpacing : prev.header.time.toNat + minSpacing ≤ last.time.toNat := hFollows.spacing
      rw [Nat.mul_succ]
      omega

/-- Times are words, so spacing keeps an accepted segment far from the greatest size. -/
theorem Accepted.size_lt (h : segment.Accepted params) (hTip : segment.tipHeight = some tip) :
    segment.headers.size < maxHeight := by
  obtain ⟨_, _, hSize, hBase⟩ := tipHeight_eq_some_iff.mp hTip
  obtain ⟨first, hFirst⟩ := (exists_headerAt_iff hTip).mpr ⟨Nat.le_refl _, hBase⟩
  obtain ⟨last, hLast⟩ := (exists_headerAt_iff hTip).mpr ⟨hBase, Nat.le_refl _⟩
  have hGap : segment.base.toNat + (tip - segment.base.toNat) = tip := by omega
  have hTimes := h.times hTip hFirst (by rw [hGap]; exact hLast)
  have hTime := last.time.toNat_lt
  simp only [minSpacing, maxHeight] at *
  omega

section Push

variable {top : Cursor} (header : Header)

/-- Auditing a segment with one more header is auditing it without, and then that header on top of the
old tip. The headers below are found as before, so only the end of the walk changes. -/
theorem auditFrom_push (hTop : segment.tip = some top) (hHeight : top.height < maxHeight)
    (hBase : segment.base.toNat ≤ height) (hCount : height + count = top.height) :
    auditFrom params (segment.push header) (count + 1) (height + 1) =
      auditFrom params segment count (height + 1) >>= fun checked =>
        (auditOne params top header).map fun _ => checked + 1 := by
  obtain ⟨hTip, hTopView⟩ := tip_eq_some_iff.mp hTop
  induction count generalizing height with
  | zero =>
      obtain rfl : height = top.height := hCount
      obtain ⟨lifted, hLifted, hAlike, _⟩ :=
        exists_at?_push header hTip (View.at?_eq_some_iff.mpr ⟨hTopView, rfl⟩)
      have hPushed := View.at?_of_headerAt
        (show (segment.push header).view.headerAt (top.height + 1) = some header from
          headerAt_push_top header hTip hHeight)
      rw [auditFrom_succ hLifted hPushed, ← auditOne_congr hAlike]
      change _ = (auditOne params top header).map fun _ => 0 + 1
      cases auditOne params top header with
      | ok _ => rfl
      | error rejection => rfl
  | succ count ih =>
      obtain ⟨prev, hPrev⟩ := (exists_at?_iff hTip).mpr ⟨hBase, by omega⟩
      obtain ⟨candidate, hCandidate⟩ :=
        (exists_at?_iff hTip).mpr
          ⟨Nat.le_succ_of_le hBase, show height + 1 ≤ top.height by omega⟩
      -- Below the old tip both audits read the same headers, each through its own view.
      obtain ⟨liftedPrev, hLiftedPrev, hPrevAlike, _⟩ := exists_at?_push header hTip hPrev
      obtain ⟨lifted, hLifted, _, hSame⟩ := exists_at?_push header hTip hCandidate
      rw [auditFrom_succ hPrev hCandidate, auditFrom_succ hLiftedPrev hLifted, hSame,
        ← auditOne_congr hPrevAlike, ih (Nat.le_succ_of_le hBase) (by omega)]
      cases auditOne params prev candidate.header with
      | error rejection => rfl
      | ok _ =>
          cases auditFrom params segment count (height + 2) with
          | error rejection => rfl
          | ok checked => cases auditOne params top header <;> rfl

/-- The audit of a longer segment reports the first fault of the shorter one, and only then looks at
the header on top. -/
theorem audit_push (hTop : segment.tip = some top)
    (hPushed : (segment.push header).tipHeight = some (top.height + 1)) :
    (segment.push header).audit params =
      segment.audit params >>= fun checked =>
        (auditOne params top header).map fun _ => checked + 1 := by
  obtain ⟨hTip, _⟩ := tip_eq_some_iff.mp hTop
  obtain ⟨_, _, _, hBase⟩ := tipHeight_eq_some_iff.mp hTip
  have hHeight := (tipHeight_eq_some_iff.mp hPushed).2.1
  have hCount : top.height + 1 - segment.base.toNat = top.height - segment.base.toNat + 1 := by
    omega
  unfold audit
  rw [hPushed, hTip]
  change auditFrom params (segment.push header) (top.height + 1 - segment.base.toNat)
    (segment.base.toNat + 1) = _
  rw [hCount, auditFrom_push header hTop hHeight (Nat.le_refl _) (by omega)]

end Push

end PowRules.Segment
