import Mathlib.Order.Bounds.Basic
import PowRules.Proofs.Chain.View
import PowRules.Proofs.Verdict

/-! A window time lies halfway between the extreme times of its window. The window ends at genesis at the
latest, and a header that is missing above genesis is an error that names the highest one. -/
namespace PowRules.Cursor

variable {cursor : Cursor} {count window : Nat} {error : RuleError}

/-- The times in the window of `window` headers that ends here. -/
def sampled (cursor : Cursor) (window : Nat) : Set Nat :=
  {time | ∃ k header, k ≤ cursor.height ∧ cursor.height < k + max window 1 ∧
    cursor.view.headerAt k = some header ∧ header.time.toNat = time}

section EarlierTimes

variable {height : Nat} {header : Header}

theorem earlierTimes_genesis (hHeight : cursor.height = 0) : cursor.earlierTimes count = .ok [] := by
  cases count with
  | zero => rfl
  | succ count => simp [earlierTimes, previous, hHeight]

/-- A gap below the cursor is reported at once, with its height. -/
theorem earlierTimes_missing (hHeight : cursor.height = height + 1)
    (hMissing : cursor.view.headerAt height = none) :
    cursor.earlierTimes (count + 1) = .error (.missingAncestor height) := by
  simp [earlierTimes, previous, hHeight, View.at?_eq_none_iff.mpr hMissing]

theorem earlierTimes_succ (hHeight : cursor.height = height + 1)
    (hHeader : cursor.view.headerAt height = some header) :
    cursor.earlierTimes (count + 1) =
      (earlierTimes count ⟨cursor.view, height, header, hHeader⟩).map (header.time.toNat :: ·) := by
  simp [earlierTimes, previous, hHeight, View.at?_of_headerAt hHeader, time]

/-- The walk back fails at the first height that is not held. -/
theorem earlierTimes_eq_error_iff :
    cursor.earlierTimes count = .error error ↔
      ∃ k, k < cursor.height ∧ cursor.height ≤ k + count ∧ cursor.view.headerAt k = none ∧
        (∀ j, k < j → j < cursor.height → ∃ header, cursor.view.headerAt j = some header) ∧
          error = .missingAncestor k := by
  induction count generalizing cursor with
  | zero =>
      simp only [earlierTimes, reduceCtorEq, false_iff]
      rintro ⟨k, hBelow, hWithin, _⟩
      omega
  | succ count ih =>
      cases hHeight : cursor.height with
      | zero => simp [earlierTimes_genesis hHeight]
      | succ height =>
          cases hHeader : cursor.view.headerAt height with
          | none =>
              rw [earlierTimes_missing hHeight hHeader, Except.error.injEq]
              constructor
              · rintro rfl
                exact ⟨height, by omega, by omega, hHeader, fun j hj hle => by omega, rfl⟩
              · rintro ⟨k, hBelow, _, _, hHeld, rfl⟩
                rcases Nat.lt_or_eq_of_le (Nat.le_of_lt_succ hBelow) with hLower | rfl
                · obtain ⟨header, hThere⟩ := hHeld height hLower (Nat.lt_succ_self height)
                  cases hHeader.symm.trans hThere
                · rfl
          | some header =>
              rw [earlierTimes_succ hHeight hHeader, map_eq_error_iff, ih]
              constructor
              · rintro ⟨k, hBelow, hWithin, hMissing, hHeld, rfl⟩
                refine ⟨k, Nat.lt_succ_of_lt hBelow, Nat.succ_le_succ hWithin, hMissing, ?_, rfl⟩
                intro j hj hle
                rcases Nat.lt_or_eq_of_le (Nat.le_of_lt_succ hle) with hLower | rfl
                · exact hHeld j hj hLower
                · exact ⟨header, hHeader⟩
              · rintro ⟨k, hBelow, hWithin, hMissing, hHeld, rfl⟩
                have hLower : k < height := by
                  rcases Nat.lt_or_eq_of_le (Nat.le_of_lt_succ hBelow) with hLower | rfl
                  · exact hLower
                  · cases hHeader.symm.trans hMissing
                refine ⟨k, hLower, Nat.le_of_succ_le_succ hWithin, hMissing, ?_, rfl⟩
                intro j hj hle
                exact hHeld j hj (Nat.lt_succ_of_lt hle)

/-- The listed times are those of the `count` headers below the cursor, or of all of them when genesis
comes first. The induction is on the count, and a height is either that of the predecessor or further
down. -/
theorem mem_earlierTimes_iff {times : List Nat} {n : Nat}
    (h : cursor.earlierTimes count = .ok times) :
    n ∈ times ↔ ∃ k header, k < cursor.height ∧ cursor.height ≤ k + count ∧
      cursor.view.headerAt k = some header ∧ header.time.toNat = n := by
  induction count generalizing cursor times with
  | zero =>
      obtain rfl := Except.ok.inj h
      simp only [List.not_mem_nil, false_iff]
      rintro ⟨k, header, hBelow, hWithin, _⟩
      omega
  | succ count ih =>
      cases hHeight : cursor.height with
      | zero =>
          rw [earlierTimes_genesis hHeight] at h
          obtain rfl := Except.ok.inj h
          simp
      | succ height =>
          cases hHeader : cursor.view.headerAt height with
          | none => cases (earlierTimes_missing hHeight hHeader).symm.trans h
          | some top =>
              rw [earlierTimes_succ hHeight hHeader] at h
              obtain ⟨rest, hRest, rfl⟩ := map_eq_ok_iff.mp h
              rw [List.mem_cons, ih hRest]
              constructor
              · rintro (rfl | ⟨k, header, hBelow, hWithin, hHere, hTime⟩)
                · exact ⟨height, top, by omega, by omega, hHeader, rfl⟩
                · exact ⟨k, header, Nat.lt_succ_of_lt hBelow, Nat.succ_le_succ hWithin, hHere, hTime⟩
              · rintro ⟨k, header, hBelow, hWithin, hHere, hTime⟩
                rcases Nat.lt_or_eq_of_le (Nat.le_of_lt_succ hBelow) with hLower | rfl
                · exact .inr ⟨k, header, hLower, Nat.le_of_succ_le_succ hWithin, hHere, hTime⟩
                · cases hHeader.symm.trans hHere
                  exact .inl hTime.symm

end EarlierTimes

/-- The two folds give the least and the greatest of the numbers, in whatever order these come. -/
theorem midpoint_eq {first least greatest : Nat} {others : List Nat}
    (hLeast : IsLeast {n | n ∈ first :: others} least)
    (hGreatest : IsGreatest {n | n ∈ first :: others} greatest) :
    midpoint first others = least + (greatest - least) / 2 := by
  have hMin : (first :: others).min? = some least :=
    List.min?_eq_some_iff.mpr ⟨hLeast.1, fun n hn => hLeast.2 hn⟩
  have hMax : (first :: others).max? = some greatest :=
    List.max?_eq_some_iff.mpr ⟨hGreatest.1, fun n hn => hGreatest.2 hn⟩
  rw [List.min?_cons'] at hMin
  rw [List.max?_cons'] at hMax
  simp only [midpoint, Option.some.inj hMin, Option.some.inj hMax]

theorem sampled_eq {times : List Nat}
    (h : cursor.earlierTimes (max window 1 - 1) = .ok times) :
    cursor.sampled window = {n | n ∈ cursor.time.toNat :: times} := by
  ext n
  simp only [sampled, Set.mem_ofPred_eq, List.mem_cons, mem_earlierTimes_iff h]
  constructor
  · rintro ⟨k, header, hBelow, hWithin, hHeader, hTime⟩
    rcases Nat.lt_or_eq_of_le hBelow with hLower | rfl
    · exact .inr ⟨k, header, hLower, by omega, hHeader, hTime⟩
    · cases cursor.held.symm.trans hHeader
      exact .inl hTime.symm
  · rintro (rfl | ⟨k, header, hLower, hWithin, hHeader, hTime⟩)
    · exact ⟨cursor.height, cursor.header, Nat.le_refl _, by omega, cursor.held, rfl⟩
    · exact ⟨k, header, Nat.le_of_lt hLower, by omega, hHeader, hTime⟩

/-- A window without a time names the first missing height on the way down. -/
theorem windowTime_eq_error_iff :
    cursor.windowTime window = .error error ↔
      ∃ k, k < cursor.height ∧ cursor.height < k + max window 1 ∧
        cursor.view.headerAt k = none ∧
        (∀ j, k < j → j < cursor.height → ∃ header, cursor.view.headerAt j = some header) ∧
          error = .missingAncestor k := by
  have hWithin : ∀ k, cursor.height ≤ k + (max window 1 - 1) ↔ cursor.height < k + max window 1 := by
    intro k
    omega
  rw [windowTime, map_eq_error_iff, earlierTimes_eq_error_iff]
  simp only [hWithin]

/-- Where the whole window is held, its time is that halfway between the least and the greatest. -/
theorem windowTime_eq_ok {least greatest : Nat}
    (hHeld : ∀ k, k < cursor.height → cursor.height < k + max window 1 →
      ∃ header, cursor.view.headerAt k = some header)
    (hLeast : IsLeast (cursor.sampled window) least)
    (hGreatest : IsGreatest (cursor.sampled window) greatest) :
    cursor.windowTime window = .ok (least + (greatest - least) / 2) := by
  cases hTimes : cursor.earlierTimes (max window 1 - 1) with
  | error error =>
      obtain ⟨k, hBelow, hWithin, hMissing, _⟩ := earlierTimes_eq_error_iff.mp hTimes
      obtain ⟨header, hHeader⟩ := hHeld k hBelow (by omega)
      cases hMissing.symm.trans hHeader
  | ok times =>
      rw [sampled_eq hTimes] at hLeast hGreatest
      rw [windowTime, hTimes]
      exact congrArg Except.ok (midpoint_eq hLeast hGreatest)

/-- Two times of the window that hold all others between them are its extremes. -/
theorem windowTime_of_bounds {low high : Nat}
    (hHeld : ∀ k, k < cursor.height → cursor.height < k + max window 1 →
      ∃ header, cursor.view.headerAt k = some header)
    (hLow : low ∈ cursor.sampled window) (hHigh : high ∈ cursor.sampled window)
    (hBetween : ∀ k header, k ≤ cursor.height → cursor.height < k + max window 1 →
      cursor.view.headerAt k = some header → low ≤ header.time.toNat ∧ header.time.toNat ≤ high) :
    cursor.windowTime window = .ok (low + (high - low) / 2) := by
  apply windowTime_eq_ok hHeld
  · refine ⟨hLow, ?_⟩
    rintro time ⟨k, header, hBelow, hWithin, hHeader, rfl⟩
    exact (hBetween k header hBelow hWithin hHeader).1
  · refine ⟨hHigh, ?_⟩
    rintro time ⟨k, header, hBelow, hWithin, hHeader, rfl⟩
    exact (hBetween k header hBelow hWithin hHeader).2

end PowRules.Cursor
