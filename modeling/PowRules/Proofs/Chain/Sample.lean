import Mathlib.Data.List.Basic
import PowRules.Proofs.Chain.LowerEdge

/-! What a window time samples in a segment: the headers of a known stretch of heights, each once, and nothing
about them but their least and their greatest time. The window is cut short at genesis and nowhere else. -/
namespace PowRules.Segment

variable {segment : Segment} {cursor : Cursor} {window low high n : Nat}

/-- The times of the headers from one height to another, lowest header first. -/
def times (segment : Segment) (low high : Nat) : List Nat :=
  (List.range' low (high + 1 - low)).filterMap fun height =>
    (segment.headerAt height).map fun header => header.time.toNat

theorem mem_times_iff :
    n ∈ segment.times low high ↔ ∃ height header, low ≤ height ∧ height ≤ high ∧
      segment.headerAt height = some header ∧ header.time.toNat = n := by
  have hRange : ∀ height, low ≤ height ∧ height < low + (high + 1 - low) ↔
      low ≤ height ∧ height ≤ high := by
    intro height
    omega
  simp only [times, List.mem_filterMap, List.mem_range'_1, Option.map_eq_some_iff, hRange, and_assoc,
    exists_and_left]

/-- No header of a stretch is left out. -/
theorem length_times (hView : cursor.view = segment.view) (hBase : segment.base.toNat ≤ low) :
    (segment.times low cursor.height).length = cursor.height + 1 - low := by
  have hHeld : ∀ height ∈ List.range' low (cursor.height + 1 - low),
      ((segment.headerAt height).map fun header => header.time.toNat).isSome := by
    intro height hMem
    rw [List.mem_range'_1] at hMem
    obtain ⟨header, hHeader⟩ := exists_headerAt_below hView
      (show segment.base.toNat ≤ height by omega) (show height ≤ cursor.height by omega)
    rw [hHeader]
    rfl
  rw [times, List.filterMap_length_eq_length.mpr hHeld, List.length_range']

/-- In a segment the times of a window are those of a range of heights, which ends at genesis for a long
window. -/
theorem sampled_eq_times (hView : cursor.view = segment.view) :
    cursor.sampled window =
      {n | n ∈ segment.times (cursor.height + 1 - max window 1) cursor.height} := by
  have hWindow : ∀ height, height ≤ cursor.height ∧ cursor.height < height + max window 1 ↔
      cursor.height + 1 - max window 1 ≤ height ∧ height ≤ cursor.height := by
    intro height
    omega
  ext n
  simp only [Cursor.sampled, Set.mem_ofPred_eq, mem_times_iff, hView]
  constructor
  · rintro ⟨height, header, hBelow, hWithin, hTime⟩
    obtain ⟨hLow, hHigh⟩ := (hWindow height).mp ⟨hBelow, hWithin⟩
    exact ⟨height, header, hLow, hHigh, hTime⟩
  · rintro ⟨height, header, hLow, hHigh, hTime⟩
    obtain ⟨hBelow, hWithin⟩ := (hWindow height).mpr ⟨hLow, hHigh⟩
    exact ⟨height, header, hBelow, hWithin, hTime⟩

/-- The header of the cursor itself is always sampled. -/
theorem exists_extremes (hView : cursor.view = segment.view) (hLow : low ≤ cursor.height) :
    ∃ least greatest, (segment.times low cursor.height).min? = some least ∧
      (segment.times low cursor.height).max? = some greatest := by
  have hTop : cursor.time.toNat ∈ segment.times low cursor.height :=
    mem_times_iff.mpr ⟨_, _, hLow, Nat.le_refl _, headerAt_cursor hView, rfl⟩
  have hSome : segment.times low cursor.height ≠ [] := List.ne_nil_of_mem hTop
  obtain ⟨least, hLeast⟩ := Option.isSome_iff_exists.mp (List.isSome_min?_iff.mpr hSome)
  obtain ⟨greatest, hGreatest⟩ := Option.isSome_iff_exists.mp (List.isSome_max?_iff.mpr hSome)
  exact ⟨least, greatest, hLeast, hGreatest⟩

/-- Where the whole window is held, its time is that halfway between the extremes of its times. -/
theorem windowTime_of_extremes {least greatest : Nat} (hView : cursor.view = segment.view)
    (hWhole : segment.base.toNat ≤ cursor.height + 1 - max window 1)
    (hLeast : (segment.times (cursor.height + 1 - max window 1) cursor.height).min? = some least)
    (hGreatest :
      (segment.times (cursor.height + 1 - max window 1) cursor.height).max? = some greatest) :
    cursor.windowTime window = .ok (least + (greatest - least) / 2) := by
  rw [List.min?_eq_some_iff] at hLeast
  rw [List.max?_eq_some_iff] at hGreatest
  apply Cursor.windowTime_eq_ok
  · intro k hBelow hWithin
    rw [hView]
    exact exists_headerAt_below hView (by omega) (Nat.le_of_lt hBelow)
  · rw [sampled_eq_times hView]
    exact ⟨hLeast.1, fun n hMem => hLeast.2 n hMem⟩
  · rw [sampled_eq_times hView]
    exact ⟨hGreatest.1, fun n hMem => hGreatest.2 n hMem⟩

/-- The window ends at the cursor and goes back to `low`. Where the segment holds all of it, its time is
halfway between the least and the greatest of just these headers, in whatever order they come. Otherwise the
header below the segment is reported. Only genesis makes a window shorter. -/
theorem windowTime_halfway (hView : cursor.view = segment.view)
    (hLow : (low : Int) = max 0 ((cursor.height : Int) - max (window : Int) 1 + 1)) :
    (segment.base.toNat ≤ low →
      (segment.times low cursor.height).length = cursor.height + 1 - low ∧
      (∃ least greatest, (segment.times low cursor.height).min? = some least ∧
        (segment.times low cursor.height).max? = some greatest ∧
        cursor.windowTime window = .ok (least + (greatest - least) / 2) ∧
        least ≤ least + (greatest - least) / 2 ∧ least + (greatest - least) / 2 ≤ greatest) ∧
      ∀ (other : Segment) (last : Cursor), last.view = other.view → last.height = cursor.height →
        other.base.toNat ≤ low →
        (other.times low cursor.height).Perm (segment.times low cursor.height) →
          last.windowTime window = cursor.windowTime window) ∧
    (low < segment.base.toNat →
      cursor.windowTime window = .error (.missingAncestor (segment.base.toNat - 1))) ∧
    ∀ time, cursor.windowTime window = .ok time →
      (segment.times low cursor.height).length < max window 1 → low = 0 ∧ segment.base = 0 := by
  obtain rfl : low = cursor.height + 1 - max window 1 := by omega
  have hBase := base_le_cursor hView
  refine ⟨?_, fun hBelow => (windowTime_eq_error_iff hView).mpr ⟨by omega, by omega, rfl⟩, ?_⟩
  · intro hWhole
    obtain ⟨least, greatest, hLeast, hGreatest⟩ :=
      exists_extremes hView (show cursor.height + 1 - max window 1 ≤ cursor.height by omega)
    have hOrder : least ≤ greatest :=
      (List.min?_eq_some_iff.mp hLeast).2 _ (List.max?_eq_some_iff.mp hGreatest).1
    have hTime := windowTime_of_extremes hView hWhole hLeast hGreatest
    refine ⟨length_times hView hWhole, ⟨least, greatest, hLeast, hGreatest, hTime, ?_, ?_⟩, ?_⟩
    · exact Nat.le_add_right _ _
    · omega
    · intro other last hOther hHeight hOtherWhole hPerm
      rw [hTime]
      rw [← hHeight] at hOtherWhole hPerm hLeast hGreatest
      apply windowTime_of_extremes hOther hOtherWhole
      · rw [List.min?_eq_some_iff] at hLeast ⊢
        simpa only [hPerm.mem_iff] using hLeast
      · rw [List.max?_eq_some_iff] at hGreatest ⊢
        simpa only [hPerm.mem_iff] using hGreatest
  · intro time hTime hShort
    have hWhole := base_le_of_windowTime hView hTime
    rw [length_times hView hWhole] at hShort
    have hGenesis : cursor.height + 1 - max window 1 = 0 := by omega
    rw [hGenesis] at hWhole
    exact ⟨hGenesis, UInt32.toNat_inj.mp (Nat.le_zero.mp hWhole)⟩

def backAndForth : Segment where
  base := 20
  headers := #[{ time := 50 }, { time := 90 }, { time := 10 }, { time := 70 }]

def backAndForthTip : Cursor where
  view := backAndForth.view
  height := 23
  header := { time := 70 }
  held := rfl

/-- The middle of 90 and 10 is the time of the window, though 70 is the middle one of the three times. A
window of nine headers begins below the segment. -/
theorem windowTime_halfway_backAndForth :
    backAndForth.times 21 23 = [90, 10, 70] ∧ backAndForthTip.windowTime 3 = .ok 50 ∧
      backAndForthTip.windowTime 9 = .error (.missingAncestor 19) := by
  have hView : backAndForthTip.view = backAndForth.view := rfl
  have hTimes : backAndForth.times 21 23 = [90, 10, 70] := by rfl
  have hHeld : ((21 : Nat) : Int) = max 0 (((23 : Nat) : Int) - max ((3 : Nat) : Int) 1 + 1) := by
    decide
  have hBelow : ((15 : Nat) : Int) = max 0 (((23 : Nat) : Int) - max ((9 : Nat) : Int) 1 + 1) := by
    decide
  obtain ⟨_, ⟨least, greatest, hLeast, hGreatest, hTime, _⟩, _⟩ :=
    (windowTime_halfway hView hHeld).1 (by decide)
  refine ⟨hTimes, ?_, (windowTime_halfway hView hBelow).2.1 (by decide)⟩
  obtain rfl : 10 = least := Option.some.inj hLeast
  obtain rfl : 90 = greatest := Option.some.inj hGreatest
  exact hTime

end PowRules.Segment
