import Mathlib.Order.Bounds.Basic
import Mathlib.Order.Lattice.Nat
import PowRules.Proofs.Chain.Sample

/-! How far one header can move a window time. What the other headers of the window reach is fixed, so a later time
moves the two extremes together by no more than its delay, and the time halfway between them by half of it. A header
outside the window has no influence at all. -/
namespace PowRules

def View.timesOn (view : View) (heights : Set Nat) : Set Nat :=
  {time | ∃ k ∈ heights, ∃ header, view.headerAt k = some header ∧ header.time.toNat = time}

namespace View

variable {view other : View} {heights : Set Nat} {height : Nat} {header : Header}

theorem timesOn_insert (hHeader : view.headerAt height = some header) :
    view.timesOn (insert height heights) = insert header.time.toNat (view.timesOn heights) := by
  ext time
  simp [timesOn, hHeader, eq_comm]

theorem timesOn_congr (h : ∀ k ∈ heights, view.headerAt k = other.headerAt k) :
    view.timesOn heights = other.timesOn heights := by
  ext time
  constructor
  · rintro ⟨k, hk, header, hHeader, hTime⟩
    exact ⟨k, hk, header, h k hk ▸ hHeader, hTime⟩
  · rintro ⟨k, hk, header, hHeader, hTime⟩
    exact ⟨k, hk, header, (h k hk).trans hHeader, hTime⟩

/-- Times have a bound, so any of them lie between two of their own. -/
theorem exists_extremes_timesOn (hMem : height ∈ heights) (hHeader : view.headerAt height = some header) :
    ∃ least greatest, IsLeast (view.timesOn heights) least ∧
      IsGreatest (view.timesOn heights) greatest ∧ least ≤ greatest := by
  have hSome : (view.timesOn heights).Nonempty := ⟨_, height, hMem, header, hHeader, rfl⟩
  have hBounded : BddAbove (view.timesOn heights) := by
    refine ⟨2 ^ 32, ?_⟩
    rintro _ ⟨_, _, header, _, rfl⟩
    exact header.time.toNat_lt.le
  have hLeast : IsLeast (view.timesOn heights) (sInf (view.timesOn heights)) :=
    ⟨Nat.sInf_mem hSome, fun _ => Nat.sInf_le⟩
  have hGreatest : IsGreatest (view.timesOn heights) (sSup (view.timesOn heights)) :=
    ⟨Nat.sSup_mem hSome hBounded, fun _ => le_csSup hBounded⟩
  exact ⟨_, _, hLeast, hGreatest, hLeast.2 hGreatest.1⟩

end View

namespace Cursor

variable {cursor later : Cursor} {window height delay : Nat} {header delayed : Header}

def windowHeights (cursor : Cursor) (window : Nat) : Set Nat :=
  Set.Icc (cursor.height + 1 - max window 1) cursor.height

theorem mem_windowHeights_iff {k : Nat} :
    k ∈ cursor.windowHeights window ↔ k ≤ cursor.height ∧ cursor.height < k + max window 1 := by
  rw [windowHeights, Set.mem_Icc]
  omega

/-- The times of the window without the header at one height. -/
def timesBeside (cursor : Cursor) (window height : Nat) : Set Nat :=
  cursor.view.timesOn (cursor.windowHeights window \ {height})

theorem sampled_eq_insert (hMem : height ∈ cursor.windowHeights window)
    (hHeader : cursor.view.headerAt height = some header) :
    cursor.sampled window = insert header.time.toNat (cursor.timesBeside window height) := by
  have hSplit : insert height (cursor.windowHeights window \ {height}) = cursor.windowHeights window := by
    rw [Set.insert_sdiff_singleton, Set.insert_eq_of_mem hMem]
  rw [timesBeside, ← View.timesOn_insert hHeader, hSplit]
  ext time
  simp only [sampled, View.timesOn, Set.mem_ofPred_eq, mem_windowHeights_iff, and_assoc, exists_and_left]

/-- One time of a window against the extremes of the others. -/
theorem windowTime_of_beside {least greatest : Nat}
    (hHeld : ∀ k ∈ cursor.windowHeights window, ∃ header, cursor.view.headerAt k = some header)
    (hMem : height ∈ cursor.windowHeights window)
    (hHeader : cursor.view.headerAt height = some header)
    (hLeast : IsLeast (cursor.timesBeside window height) least)
    (hGreatest : IsGreatest (cursor.timesBeside window height) greatest) :
    cursor.windowTime window = .ok (min header.time.toNat least +
      (max header.time.toNat greatest - min header.time.toNat least) / 2) := by
  apply windowTime_eq_ok
  · intro k hBelow hWithin
    exact hHeld k (mem_windowHeights_iff.mpr ⟨Nat.le_of_lt hBelow, hWithin⟩)
  · rw [sampled_eq_insert hMem hHeader]
    exact hLeast.insert _
  · rw [sampled_eq_insert hMem hHeader]
    exact hGreatest.insert _

/-- Where one time of a whole window of at least two headers is later and the others are the same, the window time is
no earlier, and later by at most half of the delay, rounded up. -/
theorem windowTime_delayed (hHeight : later.height = cursor.height)
    (hHeld : ∀ k ∈ cursor.windowHeights window, ∃ header, cursor.view.headerAt k = some header)
    (hMem : height ∈ cursor.windowHeights window)
    (hOther : ∃ k ∈ cursor.windowHeights window, k ≠ height)
    (hSame : ∀ k, k ≠ height → later.view.headerAt k = cursor.view.headerAt k)
    (hHeader : cursor.view.headerAt height = some header)
    (hDelayed : later.view.headerAt height = some delayed)
    (hDelay : delayed.time.toNat = header.time.toNat + delay) :
    ∃ before after, cursor.windowTime window = .ok before ∧ later.windowTime window = .ok after ∧
      before ≤ after ∧ after ≤ before + (delay + 1) / 2 := by
  have hHeights : later.windowHeights window = cursor.windowHeights window := by
    rw [windowHeights, hHeight, windowHeights]
  have hBeside : later.timesBeside window height = cursor.timesBeside window height := by
    rw [timesBeside, hHeights]
    exact View.timesOn_congr fun k hk => hSame k hk.2
  have hHeldLater : ∀ k ∈ later.windowHeights window, ∃ header, later.view.headerAt k = some header := by
    intro k hk
    rw [hHeights] at hk
    by_cases hHere : k = height
    · exact ⟨delayed, hHere ▸ hDelayed⟩
    · exact hSame k hHere ▸ hHeld k hk
  -- Another header is what keeps the two extremes from moving by the whole delay each.
  obtain ⟨k, hk, hApart⟩ := hOther
  obtain ⟨other, hOther⟩ := hHeld k hk
  obtain ⟨least, greatest, hLeast, hGreatest, hOrder⟩ : ∃ least greatest,
      IsLeast (cursor.timesBeside window height) least ∧
        IsGreatest (cursor.timesBeside window height) greatest ∧ least ≤ greatest :=
    View.exists_extremes_timesOn ⟨hk, hApart⟩ hOther
  have hBefore := windowTime_of_beside hHeld hMem hHeader hLeast hGreatest
  have hAfter := windowTime_of_beside hHeldLater (hHeights ▸ hMem) hDelayed (hBeside ▸ hLeast)
    (hBeside ▸ hGreatest)
  rw [hDelay] at hAfter
  refine ⟨_, _, hBefore, hAfter, ?_, ?_⟩
  · omega
  · omega

end Cursor

/-- The same headers, the one at this height with another time. -/
def Segment.retime (segment : Segment) (height : Nat) (time : UInt32) : Segment where
  base := segment.base
  headers := segment.headers.mapIdx fun index header =>
    if segment.base.toNat + index = height then { header with time } else header

namespace Segment

variable {segment : Segment} {cursor last : Cursor} {window low height k : Nat} {time : UInt32}

/-- Giving a header another time leaves all others as they are, and does nothing at heights without a
header. -/
theorem headerAt_retime :
    (segment.retime height time).headerAt k =
      if k = height then (segment.headerAt k).map fun header => { header with time }
      else segment.headerAt k := by
  simp only [headerAt, retime, Array.getElem?_mapIdx]
  by_cases hHeld : k ≤ maxHeight ∧ segment.base.toNat ≤ k
  · have hPlace : segment.base.toNat + (k - segment.base.toNat) = k := by omega
    rw [if_pos hHeld, if_pos hHeld, hPlace]
    by_cases hHere : k = height
    · simp [hHere]
    · simp [hHere]
  · simp [hHeld]

theorem headerAt_retime_of_ne (h : k ≠ height) :
    (segment.retime height time).headerAt k = segment.headerAt k := by
  rw [headerAt_retime, if_neg h]

theorem exists_cursor_retime (hView : cursor.view = segment.view) (height : Nat) (time : UInt32) :
    ∃ last, (segment.retime height time).at? cursor.height = some last := by
  have hHeld : ∃ header, (segment.retime height time).view.headerAt cursor.height = some header := by
    change ∃ header, (segment.retime height time).headerAt cursor.height = some header
    rw [headerAt_retime, headerAt_cursor hView]
    split
    · exact ⟨_, rfl⟩
    · exact ⟨_, rfl⟩
  obtain ⟨header, hHeader⟩ := hHeld
  exact ⟨_, View.at?_of_headerAt hHeader⟩

/-- A window time is read off the times of the window and off the base. -/
theorem windowTime_congr {other : Segment} (hView : cursor.view = segment.view)
    (hOther : last.view = other.view) (hHeight : last.height = cursor.height)
    (hBase : other.base = segment.base)
    (hTimes : other.times (cursor.height + 1 - max window 1) cursor.height =
      segment.times (cursor.height + 1 - max window 1) cursor.height) :
    last.windowTime window = cursor.windowTime window := by
  rcases Nat.lt_or_ge (cursor.height + 1 - max window 1) segment.base.toNat with hShort | hWhole
  · have hMissing : cursor.windowTime window = .error (.missingAncestor (segment.base.toNat - 1)) :=
      (windowTime_eq_error_iff hView).mpr ⟨by omega, by omega, rfl⟩
    rw [hMissing, windowTime_eq_error_iff hOther, hHeight, hBase]
    exact ⟨by omega, by omega, rfl⟩
  · obtain ⟨least, greatest, hLeast, hGreatest⟩ :=
      exists_extremes hView (show cursor.height + 1 - max window 1 ≤ cursor.height by omega)
    rw [windowTime_of_extremes hView hWhole hLeast hGreatest]
    rw [← hTimes, ← hHeight] at hLeast hGreatest
    exact windowTime_of_extremes hOther (by rwa [hHeight, hBase]) hLeast hGreatest

theorem times_retime (h : height < low ∨ cursor.height < height) :
    (segment.retime height time).times low cursor.height = segment.times low cursor.height := by
  apply List.filterMap_congr
  intro k hk
  rw [List.mem_range'_1] at hk
  rw [headerAt_retime_of_ne (by omega)]

theorem exists_other_windowHeight (h : cursor.height + 1 - max window 1 < cursor.height) (height : Nat) :
    ∃ k ∈ cursor.windowHeights window, k ≠ height := by
  by_cases hTop : cursor.height = height
  · exact ⟨cursor.height - 1, Cursor.mem_windowHeights_iff.mpr ⟨by omega, by omega⟩, by omega⟩
  · exact ⟨cursor.height, Cursor.mem_windowHeights_iff.mpr ⟨by omega, by omega⟩, hTop⟩

/-- Delaying one header in a window moves the time of the window by half the delay, rounded up, at most,
and never back. With two headers or more the earliest and the latest time cannot both move by it. -/
theorem windowTime_retime_inside {header : Header} {delay : Nat} (hView : cursor.view = segment.view)
    (hLast : last.view = (segment.retime height time).view) (hHeight : last.height = cursor.height)
    (hWhole : segment.base.toNat ≤ cursor.height + 1 - max window 1)
    (hTwo : cursor.height + 1 - max window 1 < cursor.height)
    (hMem : height ∈ cursor.windowHeights window) (hHeader : segment.headerAt height = some header)
    (hDelay : time.toNat = header.time.toNat + delay) :
    ∃ before after, cursor.windowTime window = .ok before ∧ last.windowTime window = .ok after ∧
      before ≤ after ∧ after ≤ before + (delay + 1) / 2 := by
  have hDelayed : last.view.headerAt height = some { header with time } := by
    rw [hLast]
    change (segment.retime height time).headerAt height = _
    rw [headerAt_retime, if_pos rfl, hHeader]
    rfl
  apply Cursor.windowTime_delayed hHeight ?_ hMem (exists_other_windowHeight hTwo height) ?_ ?_ hDelayed hDelay
  · intro k hk
    obtain ⟨hBelow, hWithin⟩ := Cursor.mem_windowHeights_iff.mp hk
    rw [hView]
    exact exists_headerAt_below hView (by omega) hBelow
  · intro k hk
    rw [hLast, hView]
    exact headerAt_retime_of_ne hk
  · rw [hView]
    exact hHeader

/-- A segment and the same one with another time in a single header. Outside the window, which goes from `low` to
the cursor, the change does not count. Inside a whole window of at least two headers a delay makes the window time no
earlier, and later by at most half of the delay, rounded up. -/
theorem windowTime_retime (hView : cursor.view = segment.view)
    (hLow : (low : Int) = max 0 ((cursor.height : Int) - max (window : Int) 1 + 1))
    (height : Nat) (time : UInt32) :
    ∃ last, (segment.retime height time).at? cursor.height = some last ∧
      (height < low ∨ cursor.height < height → last.windowTime window = cursor.windowTime window) ∧
      (segment.base.toNat ≤ low → 2 ≤ (segment.times low cursor.height).length →
        low ≤ height → height ≤ cursor.height →
        ∀ header delay, segment.headerAt height = some header →
          time.toNat = header.time.toNat + delay →
          ∃ before after, cursor.windowTime window = .ok before ∧ last.windowTime window = .ok after ∧
            before ≤ after ∧ after ≤ before + (delay + 1) / 2) := by
  obtain rfl : low = cursor.height + 1 - max window 1 := by omega
  obtain ⟨last, hLast⟩ := exists_cursor_retime hView height time
  obtain ⟨hLastView, hHeight⟩ := View.at?_eq_some_iff.mp hLast
  refine ⟨last, hLast, ?_, ?_⟩
  · intro hOutside
    exact windowTime_congr hView hLastView hHeight rfl (times_retime hOutside)
  · intro hWhole hTwo hLower hUpper header delay hHeader hDelay
    rw [length_times hView hWhole] at hTwo
    exact windowTime_retime_inside hView hLastView hHeight hWhole (by omega) ⟨hLower, hUpper⟩ hHeader hDelay

def earliestThird : Segment where
  base := 20
  headers := #[{ time := 50 }, { time := 91 }, { time := 10 }, { time := 70 }]

def earliestThirdTip : Cursor where
  view := earliestThird.view
  height := 23
  header := { time := 70 }
  held := rfl

/-- The earliest of three times is delayed by 41, and the window time moves by 21, which is all that it can. The same
delay in front of the window does nothing. -/
theorem windowTime_retime_earliestThird :
    earliestThirdTip.windowTime 3 = .ok 50 ∧
      (∃ last, (earliestThird.retime 22 51).at? 23 = some last ∧ last.windowTime 3 = .ok 71 ∧
        50 ≤ 71 ∧ 71 ≤ 50 + (41 + 1) / 2) ∧
      ∃ last, (earliestThird.retime 20 91).at? 23 = some last ∧
        last.windowTime 3 = earliestThirdTip.windowTime 3 := by
  have hView : earliestThirdTip.view = earliestThird.view := rfl
  have hTime : earliestThirdTip.windowTime 3 = .ok 50 := by rfl
  have hLow : ((21 : Nat) : Int) = max 0 (((23 : Nat) : Int) - max ((3 : Nat) : Int) 1 + 1) := by
    decide
  have hDelayed : ((earliestThird.retime 22 51).at? 23).map (·.windowTime 3) = some (.ok 71) := by rfl
  obtain ⟨last, hLast, _, hInside⟩ := windowTime_retime hView hLow 22 51
  obtain ⟨other, hOther, hOutside, _⟩ := windowTime_retime hView hLow 20 91
  obtain ⟨before, after, hBefore, hAfter, hBounds⟩ :=
    hInside (by decide) (by decide) (by decide) (by decide) { time := 10 } 41 (by rfl) (by rfl)
  obtain rfl : 50 = before := Except.ok.inj (hTime.symm.trans hBefore)
  have hFound : (earliestThird.retime 22 51).at? 23 = some last := hLast
  rw [hFound, Option.map_some, hAfter] at hDelayed
  obtain rfl : after = 71 := Except.ok.inj (Option.some.inj hDelayed)
  exact ⟨hTime, ⟨last, hLast, hAfter, hBounds⟩, other, hOther, hOutside (.inl (by decide))⟩

end Segment

end PowRules
