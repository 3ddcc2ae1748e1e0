import Mathlib.Order.Bounds.Basic
import Mathlib.Data.Nat.SuccPred
import Mathlib.Order.SuccPred.Archimedean
import PowRules.Proofs.Chain.LowerEdge

/-! The rounds of the search for the nearest regular header. Each one looks at a single header and ends the
search there or goes on with the predecessor. The search stays within one interval, so it always ends, and
never for want of a predecessor at genesis. On a segment it ends at the highest header that stops it. -/
namespace PowRules

namespace Interval

/-- How the search ends. -/
inductive Exit where
  /-- At bits that stand for no target, or above a header that is not held. -/
  | failed (error : RuleError)
  /-- At the start of an interval, or at another target than the floor. -/
  | regular (target : Target)
  /-- At a header that has no predecessor. -/
  | orphan (target : Target)

def Exit.verdict : Exit → Except RuleError Target
  | failed error => .error error
  | regular target => .ok target
  | orphan target => .ok target

/-- One round of the search. It ends at this header, or goes on with the predecessor. -/
def look (interval : Nat) (floor : Target) (cursor : Cursor) : Exit ⊕ Cursor :=
  match cursor.target with
  | .error error => .inl (.failed error)
  | .ok target =>
      if cursor.height % interval = 0 ∨ target ≠ floor then .inl (.regular target)
      else
        match cursor.previous with
        | .error error => .inl (.failed error)
        | .ok none => .inl (.orphan target)
        | .ok (some previous) => .inr previous

/-- The search from this header back looks at these headers, in this order, and ends with this exit. -/
inductive Search (interval : Nat) (floor : Target) : Cursor → List Cursor → Exit → Prop where
  | last {cursor : Cursor} {exit : Exit} (hLook : look interval floor cursor = .inl exit) :
      Search interval floor cursor [cursor] exit
  | more {cursor previous : Cursor} {seen : List Cursor} {exit : Exit}
      (hLook : look interval floor cursor = .inr previous)
      (rest : Search interval floor previous seen exit) :
      Search interval floor cursor (cursor :: seen) exit

variable {interval : Nat} {floor : Target} {cursor previous : Cursor} {seen : List Cursor} {exit : Exit}

/-- The search goes on only inside an interval, from a header with the floor. -/
theorem look_eq_inr_iff :
    look interval floor cursor = .inr previous ↔
      cursor.height % interval ≠ 0 ∧ cursor.target = .ok floor ∧
        cursor.previous = .ok (some previous) := by
  unfold look
  cases hTarget : cursor.target with
  | error error => simp
  | ok target =>
      by_cases hEnd : cursor.height % interval = 0 ∨ target ≠ floor
      · have hNot : ¬(cursor.height % interval ≠ 0 ∧ target = floor) := by
          rintro ⟨hInside, hFloor⟩
          exact hEnd.elim hInside fun hOther => hOther hFloor
        simp only [if_pos hEnd, Except.ok.injEq, reduceCtorEq, false_iff, ← and_assoc]
        exact fun hAll => hNot hAll.1
      · obtain ⟨hInside, hFloor⟩ := not_or.mp hEnd
        obtain rfl := Decidable.not_not.mp hFloor
        simp only [ne_eq, hInside, not_false_eq_true, true_and]
        cases cursor.previous with
        | error error => simp
        | ok found => cases found <;> simp

theorem previous_of_look (h : look interval floor cursor = .inr previous) :
    previous.view = cursor.view ∧ previous.height + 1 = cursor.height :=
  Cursor.previous_eq_some_iff.mp (look_eq_inr_iff.mp h).2.2

/-- A round that goes on comes one place closer to the start of the interval. -/
theorem offset_of_look (h : look interval floor cursor = .inr previous) :
    previous.height % interval + 1 = cursor.height % interval := by
  obtain ⟨hInside, _⟩ := look_eq_inr_iff.mp h
  obtain ⟨_, hBelow⟩ := previous_of_look h
  rw [← hBelow] at hInside ⊢
  have hQuotient := Nat.succ_div_of_mod_ne_zero hInside
  have hHere := Nat.div_add_mod previous.height interval
  have hNext := Nat.div_add_mod (previous.height + 1) interval
  rw [hQuotient] at hNext
  omega

/-- A header without a predecessor starts an interval, so the search ends there before it asks for one. -/
theorem look_ne_orphan {target : Target} : look interval floor cursor ≠ .inl (.orphan target) := by
  unfold look
  cases cursor.target with
  | error error => simp
  | ok found =>
      dsimp only
      split
      next => simp
      next hEnd =>
        cases hPrevious : cursor.previous with
        | error error => simp
        | ok before =>
            cases before with
            | none =>
                have hGenesis := Cursor.previous_eq_none_iff.mp hPrevious
                rw [hGenesis, Nat.zero_mod] at hEnd
                exact absurd (.inl rfl) hEnd
            | some previous => simp

/-- The search is a loop over its rounds. -/
theorem regularTarget_eq_look :
    regularTarget interval floor cursor =
      match look interval floor cursor with
      | .inl exit => exit.verdict
      | .inr previous => regularTarget interval floor previous := by
  obtain ⟨view, height, header, hHeld⟩ := cursor
  unfold regularTarget look Cursor.target Cursor.previous
  cases height with
  | zero =>
      rw [regularTargetFrom]
      dsimp only [Cursor.bits]
      cases Target.ofBits header.bits with
      | error error => rfl
      | ok target => simp [Exit.verdict]
  | succ height =>
      rw [regularTargetFrom]
      dsimp only [Cursor.bits]
      cases Target.ofBits header.bits with
      | error error => rfl
      | ok target =>
          dsimp only
          split
          · rfl
          · cases hHeader : view.headerAt height with
            | none => simp [View.at?_eq_none_iff.mpr hHeader, Exit.verdict]
            | some previous => simp [View.at?_of_headerAt hHeader]

namespace Search

/-- The rounds give the same as the recursion of the search. -/
theorem verdict_eq (h : Search interval floor cursor seen exit) :
    exit.verdict = regularTarget interval floor cursor := by
  induction h with
  | last hLook => rw [regularTarget_eq_look, hLook]
  | more hLook rest ih =>
      rw [regularTarget_eq_look, hLook]
      exact ih

/-- A search never runs out of predecessors at the floor, since genesis is the start of an interval. -/
theorem exit_ne_orphan (h : Search interval floor cursor seen exit) (target : Target) :
    exit ≠ .orphan target := by
  induction h with
  | last hLook =>
      rintro rfl
      exact look_ne_orphan hLook
  | more hLook rest ih => exact ih

/-- The search always ends. -/
theorem exists_of_cursor (cursor : Cursor) : ∃ seen exit, Search interval floor cursor seen exit := by
  induction hHeight : cursor.height using Nat.strongRecOn generalizing cursor with
  | _ height ih =>
      cases hLook : look interval floor cursor with
      | inl exit => exact ⟨_, _, .last hLook⟩
      | inr previous =>
          obtain ⟨_, hBelow⟩ := previous_of_look hLook
          obtain ⟨seen, exit, rest⟩ := ih previous.height (by omega) previous rfl
          exact ⟨_, _, .more hLook rest⟩

/-- No more headers are looked at than lie in the interval so far. -/
theorem length_le (h : Search interval floor cursor seen exit) :
    seen.length ≤ cursor.height % interval + 1 := by
  induction h with
  | last => exact Nat.le_add_left 1 _
  | @more cursor previous seen exit hLook rest ih =>
      have hOffset := offset_of_look hLook
      rw [List.length_cons]
      omega

/-- The start of the interval is not passed. -/
theorem within_interval (h : Search interval floor cursor seen exit) :
    ∀ header ∈ seen, header.view = cursor.view ∧
      cursor.height - cursor.height % interval ≤ header.height ∧ header.height ≤ cursor.height := by
  induction h with
  | last =>
      intro header hMem
      obtain rfl := List.mem_singleton.mp hMem
      exact ⟨rfl, Nat.sub_le _ _, Nat.le_refl _⟩
  | @more cursor previous seen exit hLook rest ih =>
      obtain ⟨hView, hHeight⟩ := previous_of_look hLook
      have hOffset := offset_of_look hLook
      intro header hMem
      rcases List.mem_cons.mp hMem with rfl | hBelow
      · exact ⟨rfl, Nat.sub_le _ _, Nat.le_refl _⟩
      · obtain ⟨hSame, hLow, hHigh⟩ := ih header hBelow
        exact ⟨hSame.trans hView, by omega, by omega⟩

end Search

end Interval

namespace Segment

open PowRules.Interval

variable {segment : Segment} {interval : Nat} {floor : Target} {prev : Cursor}

/-- The held heights up to this one where a search ends: the starts of intervals, and the headers whose bits
stand for no target or for another one than the floor. -/
def endings (segment : Segment) (interval : Nat) (floor : Target) (top : Nat) : Set Nat :=
  {k | segment.base.toNat ≤ k ∧ k ≤ top ∧ (k % interval = 0 ∨
    ∃ header, segment.headerAt k = some header ∧ Target.ofBits header.bits ≠ .ok floor)}

/-- A search passes the held heights that are no endings. -/
theorem isPassed_of_not_mem_endings {k : Nat} (hView : prev.view = segment.view)
    (hBase : segment.base.toNat ≤ k) (hTop : k ≤ prev.height)
    (h : k ∉ segment.endings interval floor prev.height) : IsPassed segment.view interval floor k := by
  obtain ⟨header, hHeader⟩ := exists_headerAt_below hView hBase hTop
  refine ⟨fun hStart => h ⟨hBase, hTop, .inl hStart⟩, header, hHeader, ?_⟩
  by_contra hBits
  exact h ⟨hBase, hTop, .inr ⟨header, hHeader, hBits⟩⟩

/-- Where some height stops the search, it gives what the bits at the highest one stand for. -/
theorem regularTarget_of_isGreatest {nearest : Nat} (hView : prev.view = segment.view)
    (h : IsGreatest (segment.endings interval floor prev.height) nearest) :
    ∃ header, segment.headerAt nearest = some header ∧
      regularTarget interval floor prev = Target.ofBits header.bits := by
  obtain ⟨⟨hBase, hTop, hEnd⟩, hHighest⟩ := h
  obtain ⟨header, hHeader⟩ := exists_headerAt_below hView hBase hTop
  have hPassed : ∀ k, nearest < k → k ≤ prev.height → IsPassed segment.view interval floor k := by
    intro k hAbove hk
    refine isPassed_of_not_mem_endings hView (by omega) hk fun hMem => ?_
    exact absurd (hHighest hMem) (Nat.not_le_of_lt hAbove)
  refine ⟨header, hHeader, ?_⟩
  cases hBits : Target.ofBits header.bits with
  | error error =>
      rw [Interval.regularTarget_eq_error_iff, hView]
      exact ⟨nearest, hTop, .malformed hHeader hBits, hPassed⟩
  | ok target =>
      rw [regularTarget_eq_ok_iff, hView]
      refine ⟨nearest, hTop, ⟨⟨header, hHeader, hBits⟩, ?_⟩, hPassed⟩
      rcases hEnd with hStart | ⟨other, hOther, hFloor⟩
      · exact .inl hStart
      · cases hHeader.symm.trans hOther
        rw [hBits] at hFloor
        exact .inr fun hSame => hFloor (congrArg Except.ok hSame)

/-- Where none does, the segment starts inside an interval and the header below it is missing. -/
theorem regularTarget_of_no_ending (hView : prev.view = segment.view)
    (h : segment.endings interval floor prev.height = ∅) :
    0 < segment.base.toNat ∧
      regularTarget interval floor prev = .error (.missingAncestor (segment.base.toNat - 1)) := by
  have hPositive : 0 < segment.base.toNat := by
    apply Nat.pos_of_ne_zero
    intro hZero
    have hGenesis : 0 ∈ segment.endings interval floor prev.height :=
      ⟨Nat.le_of_eq hZero, Nat.zero_le _, .inl (Nat.zero_mod _)⟩
    rw [h] at hGenesis
    exact hGenesis
  refine ⟨hPositive, ?_⟩
  rw [Interval.regularTarget_eq_error_iff, hView]
  have hBelow := base_le_cursor hView
  refine ⟨segment.base.toNat - 1, by omega, .missing (headerAt_of_lt_base (by omega)), ?_⟩
  intro k hAbove hk
  refine isPassed_of_not_mem_endings hView (by omega) hk ?_
  rw [h]
  exact Set.notMem_empty k

/-- The search gives what the highest header that stops it stands for, or reports the header below the segment
where none stops it. It looks at no header below the start of the interval and never ends as an orphan. -/
theorem regularTarget_nearest (interval : Nat) (floor : Target) (hView : prev.view = segment.view) :
    ((∃ nearest header, IsGreatest (segment.endings interval floor prev.height) nearest ∧
        segment.headerAt nearest = some header ∧
        ((∃ target, Target.ofBits header.bits = .ok target ∧
            regularTarget interval floor prev = .ok target) ∨
          Compact.decode? header.bits = none ∧
            regularTarget interval floor prev = .error (.malformedTarget header.bits))) ∨
      segment.endings interval floor prev.height = ∅ ∧ 0 < segment.base.toNat ∧
        regularTarget interval floor prev = .error (.missingAncestor (segment.base.toNat - 1))) ∧
    (∃ seen exit, Search interval floor prev seen exit) ∧
    ∀ seen exit, Search interval floor prev seen exit →
      exit.verdict = regularTarget interval floor prev ∧
      seen.length ≤ prev.height % interval + 1 ∧
      (∀ header ∈ seen, header.view = prev.view ∧
        prev.height - prev.height % interval ≤ header.height ∧ header.height ≤ prev.height) ∧
      ∀ target, exit ≠ .orphan target := by
  refine ⟨?_, Search.exists_of_cursor prev, ?_⟩
  · rcases Set.eq_empty_or_nonempty (segment.endings interval floor prev.height) with hNone | hSome
    · exact .inr ⟨hNone, regularTarget_of_no_ending hView hNone⟩
    · have hBounded : BddAbove (segment.endings interval floor prev.height) :=
        ⟨prev.height, fun k hk => hk.2.1⟩
      obtain ⟨nearest, hNearest⟩ := hBounded.exists_isGreatest_of_nonempty hSome
      obtain ⟨header, hHeader, hFound⟩ := regularTarget_of_isGreatest hView hNearest
      refine .inl ⟨nearest, header, hNearest, hHeader, ?_⟩
      cases hBits : Target.ofBits header.bits with
      | ok target => exact .inl ⟨target, rfl, hFound.trans hBits⟩
      | error error =>
          obtain ⟨hUndecodable, rfl⟩ := Target.ofBits_eq_error_iff.mp hBits
          exact .inr ⟨hUndecodable, hFound.trans hBits⟩
  · intro seen exit hSearch
    exact ⟨hSearch.verdict_eq, hSearch.length_le, hSearch.within_interval, hSearch.exit_ne_orphan⟩

/-- A segment that starts inside the second interval, with the floor on top of another target. -/
def floorOnTop : Segment where
  base := 2017
  headers := #[
    { time := 1540000000, bits := 0x1c00ffff },
    { time := 1540001201, bits := 0x1e0fffff },
    { time := 1540002402, bits := 0x1e0fffff }]

def floorOnTopTip : Cursor where
  view := floorOnTop.view
  height := 2019
  header := { time := 1540002402, bits := 0x1e0fffff }
  held := rfl

/-- The search passes two late headers with the floor and ends at the first header of the segment. -/
theorem regularTarget_nearest_floorOnTop :
    regularTarget 2016 Params.testnet.earlyFloor floorOnTopTip = .ok (.expand 0x1c00ffff) ∧
      ∃ seen exit, Search 2016 Params.testnet.earlyFloor floorOnTopTip seen exit ∧
        exit.verdict = .ok (.expand 0x1c00ffff) ∧ seen.length ≤ 4 := by
  have hFound : regularTarget 2016 Params.testnet.earlyFloor floorOnTopTip =
      .ok (.expand 0x1c00ffff) := by rfl
  have hView : floorOnTopTip.view = floorOnTop.view := rfl
  obtain ⟨_, ⟨seen, exit, hSearch⟩, hAll⟩ :=
    regularTarget_nearest 2016 Params.testnet.earlyFloor hView
  obtain ⟨hVerdict, hLength, _⟩ := hAll seen exit hSearch
  exact ⟨hFound, seen, exit, hSearch, hVerdict.trans hFound, hLength⟩

end Segment

end PowRules
