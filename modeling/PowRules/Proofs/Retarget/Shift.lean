import Mathlib.Data.List.Forall2
import PowRules.Proofs.Chain.View
import PowRules.Proofs.Verdict
import PowRules.Retarget

/-! Moving all times of a branch by the same number of seconds changes no required target. The look-ups commute
with the move, a window time moves along, and everything else reads differences of times alone. -/
namespace PowRules

/-- So many seconds later, or earlier where the number is negative. Beyond the range of times it wraps. -/
def shiftTime (shift : Int) (time : UInt32) : UInt32 :=
  UInt32.ofInt (time.toNat + shift)

/-- The shifted time does not leave the range of times. -/
def ShiftFits (shift : Int) (time : UInt32) : Prop :=
  0 ≤ time.toNat + shift ∧ time.toNat + shift < 0x100000000

/-- The second number of seconds is the first one after the shift. -/
def LaterBy (shift : Int) (first second : Nat) : Prop :=
  (second : Int) = first + shift

namespace LaterBy

variable {shift : Int} {first first' second second' : Nat}

theorem min (hFirst : LaterBy shift first first') (hSecond : LaterBy shift second second') :
    LaterBy shift (Min.min first second) (Min.min first' second') := by
  unfold LaterBy at *
  omega

theorem max (hFirst : LaterBy shift first first') (hSecond : LaterBy shift second second') :
    LaterBy shift (Max.max first second) (Max.max first' second') := by
  unfold LaterBy at *
  omega

/-- Differences of times stay, which is all that retargets use. -/
theorem sub_eq (hFirst : LaterBy shift first first') (hSecond : LaterBy shift second second') :
    (second' : Int) - first' = second - first := by
  unfold LaterBy at *
  omega

theorem lt_iff (hFirst : LaterBy shift first first') (hSecond : LaterBy shift second second') :
    first' < second' ↔ first < second := by
  unfold LaterBy at *
  omega

theorem add (h : LaterBy shift first first') (count : Nat) :
    LaterBy shift (first + count) (first' + count) := by
  unfold LaterBy at *
  omega

end LaterBy

/-- A time that stays in range is shifted without wrapping. -/
theorem laterBy_shiftTime {shift : Int} {time : UInt32} (h : ShiftFits shift time) :
    LaterBy shift time.toNat (shiftTime shift time).toNat := by
  obtain ⟨hLow, hHigh⟩ := h
  simp only [LaterBy, shiftTime, UInt32.ofInt, UInt32.toNat_ofNat']
  omega

def Header.shift (shift : Int) (header : Header) : Header :=
  { header with time := shiftTime shift header.time }

@[simp] theorem Header.bits_shift (shift : Int) (header : Header) :
    (header.shift shift).bits = header.bits := rfl

namespace View

def shift (shift : Int) (view : View) : View where
  headerAt height := (view.headerAt height).map (Header.shift shift)

/-- No header of the view leaves the range of times. -/
def TimesFit (shift : Int) (view : View) : Prop :=
  ∀ height header, view.headerAt height = some header → ShiftFits shift header.time

end View

def Cursor.shift (shift : Int) (cursor : Cursor) : Cursor where
  view := cursor.view.shift shift
  height := cursor.height
  header := cursor.header.shift shift
  held := by
    change (cursor.view.headerAt cursor.height).map (Header.shift shift) = _
    rw [cursor.held]
    rfl

section LookUps

variable (shift : Int) (view : View) (cursor : Cursor)

@[simp] theorem View.headerAt_shift (height : Nat) :
    (view.shift shift).headerAt height = (view.headerAt height).map (Header.shift shift) := rfl

theorem View.at?_shift (height : Nat) :
    (view.shift shift).at? height = (view.at? height).map (Cursor.shift shift) := by
  cases hFound : view.at? height with
  | none =>
      rw [at?_eq_none_iff] at hFound
      rw [Option.map_none, at?_eq_none_iff, headerAt_shift, hFound, Option.map_none]
  | some found =>
      obtain ⟨rfl, rfl⟩ := at?_eq_some_iff.mp hFound
      exact at?_eq_some_iff.mpr ⟨rfl, rfl⟩

namespace Cursor

@[simp] theorem view_shift : (cursor.shift shift).view = cursor.view.shift shift := rfl

@[simp] theorem height_shift : (cursor.shift shift).height = cursor.height := rfl

@[simp] theorem header_shift : (cursor.shift shift).header = cursor.header.shift shift := rfl

@[simp] theorem target_shift : (cursor.shift shift).target = cursor.target := rfl

theorem previous_shift :
    (cursor.shift shift).previous = cursor.previous.map (Option.map (Cursor.shift shift)) := by
  unfold previous
  rw [height_shift, view_shift]
  cases cursor.height with
  | zero => rfl
  | succ height =>
      dsimp only
      rw [View.at?_shift]
      cases cursor.view.at? height with
      | none => rfl
      | some previous => rfl

theorem ancestor_shift (height : Nat) :
    (cursor.shift shift).ancestor height = (cursor.ancestor height).map (Cursor.shift shift) := by
  unfold ancestor ancestor?
  rw [height_shift, view_shift, View.at?_shift]
  by_cases hHeight : height ≤ cursor.height
  · rw [if_pos hHeight, if_pos hHeight]
    cases cursor.view.at? height with
    | none => rfl
    | some found => rfl
  · rw [if_neg hHeight, if_neg hHeight]
    rfl

end Cursor

end LookUps

namespace Cursor

variable {shift : Int} {cursor : Cursor}

theorem laterBy_time (h : cursor.view.TimesFit shift) :
    LaterBy shift cursor.time.toNat (cursor.shift shift).time.toNat :=
  laterBy_shiftTime (h _ _ cursor.held)

section Midpoint

variable {first second : Nat} {others others' : List Nat}

/-- Half of a difference is rounded the same way wherever the two ends lie. -/
theorem midpoint_laterBy (hFirst : LaterBy shift first second)
    (h : List.Forall₂ (LaterBy shift) others others') :
    LaterBy shift (midpoint first others) (midpoint second others') := by
  have hLeast : LaterBy shift (others.foldl min first) (others'.foldl min second) := by
    refine List.rel_foldl (P := LaterBy shift) ?_ hFirst h
    intro before before' hBefore next next' hNext
    exact hBefore.min hNext
  have hGreatest : LaterBy shift (others.foldl max first) (others'.foldl max second) := by
    refine List.rel_foldl (P := LaterBy shift) ?_ hFirst h
    intro before before' hBefore next next' hNext
    exact hBefore.max hNext
  unfold LaterBy midpoint at *
  dsimp only
  omega

end Midpoint

/-- Listed times are shifted one by one, or the same header is missing. The induction is on the count.
-/
theorem earlierTimes_shift (h : cursor.view.TimesFit shift) (count : Nat) :
    SameOrMissing False (List.Forall₂ (LaterBy shift)) (cursor.earlierTimes count)
      ((cursor.shift shift).earlierTimes count) := by
  induction count generalizing cursor with
  | zero => exact .ok .nil
  | succ count ih =>
      unfold earlierTimes
      rw [previous_shift]
      cases hPrevious : cursor.previous with
      | error error => exact .error error
      | ok found =>
          cases found with
          | none => exact .ok .nil
          | some previous =>
              obtain ⟨hView, _⟩ := previous_eq_some_iff.mp hPrevious
              have hFits : previous.view.TimesFit shift := hView.symm ▸ h
              exact (ih hFits).mapLike fun _ _ hTimes => .cons (laterBy_time hFits) hTimes

/-- The middle of shifted times is the shifted middle. -/
theorem windowTime_shift (h : cursor.view.TimesFit shift) (window : Nat) :
    SameOrMissing False (LaterBy shift) (cursor.windowTime window)
      ((cursor.shift shift).windowTime window) :=
  (earlierTimes_shift h _).mapLike fun _ _ hTimes => midpoint_laterBy (laterBy_time h) hTimes

end Cursor

namespace Interval

/-- The search reads bits and heights only, so the shift does not matter at all. -/
theorem regularTargetFrom_shift (shift : Int) (view : View) (interval : Nat) (floor : Target)
    (height : Nat) (header : Header) :
    regularTargetFrom (view.shift shift) interval floor height (header.shift shift) =
      regularTargetFrom view interval floor height header := by
  induction height generalizing header with
  | zero => rfl
  | succ height ih =>
      rw [regularTargetFrom, regularTargetFrom, Header.bits_shift, View.headerAt_shift]
      cases Target.ofBits header.bits with
      | error error => rfl
      | ok target =>
          cases view.headerAt height with
          | none => rfl
          | some previous => simp only [Option.map_some, ih]

variable {shift : Int} {prev : Cursor} {time : UInt32} (params : Params) (height : Nat)

/-- The measured time is a difference, so the target stays. -/
theorem boundaryTarget_shift (h : prev.view.TimesFit shift) :
    boundaryTarget params height (prev.shift shift) = boundaryTarget params height prev := by
  unfold boundaryTarget
  rw [Cursor.ancestor_shift]
  cases hFirst : prev.ancestor (height - params.interval) with
  | error error => rfl
  | ok first =>
      obtain ⟨_, hView, _⟩ := Cursor.ancestor_eq_ok_iff.mp hFirst
      have hStart : LaterBy shift first.time.toNat (first.shift shift).time.toNat :=
        Cursor.laterBy_time (hView.symm ▸ h)
      have hEnd := Cursor.laterBy_time h
      have hMeasured : measuredTimespan params (first.shift shift) (prev.shift shift) =
          measuredTimespan params first prev := by
        unfold measuredTimespan
        rw [hStart.sub_eq hEnd]
      simp only [Except.map, hMeasured, Cursor.target_shift]

/-- Lateness compares two times, so the order decides. -/
theorem isSlow_shift (h : prev.view.TimesFit shift) (hTime : ShiftFits shift time) :
    IsSlow params (prev.shift shift) (shiftTime shift time) ↔ IsSlow params prev time :=
  ((Cursor.laterBy_time h).add _).lt_iff (laterBy_shiftTime hTime)

/-- Neither the start nor the inside of an interval tells a shift. -/
theorem target_shift (h : prev.view.TimesFit shift) (hTime : ShiftFits shift time) :
    target params height (prev.shift shift) (shiftTime shift time) =
      target params height prev time := by
  have hRegular : regularTarget params.interval (params.floorAt height) (prev.shift shift) =
      regularTarget params.interval (params.floorAt height) prev :=
    regularTargetFrom_shift shift prev.view _ _ prev.height prev.header
  unfold target insideTarget
  rw [boundaryTarget_shift params height h, hRegular, Cursor.target_shift]
  simp only [isSlow_shift params h hTime]

end Interval

section Required

variable {shift : Int} {prev : Cursor} {time : UInt32}

/-- The two window times move together, and so their difference stays. -/
theorem Shield.target_shift (h : prev.view.TimesFit shift) (shield : Shield) (params : Params)
    (height : Nat) :
    shield.target params height (prev.shift shift) = shield.target params height prev := by
  unfold Shield.target
  split
  · rfl
  · unfold Shield.retarget
    split
    · rfl
    · rw [Cursor.ancestor_shift, Cursor.target_shift]
      cases hFirst : prev.ancestor (height - shield.window) with
      | error error => rfl
      | ok first =>
          obtain ⟨_, hView, _⟩ := Cursor.ancestor_eq_ok_iff.mp hFirst
          have hStart : first.view.TimesFit shift := hView.symm ▸ h
          -- Both window times move by the shift, so their difference stays.
          apply Eq.symm
          apply SameOrMissing.eq
          refine (Cursor.windowTime_shift h shield.sample).bind fun late late' hLate => ?_
          refine (Cursor.windowTime_shift hStart shield.sample).bind fun early early' hEarly => ?_
          rw [hEarly.sub_eq hLate]
          exact .refl _

theorem Regime.target_shift (h : prev.view.TimesFit shift) (hTime : ShiftFits shift time)
    (regime : Regime) (params : Params) (height : Nat) :
    regime.target params height (prev.shift shift) (shiftTime shift time) =
      regime.target params height prev time := by
  cases regime with
  | genesis => rfl
  | floorStep => rfl
  | interval => exact Interval.target_shift params height h hTime
  | shieldV1 => exact Shield.target_shift h Shield.v1 params height
  | shieldV2 => exact Shield.target_shift h Shield.v2 params height

/-- A target that is required of a candidate is required of the shifted one on top of the shifted
headers. -/
theorem requiredTarget_shift (h : prev.view.TimesFit shift) (hTime : ShiftFits shift time)
    (params : Params) :
    requiredTarget params (some (prev.shift shift)) (shiftTime shift time) =
      requiredTarget params (some prev) time := by
  unfold requiredTarget
  dsimp only
  rw [Cursor.height_shift]
  split
  · exact Regime.target_shift h hTime _ params _
  · rfl

end Required

end PowRules
