import Mathlib.Data.List.Sort
import PowRules.Proofs.Chain.WindowTime
import PowRules.Proofs.Words

/-! The time of a window of headers in machine words. The times are collected and sorted, and the first of them and the
last one are looked up by their places. -/
namespace PowRules

section Sorted

variable {items : List Nat}

/-- Sorting puts the extremes at the two ends. -/
theorem exists_ends_mergeSort (h : items ≠ []) :
    ∃ least greatest, items.mergeSort[0]? = some least ∧
      items.mergeSort[items.mergeSort.length - 1]? = some greatest ∧
        IsLeast {n | n ∈ items} least ∧ IsGreatest {n | n ∈ items} greatest := by
  have hOrder := List.pairwise_iff_getElem.mp (List.pairwise_mergeSort' (· ≤ ·) items)
  have hPerm := List.mergeSort_perm items (fun m n => decide (m ≤ n))
  have hFilled : 0 < items.mergeSort.length := by
    rw [hPerm.length_eq]
    exact List.length_pos_iff.mpr h
  have hLast : items.mergeSort.length - 1 < items.mergeSort.length := Nat.sub_one_lt_of_lt hFilled
  refine ⟨_, _, List.getElem?_eq_getElem hFilled, List.getElem?_eq_getElem hLast, ⟨?_, ?_⟩, ?_, ?_⟩
  · exact hPerm.mem_iff.mp (List.getElem_mem hFilled)
  · intro n hn
    obtain ⟨place, hPlace, rfl⟩ := List.getElem_of_mem (hPerm.mem_iff.mpr hn)
    rcases Nat.eq_zero_or_pos place with rfl | hPositive
    · exact Nat.le_refl _
    · exact hOrder 0 place hFilled hPlace hPositive
  · exact hPerm.mem_iff.mp (List.getElem_mem hLast)
  · intro n hn
    obtain ⟨place, hPlace, rfl⟩ := List.getElem_of_mem (hPerm.mem_iff.mpr hn)
    rcases Nat.lt_or_eq_of_le (Nat.le_sub_one_of_lt hPlace) with hBefore | rfl
    · exact hOrder place _ hPlace hLast hBefore
    · exact Nat.le_refl _

end Sorted

namespace Cursor

variable {cursor : Cursor} {count window first : Nat} {others : List Nat}

theorem times_lt (h : cursor.earlierTimes count = .ok others) : ∀ n ∈ cursor.time.toNat :: others, n < 2 ^ 32 := by
  intro n hn
  rcases List.mem_cons.mp hn with rfl | hEarlier
  · exact cursor.time.toNat_lt
  · obtain ⟨_, header, _, _, _, rfl⟩ := (mem_earlierTimes_iff h).mp hEarlier
    exact header.time.toNat_lt

theorem midpoint_lt {bound : Nat} (h : ∀ n ∈ first :: others, n < bound) : midpoint first others < bound := by
  obtain ⟨least, greatest, _, _, hLeast, hGreatest⟩ := exists_ends_mergeSort (List.cons_ne_nil first others)
  have hOrder : least ≤ greatest := hLeast.2 hGreatest.1
  have hBound : greatest < bound := h greatest hGreatest.1
  rw [midpoint_eq hLeast hGreatest]
  omega

theorem windowTime_lt {time : Nat} (h : cursor.windowTime window = .ok time) : time < 2 ^ 32 := by
  obtain ⟨others, hOthers, rfl⟩ := map_eq_ok_iff.mp h
  exact midpoint_lt (times_lt hOthers)

end Cursor

namespace Words

/-- The number halfway between the first of some sorted numbers and the last one. -/
def midpoint (sorted : List Nat) : Run RuleError Int := do
  let first ← element sorted 0
  let place ← sub sorted.length 1
  let last ← element sorted place
  let span ← signed ((last : Int) - first)
  let half ← quotient span 2
  signed (first + half)

/-- The time of the window of `window` headers that ends here. There is room for as many times of eight bytes. -/
def windowTime (cursor : Cursor) (window : Nat) : Run RuleError Int := do
  let _room ← signed (8 * max window 1)
  let others ← lift (cursor.earlierTimes (max window 1 - 1))
  midpoint (cursor.time.toNat :: others).mergeSort

variable {cursor : Cursor} {window : Nat}

/-- Sorted times have their extremes at the ends, which are the ones that two folds find. -/
theorem midpoint_eq {first : Nat} {others : List Nat} (h : ∀ n ∈ first :: others, n < 2 ^ 32) :
    midpoint (first :: others).mergeSort = .ok (Cursor.midpoint first others : Int) := by
  obtain ⟨least, greatest, hFirst, hLast, hLeast, hGreatest⟩ :=
    exists_ends_mergeSort (List.cons_ne_nil first others)
  have hOrder : least ≤ greatest := hLeast.2 hGreatest.1
  have hBound : greatest < 2 ^ 32 := h greatest hGreatest.1
  have hFilled : 1 ≤ (first :: others).mergeSort.length := List.length_pos_of_mem (List.mem_of_getElem? hFirst)
  rw [midpoint, element_eq hFirst, ok_bind, sub_eq hFilled, ok_bind, element_eq hLast, ok_bind,
    ← Int.ofNat_sub hOrder, signed_eq (by omega), ok_bind]
  have hHalf : (quotient ((greatest - least : Nat) : Int) 2 : Run RuleError Int) =
      .ok ((greatest - least) / 2 : Nat) := quotient_eq (by decide) (by omega)
  rw [hHalf, ok_bind, signed_eq (by omega), Cursor.midpoint_eq hLeast hGreatest]
  rfl

/-- No cursor and no window of 32 bits leads to a fault. -/
theorem windowTime_eq (h : window < 2 ^ 32) :
    windowTime cursor window = lift ((cursor.windowTime window).map Int.ofNat) := by
  rw [windowTime, signed_eq (by omega), ok_bind, Cursor.windowTime]
  cases hTimes : cursor.earlierTimes (max window 1 - 1) with
  | error error => rfl
  | ok others => exact midpoint_eq (Cursor.times_lt hTimes)

theorem windowTime_of_ok {time : Nat} (h : window < 2 ^ 32) (hTime : cursor.windowTime window = .ok time) :
    windowTime cursor window = .ok (time : Int) := by
  rw [windowTime_eq h, hTime]
  rfl

theorem windowTime_of_error {error : RuleError} (h : window < 2 ^ 32)
    (hError : cursor.windowTime window = .error error) : windowTime cursor window = fail error := by
  rw [windowTime_eq h, hError]
  rfl

end Words

end PowRules
