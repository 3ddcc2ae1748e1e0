import PowRules.Chain
import PowRules.Proofs.Verdict
import PowRules.Retarget

/-! What the rules can see of a view from one of its headers: the times and targets of the heights up to
it. Two views that agree on these give the same answers. A view with holes gives the same ones too, unless it
reports a missing header. -/
namespace PowRules

namespace View

/-- The header at a height has bits that stand for a target. -/
def HasTarget (view : View) (height : Nat) (target : Target) : Prop :=
  ∃ header, view.headerAt height = some header ∧ Target.ofBits header.bits = .ok target

/-- A height has at most one target in a view. -/
theorem HasTarget.unique {view : View} {height : Nat} {first second : Target}
    (hFirst : view.HasTarget height first) (hSecond : view.HasTarget height second) :
    first = second := by
  obtain ⟨header, hHeader, hFirst⟩ := hFirst
  obtain ⟨other, hOther, hSecond⟩ := hSecond
  cases hHeader.symm.trans hOther
  exact Except.ok.inj (hFirst.symm.trans hSecond)

theorem hasTarget_iff {view : View} {height : Nat} {header : Header} {target : Target}
    (h : view.headerAt height = some header) :
    view.HasTarget height target ↔ Target.ofBits header.bits = .ok target := by
  constructor
  · rintro ⟨other, hOther, hTarget⟩
    cases h.symm.trans hOther
    exact hTarget
  · intro hTarget
    exact ⟨header, h, hTarget⟩

end View

theorem Cursor.target_eq_ok_iff {cursor : Cursor} {target : Target} :
    cursor.target = .ok target ↔ cursor.view.HasTarget cursor.height target :=
  (View.hasTarget_iff cursor.held).symm

/-- Two headers that no rule on later headers tells apart: other spellings of the bits may differ. -/
def Header.Alike (first second : Header) : Prop :=
  first.time = second.time ∧ Target.ofBits first.bits = Target.ofBits second.bits

theorem Header.Alike.refl (header : Header) : header.Alike header := ⟨rfl, rfl⟩

/-- Bits that stand for no target are named in the error, so only equal ones fail alike. -/
theorem Header.alike_iff {first second : Header} :
    first.Alike second ↔ first.time = second.time ∧
      (first.bits = second.bits ∨
        ∃ target, Target.ofBits first.bits = .ok target ∧ Target.ofBits second.bits = .ok target) := by
  apply and_congr_right
  intro _
  constructor
  · intro hSame
    cases hBits : Target.ofBits first.bits with
    | error error =>
        obtain ⟨_, hFirst⟩ := Target.ofBits_eq_error_iff.mp hBits
        obtain ⟨_, hSecond⟩ := Target.ofBits_eq_error_iff.mp (hSame.symm.trans hBits)
        exact .inl (RuleError.malformedTarget.inj (hFirst.symm.trans hSecond))
    | ok target => exact .inr ⟨target, rfl, hSame.symm.trans hBits⟩
  · rintro (hBits | ⟨target, hFirst, hSecond⟩)
    · rw [hBits]
    · rw [hFirst, hSecond]

/-- At every height up to this one the views hold headers that are alike, or both hold none. -/
def View.AgreesUpTo (first second : View) (height : Nat) : Prop :=
  ∀ k, k ≤ height → Option.Rel Header.Alike (first.headerAt k) (second.headerAt k)

theorem View.agreesUpTo_of_eq {first second : View} {height : Nat}
    (h : ∀ k, k ≤ height → first.headerAt k = second.headerAt k) :
    first.AgreesUpTo second height := by
  intro k hk
  rw [h k hk]
  cases second.headerAt k with
  | none => exact .none
  | some header => exact .some (Header.Alike.refl header)

theorem View.agreesUpTo_of_alike {first second : View} {height : Nat}
    (h : ∀ k, k ≤ height → (first.headerAt k = none ∧ second.headerAt k = none) ∨
      ∃ left right, first.headerAt k = some left ∧ second.headerAt k = some right ∧
        left.Alike right) : first.AgreesUpTo second height := by
  intro k hk
  rcases h k hk with ⟨hFirst, hSecond⟩ | ⟨left, right, hFirst, hSecond, hAlike⟩
  · rw [hFirst, hSecond]
    exact .none
  · rw [hFirst, hSecond]
    exact .some hAlike

/-- Up to this height the views hold headers that are alike, or both hold none. Where holes are allowed,
the first view may lack headers that the second one holds. -/
def View.CoveredUpTo (holes : Prop) (first second : View) (height : Nat) : Prop :=
  ∀ k, k ≤ height → Option.Rel Header.Alike (first.headerAt k) (second.headerAt k) ∨
    holes ∧ first.headerAt k = none

namespace View.CoveredUpTo

variable {holes : Prop} {first second : View} {height k : Nat}

theorem mono (h : first.CoveredUpTo holes second height) (hk : k ≤ height) :
    first.CoveredUpTo holes second k :=
  fun j hj => h j (Nat.le_trans hj hk)

theorem missing_or_held (h : first.CoveredUpTo holes second height) (hk : k ≤ height) :
    (first.headerAt k = none ∧ (holes ∨ second.headerAt k = none)) ∨
      ∃ left right, first.headerAt k = some left ∧ second.headerAt k = some right ∧
        left.Alike right := by
  rcases h k hk with hHeaders | ⟨hHoles, hMissing⟩
  · generalize first.headerAt k = left at hHeaders
    generalize second.headerAt k = right at hHeaders
    cases hHeaders with
    | none => exact .inl ⟨rfl, .inr rfl⟩
    | some hAlike => exact .inr ⟨_, _, rfl, rfl, hAlike⟩
  · exact .inl ⟨hMissing, .inl hHoles⟩

end View.CoveredUpTo

/-- A view that holds only headers of another one, if not all of them. -/
theorem View.coveredUpTo_of_held {part whole : View} {height : Nat}
    (h : ∀ k header, k ≤ height → part.headerAt k = some header → whole.headerAt k = some header) :
    part.CoveredUpTo True whole height := by
  intro k hk
  cases hPart : part.headerAt k with
  | none => exact .inr ⟨trivial, rfl⟩
  | some header =>
      rw [h k header hk hPart]
      exact .inl (.some (Header.Alike.refl header))

namespace Cursor

/-- Cursors at one height, whose views agree up to it. -/
def Alike (first second : Cursor) : Prop :=
  first.height = second.height ∧ first.view.AgreesUpTo second.view first.height

/-- Cursors at one height, the first of which may see less below it where holes are allowed. -/
def CoveredBy (holes : Prop) (first second : Cursor) : Prop :=
  first.height = second.height ∧ first.view.CoveredUpTo holes second.view first.height

/-- Cursors that are alike cover each other, without a hole. -/
theorem Alike.coveredBy {first second : Cursor} (h : first.Alike second) (holes : Prop) :
    first.CoveredBy holes second :=
  ⟨h.1, fun k hk => .inl (h.2 k hk)⟩

namespace CoveredBy

variable {holes : Prop} {first second : Cursor} {height : Nat}

theorem header (h : first.CoveredBy holes second) : first.header.Alike second.header := by
  rcases h.2.missing_or_held (Nat.le_refl _) with ⟨hMissing, _⟩ | ⟨left, right, hLeft, hRight, hAlike⟩
  · cases first.held.symm.trans hMissing
  · rw [h.1] at hRight
    cases first.held.symm.trans hLeft
    cases second.held.symm.trans hRight
    exact hAlike

theorem time (h : first.CoveredBy holes second) : first.time = second.time :=
  h.header.1

theorem target (h : first.CoveredBy holes second) : first.target = second.target :=
  h.header.2

/-- What is found at a height of both branches. -/
theorem found (h : first.CoveredBy holes second) (hHeight : height ≤ first.height) :
    (first.view.at? height = none ∧ (holes ∨ second.view.at? height = none)) ∨
      ∃ left right, first.view.at? height = some left ∧ second.view.at? height = some right ∧
        left.CoveredBy holes right := by
  rcases h.2.missing_or_held hHeight with ⟨hFirst, hSecond⟩ | ⟨left, right, hFirst, hSecond, _⟩
  · exact .inl ⟨View.at?_eq_none_iff.mpr hFirst, hSecond.imp_right View.at?_eq_none_iff.mpr⟩
  · exact .inr ⟨_, _, View.at?_of_headerAt hFirst, View.at?_of_headerAt hSecond, rfl, h.2.mono hHeight⟩

/-- Steps to the predecessor stay side by side. The first one may end at a hole. -/
theorem previous (h : first.CoveredBy holes second) :
    SameOrMissing holes (Option.Rel (CoveredBy holes)) first.previous second.previous := by
  unfold Cursor.previous
  rw [← h.1]
  cases hHeight : first.height with
  | zero => exact .ok .none
  | succ height =>
      rcases h.found (show height ≤ first.height by omega) with
        ⟨hFirst, hHoles | hSecond⟩ | ⟨left, right, hFirst, hSecond, hCovered⟩
      · simp only [hFirst]
        exact .missing hHoles height _
      · simp only [hFirst, hSecond]
        exact .error _
      · simp only [hFirst, hSecond]
        exact .ok (.some hCovered)

/-- A look-up by height in a view with holes leads to the same place or to a missing header. -/
theorem ancestor (h : first.CoveredBy holes second) (height : Nat) :
    SameOrMissing holes (CoveredBy holes) (first.ancestor height) (second.ancestor height) := by
  unfold Cursor.ancestor Cursor.ancestor?
  rw [← h.1]
  by_cases hHeight : height ≤ first.height
  · rw [if_pos hHeight, if_pos hHeight]
    rcases h.found hHeight with
      ⟨hFirst, hHoles | hSecond⟩ | ⟨left, right, hFirst, hSecond, hCovered⟩
    · rw [hFirst]
      exact .missing hHoles height _
    · rw [hFirst, hSecond]
      exact .error _
    · rw [hFirst, hSecond]
      exact .ok hCovered
  · rw [if_neg hHeight, if_neg hHeight]
    exact .error _

/-- Lists of times are equal, unless the first one meets a hole. The induction is on the count, along
the predecessors. -/
theorem earlierTimes (h : first.CoveredBy holes second) (count : Nat) :
    SameOrMissing holes (· = ·) (first.earlierTimes count) (second.earlierTimes count) := by
  induction count generalizing first second with
  | zero => exact .ok rfl
  | succ count ih =>
      have hPrevious := h.previous
      unfold Cursor.earlierTimes
      generalize first.previous = left at hPrevious
      generalize second.previous = right at hPrevious
      cases hPrevious with
      | missing hHoles height second => exact .missing hHoles height _
      | error error => exact .error error
      | ok hPrevious =>
          cases hPrevious with
          | none => exact .ok rfl
          | some hCovered =>
              dsimp only
              rw [hCovered.time]
              exact (ih hCovered).map _

theorem windowTime (h : first.CoveredBy holes second) (window : Nat) :
    SameOrMissing holes (· = ·) (first.windowTime window) (second.windowTime window) := by
  unfold Cursor.windowTime
  rw [h.time]
  exact (h.earlierTimes _).map _

end CoveredBy

theorem exists_ancestor {cursor : Cursor} {height : Nat} {header : Header}
    (hHeight : height ≤ cursor.height) (hHeader : cursor.view.headerAt height = some header) :
    ∃ found, cursor.ancestor height = .ok found := by
  unfold ancestor ancestor?
  rw [if_pos hHeight, View.at?_of_headerAt hHeader]
  exact ⟨_, rfl⟩

theorem ancestor_eq_ok_iff {cursor found : Cursor} {height : Nat} :
    cursor.ancestor height = .ok found ↔
      height ≤ cursor.height ∧ found.view = cursor.view ∧ found.height = height := by
  unfold ancestor ancestor?
  by_cases hHeight : height ≤ cursor.height
  · rw [if_pos hHeight, ← View.at?_eq_some_iff, and_iff_right hHeight]
    cases cursor.view.at? height with
    | none => simp
    | some other => simp
  · simp [hHeight]

/-- A look-up fails for a height above the cursor or without a header, and names it. -/
theorem ancestor_eq_error_iff {cursor : Cursor} {height : Nat} {error : RuleError} :
    cursor.ancestor height = .error error ↔
      (height ≤ cursor.height → cursor.view.headerAt height = none) ∧
        error = .missingAncestor height := by
  unfold ancestor ancestor?
  by_cases hHeight : height ≤ cursor.height
  · cases hHeader : cursor.view.headerAt height with
    | none => simp [hHeight, View.at?_eq_none_iff.mpr hHeader, eq_comm]
    | some header => simp [hHeight, View.at?_of_headerAt hHeader]
  · simp [hHeight, eq_comm]

theorem previous_eq_some_iff {cursor previous : Cursor} :
    cursor.previous = .ok (some previous) ↔
      previous.view = cursor.view ∧ previous.height + 1 = cursor.height := by
  unfold Cursor.previous
  cases hHeight : cursor.height with
  | zero => simp
  | succ height =>
      rw [Nat.add_right_cancel_iff, ← View.at?_eq_some_iff]
      dsimp only
      cases cursor.view.at? height with
      | none => simp
      | some found => simp

theorem previous_eq_none_iff {cursor : Cursor} : cursor.previous = .ok none ↔ cursor.height = 0 := by
  unfold Cursor.previous
  cases cursor.height with
  | zero => simp
  | succ height =>
      dsimp only
      cases cursor.view.at? height with
      | none => simp
      | some found => simp

end Cursor

end PowRules
