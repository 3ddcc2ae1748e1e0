import PowRules.Chain
import PowRules.Proofs.Retarget.RegularTarget
import PowRules.Proofs.Retarget.Required

/-! What is required on top of a header depends on the times and targets up to that header alone. Other
fields, other spellings of bits and headers above it make no difference, neither to the target nor to
the error. A hole in the view makes none either, unless it is reported: no look-up takes it for genesis. -/
namespace PowRules

variable {holes : Prop} {first second : Cursor}

theorem Interval.boundaryTarget_covered (h : first.CoveredBy holes second) (params : Params)
    (height : Nat) :
    SameOrMissing holes (· = ·) (boundaryTarget params height first)
      (boundaryTarget params height second) := by
  have hStart := h.ancestor (height - params.interval)
  unfold boundaryTarget measuredTimespan
  rw [h.target, h.time]
  generalize first.ancestor (height - params.interval) = left at hStart
  generalize second.ancestor (height - params.interval) = right at hStart
  cases hStart with
  | missing hHoles missing _ => exact .missing hHoles missing _
  | error error => exact .error error
  | ok hCovered =>
      dsimp only
      rw [hCovered.time]
      exact .refl _

/-- Inside an interval a search may read any number of headers, and stops at the first hole. -/
theorem Interval.insideTarget_covered (h : first.CoveredBy holes second) (params : Params)
    (height : Nat) (time : UInt32) :
    SameOrMissing holes (· = ·) (insideTarget params height first time)
      (insideTarget params height second time) := by
  have hSlow : IsSlow params first time ↔ IsSlow params second time := by
    unfold IsSlow
    rw [h.time]
  unfold insideTarget
  simp only [h.target, hSlow]
  split
  · split
    · exact .ok rfl
    · exact regularTarget_covered h
  · exact .refl _

theorem Interval.target_covered (h : first.CoveredBy holes second) (params : Params) (height : Nat)
    (time : UInt32) :
    SameOrMissing holes (· = ·) (target params height first time)
      (target params height second time) := by
  unfold target
  split
  · exact boundaryTarget_covered h params height
  · exact insideTarget_covered h params height time

theorem Shield.target_covered (h : first.CoveredBy holes second) (shield : Shield) (params : Params)
    (height : Nat) :
    SameOrMissing holes (· = ·) (shield.target params height first)
      (shield.target params height second) := by
  unfold Shield.target Shield.retarget
  rw [h.target]
  split
  · exact .ok rfl
  · split
    · exact .error _
    · refine (h.ancestor _).bind fun left right hCovered => ?_
      refine (h.windowTime _).bind fun late _ hLate => ?_
      refine (hCovered.windowTime _).bind fun early _ hEarly => ?_
      rw [hLate, hEarly]
      exact .refl _

theorem Regime.target_covered (h : first.CoveredBy holes second) (regime : Regime) (params : Params)
    (height : Nat) (time : UInt32) :
    SameOrMissing holes (· = ·) (regime.target params height first time)
      (regime.target params height second time) := by
  cases regime with
  | genesis => exact .ok rfl
  | floorStep => exact .ok rfl
  | interval => exact Interval.target_covered h params height time
  | shieldV1 => exact Shield.target_covered h Shield.v1 params height
  | shieldV2 => exact Shield.target_covered h Shield.v2 params height

/-- A view with holes never leads to another target, nor to another error than a missing header. -/
theorem requiredTarget_covered (h : first.CoveredBy holes second) (params : Params) (time : UInt32) :
    SameOrMissing holes (· = ·) (requiredTarget params (some first) time)
      (requiredTarget params (some second) time) := by
  unfold requiredTarget
  dsimp only
  rw [← h.1]
  split
  · exact Regime.target_covered h _ params _ time
  · exact .error _

/-- Where both views hold the same, the results are equal too. -/
theorem requiredTarget_congr (h : first.Alike second) (params : Params) (time : UInt32) :
    requiredTarget params (some first) time = requiredTarget params (some second) time :=
  (requiredTarget_covered (h.coveredBy False) params time).eq

/-- Two views of any kind that hold headers at the same heights up to this one, with the same times and
with the same bits or others for the same target, require the same on top of it, or fail alike. -/
theorem requiredTarget_of_sameBranch {first second : View} {height : Nat} {left right : Cursor}
    (hLeft : first.at? height = some left) (hRight : second.at? height = some right)
    (hBelow : ∀ k, k ≤ height → (first.headerAt k = none ∧ second.headerAt k = none) ∨
      ∃ header other, first.headerAt k = some header ∧ second.headerAt k = some other ∧
        header.time = other.time ∧
          (header.bits = other.bits ∨ ∃ target, Target.ofBits header.bits = .ok target ∧
            Target.ofBits other.bits = .ok target)) :
    ∀ params time, requiredTarget params (some left) time = requiredTarget params (some right) time := by
  obtain ⟨rfl, rfl⟩ := View.at?_eq_some_iff.mp hLeft
  obtain ⟨rfl, hHeight⟩ := View.at?_eq_some_iff.mp hRight
  simp only [← Header.alike_iff] at hBelow
  intro params time
  exact requiredTarget_congr ⟨hHeight.symm, View.agreesUpTo_of_alike hBelow⟩ params time

/-- Three headers of a list. The search for a regular header passes the last one. -/
def listed : View :=
  .ofArray #[
    { time := 1540000000, bits := 0x1e0fffff },
    { time := 1540000600, bits := 0x1d00ff00 },
    { time := 1540001200, bits := 0x1e0fffff }]

/-- The same times and targets in a segment, with other fields, another spelling, and one more header. -/
def respelled : Segment where
  headers := #[
    { version := 2, time := 1540000000, bits := 0x1e0fffff },
    { time := 1540000600, bits := 0x1e0000ff },
    { time := 1540001200, bits := 0x1e0fffff, nonce := 7 },
    { time := 1540001800, bits := 0x1d00ff00 }]

def listedTop : Cursor where
  view := listed
  height := 2
  header := { time := 1540001200, bits := 0x1e0fffff }
  held := rfl

def respelledTop : Cursor where
  view := respelled.view
  height := 2
  header := { time := 1540001200, bits := 0x1e0fffff, nonce := 7 }
  held := rfl

/-- A list and a segment, which differ in other fields, in the spelling of one target and in a header
above the cursor. -/
theorem requiredTarget_of_sameBranch_respelled :
    listed.at? 2 = some listedTop ∧ respelled.view.at? 2 = some respelledTop ∧
      requiredTarget .testnet (some listedTop) 1540001800 = .ok (.expand 0x1d00ff00) ∧
      ∀ params time,
        requiredTarget params (some listedTop) time = requiredTarget params (some respelledTop) time := by
  have hLeft : listed.at? 2 = some listedTop := by rfl
  have hRight : respelled.view.at? 2 = some respelledTop := by rfl
  refine ⟨hLeft, hRight, by rfl, requiredTarget_of_sameBranch hLeft hRight ?_⟩
  intro k hk
  obtain rfl | rfl | rfl : k = 0 ∨ k = 1 ∨ k = 2 := by omega
  · exact .inr ⟨_, _, rfl, rfl, rfl, .inl rfl⟩
  · exact .inr ⟨_, _, rfl, rfl, rfl, .inr ⟨.expand 0x1d00ff00, by rfl, by rfl⟩⟩
  · exact .inr ⟨_, _, rfl, rfl, rfl, .inl rfl⟩

end PowRules
