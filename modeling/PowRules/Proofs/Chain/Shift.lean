import PowRules.Proofs.Chain.Audit
import PowRules.Proofs.Judgement
import PowRules.Proofs.Retarget.Shift

/-! Only differences of times count. A segment with all times shifted alike requires the same targets, and an
audit of it ends the same way. The one error that speaks of times is shifted along. -/
namespace PowRules

def Segment.shift (shift : Int) (segment : Segment) : Segment :=
  { segment with headers := segment.headers.map (Header.shift shift) }

/-- The same header breaks the same rule, with its times shifted where the rule is about times. -/
inductive RuleError.LaterBy (shift : Int) : RuleError → RuleError → Prop where
  | tooEarly {time time' : UInt32} {earliest earliest' : Nat}
      (hTime : PowRules.LaterBy shift time.toNat time'.toNat)
      (hEarliest : PowRules.LaterBy shift earliest earliest') :
      LaterBy shift (.tooEarly time earliest) (.tooEarly time' earliest')
  | timeless {error : RuleError} (h : ∀ time earliest, error ≠ .tooEarly time earliest) :
      LaterBy shift error error

def Rejection.LaterBy (shift : Int) (first second : Rejection) : Prop :=
  first.height = second.height ∧ first.error.LaterBy shift second.error

/-- Both results are the same value, or errors that are alike. -/
inductive SameUpToError {ε α : Type} (like : ε → ε → Prop) : Except ε α → Except ε α → Prop where
  | ok (a : α) : SameUpToError like (.ok a) (.ok a)
  | error {first second : ε} (h : like first second) : SameUpToError like (.error first) (.error second)

theorem SameUpToError.map {ε α β : Type} {like : ε → ε → Prop} {first second : Except ε α}
    (h : SameUpToError like first second) (f : α → β) :
    SameUpToError like (first.map f) (second.map f) := by
  cases h with
  | ok a => exact .ok (f a)
  | error h => exact .error h

variable {params : Params} {prev : Cursor} {time : UInt32} {error : RuleError} {shift : Int}

/-- Whatever keeps a target from being required, it is not a time. -/
theorem ne_tooEarly_of_requiredTarget (h : requiredTarget params (some prev) time = .error error)
    (candidate : UInt32) (earliest : Nat) : error ≠ .tooEarly candidate earliest := by
  rcases requiredTarget_error_cases h with rfl | ⟨height, rfl⟩ | ⟨bits, height, rfl, _⟩
  · exact nofun
  · exact nofun
  · exact nofun

/-- The rules of an audit do not tell times from the same times shifted, but in the times that an error
names. The bits of a header are not shifted, so both of its targets are equal. -/
theorem Rules.stored_shift {header : Header} (h : prev.view.TimesFit shift)
    (hHeader : ShiftFits shift header.time) :
    SameUpToError (RuleError.LaterBy shift) (stored params prev header).verdict
      (stored params (prev.shift shift) (header.shift shift)).verdict := by
  have hSame : requiredTarget params (some (prev.shift shift)) (header.shift shift).time =
      requiredTarget params (some prev) header.time := requiredTarget_shift h hHeader params
  have hTime : LaterBy shift header.time.toNat (header.shift shift).time.toNat :=
    laterBy_shiftTime hHeader
  have hEarliest : LaterBy shift (prev.time.toNat + minSpacing)
      ((prev.shift shift).time.toNat + minSpacing) := (Cursor.laterBy_time h).add minSpacing
  have hSpacing := hTime.lt_iff hEarliest
  -- The rules in their order. Only the last one reports times.
  cases hRequired : requiredTarget params (some prev) header.time with
  | error error =>
      rw [stored_of_refused hRequired, stored_of_refused (hSame.trans hRequired)]
      exact .error (.timeless (ne_tooEarly_of_requiredTarget hRequired))
  | ok target =>
      have hRequired' := hSame.trans hRequired
      by_cases hBits : Target.ofBits header.bits = .ok target
      · have hBits' : Target.ofBits (header.shift shift).bits = .ok target := hBits
        by_cases hEarly : header.time.toNat < prev.time.toNat + minSpacing
        · rw [stored_of_early hRequired hBits hEarly,
            stored_of_early hRequired' hBits' (hSpacing.mpr hEarly)]
          exact .error (.tooEarly hTime hEarliest)
        · have hFollows : Follows params prev header :=
            ⟨⟨target, hRequired, hBits⟩, Nat.le_of_not_lt hEarly⟩
          have hFollows' : Follows params (prev.shift shift) (header.shift shift) :=
            ⟨⟨target, hRequired', hBits'⟩, Nat.le_of_not_lt (mt hSpacing.mp hEarly)⟩
          rw [stored_eq_ok_iff.mpr hFollows, stored_eq_ok_iff.mpr hFollows']
          exact .ok ()
      · have hBits' : Target.ofBits (header.shift shift).bits ≠ .ok target := hBits
        rw [stored_of_wrongBits hRequired hBits, stored_of_wrongBits hRequired' hBits']
        exact .error (.timeless nofun)

namespace Segment

variable {segment : Segment}

theorem view_shift (shift : Int) (segment : Segment) :
    (segment.shift shift).view = segment.view.shift shift := by
  unfold view View.shift headerAt Segment.shift
  congr 1
  funext height
  dsimp only
  split
  · rw [Array.getElem?_map]
  · rfl

theorem at?_shift (shift : Int) (segment : Segment) (height : Nat) :
    (segment.shift shift).at? height = (segment.at? height).map (Cursor.shift shift) := by
  unfold at?
  rw [view_shift, View.at?_shift]

theorem tipHeight_shift (shift : Int) (segment : Segment) :
    (segment.shift shift).tipHeight = segment.tipHeight := by
  unfold tipHeight Segment.shift
  rw [Array.size_map]

theorem timesFit (h : ∀ header ∈ segment.headers, ShiftFits shift header.time) :
    segment.view.TimesFit shift := by
  intro height header hHeader
  change (if _ then _ else none) = some header at hHeader
  split at hHeader
  · exact h header (Array.mem_of_getElem? hHeader)
  · cases hHeader

/-- An audit of the shifted headers goes on and ends at the same heights. -/
theorem auditFrom_shift (h : segment.view.TimesFit shift) (count height : Nat) :
    SameUpToError (Rejection.LaterBy shift) (auditFrom params segment count height)
      (auditFrom params (segment.shift shift) count height) := by
  induction count generalizing height with
  | zero => exact .ok 0
  | succ count ih =>
      unfold auditFrom
      rw [at?_shift, at?_shift]
      cases hPrev : segment.at? (height - 1) with
      | none => exact .ok 0
      | some prev =>
          cases hCandidate : segment.at? height with
          | none => exact .ok 0
          | some candidate =>
              have hPrevView := (View.at?_eq_some_iff.mp hPrev).1
              have hView := (View.at?_eq_some_iff.mp hCandidate).1
              have hFits : ShiftFits shift candidate.header.time := h _ _ (headerAt_cursor hView)
              have hStored : SameUpToError (RuleError.LaterBy shift)
                  (Rules.stored params prev candidate.header).verdict
                  (Rules.stored params (prev.shift shift) (candidate.header.shift shift)).verdict :=
                Rules.stored_shift (hPrevView.symm ▸ h) hFits
              dsimp only [Option.map_some]
              rw [Cursor.header_shift]
              generalize (Rules.stored params prev candidate.header).verdict = first at hStored
              generalize (Rules.stored params (prev.shift shift)
                (candidate.header.shift shift)).verdict = second at hStored
              cases hStored with
              | ok _ => exact (ih (height + 1)).map _
              | error hError => exact .error ⟨rfl, hError⟩

/-- Both audits check the same number of headers, or reject the same height for the same reason. -/
theorem audit_shift (h : segment.view.TimesFit shift) :
    SameUpToError (Rejection.LaterBy shift) (segment.audit params)
      ((segment.shift shift).audit params) := by
  unfold audit
  rw [tipHeight_shift]
  cases segment.tipHeight with
  | none => exact .ok 0
  | some tip => exact auditFrom_shift h _ _

/-- As long as no time leaves its range, a shift of all times changes neither what is required on top of any
header nor how an audit ends. -/
theorem required_and_audit_shift (params : Params)
    (hFits : ∀ header ∈ segment.headers, ShiftFits shift header.time) :
    (∀ height prev time, segment.at? height = some prev → ShiftFits shift time →
      ∃ shifted, (segment.shift shift).at? height = some shifted ∧
        requiredTarget params (some shifted) (shiftTime shift time) =
          requiredTarget params (some prev) time) ∧
    SameUpToError (Rejection.LaterBy shift) (segment.audit params)
      ((segment.shift shift).audit params) := by
  have hView := timesFit hFits
  refine ⟨?_, audit_shift hView⟩
  intro height prev time hPrev hTime
  have hPrevView := (View.at?_eq_some_iff.mp hPrev).1
  refine ⟨prev.shift shift, ?_, requiredTarget_shift (hPrevView.symm ▸ hView) hTime params⟩
  rw [at?_shift, hPrev]
  rfl

def hurried : Segment where
  headers := #[
    { time := 1540000000, bits := 0x1e0fffff },
    { time := 1540000600, bits := 0x1e0fffff },
    { time := 1540001000, bits := 0x1e0fffff }]

def hurriedTip : Cursor where
  view := hurried.view
  height := 2
  header := { time := 1540001000, bits := 0x1e0fffff }
  held := rfl

/-- Down to the beginning of time. -/
theorem required_and_audit_shift_hurried :
    hurried.audit .testnet = .error ⟨2, .tooEarly 1540001000 1540001080⟩ ∧
      (hurried.shift (-1540000000)).audit .testnet = .error ⟨2, .tooEarly 1000 1080⟩ ∧
      SameUpToError (Rejection.LaterBy (-1540000000)) (hurried.audit .testnet)
        ((hurried.shift (-1540000000)).audit .testnet) ∧
      ∃ shifted, (hurried.shift (-1540000000)).at? 2 = some shifted ∧
        requiredTarget .testnet (some shifted) 1600 =
          requiredTarget .testnet (some hurriedTip) 1540001600 := by
  have hFits : ∀ header ∈ hurried.headers, ShiftFits (-1540000000) header.time := by
    unfold ShiftFits
    decide
  have hCandidate : ShiftFits (-1540000000) 1540001600 := by
    unfold ShiftFits
    decide
  have hEarly : (hurried.shift (-1540000000)).audit .testnet = .error ⟨2, .tooEarly 1000 1080⟩ := by
    decide +kernel
  obtain ⟨hRequired, hAudit⟩ := required_and_audit_shift .testnet hFits
  exact ⟨by rfl, hEarly, hAudit, hRequired 2 hurriedTip 1540001600 rfl hCandidate⟩

end Segment

end PowRules
