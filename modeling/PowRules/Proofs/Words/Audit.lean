import PowRules.Proofs.Chain.Audit
import PowRules.Proofs.Words.Retarget

/-! The engine runs without a fault. For settings whose floors are numbers of 256 bits, every function gives in machine
words what it gives without them, for all headers in view and at all heights. Each has the name of the function that it
stands beside. -/
namespace PowRules.Words

section Definitions

def spacing (header previous : Header) : Run RuleError Unit := do
  let earliest ← hold 64 (previous.time.toNat + Rules.minSpacing)
  if header.time.toNat < earliest then fail (.tooEarly header.time earliest) else return ()

def difficultyBits (required : Target) (header : Header) : Run RuleError Unit :=
  match ofBits header.bits with
  | .error (.fault found) => fault found
  | .error (.error _) => wrong
  | .ok claimed => if claimed = required then return () else wrong
where
  wrong : Run RuleError Unit := do
    let bits ← encode required.value
    fail (.wrongBits bits header.bits)

def stored (params : Params) (prev : Cursor) (header : Header) : Run RuleError Unit := do
  let target ← requiredTarget params (some prev) header.time
  difficultyBits target header
  spacing header prev.header

def tipHeight (segment : Segment) : Option Nat :=
  if segment.headers.size < 2 ^ 32 then
    match sub? segment.headers.size 1 with
    | some offset => add? segment.base.toNat offset
    | none => none
  else none

/-- Check `count` headers from one height on, where some have been checked before. -/
def auditFrom (params : Params) (segment : Segment) : Nat → Nat → Nat → Run Rejection Nat
  | 0, _, checked => return checked
  | count + 1, height, checked => do
      -- A height needs a word where it is visited. None is visited after the last one.
      let height ← hold 32 height
      let below ← sub height 1
      match segment.at? below, segment.at? height with
      | some prev, some candidate =>
          (stored params prev candidate.header).mapError (Halt.rename (Rejection.mk height))
          let checked ← hold 32 (checked + 1)
          auditFrom params segment count (height + 1) checked
      | _, _ => return checked

def audit (params : Params) (segment : Segment) : Run Rejection Nat :=
  match tipHeight segment, add? segment.base.toNat 1 with
  | some tip, some first => auditFrom params segment (tip + 1 - first) first 0
  | _, _ => return 0

end Definitions

variable {params : Params} {segment : Segment}

theorem spacing_eq (header previous : Header) :
    spacing header previous = lift (Rules.spacing header previous).verdict := by
  have hTime := previous.time.toNat_lt
  have hEarliest : previous.time.toNat + Rules.minSpacing < 2 ^ 64 := by
    unfold Rules.minSpacing
    omega
  rw [spacing, hold_eq hEarliest, ok_bind, Rules.spacing]
  split <;> rfl

/-- Only a target of 256 bits at most is reported by its word, so this is asked of the required one. -/
theorem difficultyBits_eq {required : Target} (h : required.value < 2 ^ 256) (header : Header) :
    difficultyBits required header = lift (Rules.difficultyBits required header).verdict := by
  have hWrong : difficultyBits.wrong required header = lift (Rules.difficultyBits.wrong required header).verdict := by
    rw [difficultyBits.wrong, encode_eq h]
    rfl
  unfold difficultyBits Rules.difficultyBits
  rw [ofBits_eq]
  cases Target.ofBits header.bits with
  | error error => exact hWrong
  | ok claimed =>
      simp only [lift_ok]
      split
      next hSame => rfl
      next hOther => exact hWrong

/-- A required target is within 256 bits, so its word can be reported where the bits differ. -/
theorem stored_eq (hFloors : FloorsFit params) (prev : Cursor) (header : Header) :
    stored params prev header = lift (Rules.stored params prev header).verdict := by
  rw [stored, requiredTarget_eq hFloors, Rules.stored, Check.verdict_bind, Rules.required, Check.report]
  cases hTarget : PowRules.requiredTarget params (some prev) header.time with
  | error error => rfl
  | ok target =>
      rw [lift_ok, ok_bind, difficultyBits_eq (requiredTarget_lt hFloors hTarget), spacing_eq, ← lift_bind,
        ← Check.verdict_bind]
      rfl

theorem tipHeight_eq (segment : Segment) : tipHeight segment = segment.tipHeight := by
  unfold tipHeight Segment.tipHeight add? sub? maxHeight
  grind

/-- Heights and the number of checked headers stay in their words as long as the headers left do. -/
theorem auditFrom_eq (hFloors : FloorsFit params) {count height checked : Nat} (hHeight : 0 < height)
    (hLast : height + count ≤ 2 ^ 32) (hChecked : checked + count < 2 ^ 32) :
    auditFrom params segment count height checked =
      lift ((segment.auditFrom params count height).map (· + checked)) := by
  have hNone : ∀ n, (.ok n : Run Rejection Nat) = lift ((.ok 0 : Except Rejection Nat).map (· + n)) := fun n =>
    congrArg Except.ok (Nat.zero_add n).symm
  induction count generalizing height checked with
  | zero => exact hNone checked
  | succ count ih =>
      rw [auditFrom, hold_eq (by omega), ok_bind, sub_eq hHeight, ok_bind, Segment.auditFrom]
      cases segment.at? (height - 1) with
      | none => exact hNone checked
      | some prev =>
          cases segment.at? height with
          | none => exact hNone checked
          | some candidate =>
              dsimp only
              rw [stored_eq hFloors]
              cases (Rules.stored params prev candidate.header).verdict with
              | error error => rfl
              | ok _ =>
                  have hNext := @ih (height + 1) (checked + 1) (Nat.succ_pos height) (by omega) (by omega)
                  change (hold 32 (checked + 1) >>= auditFrom params segment count (height + 1)) = _
                  rw [hold_eq (by omega), ok_bind, hNext]
                  cases segment.auditFrom params count (height + 1) with
                  | error rejection => rfl
                  | ok further => exact congrArg Except.ok (Nat.add_right_comm further checked 1)

/-- The whole audit in words. The heights go from the one above the base to the tip, and all of them
have words. -/
theorem audit_eq (hFloors : FloorsFit params) (segment : Segment) :
    audit params segment = lift (segment.audit params) := by
  unfold audit Segment.audit
  rw [tipHeight_eq]
  cases hTip : segment.tipHeight with
  | none => rfl
  | some tip =>
      have hTop := Segment.tipHeight_le hTip
      unfold maxHeight at hTop
      by_cases hFirst : segment.base.toNat + 1 < 2 ^ 32
      · have hNext : add? segment.base.toNat 1 = some (segment.base.toNat + 1) := if_pos hFirst
        simp only [hNext]
        rw [Nat.add_sub_add_right, auditFrom_eq hFloors (Nat.succ_pos _) (by omega) (by omega)]
        cases segment.auditFrom params (tip - segment.base.toNat) (segment.base.toNat + 1) with
        | error rejection => rfl
        | ok checked => rfl
      · have hNext : add? segment.base.toNat 1 = none := if_neg hFirst
        simp only [hNext]
        rw [Nat.sub_eq_zero_of_le (by omega)]
        rfl

/-- No step is a fault: each computation gives in words what it gives without them. Beside it stand the facts that the
steps rely on and that their results do not show. -/
structure Faultless (params : Params) : Prop where
  requiredTarget_eq (prev : Option Cursor) (time : UInt32) :
    requiredTarget params prev time = lift (PowRules.requiredTarget params prev time)
  windowTime_eq (cursor : Cursor) (window : UInt32) :
    windowTime cursor window.toNat = lift ((cursor.windowTime window.toNat).map Int.ofNat)
  spacing_eq (header previous : Header) : spacing header previous = lift (Rules.spacing header previous).verdict
  audit_eq (segment : Segment) : audit params segment = lift (segment.audit params)
  interval_pos : 0 < params.interval
  /-- The height that an interval is measured from is not below genesis. -/
  interval_le (height : Nat) (hHeight : 0 < height) (hBoundary : height % params.interval = 0) :
    params.interval ≤ height
  /-- Times have a sign where they are measured, but none once they are held within their bounds. -/
  timespan_nonneg (first prev : Cursor) : 0 ≤ Interval.measuredTimespan params first prev
  adjusted_nonneg (shield : Shield) (hShield : shield = .v1 ∨ shield = .v2) (measured : Int) :
    0 ≤ shield.adjusted measured
  /-- A required target has a compact word, with a size that one byte can hold. -/
  target_lt (prev : Option Cursor) (time : UInt32) (target : Target)
    (hTarget : PowRules.requiredTarget params prev time = .ok target) :
    target.value < 2 ^ 256 ∧ Compact.exponent target.value ≤ maxSize

/-- Floors of more than 256 bits are the only settings that may lead to a fault. -/
theorem faultless (params : Params) (hLate : params.lateFloor.value < 2 ^ 256)
    (hEarly : params.earlyFloor.value < 2 ^ 256) : Faultless params where
  requiredTarget_eq := requiredTarget_eq ⟨hLate, hEarly⟩
  windowTime_eq _ window := windowTime_eq window.toNat_lt
  spacing_eq := spacing_eq
  audit_eq := audit_eq ⟨hLate, hEarly⟩
  interval_pos := params.interval_pos
  interval_le _ := interval_le_of_boundary
  timespan_nonneg := measuredTimespan_nonneg params
  adjusted_nonneg shield hShield := by
    rcases hShield with rfl | rfl
    · exact adjusted_nonneg fits_v1
    · exact adjusted_nonneg fits_v2
  target_lt prev time target hTarget := by
    have hRange := requiredTarget_lt ⟨hLate, hEarly⟩ hTarget
    refine ⟨hRange, Compact.exponent_le_iff.mpr ?_⟩
    unfold maxSize
    omega

/-- Settings at the ends of their ranges. The only boundary above genesis is the last height. -/
def outermost : Params where
  network := .mainnet
  lateFloor := ⟨2 ^ 256 - 1⟩
  earlyFloor := ⟨2 ^ 256 - 1⟩
  timespan := 0xffffffff
  spacing := 0
  slowAtFloor := true
  keepsBits := false
  earlyEnd := 0xffffffff
  legacyHashEnd := 0
  shieldV1After := 0xffffffff
  shieldV2After := 0xffffffff
  x11After := 0

/-- Genesis has the latest time, and the header below the last height has the earliest one. -/
def backwards : View where
  headerAt height :=
    if height = 0 then some { time := 0xffffffff }
    else if height = 4294967294 then some { bits := 0x207fffff }
    else none

def backwardsTop : Cursor where
  view := backwards
  height := 4294967294
  header := { bits := 0x207fffff }
  held := rfl

def topTwo : Segment where
  base := 0xfffffffe
  headers := #[{}, {}]

/-- The interval took less than no time, and the audit ends at the last height. -/
theorem faultless_outermost :
    outermost.lateFloor.value < 2 ^ 256 ∧ outermost.earlyFloor.value < 2 ^ 256 ∧
      requiredTarget outermost (some backwardsTop) 0 = .ok (.expand 0x201fffff) ∧
      windowTime backwardsTop 0 = .ok 0 ∧
      audit outermost topTwo = .error (.error ⟨4294967295, .missingAncestor 0⟩) := by
  have hFaultless := faultless outermost (by decide) (by decide)
  refine ⟨by decide, by decide, ?_, ?_, ?_⟩
  · rw [hFaultless.requiredTarget_eq]
    rfl
  · exact hFaultless.windowTime_eq backwardsTop 0
  · rw [hFaultless.audit_eq]
    rfl

end PowRules.Words
