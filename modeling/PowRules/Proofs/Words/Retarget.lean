import PowRules.Proofs.Retarget.Required
import PowRules.Proofs.Retarget.Shield
import PowRules.Proofs.Words.Target
import PowRules.Proofs.Words.WindowTime

/-! Required targets in machine words. Whatever the settings and the headers, each function gives what it gives without
words, so the height in question, the bounds and the signs that its steps rely on are proved where it takes them. The
names are those of the functions without words. -/
namespace PowRules.Words

section Definitions

variable {ε : Type}

def interval (params : Params) : Run ε Nat := do
  let count ← div params.timespan.toNat (max params.spacing.toNat 1)
  return max count 1

/-- The regime of a height. No height comes after an early era that ends at the last one. -/
def regime (params : Params) (height : Nat) : Regime :=
  if height = 0 then .genesis
  else if add? params.earlyEnd.toNat 1 = some height then .floorStep
  else if params.shieldV2After.toNat < height then .shieldV2
  else if params.shieldV1After.toNat < height then .shieldV1
  else .interval

def regularTargetFrom (view : View) (interval : Nat) (floor : Target) : Nat → Header → Run RuleError Target
  | 0, header => do
      let target ← ofBits header.bits
      let _offset ← mod 0 interval
      return target
  | height + 1, header => do
      let target ← ofBits header.bits
      let offset ← mod (height + 1) interval
      if offset = 0 ∨ target ≠ floor then return target
      else
        match view.headerAt height with
        | some previous => regularTargetFrom view interval floor height previous
        | none => fail (.missingAncestor height)

def insideTarget (params : Params) (interval height : Nat) (prev : Cursor) (time : UInt32) : Run RuleError Target :=
  if params.slowAtFloor then do
    let twice ← hold 64 (2 * params.spacing.toNat)
    let slowAfter ← hold 64 (prev.time.toNat + twice)
    if slowAfter < time.toNat then return params.floorAt height
    else regularTargetFrom prev.view interval (params.floorAt height) prev.height prev.header
  else ofBits prev.bits

def measuredTimespan (params : Params) (first prev : Cursor) : Run ε Int := do
  let difference ← signed ((prev.time.toNat : Int) - first.time.toNat)
  let low ← quotient params.timespan.toNat 4
  let high ← signed ((params.timespan.toNat : Int) * 4)
  clamp low high difference

def boundaryTarget (params : Params) (interval height : Nat) (prev : Cursor) : Run RuleError Target := do
  let start ← sub height interval
  let first ← lift (prev.ancestor start)
  if params.keepsBits then ofBits prev.bits
  else
    let timespan ← measuredTimespan params first prev
    let target ← ofBits prev.bits
    let actual ← magnitude timespan
    rescale target actual params.timespan.toNat (params.floorAt height)

/-- The target of a height with one retarget at the start of each interval. -/
def intervalTarget (params : Params) (height : Nat) (prev : Cursor) (time : UInt32) : Run RuleError Target := do
  let interval ← interval params
  let offset ← mod height interval
  if offset = 0 then boundaryTarget params interval height prev
  else insideTarget params interval height prev time

def expected (shield : Shield) : Run ε Int :=
  signed ((shield.window : Int) * shield.spacing)

/-- So many per cent of the seconds a whole window should take, rounded toward zero. -/
def share (shield : Shield) (percent : Int) : Run ε Int := do
  let held ← signed percent
  let whole ← expected shield
  let product ← signed (whole * held)
  quotient product 100

def adjusted (shield : Shield) (measured : Int) : Run ε Int := do
  let whole ← expected shield
  let difference ← signed (measured - whole)
  let quarter ← euclid difference 4
  let drawn ← signed (whole + quarter)
  let low ← share shield (100 - shield.maxUp)
  let high ← share shield (100 + shield.maxDown)
  clamp low high drawn

def isAnchorHeight (shield : Shield) (params : Params) (height : Nat) : Run ε Bool :=
  if shield.anchored ∧ params.isAnchored then do
    let reach ← hold 32 (shield.window + shield.sample)
    return height - params.shieldV1After.toNat ≤ reach
  else return false

def shieldRetarget (shield : Shield) (params : Params) (height : Nat) (prev : Cursor) : Run RuleError Target :=
  match sub? height shield.window with
  | none => fail (.missingAncestor 0)
  | some start => do
      let first ← lift (prev.ancestor start)
      let whole ← expected shield
      let late ← windowTime prev shield.sample
      let early ← windowTime first shield.sample
      let measured ← signed (late - early)
      let timespan ← adjusted shield measured
      let target ← ofBits prev.bits
      let actual ← magnitude timespan
      let usual ← magnitude whole
      rescale target actual usual params.earlyFloor

/-- The target of a height with a retarget at each block. -/
def shieldTarget (shield : Shield) (params : Params) (height : Nat) (prev : Cursor) : Run RuleError Target := do
  let anchored ← isAnchorHeight shield params height
  if anchored then rounded Shield.anchor
  else shieldRetarget shield params height prev

def regimeTarget (params : Params) (height : Nat) (prev : Cursor) (time : UInt32) : Run RuleError Target :=
  match regime params height with
  | .genesis => return params.earlyFloor
  | .floorStep => return params.lateFloor
  | .interval => intervalTarget params height prev time
  | .shieldV1 => shieldTarget .v1 params height prev
  | .shieldV2 => shieldTarget .v2 params height prev

/-- The target required of a candidate, which is reported by its compact word. -/
def requiredTarget (params : Params) (prev : Option Cursor) (time : UInt32) : Run RuleError Target :=
  match prev with
  | none => return params.earlyFloor
  | some prev =>
      match add? prev.height 1 with
      | none => fail .heightOverflow
      | some height => do
          let target ← regimeTarget params height prev time
          let _reported ← encode target.value
          return target

end Definitions

section Interval

variable {ε : Type} {params : Params} {height : Nat} {prev : Cursor} {time : UInt32}

theorem interval_eq (params : Params) : (interval params : Run ε Nat) = .ok params.interval := by
  rw [interval, div_eq (by omega)]
  rfl

theorem regime_eq (h : height < 2 ^ 32) : regime params height = Regime.ofHeight params height := by
  have hStep : add? params.earlyEnd.toNat 1 = some height ↔ height = params.earlyEnd.toNat + 1 := by
    rw [add?_eq_some_iff]
    omega
  simp only [regime, Regime.ofHeight, hStep]

/-- A boundary lies at least one interval above genesis. -/
theorem interval_le_of_boundary (hHeight : 0 < height) (h : height % params.interval = 0) :
    params.interval ≤ height :=
  Nat.le_of_dvd hHeight (Nat.dvd_of_mod_eq_zero h)

/-- An interval has at least one block, so no remainder is taken by zero, and the search ends at genesis
at the latest. -/
theorem regularTargetFrom_eq {interval : Nat} (hInterval : 0 < interval) (view : View) (floor : Target)
    (height : Nat) (header : Header) :
    regularTargetFrom view interval floor height header =
      lift (Interval.regularTargetFrom view interval floor height header) := by
  induction height generalizing header with
  | zero =>
      rw [regularTargetFrom, ofBits_eq, Interval.regularTargetFrom, mod_eq hInterval]
      cases Target.ofBits header.bits with
      | error error => rfl
      | ok target => rfl
  | succ height ih =>
      rw [regularTargetFrom, ofBits_eq, Interval.regularTargetFrom, mod_eq hInterval]
      cases Target.ofBits header.bits with
      | error error => rfl
      | ok target =>
          simp only [lift_ok, ok_bind]
          split
          next hEnd => rfl
          next hPassed =>
            cases view.headerAt height with
            | none => rfl
            | some previous => exact ih previous

/-- Two spacings and the time of the predecessor fit into 64 bits. -/
theorem insideTarget_eq :
    insideTarget params params.interval height prev time = lift (Interval.insideTarget params height prev time) := by
  have hSpacing := params.spacing.toNat_lt
  have hTime := prev.time.toNat_lt
  unfold insideTarget Interval.insideTarget
  split
  next hException =>
    rw [hold_eq (by omega), ok_bind, hold_eq (by omega), ok_bind]
    by_cases hSlow : Interval.IsSlow params prev time
    · have hLate : prev.time.toNat + 2 * params.spacing.toNat < time.toNat := hSlow
      rw [if_pos hLate, if_pos hSlow]
      rfl
    · have hSoon : ¬prev.time.toNat + 2 * params.spacing.toNat < time.toNat := hSlow
      rw [if_neg hSoon, if_neg hSlow]
      exact regularTargetFrom_eq params.interval_pos _ _ _ _
  next hException => exact ofBits_eq prev.bits

theorem measuredTimespan_nonneg (params : Params) (first prev : Cursor) :
    0 ≤ Interval.measuredTimespan params first prev :=
  Int.le_trans (Int.natCast_nonneg _) low_le_clampBetween

/-- Differences of times need 33 bits with their sign, and the bounds are in order. -/
theorem measuredTimespan_eq (params : Params) (first prev : Cursor) :
    (measuredTimespan params first prev : Run ε Int) = .ok (Interval.measuredTimespan params first prev) := by
  have hExpected := params.timespan.toNat_lt
  have hLate := prev.time.toNat_lt
  have hEarly := first.time.toNat_lt
  have hQuarter : (quotient params.timespan.toNat 4 : Run ε Int) = .ok (params.timespan.toNat / 4 : Nat) :=
    quotient_eq (by decide) (by omega)
  rw [measuredTimespan, signed_eq (by omega), ok_bind, hQuarter, ok_bind, signed_eq (by omega), ok_bind,
    clamp_eq (by omega)]
  rfl

/-- A positive multiple of the interval is no less than the interval, so the first height is not below
zero. -/
theorem boundaryTarget_eq (hFloor : (params.floorAt height).value < 2 ^ 256) (hHeight : 0 < height)
    (hBoundary : height % params.interval = 0) :
    boundaryTarget params params.interval height prev = lift (Interval.boundaryTarget params height prev) := by
  rw [boundaryTarget, sub_eq (interval_le_of_boundary hHeight hBoundary), ok_bind, Interval.boundaryTarget]
  cases prev.ancestor (height - params.interval) with
  | error error => rfl
  | ok first =>
      rw [lift_ok, ok_bind]
      cases hKeeps : params.keepsBits with
      | true => exact ofBits_eq prev.bits
      | false =>
          have hSign := measuredTimespan_nonneg params first prev
          have hAbs : (Interval.measuredTimespan params first prev).natAbs =
              (Interval.measuredTimespan params first prev).toNat := by omega
          rw [measuredTimespan_eq, ok_bind, ofBits_eq, Cursor.target]
          cases Target.ofBits prev.bits with
          | error error => rfl
          | ok target =>
              rw [lift_ok, ok_bind, magnitude_eq hSign, ok_bind, hAbs, rescale_eq hFloor]
              rfl

theorem intervalTarget_eq (hFloor : (params.floorAt height).value < 2 ^ 256) (hHeight : 0 < height) :
    intervalTarget params height prev time = lift (Interval.target params height prev time) := by
  rw [intervalTarget, interval_eq, ok_bind, mod_eq params.interval_pos, ok_bind, Interval.target]
  split
  next hBoundary => exact boundaryTarget_eq hFloor hHeight hBoundary
  next hInside => exact insideTarget_eq

end Interval

section Shield

/-- What the steps of a per-block retarget rely on. -/
structure Fits (shield : Shield) : Prop where
  expected_le : shield.expected ≤ 2 ^ 32
  reach_lt : shield.window + shield.sample < 2 ^ 32
  maxUp_le : 0 ≤ shield.maxUp ∧ shield.maxUp ≤ 100
  maxDown_le : 0 ≤ shield.maxDown ∧ shield.maxDown ≤ 100
  least_nonneg : 0 ≤ shield.least
  bounds : shield.least ≤ shield.greatest

theorem fits_v1 : Fits .v1 := by
  constructor <;> decide

theorem fits_v2 : Fits .v2 := by
  constructor <;> decide

variable {ε : Type} {shield : Shield} {params : Params} {height : Nat} {prev : Cursor} {measured : Int}

theorem expected_eq (h : Fits shield) : (expected shield : Run ε Int) = .ok shield.expected := by
  have hExpected := h.expected_le
  have hWhole : (shield.window : Int) * shield.spacing = shield.expected := by
    rw [Shield.expected, Int.natCast_mul]
  rw [expected, hWhole, signed_eq (by omega)]

theorem share_eq (h : Fits shield) {percent : Int} (hPercent : 0 ≤ percent ∧ percent ≤ 200) :
    (share shield percent : Run ε Int) = .ok (((shield.expected : Int) * percent).tdiv 100) := by
  obtain ⟨n, rfl⟩ := Int.eq_ofNat_of_zero_le hPercent.1
  have hProduct : shield.expected * n ≤ 2 ^ 32 * 200 := Nat.mul_le_mul h.expected_le (by omega)
  have hQuotient : (quotient (shield.expected * n : Nat) 100 : Run ε Int) = .ok (shield.expected * n / 100 : Nat) :=
    quotient_eq (by decide) (by omega)
  rw [share, signed_eq (by omega), ok_bind, expected_eq h, ok_bind, ← Int.natCast_mul, signed_eq (by omega), ok_bind,
    hQuotient, Int.ofNat_tdiv]
  rfl

theorem adjusted_nonneg (h : Fits shield) (measured : Int) : 0 ≤ shield.adjusted measured :=
  Int.le_trans h.least_nonneg low_le_clampBetween

/-- A measured time of 33 bits with its sign is far from the ends of 64 bits, through all of the steps.
-/
theorem adjusted_eq (h : Fits shield) (hMeasured : -2 ^ 32 < measured ∧ measured < 2 ^ 32) :
    (adjusted shield measured : Run ε Int) = .ok (shield.adjusted measured) := by
  have hExpected := h.expected_le
  have hUp := h.maxUp_le
  have hDown := h.maxDown_le
  have hQuarter : (measured - shield.expected).fdiv 4 = (measured - shield.expected) / 4 :=
    Int.fdiv_eq_ediv_of_nonneg _ (by decide)
  have hEuclid : (euclid (measured - shield.expected) 4 : Run ε Int) = .ok ((measured - shield.expected) / 4) := by
    rw [euclid, if_neg (by decide), signed_eq (by omega)]
  have hLeast : (share shield (100 - shield.maxUp) : Run ε Int) = .ok shield.least := share_eq h (by omega)
  have hGreatest : (share shield (100 + shield.maxDown) : Run ε Int) = .ok shield.greatest := share_eq h (by omega)
  rw [adjusted, expected_eq h, ok_bind, signed_eq (by omega), ok_bind, hEuclid, ok_bind, signed_eq (by omega), ok_bind,
    hLeast, ok_bind, hGreatest, ok_bind, clamp_eq h.bounds, Shield.adjusted, hQuarter]

/-- Both widths together fit into 32 bits. The difference of the heights ends at zero, with words and
without them. -/
theorem isAnchorHeight_eq (h : Fits shield) :
    (isAnchorHeight shield params height : Run ε Bool) = .ok (decide (shield.IsAnchorHeight params height)) := by
  unfold isAnchorHeight
  split
  next hAnchored =>
    have hReach : shield.IsAnchorHeight params height ↔
        height - params.shieldV1After.toNat ≤ shield.window + shield.sample :=
      ⟨fun hAll => hAll.2.2, fun hNear => ⟨hAnchored.1, hAnchored.2, hNear⟩⟩
    rw [hold_eq h.reach_lt, ok_bind]
    exact congrArg Except.ok (decide_eq_decide.mpr hReach.symm)
  next hFree =>
    have hNever : ¬shield.IsAnchorHeight params height := fun hAll => hFree ⟨hAll.1, hAll.2.1⟩
    rw [decide_eq_false hNever]
    rfl

/-- The look-ups come in the order that they have without words, so the errors are the same. Each of the
steps between them has its side condition. -/
theorem shieldRetarget_eq (h : Fits shield) (hFloor : params.earlyFloor.value < 2 ^ 256) :
    shieldRetarget shield params height prev = lift (shield.retarget params height prev) := by
  have hSample : shield.sample < 2 ^ 32 := Nat.lt_of_le_of_lt (Nat.le_add_left _ _) h.reach_lt
  unfold shieldRetarget Shield.retarget sub?
  by_cases hWindow : shield.window ≤ height
  · rw [if_pos hWindow, if_neg (Nat.not_lt_of_le hWindow)]
    dsimp only
    cases prev.ancestor (height - shield.window) with
    | error error => rfl
    | ok first =>
        rw [lift_ok, ok_bind, ok_bind, expected_eq h, ok_bind]
        cases hLate : prev.windowTime shield.sample with
        | error error =>
            rw [windowTime_of_error hSample hLate]
            rfl
        | ok late =>
            rw [windowTime_of_ok hSample hLate, ok_bind, ok_bind]
            cases hEarly : first.windowTime shield.sample with
            | error error =>
                rw [windowTime_of_error hSample hEarly]
                rfl
            | ok early =>
                have hLateBound := Cursor.windowTime_lt hLate
                have hEarlyBound := Cursor.windowTime_lt hEarly
                rw [windowTime_of_ok hSample hEarly, ok_bind, signed_eq (by omega), ok_bind, adjusted_eq h (by omega),
                  ok_bind, ok_bind, ofBits_eq, Cursor.target]
                cases Target.ofBits prev.bits with
                | error error => rfl
                | ok target =>
                    rw [lift_ok, ok_bind, magnitude_eq (adjusted_nonneg h _), ok_bind,
                      magnitude_eq (Int.natCast_nonneg _), ok_bind, rescale_eq hFloor]
                    rfl
  · rw [if_neg hWindow, if_pos (Nat.lt_of_not_le hWindow)]
    rfl

theorem shieldTarget_eq (h : Fits shield) (hFloor : params.earlyFloor.value < 2 ^ 256) :
    shieldTarget shield params height prev = lift (shield.target params height prev) := by
  rw [shieldTarget, isAnchorHeight_eq h, ok_bind, Shield.target]
  by_cases hAnchor : shield.IsAnchorHeight params height
  · have hRange : Shield.anchor.value < 2 ^ 256 := Compact.limit_eq ▸ Shield.isExact_anchor.lt_limit
    rw [decide_eq_true hAnchor, if_pos rfl, if_pos hAnchor, rounded_eq hRange, Shield.isExact_anchor.rounded_eq]
    rfl
  · rw [decide_eq_false hAnchor, if_neg Bool.false_ne_true, if_neg hAnchor]
    exact shieldRetarget_eq h hFloor

end Shield

section Required

variable {params : Params} {height : Nat} {prev : Cursor} {time : UInt32}

/-- Both floors are numbers of 256 bits. -/
structure FloorsFit (params : Params) : Prop where
  late : params.lateFloor.value < 2 ^ 256
  early : params.earlyFloor.value < 2 ^ 256

theorem FloorsFit.floorAt (h : FloorsFit params) (height : Nat) : (params.floorAt height).value < 2 ^ 256 := by
  unfold Params.floorAt
  split
  · exact h.late
  · exact h.early

/-- A required target is a floor, the target of some header, or held below a floor. -/
theorem required_lt {target : Target} (hFloors : FloorsFit params) (h : Required params prev time target) :
    target.value < 2 ^ 256 := by
  cases h with
  | floorStep => exact hFloors.late
  | anchor => exact Compact.limit_eq ▸ Shield.isExact_anchor.lt_limit
  | slow => exact hFloors.floorAt _
  | regular _ _ _ _ hTarget =>
      obtain ⟨_, _, ⟨hFound, _⟩, _⟩ := Interval.regularTarget_eq_ok_iff.mp hTarget
      exact Compact.limit_eq ▸ hFound.isExact.lt_limit
  | copied _ _ _ hTarget => exact Compact.limit_eq ▸ (Cursor.target_eq_ok_iff.mp hTarget).isExact.lt_limit
  | kept _ _ _ _ hTarget => exact Compact.limit_eq ▸ (Cursor.target_eq_ok_iff.mp hTarget).isExact.lt_limit
  | rescaled hRescales =>
      refine Nat.lt_of_le_of_lt Target.rescale_le ?_
      cases hRescales with
      | boundary => exact hFloors.floorAt _
      | shield => exact hFloors.early

theorem regimeTarget_eq (hFloors : FloorsFit params) (hHeight : 0 < height ∧ height < 2 ^ 32) :
    regimeTarget params height prev time = lift ((Regime.ofHeight params height).target params height prev time) := by
  rw [regimeTarget, regime_eq hHeight.2]
  cases Regime.ofHeight params height with
  | genesis => rfl
  | floorStep => rfl
  | interval => exact intervalTarget_eq (hFloors.floorAt height) hHeight.1
  | shieldV1 => exact shieldTarget_eq fits_v1 hFloors.early
  | shieldV2 => exact shieldTarget_eq fits_v2 hFloors.early

theorem requiredTarget_lt {prev : Option Cursor} {target : Target} (hFloors : FloorsFit params)
    (h : PowRules.requiredTarget params prev time = .ok target) : target.value < 2 ^ 256 := by
  cases prev with
  | none =>
      obtain rfl := Except.ok.inj h
      exact hFloors.early
  | some prev => exact required_lt hFloors (requiredTarget_eq_ok_iff.mp h).2

/-- The height above the predecessor has a word, or there is no height left. -/
theorem requiredTarget_eq (hFloors : FloorsFit params) (prev : Option Cursor) (time : UInt32) :
    requiredTarget params prev time = lift (PowRules.requiredTarget params prev time) := by
  cases prev with
  | none => rfl
  | some prev =>
      have hWord : prev.height + 1 < 2 ^ 32 ↔ prev.height < maxHeight := by
        unfold maxHeight
        omega
      unfold requiredTarget PowRules.requiredTarget add?
      by_cases hHeight : prev.height < maxHeight
      · simp only [if_pos hHeight, if_pos (hWord.mpr hHeight)]
        rw [regimeTarget_eq hFloors ⟨Nat.succ_pos _, hWord.mpr hHeight⟩]
        cases hTarget : (Regime.ofHeight params (prev.height + 1)).target params (prev.height + 1) prev time with
        | error error => rfl
        | ok target =>
            rw [lift_ok, ok_bind, encode_eq (required_lt hFloors (required_of_regimeTarget hTarget))]
            rfl
      · simp only [if_neg hHeight, if_neg (mt hWord.mp hHeight), lift_error]

end Required

end PowRules.Words
