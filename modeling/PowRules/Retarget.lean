import PowRules.Network
import PowRules.Chain

/-! The target that a header is required to have. Its height has a regime, and each regime computes the
target in its own way from the headers below. -/
namespace PowRules

/-- How the target of a height comes about. -/
inductive Regime where
  /-- Height zero has the early floor. -/
  | genesis
  /-- The first height after the early era has the late floor. -/
  | floorStep
  /-- One retarget at the start of each interval. -/
  | interval
  /-- A retarget at each block, over the longer window. -/
  | shieldV1
  /-- A retarget at each block, over the shorter window. -/
  | shieldV2
deriving DecidableEq

namespace Regime

/-- The regime of a height. Of two that apply, the one tested first counts. -/
def ofHeight (params : Params) (height : Nat) : Regime :=
  if height = 0 then genesis
  else if height = params.earlyEnd.toNat + 1 then floorStep
  else if params.shieldV2After.toNat < height then shieldV2
  else if params.shieldV1After.toNat < height then shieldV1
  else interval

def name : Regime → String
  | genesis => "Genesis"
  | floorStep => "PowLimitStep"
  | interval => "Original"
  | shieldV1 => "DigiShieldV1"
  | shieldV2 => "DigiShieldV2"

end Regime

/-! The retarget at the start of each interval, and what holds inside an interval. -/

/-- A target scaled by `actual / expected`, rounded down, then capped and rounded to compact form.
An expected time of zero counts as one. -/
def Target.rescale (target : Target) (actual expected : Nat) (cap : Target) : Target :=
  (((target.multiply actual).divide expected).capped cap).rounded

def Cursor.target (cursor : Cursor) : Except RuleError Target :=
  Target.ofBits cursor.bits

def clampBetween (low high n : Int) : Int :=
  max low (min high n)

namespace Interval

/-- The target of the nearest header, from this one back, that starts an interval or does not have the
floor. A header with the floor inside an interval may have had it as an exception. -/
def regularTargetFrom (view : View) (interval : Nat) (floor : Target) :
    Nat → Header → Except RuleError Target
  | 0, header => Target.ofBits header.bits
  | height + 1, header =>
      match Target.ofBits header.bits with
      | .error error => .error error
      | .ok target =>
          if (height + 1) % interval = 0 ∨ target ≠ floor then .ok target
          else
            match view.headerAt height with
            | some previous => regularTargetFrom view interval floor height previous
            | none => .error (.missingAncestor height)

/-- The target of the nearest header, from the cursor back, that is no exception. -/
def regularTarget (interval : Nat) (floor : Target) (cursor : Cursor) : Except RuleError Target :=
  regularTargetFrom cursor.view interval floor cursor.height cursor.header

/-- Whether a candidate comes more than two spacings after its predecessor. -/
def IsSlow (params : Params) (prev : Cursor) (time : UInt32) : Prop :=
  prev.time.toNat + 2 * params.spacing.toNat < time.toNat

instance (params : Params) (prev : Cursor) (time : UInt32) : Decidable (IsSlow params prev time) :=
  inferInstanceAs (Decidable (_ < _))

def insideTarget (params : Params) (height : Nat) (prev : Cursor) (time : UInt32) :
    Except RuleError Target :=
  if params.slowAtFloor then
    if IsSlow params prev time then .ok (params.floorAt height)
    else regularTarget params.interval (params.floorAt height) prev
  else prev.target

/-- The time an interval took, held within a factor of four of what it should take. -/
def measuredTimespan (params : Params) (first prev : Cursor) : Int :=
  let expected := params.timespan.toNat
  clampBetween (expected / 4 : Nat) (expected * 4) ((prev.time.toNat : Int) - first.time.toNat)

/-- The target at the start of an interval, which measures the time since the header one interval
back. That header has to be in view even where the bits are kept. -/
def boundaryTarget (params : Params) (height : Nat) (prev : Cursor) : Except RuleError Target :=
  match prev.ancestor (height - params.interval) with
  | .error error => .error error
  | .ok first =>
      if params.keepsBits then prev.target
      else
        prev.target.map fun target =>
          target.rescale (measuredTimespan params first prev).toNat params.timespan.toNat
            (params.floorAt height)

def target (params : Params) (height : Nat) (prev : Cursor) (time : UInt32) :
    Except RuleError Target :=
  if height % params.interval = 0 then boundaryTarget params height prev
  else insideTarget params height prev time

end Interval

/-! The two retargets at each block, which differ in their numbers only. -/

/-- A retarget at each block. It compares the window times at two headers `window` blocks apart. -/
structure Shield where
  /-- How many blocks lie between the two measured headers. -/
  window : Nat
  /-- The seconds a block should take. -/
  spacing : Nat
  /-- By how many per cent the adjusted time may fall below the expected one. -/
  maxUp : Int
  /-- By how many per cent the adjusted time may rise above the expected one. -/
  maxDown : Int
  /-- How many headers a window time samples. -/
  sample : Nat
  /-- Whether the first blocks have a fixed target. -/
  anchored : Bool
deriving DecidableEq

namespace Shield

/-- Bounds of 92 and 116 per cent. -/
def v1 : Shield where
  window := 50
  spacing := 600
  maxUp := 8
  maxDown := 16
  sample := 11
  anchored := true

/-- Bounds of 20 and 180 per cent. -/
def v2 : Shield where
  window := 16
  spacing := 600
  maxUp := 80
  maxDown := 80
  sample := 5
  anchored := false

def expected (shield : Shield) : Nat :=
  shield.window * shield.spacing

/-- The least adjusted time, rounded toward zero. -/
def least (shield : Shield) : Int :=
  ((shield.expected : Int) * (100 - shield.maxUp)).tdiv 100

/-- The greatest adjusted time, rounded toward zero. -/
def greatest (shield : Shield) : Int :=
  ((shield.expected : Int) * (100 + shield.maxDown)).tdiv 100

/-- The target of the first blocks where these are fixed. -/
def anchor : Target :=
  .expand 0x1b01a61a

/-- Whether a height is among the first blocks, whose windows would reach back too far. -/
def IsAnchorHeight (shield : Shield) (params : Params) (height : Nat) : Prop :=
  shield.anchored ∧ params.isAnchored ∧
    height - params.shieldV1After.toNat ≤ shield.window + shield.sample

instance (shield : Shield) (params : Params) (height : Nat) :
    Decidable (shield.IsAnchorHeight params height) :=
  inferInstanceAs (Decidable (_ ∧ _ ∧ _))

/-- A measured time drawn to the expected one, so that a quarter of the difference remains, rounded
down, and then held within the bounds. -/
def adjusted (shield : Shield) (measured : Int) : Int :=
  clampBetween shield.least shield.greatest
    (shield.expected + (measured - shield.expected).fdiv 4)

/-- The target at a height that is not anchored. -/
def retarget (shield : Shield) (params : Params) (height : Nat) (prev : Cursor) :
    Except RuleError Target :=
  if height < shield.window then .error (.missingAncestor 0)
  else do
    let first ← prev.ancestor (height - shield.window)
    let late ← prev.windowTime shield.sample
    let early ← first.windowTime shield.sample
    let target ← prev.target
    return target.rescale (shield.adjusted ((late : Int) - early)).natAbs shield.expected
      params.earlyFloor

def target (shield : Shield) (params : Params) (height : Nat) (prev : Cursor) :
    Except RuleError Target :=
  if shield.IsAnchorHeight params height then .ok anchor
  else shield.retarget params height prev

end Shield

/-! One function for all heights. -/

def Regime.target (regime : Regime) (params : Params) (height : Nat) (prev : Cursor)
    (time : UInt32) : Except RuleError Target :=
  match regime with
  | .genesis => .ok params.earlyFloor
  | .floorStep => .ok params.lateFloor
  | .interval => Interval.target params height prev time
  | .shieldV1 => Shield.v1.target params height prev
  | .shieldV2 => Shield.v2.target params height prev

/-- The target required of a candidate with this time on top of `prev`, or of genesis where there is
no predecessor. -/
def requiredTarget (params : Params) (prev : Option Cursor) (time : UInt32) :
    Except RuleError Target :=
  match prev with
  | none => .ok params.earlyFloor
  | some prev =>
      if prev.height < maxHeight then
        (Regime.ofHeight params (prev.height + 1)).target params (prev.height + 1) prev time
      else .error .heightOverflow

/-- The bits a block on top of `prev` has to carry. -/
def requiredBits (params : Params) (prev : Cursor) (time : UInt32) : Except RuleError UInt32 :=
  (requiredTarget params (some prev) time).map Target.bits

end PowRules
