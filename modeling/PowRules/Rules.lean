import PowRules.Check
import PowRules.Retarget
import PowRules.Chain

/-! The rules a header is accepted by. Each is a function of the header, the network's settings and
the headers in view, and says what it reported and which digests it computed. -/
namespace PowRules.Rules

/-- The least number of seconds between a header and its predecessor. -/
def minSpacing : Nat := 480

/-- What is reported about a target computed on top of `prev`. Nothing is said where the target is
that of genesis, nor where the failure is no fault of the view. -/
def requiredEvent (params : Params) (prev : Option Cursor) (result : Except RuleError Target) :
    Option Event :=
  match prev, result with
  | none, _ => none
  | some prev, .ok target =>
      some (.targetRequired (prev.height + 1) (Regime.ofHeight params (prev.height + 1)) target.bits)
  | some prev, .error error =>
      if error.isIncompleteView then some (.incompleteView (prev.height + 1) error) else none

def required (params : Params) (prev : Option Cursor) (time : UInt32) : Check Target :=
  Check.report (requiredTarget params prev time)
    (requiredEvent params prev (requiredTarget params prev time))

/-- The digest has to be at or below the claimed target. Bits that stand for no target fail the same
rule, and then no digest is computed. -/
def proofOfWork (params : Params) (header : Header) (hasher : Hasher) : Check Unit :=
  match Target.ofBits header.bits with
  | .error _ => .reject .highHash (.undecodableBits header.bits)
  | .ok target => do
      let digest ← Check.digest params header hasher
      if target.admits digest then return ()
      else .reject .highHash (.highHash digest header.bits)

/-- The claimed bits have to stand for the required target. Another compact form of it will do. -/
def difficultyBits (required : Target) (header : Header) : Check Unit :=
  match Target.ofBits header.bits with
  | .ok claimed => if claimed = required then return () else wrong
  | .error _ => wrong
where
  wrong : Check Unit :=
    .reject (.wrongBits required.bits header.bits) (.wrongBits required.bits header.bits)

def difficulty (params : Params) (prev : Option Cursor) (header : Header) (hasher : Hasher) :
    Check Unit := do
  proofOfWork params header hasher
  let target ← required params prev header.time
  difficultyBits target header

/-- A header has to come at least `minSpacing` after its predecessor. -/
def spacing (header previous : Header) : Check Unit :=
  let earliest := previous.time.toNat + minSpacing
  if header.time.toNat < earliest then
    .reject (.tooEarly header.time earliest) (.tooEarly header.time earliest)
  else return ()

/-- All rules for a header on top of `prev`. -/
def accept (params : Params) (prev : Cursor) (header : Header) (hasher : Hasher) : Check Unit := do
  difficulty params (some prev) header hasher
  spacing header prev.header

end PowRules.Rules

/-! A stored segment is audited by checking bits and spacing of each header that has its predecessor
in the segment. Digests are not computed. -/
namespace PowRules

structure Rejection where
  height : Nat
  error : RuleError
deriving DecidableEq

def Rejection.message (rejection : Rejection) : String :=
  s!"header at height {rejection.height} rejected: {rejection.error.message}"

/-- The rules of an audit for one header on top of `prev`. -/
def Rules.stored (params : Params) (prev : Cursor) (header : Header) : Check Unit := do
  let target ← required params (some prev) header.time
  difficultyBits target header
  spacing header prev.header

namespace Segment

/-- Check `count` headers from one height on. The number of headers checked is counted until a height
is not held. -/
def auditFrom (params : Params) (segment : Segment) : Nat → Nat → Except Rejection Nat
  | 0, _ => .ok 0
  | count + 1, height =>
      match segment.at? (height - 1), segment.at? height with
      | some prev, some candidate =>
          match (Rules.stored params prev candidate.header).verdict with
          | .ok () => (auditFrom params segment count (height + 1)).map (· + 1)
          | .error error => .error ⟨height, error⟩
      | _, _ => .ok 0

/-- Check every header above the first one, which is taken as given, and count them. A segment without
a tip has none to check, nor has one that starts at the last height. -/
def audit (params : Params) (segment : Segment) : Except Rejection Nat :=
  match segment.tipHeight with
  | none => .ok 0
  | some tip => auditFrom params segment (tip - segment.base.toNat) (segment.base.toNat + 1)

end Segment

end PowRules
