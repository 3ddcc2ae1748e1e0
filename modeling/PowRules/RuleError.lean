import PowRules.Compact

namespace PowRules

/-- Why a difficulty cannot be computed or a header is not acceptable. Heights and times are plain
numbers, so that none of them can wrap. -/
inductive RuleError where
  /-- A compact word does not stand for a target. -/
  | malformedTarget (bits : UInt32)
  /-- A header claims other bits than the required ones. -/
  | wrongBits (required claimed : UInt32)
  /-- The digest is above the claimed target, or that target is malformed. -/
  | highHash
  /-- The header comes too soon after its predecessor. -/
  | tooEarly (time : UInt32) (earliest : Nat)
  /-- The view lacks a header that the rules need. -/
  | missingAncestor (height : Nat)
  /-- The header would lie above the last height. -/
  | heightOverflow
deriving DecidableEq

namespace RuleError

def message : RuleError → String
  | malformedTarget bits => s!"malformed compact target 0x{Compact.text bits}"
  | wrongBits required claimed =>
      s!"bad difficulty bits: required 0x{Compact.text required}, claimed 0x{Compact.text claimed}"
  | highHash => "proof-of-work hash above claimed target"
  | tooEarly time earliest => s!"block time {time} is before earliest allowed {earliest}"
  | missingAncestor height => s!"ancestor at height {height} missing from chain view"
  | heightOverflow => "invalid header: height overflow"

/-- Whether the caller is at fault, by a view with too few headers, and not the header. -/
def isIncompleteView : RuleError → Bool
  | missingAncestor _ => true
  | _ => false

end RuleError

end PowRules
