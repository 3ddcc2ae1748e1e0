import PowRules.Main
import PowRules.Proofs.Bytes
import PowRules.Proofs.Header
import PowRules.Proofs.Target
import PowRules.Proofs.Compact.SetCompact
import PowRules.Proofs.Compact.Canonical
import PowRules.Proofs.Retarget.Required
import PowRules.Proofs.Retarget.Refused
import PowRules.Proofs.Retarget.Shield
import PowRules.Proofs.Retarget.Greatest
import PowRules.Proofs.Retarget.Monotone
import PowRules.Proofs.Chain.View
import PowRules.Proofs.Chain.WindowTime
import PowRules.Proofs.Retarget.RegularTarget
import PowRules.Proofs.Retarget.Locality
import PowRules.Proofs.Rules
import PowRules.Proofs.Judgement
import PowRules.Proofs.Rules.Log
import PowRules.Proofs.Chain.Segment
import PowRules.Proofs.Chain.LowerEdge
import PowRules.Proofs.Chain.Audit
import PowRules.Proofs.Chain.InsideInterval
import PowRules.Proofs.Chain.Extend
import PowRules.Proofs.Chain.Coverage
import PowRules.Proofs.Chain.Navigation
import PowRules.Proofs.Chain.Template
import PowRules.Proofs.Chain.FromGenesis
import PowRules.Proofs.Chain.EraFloor
import PowRules.Proofs.Chain.Easiest
import PowRules.Proofs.Chain.FixedFloor
import PowRules.Proofs.Chain.Spacing
import PowRules.Proofs.Chain.Suffix
import PowRules.Proofs.Text
import PowRules.Proofs.Text.Digits
import PowRules.Proofs.Hash.Text
import PowRules.Proofs.Compact.Text
import PowRules.Proofs.Json
import PowRules.Proofs.ChainFile
import PowRules.Proofs.ChainFile.FirstFault
import PowRules.Proofs.Retarget.Search
import PowRules.Proofs.Chain.Sample
import PowRules.Proofs.Chain.Influence
import PowRules.Proofs.Retarget.Shift
import PowRules.Proofs.Chain.Grown
import PowRules.Proofs.Chain.Shift
import PowRules.Proofs.Target.Bytes
import PowRules.Proofs.Words.Audit
