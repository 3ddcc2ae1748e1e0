import PowRules.Target

namespace PowRules

/-- The networks with settings of their own. -/
inductive Network where
  /-- The production network. -/
  | mainnet
  /-- The public test network. -/
  | testnet
  /-- A local network for regression tests. -/
  | regtest
deriving DecidableEq

/-- A text that names no network. -/
structure UnknownNetwork where
  name : String
deriving DecidableEq

def UnknownNetwork.message (error : UnknownNetwork) : String :=
  s!"unknown network '{error.name}' (expected mainnet, testnet or regtest)"

namespace Network

def name : Network → String
  | mainnet => "mainnet"
  | testnet => "testnet"
  | regtest => "regtest"

/-- Read a name or its short form. The case of the letters `A` to `Z` does not count. -/
def parse (text : String) : Except UnknownNetwork Network :=
  let lower := text.map Char.toLower
  if lower = "mainnet" ∨ lower = "main" then .ok mainnet
  else if lower = "testnet" ∨ lower = "test" then .ok testnet
  else if lower = "regtest" then .ok regtest
  else .error ⟨text⟩

end Network

/-- The settings of a network that decide difficulties. Times are seconds. -/
structure Params where
  network : Network
  /-- The easiest target after the early era. -/
  lateFloor : Target
  /-- The easiest target of genesis, of the early era and of the per-block retargets. -/
  earlyFloor : Target
  /-- The time one retarget interval should take. -/
  timespan : UInt32
  /-- The time a block should take. -/
  spacing : UInt32
  /-- Whether a slow block inside an interval may be mined at the floor. -/
  slowAtFloor : Bool
  /-- Whether the start of an interval keeps the bits it finds. -/
  keepsBits : Bool
  /-- The last height of the early era. -/
  earlyEnd : UInt32
  /-- The last time of headers hashed in the legacy mode. -/
  legacyHashEnd : UInt32
  /-- The first per-block retarget holds above this height. -/
  shieldV1After : UInt32
  /-- The second per-block retarget holds above this height. -/
  shieldV2After : UInt32
  /-- Headers later than this are hashed with the shorter chain of functions. -/
  x11After : UInt32
deriving DecidableEq

namespace Params

/-- The second per-block retarget is not scheduled here. -/
def mainnet : Params where
  network := .mainnet
  lateFloor := .expand 0x1b092489
  earlyFloor := .expand 0x1d00ffff
  timespan := 1209600
  spacing := 600
  slowAtFloor := false
  keepsBits := false
  earlyEnd := 1648
  legacyHashEnd := 1541879606
  shieldV1After := 136135
  shieldV2After := 0xffffffff
  x11After := 1570104000

def testnet : Params where
  network := .testnet
  lateFloor := .expand 0x1d00ffff
  earlyFloor := .expand 0x1e0fffff
  timespan := 1209600
  spacing := 600
  slowAtFloor := true
  keepsBits := false
  earlyEnd := 10
  legacyHashEnd := 1541000000
  shieldV1After := 1000
  shieldV2After := 2000
  x11After := 1560000000

/-- The floor everywhere, and no retargets at the start of an interval. -/
def regtest : Params where
  network := .regtest
  lateFloor := .expand 0x207fffff
  earlyFloor := .expand 0x207fffff
  timespan := 1209600
  spacing := 600
  slowAtFloor := true
  keepsBits := true
  earlyEnd := 0
  legacyHashEnd := 0
  shieldV1After := 100
  shieldV2After := 200
  x11After := 0

def ofNetwork : Network → Params
  | .mainnet => mainnet
  | .testnet => testnet
  | .regtest => regtest

/-- How many blocks an interval has. It is at least one, whatever the settings. -/
def interval (params : Params) : Nat :=
  max (params.timespan.toNat / max params.spacing.toNat 1) 1

/-- The easiest target of the era that a height belongs to. -/
def floorAt (params : Params) (height : Nat) : Target :=
  if params.earlyEnd.toNat < height then params.lateFloor else params.earlyFloor

/-- Whether the per-block retargets begin with a fixed target. -/
def isAnchored (params : Params) : Bool :=
  params.network = .mainnet

theorem interval_pos (params : Params) : 0 < params.interval := by
  unfold interval
  omega

end Params

end PowRules
