import PowRules.Hash
import PowRules.RuleError

namespace PowRules

/-- A difficulty target. A digest meets it by being at most as large, so a smaller one is harder. -/
structure Target where
  value : Nat
deriving DecidableEq

namespace Target

def ofBits (bits : UInt32) : Except RuleError Target :=
  match Compact.decode? bits with
  | some n => .ok ⟨n⟩
  | none => .error (.malformedTarget bits)

def bits (target : Target) : UInt32 :=
  Compact.encode target.value

/-- The target a compact word stands for, whatever its sign and size. -/
def expand (bits : UInt32) : Target :=
  ⟨Compact.expand bits⟩

/-- The target rounded down to what a compact word can carry. -/
def rounded (target : Target) : Target :=
  expand target.bits

/-- The target of a string of bytes, most significant first, rounded to what a compact word can carry. -/
def ofBigEndian (bytes : List UInt8) : Target :=
  rounded ⟨LittleEndian.value bytes.reverse⟩

/-- The exact product, which may leave the range of valid targets. -/
def multiply (target : Target) (factor : Nat) : Target :=
  ⟨target.value * factor⟩

/-- The target divided and rounded down. A divisor of zero counts as one. -/
def divide (target : Target) (divisor : Nat) : Target :=
  ⟨target.value / max divisor 1⟩

/-- The target, or the cap when that is smaller. -/
def capped (target cap : Target) : Target :=
  if cap.value < target.value then cap else target

/-- Whether a digest is small enough. -/
def admits (target : Target) (digest : Hash) : Bool :=
  digest.value ≤ target.value

/-- Targets are ordered by their numbers, never by their compact words. -/
instance : Ord Target where
  compare first second := compare first.value second.value

/-- At least 64 digits, and more from `2 ^ 256` on. -/
def text (target : Target) : String :=
  String.ofList (Hex.padded 64 target.value)

def inspect (target : Target) : String :=
  s!"Target(0x{Compact.text target.bits})"

/-- The target of a word is the number that it stands for, and words without a number have no target. -/
theorem ofBits_eq_ok_iff {bits : UInt32} {target : Target} :
    ofBits bits = .ok target ↔ Compact.decode? bits = some target.value := by
  unfold ofBits
  cases Compact.decode? bits with
  | none => simp
  | some n =>
      constructor
      · intro h
        cases h
        rfl
      · intro h
        cases h
        rfl

theorem ofBits_eq_error_iff {bits : UInt32} {error : RuleError} :
    ofBits bits = .error error ↔
      Compact.decode? bits = none ∧ error = .malformedTarget bits := by
  unfold ofBits
  cases Compact.decode? bits with
  | none => simp [eq_comm]
  | some n => simp

end Target

end PowRules
