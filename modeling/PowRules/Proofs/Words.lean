import Mathlib.Algebra.Group.Int.Defs
import Mathlib.Algebra.Group.Nat.Defs
import PowRules.Proofs.Verdict
import PowRules.Retarget

/-! Arithmetic in words of fixed width, where a step that has no proper result is a fault. Each step gives the plain
result where its side condition holds. -/
namespace PowRules.Words

/-- What may be wrong with a step. -/
inductive Fault where
  /-- The result is too large for its word, or too far below zero. -/
  | overflow
  /-- The result of a subtraction without sign is below zero. -/
  | underflow
  | zeroDivisor
  /-- A list has no element at this place. -/
  | noElement
  /-- The lower of two bounds is above the upper one. -/
  | crossedBounds
  /-- Dropping the sign of a number changes it. -/
  | lostSign
deriving DecidableEq

/-- Why a computation in words stops: for a reason that it has without words too, or for a fault. -/
inductive Halt (ε : Type) where
  | error (error : ε)
  | fault (fault : Fault)
deriving DecidableEq

abbrev Run (ε : Type) : Type → Type := Except (Halt ε)

variable {ε δ α β : Type}

def fail (error : ε) : Run ε α :=
  .error (.error error)

def fault (fault : Fault) : Run ε α :=
  .error (.fault fault)

/-- What a computation without words gives. -/
def lift (verdict : Except ε α) : Run ε α :=
  verdict.mapError .error

/-- Another name for the reason, the faults being left as they are. -/
def Halt.rename (name : ε → δ) : Halt ε → Halt δ
  | error reason => .error (name reason)
  | fault found => .fault found

@[simp] theorem lift_ok (a : α) : lift (.ok a : Except ε α) = .ok a := rfl

@[simp] theorem lift_error (error : ε) : (lift (.error error) : Run ε α) = fail error := rfl

theorem lift_bind (verdict : Except ε α) (next : α → Except ε β) :
    lift (verdict.bind next) = lift verdict >>= fun a => lift (next a) := by
  cases verdict with
  | error error => rfl
  | ok a => rfl

section Steps

/-- A number in a word of so many bits, without sign. -/
def hold (bits n : Nat) : Run ε Nat :=
  if n < 2 ^ bits then .ok n else fault .overflow

/-- A number in a word of 64 bits, one of them for the sign. -/
def signed (n : Int) : Run ε Int :=
  if -2 ^ 63 ≤ n ∧ n < 2 ^ 63 then .ok n else fault .overflow

def sub (m n : Nat) : Run ε Nat :=
  if n ≤ m then .ok (m - n) else fault .underflow

def div (m n : Nat) : Run ε Nat :=
  if n = 0 then fault .zeroDivisor else .ok (m / n)

def mod (m n : Nat) : Run ε Nat :=
  if n = 0 then fault .zeroDivisor else .ok (m % n)

/-- The quotient toward zero. -/
def quotient (m n : Int) : Run ε Int :=
  if n = 0 then fault .zeroDivisor else signed (m.tdiv n)

/-- The quotient that leaves a remainder which is not negative. -/
def euclid (m n : Int) : Run ε Int :=
  if n = 0 then fault .zeroDivisor else signed (m / n)

/-- A number held between two bounds that are in order. -/
def clamp (low high n : Int) : Run ε Int :=
  if high < low then fault .crossedBounds else .ok (clampBetween low high n)

/-- A number without its sign, which has to be positive. -/
def magnitude (n : Int) : Run ε Nat :=
  if n < 0 then fault .lostSign else .ok n.natAbs

def element (items : List α) (place : Nat) : Run ε α :=
  match items[place]? with
  | some item => .ok item
  | none => fault .noElement

/-- A sum where a word of 32 bits can hold it. -/
def add? (m n : Nat) : Option Nat :=
  if m + n < 2 ^ 32 then some (m + n) else none

/-- A difference where it is not below zero. -/
def sub? (m n : Nat) : Option Nat :=
  if n ≤ m then some (m - n) else none

variable {bits m n : Nat} {k low high : Int}

theorem hold_eq (h : n < 2 ^ bits) : (hold bits n : Run ε Nat) = .ok n := if_pos h

theorem signed_eq (h : -2 ^ 63 ≤ k ∧ k < 2 ^ 63) : (signed k : Run ε Int) = .ok k := if_pos h

theorem sub_eq (h : n ≤ m) : (sub m n : Run ε Nat) = .ok (m - n) := if_pos h

theorem div_eq (h : 0 < n) : (div m n : Run ε Nat) = .ok (m / n) := if_neg (Nat.ne_of_gt h)

theorem mod_eq (h : 0 < n) : (mod m n : Run ε Nat) = .ok (m % n) := if_neg (Nat.ne_of_gt h)

/-- For numbers without sign both ways to round are one, and a quotient needs no more room than its
dividend. -/
theorem quotient_eq (hDivisor : 0 < n) (h : m < 2 ^ 63) :
    (quotient m n : Run ε Int) = .ok (m / n : Nat) := by
  have hQuotient : m / n ≤ m := Nat.div_le_self m n
  have hRange : -2 ^ 63 ≤ ((m / n : Nat) : Int) ∧ ((m / n : Nat) : Int) < 2 ^ 63 := by
    generalize m / n = quotient at hQuotient
    omega
  rw [quotient, if_neg (by omega), ← Int.ofNat_tdiv, signed_eq hRange]

theorem clamp_eq (h : low ≤ high) : (clamp low high k : Run ε Int) = .ok (clampBetween low high k) :=
  if_neg (Int.not_lt_of_ge h)

theorem magnitude_eq (h : 0 ≤ k) : (magnitude k : Run ε Nat) = .ok k.natAbs := if_neg (Int.not_lt_of_ge h)

theorem element_eq {items : List α} {item : α} (h : items[m]? = some item) :
    (element items m : Run ε α) = .ok item := by
  rw [element, h]

theorem add?_eq_some_iff {sum : Nat} : add? m n = some sum ↔ m + n < 2 ^ 32 ∧ m + n = sum := by
  simp [add?]

end Steps

end PowRules.Words
