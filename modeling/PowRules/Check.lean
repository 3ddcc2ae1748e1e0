import PowRules.Header
import PowRules.Network
import PowRules.Retarget
import PowRules.Hash
import PowRules.RuleError

/-! The digest that a header's work is judged by. The functions themselves are given from outside. -/
namespace PowRules

/-- The two modes of the longer chain of functions. -/
inductive X13Mode where
  | legacy
  | compatible
deriving DecidableEq

/-- The number by which the function knows its mode. -/
def X13Mode.code : X13Mode → Nat
  | legacy => 1
  | compatible => 2

/-- The function a header is mined with. -/
inductive Algorithm where
  | x11
  | x13 (mode : X13Mode)
deriving DecidableEq

/-- The two digest functions, as pure functions of their input. -/
structure Hasher where
  x11 : List UInt8 → Hash
  x13 : X13Mode → List UInt8 → Hash

namespace Algorithm

/-- The function for a header of this time. -/
def ofTime (params : Params) (time : UInt32) : Algorithm :=
  if params.x11After < time then x11
  else if params.legacyHashEnd < time then x13 .compatible
  else x13 .legacy

def digest (hasher : Hasher) : Algorithm → List UInt8 → Hash
  | x11 => hasher.x11
  | x13 mode => hasher.x13 mode

end Algorithm

structure DigestCall where
  algorithm : Algorithm
  data : List UInt8
deriving DecidableEq

/-- The use of a digest function that a header's work asks for. -/
def Header.digestCall (params : Params) (header : Header) : DigestCall :=
  ⟨Algorithm.ofTime params header.time, header.encode⟩

def DigestCall.run (hasher : Hasher) (call : DigestCall) : Hash :=
  call.algorithm.digest hasher call.data

/-! What is logged while the rules run. -/

inductive Severity where
  | error
  | debug
  | trace
deriving DecidableEq

def Severity.name : Severity → String
  | error => "ERROR"
  | debug => "DEBUG"
  | trace => "TRACE"

inductive Channel where
  /-- Faults of the caller. -/
  | contract
  /-- Targets that were computed. -/
  | retarget
  /-- Headers that were rejected. -/
  | validate
deriving DecidableEq

def Channel.name : Channel → String
  | contract => "xrc_consensus::contract"
  | retarget => "xrc_consensus::retarget"
  | validate => "xrc_consensus::validate"

/-- What a rule reports while it runs. -/
inductive Event where
  /-- A target was computed. -/
  | targetRequired (height : Nat) (regime : Regime) (bits : UInt32)
  /-- The view lacks a header that the computation needs. -/
  | incompleteView (height : Nat) (error : RuleError)
  /-- A header was rejected since its bits stand for no target. -/
  | undecodableBits (bits : UInt32)
  /-- A header was rejected for its digest. -/
  | highHash (digest : Hash) (bits : UInt32)
  /-- A header was rejected for its bits. -/
  | wrongBits (required claimed : UInt32)
  /-- A header was rejected for its time. -/
  | tooEarly (time : UInt32) (earliest : Nat)
deriving DecidableEq

namespace Event

def severity : Event → Severity
  | targetRequired .. => .debug
  | incompleteView .. => .error
  | _ => .trace

def channel : Event → Channel
  | targetRequired .. => .retarget
  | incompleteView .. => .contract
  | _ => .validate

def message : Event → String
  | targetRequired .. => "required target"
  | incompleteView .. => "chain view handed to difficulty engine is incomplete"
  | undecodableBits _ => "high-hash: claimed bits do not decode"
  | highHash .. => "high-hash"
  | wrongBits .. => "bad-diff-bits"
  | tooEarly .. => "time-too-new"

/-- The named values of a report. Compact words stand in decimal. -/
def fields : Event → List (String × String)
  | targetRequired height regime bits =>
      [("height", toString height), ("regime", regime.name), ("bits", toString bits.toNat)]
  | incompleteView height error => [("height", toString height), ("error", error.message)]
  | undecodableBits bits => [("bits", toString bits.toNat)]
  | highHash digest bits => [("hash", digest.text), ("bits", toString bits.toNat)]
  | wrongBits required claimed =>
      [("required", toString required.toNat), ("claimed", toString claimed.toNat)]
  | tooEarly time earliest => [("time", toString time.toNat), ("earliest", toString earliest)]

end Event

/-! Rules in sequence, where the first broken one ends the run. -/

/-- What running some rules gives: a value or the rule that is broken, and beside it the reports made
and the digests computed on the way, each in order. -/
structure Check (α : Type) where
  verdict : Except RuleError α
  events : List Event := []
  digests : List DigestCall := []

namespace Check

variable {α β : Type}

def pure (a : α) : Check α where
  verdict := .ok a

/-- Go on with the value, if there is one. -/
def bind (check : Check α) (next : α → Check β) : Check β :=
  match check.verdict with
  | .error error => { check with verdict := .error error }
  | .ok a =>
      { verdict := (next a).verdict
        events := check.events ++ (next a).events
        digests := check.digests ++ (next a).digests }

instance : Monad Check where
  pure := pure
  bind := bind

def report (verdict : Except RuleError α) (event : Option Event) : Check α where
  verdict := verdict
  events := event.toList

def reject (error : RuleError) (event : Event) : Check α :=
  report (.error error) (some event)

/-- Compute the digest of a header. Every header has a wire form, so no rule can be broken here. -/
def digest (params : Params) (header : Header) (hasher : Hasher) : Check Hash :=
  match h : header.wireForm with
  | .ok data =>
      let call : DigestCall := ⟨Algorithm.ofTime params header.time, data⟩
      { verdict := .ok (call.run hasher), digests := [call] }
  | .error error => absurd h (header.wireForm_ne_error error)

/-- A digest is the one call that the header asks for. -/
theorem digest_eq (params : Params) (header : Header) (hasher : Hasher) :
    digest params header hasher =
      { verdict := .ok ((header.digestCall params).run hasher)
        digests := [header.digestCall params] } := by
  unfold digest
  split
  next data h =>
    obtain rfl := Except.ok.inj (header.wireForm_eq.symm.trans h)
    rfl
  next error h => exact absurd h (header.wireForm_ne_error error)

@[simp] theorem verdict_pure (a : α) : (Pure.pure a : Check α).verdict = .ok a := rfl

@[simp] theorem events_pure (a : α) : (Pure.pure a : Check α).events = [] := rfl

@[simp] theorem digests_pure (a : α) : (Pure.pure a : Check α).digests = [] := rfl

/-- After a broken rule nothing else runs, and what was reported so far is kept. -/
theorem bind_error {check : Check α} {error : RuleError} (next : α → Check β)
    (h : check.verdict = .error error) :
    check >>= next = { check with verdict := .error error } := by
  change bind check next = _
  simp [bind, h]

/-- Reports and digest calls of two rules in a row stand in the order of the rules. -/
theorem bind_ok {check : Check α} {a : α} (next : α → Check β) (h : check.verdict = .ok a) :
    check >>= next =
      { verdict := (next a).verdict
        events := check.events ++ (next a).events
        digests := check.digests ++ (next a).digests } := by
  change bind check next = _
  simp [bind, h]

/-- For the verdict alone, rules run as plain results do. -/
theorem verdict_bind (check : Check α) (next : α → Check β) :
    (check >>= next).verdict = check.verdict.bind fun a => (next a).verdict := by
  cases h : check.verdict with
  | error error => rw [bind_error next h]; rfl
  | ok a => rw [bind_ok next h]; rfl

end Check

end PowRules
