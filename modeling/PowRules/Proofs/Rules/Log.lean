import PowRules.Proofs.Judgement

/-! What is logged about a header. Faults of the caller, targets and broken rules are reported at three severities,
each at most once and in this order, and the verdict tells which of them there are. -/
namespace PowRules

namespace Check

variable {α β γ : Type} {check : Check α}

theorem events_bind_of_ok {a : α} (next : α → Check β) (h : check.verdict = .ok a) :
    (check >>= next).events = check.events ++ (next a).events := by
  rw [bind_ok next h]

theorem events_bind_of_error {error : RuleError} (next : α → Check β)
    (h : check.verdict = .error error) : (check >>= next).events = check.events := by
  rw [bind_error next h]

theorem bind_assoc (check : Check α) (next : α → Check β) (last : β → Check γ) :
    (check >>= next) >>= last = check >>= fun a => next a >>= last := by
  cases hVerdict : check.verdict with
  | error error =>
      rw [bind_error next hVerdict, bind_error _ hVerdict]
      rfl
  | ok a =>
      rw [bind_ok next hVerdict, bind_ok _ hVerdict]
      cases hNext : (next a).verdict with
      | error error => rw [bind_error last hNext]; rfl
      | ok b =>
          rw [bind_ok last hNext, bind_ok last rfl]
          dsimp only
          rw [List.append_assoc, List.append_assoc]

end Check

/-- The name of the rule that a header breaks. Other errors are not about a rule. -/
def RuleError.ruleName? : RuleError → Option String
  | highHash => some "high-hash"
  | wrongBits .. => some "bad-diff-bits"
  | tooEarly .. => some "time-too-new"
  | _ => none

/-- The reports of one severity, in order. -/
def Event.only (severity : Severity) (events : List Event) : List Event :=
  events.filter (·.severity = severity)

theorem Event.only_alone {event : Event} (h : event.severity = .trace) :
    only .error [event] = [] ∧ only .debug [event] = [] ∧ only .trace [event] = [event] := by
  simp [only, h]

/-- The report of a target and that of a rejection are on levels of their own. -/
theorem Event.only_pair {first second : Event} (hFirst : first.severity = .debug)
    (hSecond : second.severity = .trace) :
    only .error [first, second] = [] ∧ only .debug [first, second] = [first] ∧
      only .trace [first, second] = [second] := by
  simp [only, hFirst, hSecond]

namespace Rules

def targetReport (params : Params) (prev : Cursor) (target : Target) : Event :=
  .targetRequired (prev.height + 1) (Regime.ofHeight params (prev.height + 1)) target.bits

theorem severity_targetReport (params : Params) (prev : Cursor) (target : Target) :
    (targetReport params prev target).severity = .debug := rfl

/-- The report about a rule that a header breaks. -/
inductive Reports (params : Params) (header : Header) (hasher : Hasher) :
    RuleError → Event → Prop where
  | undecodable (hBits : Compact.decode? header.bits = none) :
      Reports params header hasher .highHash (.undecodableBits header.bits)
  | highHash {claimed : Nat} {call : DigestCall} {digest : Hash}
      (hBits : Compact.decode? header.bits = some claimed)
      (hDigest : Digests params header hasher call digest)
      (hHigh : claimed < digestNumber digest) :
      Reports params header hasher .highHash (.highHash digest header.bits)
  | wrongBits (required : UInt32) :
      Reports params header hasher (.wrongBits required header.bits) (.wrongBits required header.bits)
  | tooEarly (earliest : Nat) :
      Reports params header hasher (.tooEarly header.time earliest) (.tooEarly header.time earliest)

/-- The verdict on a header and the reports made on the way. -/
inductive Logged (params : Params) (prev : Cursor) (header : Header) (hasher : Hasher) :
    Except RuleError Unit → List Event → Prop where
  | badWork {event : Event}
      (hWork : (proofOfWork params header hasher).verdict ≠ .ok ())
      (hReport : Reports params header hasher .highHash event) :
      Logged params prev header hasher (.error .highHash) [event]
  | incomplete {height : Nat}
      (hWork : (proofOfWork params header hasher).verdict = .ok ())
      (hRequired : requiredTarget params (some prev) header.time = .error (.missingAncestor height)) :
      Logged params prev header hasher (.error (.missingAncestor height))
        [.incompleteView (prev.height + 1) (.missingAncestor height)]
  | silent {error : RuleError}
      (hWork : (proofOfWork params header hasher).verdict = .ok ())
      (hRequired : requiredTarget params (some prev) header.time = .error error)
      (hError : error = .heightOverflow ∨ ∃ bits, error = .malformedTarget bits) :
      Logged params prev header hasher (.error error) []
  | broken {target : Target} {error : RuleError} {event : Event}
      (hWork : (proofOfWork params header hasher).verdict = .ok ())
      (hRequired : requiredTarget params (some prev) header.time = .ok target)
      (hReport : Reports params header hasher error event) :
      Logged params prev header hasher (.error error) [targetReport params prev target, event]
  | accepted {target : Target}
      (hWork : (proofOfWork params header hasher).verdict = .ok ())
      (hRequired : requiredTarget params (some prev) header.time = .ok target) :
      Logged params prev header hasher (.ok ()) [targetReport params prev target]

/-- A rule that holds is silent, and one that is broken makes its report. -/
inductive Reporting (params : Params) (header : Header) (hasher : Hasher) (check : Check Unit) :
    Prop where
  | held (hVerdict : check.verdict = .ok ()) (hEvents : check.events = [])
  | broken {error : RuleError} {event : Event} (hVerdict : check.verdict = .error error)
      (hEvents : check.events = [event]) (hReport : Reports params header hasher error event)

/-- There is one report, of this description, if the condition holds, and otherwise none. -/
structure OneWhen (condition : Prop) (described : Event → Prop) (events : List Event) : Prop where
  one : condition → ∃ event, events = [event] ∧ described event
  none : ¬condition → events = []

theorem OneWhen.single {condition : Prop} {described : Event → Prop} {event : Event}
    (hCondition : condition) (h : described event) : OneWhen condition described [event] :=
  ⟨fun _ => ⟨event, rfl, h⟩, fun hNot => absurd hCondition hNot⟩

theorem OneWhen.empty {condition : Prop} {described : Event → Prop} (h : ¬condition) :
    OneWhen condition described [] :=
  ⟨fun hCondition => absurd hCondition h, fun _ => rfl⟩

/-- The verdict names a broken rule, this event is the report about it, and its text starts with the rule. -/
def Names (params : Params) (header : Header) (hasher : Hasher) (verdict : Except RuleError Unit)
    (event : Event) : Prop :=
  ∃ error name, verdict = .error error ∧ Reports params header hasher error event ∧
    error.ruleName? = some name ∧
      (event.message = name ∨ event.message = name ++ ": claimed bits do not decode")

/-- What the log has to do with the verdict. -/
structure Logs (params : Params) (prev : Cursor) (header : Header) (hasher : Hasher)
    (verdict : Except RuleError Unit) (events : List Event) : Prop where
  order : events = Event.only .error events ++ Event.only .debug events ++ Event.only .trace events
  fault : OneWhen (∃ height, verdict = .error (.missingAncestor height))
    (fun event => event.channel.name = "xrc_consensus::contract" ∧
      ("height", toString (prev.height + 1)) ∈ event.fields ∧
        ∃ error, verdict = .error error ∧ event = .incompleteView (prev.height + 1) error)
    (Event.only .error events)
  target : OneWhen ((proofOfWork params header hasher).verdict = .ok () ∧
      ∃ target, requiredTarget params (some prev) header.time = .ok target)
    (fun event => ∃ target, requiredTarget params (some prev) header.time = .ok target ∧
      event = targetReport params prev target ∧ event.fields =
        [("height", toString (prev.height + 1)),
          ("regime", (Regime.ofHeight params (prev.height + 1)).name),
          ("bits", toString target.bits.toNat)])
    (Event.only .debug events)
  rejection : OneWhen (∃ error name, verdict = .error error ∧ error.ruleName? = some name)
    (fun event => events.getLast? = some event ∧ Names params header hasher verdict event)
    (Event.only .trace events)
  accepted : verdict = .ok () → ∃ target, events = [targetReport params prev target]
  silent : (verdict = .error .heightOverflow ∨ ∃ bits, verdict = .error (.malformedTarget bits)) →
    events = []

variable {params : Params} {prev : Cursor} {header : Header} {hasher : Hasher} {error : RuleError}
  {event : Event} {verdict : Except RuleError Unit} {events : List Event}

section Steps

theorem Reports.severity (h : Reports params header hasher error event) : event.severity = .trace := by
  cases h <;> rfl

/-- The message of a rejection names the rule that is broken. -/
theorem Reports.message (h : Reports params header hasher error event) :
    ∃ name, error.ruleName? = some name ∧
      (event.message = name ∨ event.message = name ++ ": claimed bits do not decode") := by
  cases h with
  | undecodable => exact ⟨_, rfl, .inr rfl⟩
  | highHash => exact ⟨_, rfl, .inl rfl⟩
  | wrongBits => exact ⟨_, rfl, .inl rfl⟩
  | tooEarly => exact ⟨_, rfl, .inl rfl⟩

/-- Of two rules the second is looked at only if the first one holds. -/
theorem Reporting.bind {first second : Check Unit} (hFirst : Reporting params header hasher first)
    (hSecond : Reporting params header hasher second) :
    Reporting params header hasher (first >>= fun _ => second) := by
  cases hFirst with
  | broken hVerdict hEvents hReport =>
      refine .broken ?_ ((Check.events_bind_of_error _ hVerdict).trans hEvents) hReport
      rw [Check.verdict_bind, hVerdict]
      rfl
  | held hVerdict hEvents =>
      have hBoth : (first >>= fun _ => second).events = second.events := by
        rw [Check.events_bind_of_ok _ hVerdict, hEvents, List.nil_append]
      have hLast : (first >>= fun _ => second).verdict = second.verdict := by
        rw [Check.verdict_bind, hVerdict]
        rfl
      cases hSecond with
      | held hVerdict hEvents => exact .held (hLast.trans hVerdict) (hBoth.trans hEvents)
      | broken hVerdict hEvents hReport =>
          exact .broken (hLast.trans hVerdict) (hBoth.trans hEvents) hReport

/-- Bad work is reported with the bits or with the digest, and good work is not reported. -/
theorem reporting_proofOfWork (params : Params) (header : Header) (hasher : Hasher) :
    Reporting params header hasher (proofOfWork params header hasher) := by
  unfold proofOfWork
  cases hBits : Target.ofBits header.bits with
  | error error =>
      exact .broken rfl rfl (.undecodable (Target.ofBits_eq_error_iff.mp hBits).1)
  | ok target =>
      dsimp only
      rw [Check.digest_eq, Check.bind_ok _ rfl]
      by_cases hLow : ((header.digestCall params).run hasher).value ≤ target.value
      · apply Reporting.held
        · simp [Target.admits, hLow]
        · simp [Target.admits, hLow]
      · obtain ⟨call, digest, hDigest⟩ := exists_digests params header hasher
        have hHigh : target.value < digestNumber digest := by
          rw [digestNumber_eq, hDigest.eq.2]
          exact Nat.lt_of_not_le hLow
        have hReport := Reports.highHash (Target.ofBits_eq_ok_iff.mp hBits) hDigest hHigh
        rw [hDigest.eq.2] at hReport
        refine .broken ?_ ?_ hReport
        · simp [Target.admits, hLow]
        · simp [Check.reject, Check.report, Target.admits, hLow]

theorem reporting_difficultyBits (params : Params) (header : Header) (hasher : Hasher)
    (target : Target) : Reporting params header hasher (difficultyBits target header) := by
  unfold difficultyBits
  cases Target.ofBits header.bits with
  | error error => exact .broken rfl rfl (.wrongBits target.bits)
  | ok claimed =>
      dsimp only
      split
      · exact .held rfl rfl
      · exact .broken rfl rfl (.wrongBits target.bits)

theorem reporting_spacing (params : Params) (header : Header) (hasher : Hasher) (previous : Header) :
    Reporting params header hasher (spacing header previous) := by
  unfold spacing
  dsimp only
  split
  · exact .broken rfl rfl (.tooEarly _)
  · exact .held rfl rfl

end Steps

section Run

theorem accept_eq_bind : accept params prev header hasher =
    proofOfWork params header hasher >>= fun _ =>
      required params (some prev) header.time >>= fun target =>
        difficultyBits target header >>= fun _ => spacing header prev.header := by
  unfold accept difficulty
  rw [Check.bind_assoc]
  simp only [Check.bind_assoc]

/-- Running all rules reports in one of the listed ways. After each rule the run goes on or ends with a
report, and a computed target is reported once the work is good. -/
theorem logged_accept (params : Params) (prev : Cursor) (header : Header) (hasher : Hasher) :
    Logged params prev header hasher (accept params prev header hasher).verdict
      (accept params prev header hasher).events := by
  rw [accept_eq_bind]
  cases reporting_proofOfWork params header hasher with
  | broken hVerdict hEvents hReport =>
      have hWork : (proofOfWork params header hasher).verdict ≠ .ok () := by
        rw [hVerdict]
        exact nofun
      cases hVerdict.symm.trans (proofOfWork_of_not_ok hWork)
      rw [Check.bind_error _ hVerdict]
      dsimp only
      rw [hEvents]
      exact .badWork hWork hReport
  | held hWork hSilent =>
      rw [Check.bind_ok _ hWork]
      dsimp only
      rw [hSilent, List.nil_append]
      cases hRequired : requiredTarget params (some prev) header.time with
      | error error =>
          have hVerdict : (required params (some prev) header.time).verdict = .error error := hRequired
          rw [Check.bind_error _ hVerdict]
          dsimp only [required, Check.report]
          rw [hRequired]
          rcases requiredTarget_error_cases hRequired with
            rfl | ⟨height, rfl⟩ | ⟨bits, _, rfl, _⟩
          · exact .silent hWork hRequired (.inl rfl)
          · exact .incomplete hWork hRequired
          · exact .silent hWork hRequired (.inr ⟨bits, rfl⟩)
      | ok target =>
          have hVerdict : (required params (some prev) header.time).verdict = .ok target := hRequired
          rw [Check.bind_ok _ hVerdict]
          dsimp only [required, Check.report]
          rw [hRequired]
          cases (reporting_difficultyBits params header hasher target).bind
            (reporting_spacing params header hasher prev.header) with
          | held hVerdict hEvents =>
              rw [hVerdict, hEvents]
              exact .accepted hWork hRequired
          | broken hVerdict hEvents hReport =>
              rw [hVerdict, hEvents]
              exact .broken hWork hRequired hReport

theorem Reports.rejection (h : Reports params header hasher error event)
    (hLast : events.getLast? = some event) :
    OneWhen (∃ other name, (.error error : Except RuleError Unit) = .error other ∧
        other.ruleName? = some name)
      (fun event => events.getLast? = some event ∧ Names params header hasher (.error error) event)
      [event] := by
  obtain ⟨name, hName, hMessage⟩ := h.message
  exact .single ⟨error, name, rfl, hName⟩ ⟨hLast, error, name, rfl, h, hName, hMessage⟩

theorem Reports.no_fault (h : Reports params header hasher error event) :
    ¬∃ height, (.error error : Except RuleError Unit) = .error (.missingAncestor height) := by
  rintro ⟨height, hVerdict⟩
  cases Except.error.inj hVerdict
  cases h

theorem Reports.not_silent (h : Reports params header hasher error event) :
    ¬((.error error : Except RuleError Unit) = .error .heightOverflow ∨
      ∃ bits, (.error error : Except RuleError Unit) = .error (.malformedTarget bits)) := by
  rintro (hVerdict | ⟨bits, hVerdict⟩)
  · cases Except.error.inj hVerdict
    cases h
  · cases Except.error.inj hVerdict
    cases h

/-- No target is reported where none was computed. -/
theorem not_reached_of_refused
    (h : requiredTarget params (some prev) header.time = .error error) :
    ¬((proofOfWork params header hasher).verdict = .ok () ∧
      ∃ target, requiredTarget params (some prev) header.time = .ok target) := by
  rintro ⟨_, target, hTarget⟩
  cases h.symm.trans hTarget

/-- No header is to blame for a target that cannot be computed. -/
theorem no_rule_of_refused (h : requiredTarget params (some prev) header.time = .error error) :
    ¬∃ other name, (.error error : Except RuleError Unit) = .error other ∧
      other.ruleName? = some name := by
  rintro ⟨_, _, hVerdict, hName⟩
  cases hVerdict
  rcases requiredTarget_error_cases h with rfl | ⟨_, rfl⟩ | ⟨_, _, rfl, _⟩
  · cases hName
  · cases hName
  · cases hName

/-- What each way of reporting comes to at the three levels. The cases are those of `Logged`: at each
level there is one event or none, and the error decides which. -/
theorem Logged.logs (h : Logged params prev header hasher verdict events) :
    Logs params prev header hasher verdict events := by
  cases h with
  | @badWork event hWork hReport =>
      obtain ⟨hError, hDebug, hTrace⟩ := Event.only_alone hReport.severity
      constructor
      case order => rw [hError, hDebug, hTrace]; rfl
      case fault => rw [hError]; exact .empty hReport.no_fault
      case target => rw [hDebug]; exact .empty fun hReached => hWork hReached.1
      case rejection => rw [hTrace]; exact hReport.rejection rfl
      case accepted => exact nofun
      case silent => exact fun hSilent => absurd hSilent hReport.not_silent
  | @incomplete height hWork hRequired =>
      constructor
      case order => rfl
      case fault => exact .single ⟨height, rfl⟩ ⟨rfl, List.mem_cons_self, _, rfl, rfl⟩
      case target => exact .empty (not_reached_of_refused hRequired)
      case rejection => exact .empty (no_rule_of_refused hRequired)
      case accepted => exact nofun
      case silent =>
        rintro (hVerdict | ⟨_, hVerdict⟩)
        · cases hVerdict
        · cases hVerdict
  | @silent error hWork hRequired hError =>
      constructor
      case order => rfl
      case fault =>
        refine .empty ?_
        rintro ⟨_, hVerdict⟩
        rcases hError with rfl | ⟨_, rfl⟩
        · cases hVerdict
        · cases hVerdict
      case target => exact .empty (not_reached_of_refused hRequired)
      case rejection => exact .empty (no_rule_of_refused hRequired)
      case accepted => exact nofun
      case silent => exact fun _ => rfl
  | @broken target error event hWork hRequired hReport =>
      obtain ⟨hError, hDebug, hTrace⟩ :=
        Event.only_pair (severity_targetReport params prev target) hReport.severity
      constructor
      case order => rw [hError, hDebug, hTrace]; rfl
      case fault => rw [hError]; exact .empty hReport.no_fault
      case target => rw [hDebug]; exact .single ⟨hWork, target, hRequired⟩ ⟨target, hRequired, rfl, rfl⟩
      case rejection => rw [hTrace]; exact hReport.rejection rfl
      case accepted => exact nofun
      case silent => exact fun hSilent => absurd hSilent hReport.not_silent
  | @accepted target hWork hRequired =>
      constructor
      case order => rfl
      case fault => exact .empty nofun
      case target => exact .single ⟨hWork, target, hRequired⟩ ⟨target, hRequired, rfl, rfl⟩
      case rejection => exact .empty nofun
      case accepted => exact fun _ => ⟨target, rfl⟩
      case silent => exact nofun

end Run

/-- On every path the log agrees with the verdict. Where no predecessor is asked for, nothing is logged. -/
theorem logs_accept (params : Params) (prev : Cursor) (header : Header) (hasher : Hasher) :
    Logs params prev header hasher (accept params prev header hasher).verdict
      (accept params prev header hasher).events ∧
    ∀ time, (required params none time).events = [] :=
  ⟨(logged_accept params prev header hasher).logs, fun _ => rfl⟩

/-- A header ten seconds after its predecessor. -/
example : (accept .regtest
    ⟨View.ofArray #[{ time := 1540000000 }], 0, { time := 1540000000 }, rfl⟩
    { time := 1540000010, bits := 0x207fffff } ⟨fun _ => .zero, fun _ _ => .zero⟩).events =
      [.targetRequired 1 .floorStep 0x207fffff, .tooEarly 1540000010 1540000480] := by rfl

end Rules

end PowRules
