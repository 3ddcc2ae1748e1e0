import PowRules.Proofs.Chain.Audit

/-! Extending a segment header by header, each checked against all rules on the tip so far, comes to the
same as an audit of the whole, where later headers are in view as well. -/
namespace PowRules.Segment

open Rules

/-- Put headers on top one by one, up to the first one that is not accepted. -/
def extend (params : Params) (hasher : Hasher) : Segment → List Header → Except Rejection Segment
  | segment, [] => .ok segment
  | segment, header :: rest =>
      match segment.tip with
      | none => .ok segment
      | some tip =>
          match (accept params tip header hasher).verdict with
          | .ok () => extend params hasher (segment.push header) rest
          | .error error => .error ⟨tip.height + 1, error⟩

/-- The segment of the first header alone. -/
def opening (segment : Segment) : Segment :=
  { segment with headers := (segment.headers.toList.take 1).toArray }

/-- The headers above the first one, in order. -/
def later (segment : Segment) : List Header := segment.headers.toList.drop 1

def append (segment : Segment) (rest : List Header) : Segment :=
  { segment with headers := segment.headers ++ rest.toArray }

variable {params : Params} {hasher : Hasher} {segment : Segment} {tip checked : Nat}
  {header : Header} {rest : List Header}

theorem append_nil (segment : Segment) : segment.append [] = segment := by
  simp [append]

theorem append_cons (segment : Segment) (header : Header) (rest : List Header) :
    segment.append (header :: rest) = (segment.push header).append rest := by
  simp [append, push]

/-- A segment is its first header with the others put on top again. -/
theorem opening_append_later (segment : Segment) :
    segment.opening.append segment.later = segment := by
  have hHeaders : (segment.headers.toList.take 1).toArray ++
      (segment.headers.toList.drop 1).toArray = segment.headers := by
    rw [List.append_toArray, List.take_append_drop]
  unfold append opening later
  rw [hHeaders]

/-- If the whole has a tip then so has its lower part, lower by the headers put on top. -/
theorem exists_tip_of_append (hTip : (segment.append rest).tipHeight = some tip)
    (hSize : 0 < segment.headers.size) :
    ∃ top, segment.tip = some top ∧ top.height + rest.length = tip := by
  obtain ⟨hLength, hMax, hSum, _⟩ := tipHeight_eq_some_iff.mp hTip
  simp only [append, Array.size_append, List.size_toArray] at hLength hSum
  have hHere : segment.tipHeight = some (segment.base.toNat + segment.headers.size - 1) := by
    rw [tipHeight_eq_some_iff]
    omega
  obtain ⟨top, hTop, hHeight⟩ := exists_tip hHere
  exact ⟨top, hTop, by omega⟩

theorem size_push_pos (segment : Segment) (header : Header) :
    0 < (segment.push header).headers.size := by
  simp [push]

/-- What the audit of a segment with one more header on top does, where headers still follow. -/
theorem audit_push_of_append (params : Params) {top : Cursor} (hTop : segment.tip = some top)
    (hTip : (segment.append (header :: rest)).tipHeight = some tip) :
    (segment.push header).audit params =
      segment.audit params >>= fun checked =>
        (auditOne params top header).map fun _ => checked + 1 := by
  apply audit_push header hTop
  rw [append_cons] at hTip
  obtain ⟨pushed, hPushed, _⟩ := exists_tip_of_append hTip (size_push_pos segment header)
  obtain ⟨_, _, hSize, _⟩ := tipHeight_eq_some_iff.mp (tip_eq_some_iff.mp hTop).1
  obtain ⟨hPushedTip, _⟩ := tip_eq_some_iff.mp hPushed
  obtain ⟨_, _, hPushedSize, _⟩ := tipHeight_eq_some_iff.mp hPushedTip
  have hHeight : pushed.height = top.height + 1 := by
    simp only [push, Array.size_push] at hPushedSize
    omega
  rw [hPushedTip, hHeight]

/-- A fault found once is found however many headers follow. -/
theorem audit_append_of_error {rejection : Rejection}
    (hTip : (segment.append rest).tipHeight = some tip) (hSize : 0 < segment.headers.size)
    (hAudit : segment.audit params = .error rejection) :
    (segment.append rest).audit params = .error rejection := by
  induction rest generalizing segment with
  | nil =>
      rw [append_nil]
      exact hAudit
  | cons header rest ih =>
      obtain ⟨top, hTop, _⟩ := exists_tip_of_append hTip hSize
      have hPushed := audit_push_of_append params hTop hTip
      rw [hAudit] at hPushed
      rw [append_cons] at hTip ⊢
      exact ih hTip (size_push_pos segment header) hPushed

/-- With good work on all headers to come, extending does what an audit of the result does. -/
theorem extend_eq_audit (hTip : (segment.append rest).tipHeight = some tip)
    (hSize : 0 < segment.headers.size) (hAudit : segment.audit params = .ok checked)
    (hWork : ∀ header ∈ rest, (proofOfWork params header hasher).verdict = .ok ()) :
    segment.extend params hasher rest =
      ((segment.append rest).audit params).map fun _ => segment.append rest := by
  induction rest generalizing segment checked with
  | nil =>
      rw [append_nil, hAudit]
      rfl
  | cons header rest ih =>
      obtain ⟨top, hTop, _⟩ := exists_tip_of_append hTip hSize
      have hPushed := audit_push_of_append params hTop hTip
      have hAccept : (accept params top header hasher).verdict = (stored params top header).verdict :=
        accept_eq_stored (hWork header List.mem_cons_self)
      have hRest : ∀ header ∈ rest, (proofOfWork params header hasher).verdict = .ok () :=
        fun header hHeader => hWork header (List.mem_cons_of_mem _ hHeader)
      rw [hAudit, ok_bind, auditOne] at hPushed
      rw [append_cons] at hTip ⊢
      rw [extend, hTop]
      dsimp only
      rw [hAccept]
      -- The audit of what is accepted so far stays good, or its fault is the fault of the whole.
      cases hStored : (stored params top header).verdict with
      | ok _ =>
          rw [hStored] at hPushed
          exact ih hTip (size_push_pos segment header) hPushed hRest
      | error error =>
          rw [hStored] at hPushed
          rw [audit_append_of_error hTip (size_push_pos segment header) hPushed]
          rfl

/-- Headers are accepted only with good work. -/
theorem proofOfWork_of_extend (hTip : (segment.append rest).tipHeight = some tip)
    (hSize : 0 < segment.headers.size)
    (h : segment.extend params hasher rest = .ok (segment.append rest)) :
    ∀ header ∈ rest, (proofOfWork params header hasher).verdict = .ok () := by
  induction rest generalizing segment with
  | nil =>
      intro header hHeader
      cases hHeader
  | cons first rest ih =>
      obtain ⟨top, hTop, _⟩ := exists_tip_of_append hTip hSize
      rw [append_cons] at hTip h
      rw [extend, hTop] at h
      dsimp only at h
      split at h
      next hAccept =>
        intro header hHeader
        rcases List.mem_cons.mp hHeader with rfl | hLater
        · exact (accept_eq_ok_iff.mp hAccept).1
        · exact ih hTip (size_push_pos segment first) h header hLater
      next => cases h

/-- A single header has no predecessor in its segment, so there is nothing to audit. -/
theorem audit_opening (params : Params) (hTip : segment.tipHeight = some tip) :
    segment.opening.audit params = .ok 0 := by
  obtain ⟨_, _, hSum, hBase⟩ := tipHeight_eq_some_iff.mp hTip
  have hSize : segment.opening.headers.size = 1 := by
    simp only [opening, List.size_toArray, List.length_take, Array.length_toList]
    omega
  have hOpening : segment.opening.tipHeight = some segment.opening.base.toNat := by
    change segment.opening.tipHeight = some segment.base.toNat
    rw [tipHeight_eq_some_iff, hSize]
    change 1 ≤ maxHeight ∧ segment.base.toNat ≤ maxHeight ∧
      segment.base.toNat + 1 = segment.base.toNat + 1 ∧ segment.base.toNat ≤ segment.base.toNat
    have hFar : 1 ≤ maxHeight := by decide
    omega
  unfold audit
  rw [hOpening]
  dsimp only
  rw [Nat.sub_self]
  rfl

/-- Headers checked one by one are all accepted exactly when the audit of the whole succeeds and all
work is good. With good work both stop at the same header with the same error. -/
theorem extend_opening (params : Params) (hasher : Hasher) (hTip : segment.tipHeight = some tip) :
    (segment.opening.extend params hasher segment.later = .ok segment ↔
      segment.audit params = .ok (segment.headers.size - 1) ∧
        ∀ header ∈ segment.later, (proofOfWork params header hasher).verdict = .ok ()) ∧
    ((∀ header ∈ segment.later, (proofOfWork params header hasher).verdict = .ok ()) →
      ∀ rejection, segment.audit params = .error rejection ↔
        segment.opening.extend params hasher segment.later = .error rejection) := by
  obtain ⟨_, _, hSum, hBase⟩ := tipHeight_eq_some_iff.mp hTip
  have hWhole := segment.opening_append_later
  have hSize : 0 < segment.opening.headers.size := by
    simp only [opening, List.size_toArray, List.length_take, Array.length_toList]
    omega
  have hEnd : (segment.opening.append segment.later).tipHeight = some tip := by
    rw [hWhole]
    exact hTip
  have hExtend : (∀ header ∈ segment.later, (proofOfWork params header hasher).verdict = .ok ()) →
      segment.opening.extend params hasher segment.later =
        (segment.audit params).map fun _ => segment := by
    intro hWork
    have hSame := extend_eq_audit hEnd hSize (audit_opening params hTip) hWork
    rw [hWhole] at hSame
    exact hSame
  constructor
  · constructor
    · intro hAccepted
      have hReached : segment.opening.extend params hasher segment.later =
          .ok (segment.opening.append segment.later) := by
        rw [hWhole]
        exact hAccepted
      have hWork := proofOfWork_of_extend hEnd hSize hReached
      rw [hExtend hWork, map_eq_ok_iff] at hAccepted
      obtain ⟨checked, hAudit, _⟩ := hAccepted
      obtain ⟨hCount, _⟩ := (audit_eq_ok_iff hTip).mp hAudit
      refine ⟨?_, hWork⟩
      rw [hAudit, hCount]
      congr 1
      omega
    · rintro ⟨hAudit, hWork⟩
      rw [hExtend hWork, hAudit]
      rfl
  · intro hWork rejection
    rw [hExtend hWork]
    cases segment.audit params with
    | ok checked => simp [Except.map]
    | error other => simp [Except.map]

def tenMinutesApart : Segment where
  headers := #[
    { time := 1540000000, bits := 0x1e0fffff },
    { time := 1540000600, bits := 0x1e0fffff }]

def zeroHasher : Hasher where
  x11 := fun _ => .zero
  x13 := fun _ _ => .zero

/-- Two headers of the test network ten minutes apart, put together from the first one on. -/
theorem extend_opening_tenMinutesApart :
    tenMinutesApart.tipHeight = some 1 ∧
      tenMinutesApart.opening.extend .testnet zeroHasher tenMinutesApart.later =
        .ok tenMinutesApart := by
  have hTip : tenMinutesApart.tipHeight = some 1 := by rfl
  have hAudit : tenMinutesApart.audit .testnet = .ok (tenMinutesApart.headers.size - 1) := by rfl
  have hWork : ∀ header ∈ tenMinutesApart.later,
      (proofOfWork .testnet header zeroHasher).verdict = .ok () := by
    intro header hHeader
    obtain rfl := List.mem_singleton.mp hHeader
    rfl
  exact ⟨hTip, (extend_opening .testnet zeroHasher hTip).1.mpr ⟨hAudit, hWork⟩⟩

end PowRules.Segment
