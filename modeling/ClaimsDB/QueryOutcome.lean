/-
The outcome of a query.

Segments report their status to the coordinator by messages that can be delayed; the coordinator
cancels the statement when it hears of an error.  The thread of `SelectExec` reads the status of
the statement twice to decide what the client is told.
-/
import ClaimsDB.Runs

namespace QueryOutcome

open Option

inductive ExecStatus
  | kError
  | kOk
  | kCancelled
  | kDone
  deriving DecidableEq

/-! ### Segments -/

/-- `SegmentExecStatus` on its node, with its `ReportSAtom` messages in the mailbox. -/
structure Segment where
  execStatus : ExecStatus
  stopReport : Bool
  reportErrorTimes : ℕ
  toReport : ℕ
  deriving DecidableEq

def Segment.new : Segment := ⟨.kOk, false, 0, 0⟩

/-- `UpdateStatus`: only a status `kOk` is replaced. -/
def updatedStatus (old new : ExecStatus) : ExecStatus := if old = .kOk then new else old

def Segment.updateStatus (seg : Segment) (status : ExecStatus) : Segment :=
  if seg.execStatus = .kOk then
    { seg with execStatus := status, toReport := seg.toReport + 1 }
  else seg

def Segment.cancelSegExec (seg : Segment) : Segment :=
  { seg with stopReport := true, execStatus := .kCancelled }

def tryReportTimes : ℕ := 20

def Segment.timeout (seg : Segment) : Segment :=
  let seg' := { seg with reportErrorTimes := seg.reportErrorTimes + 1 }
  if tryReportTimes < seg'.reportErrorTimes then seg'.cancelSegExec else seg'

/-- The answer to a report of the status: `OkAtom` or `CancelPlanAtom`. -/
def Segment.answered (seg : Segment) (status : ExecStatus) (ok : Bool) : Segment :=
  let seg' := { seg with reportErrorTimes := 0 }
  if ok then
    if status = .kCancelled ∨ status = .kDone then { seg' with stopReport := true } else seg'
  else seg'.cancelSegExec

/-! ### The statement -/

/-- Where `SelectExec` is; at the end with what the client is told. -/
inductive Pc
  | analyse
  | openPlan
  | next
  | close
  | readFirst
  | readSecond
  | done (status failed : Bool)
  | assertFailed
  deriving DecidableEq

/-- The statement, the copies of its segments, the segments, the messages, and `SelectExec`. -/
structure State where
  stmt : ExecStatus
  copies : ℕ → Option ExecStatus
  segments : ℕ → Option Segment
  reports : List (ℕ × ExecStatus)
  answers : List (ℕ × ExecStatus × Bool)
  pc : Pc
  cancelled : Bool
  failed : Bool

def State.new : State := ⟨.kOk, fun _ => none, fun _ => none, [], [], .analyse, false, false⟩

namespace State

def cancelStmtExec (s : State) : State := { s with stmt := .kCancelled, cancelled := true }

def update (s : State) (id : ℕ) (status : ExecStatus) : Option State :=
  (s.segments id).map fun seg =>
    { s with
      segments := Function.update s.segments id (some (seg.updateStatus status))
      failed := s.failed || (decide (seg.execStatus = .kOk) && decide (status = .kError)) }

def report (s : State) (id : ℕ) : Option State :=
  (s.segments id).bind fun seg =>
    if seg.toReport = 0 then none
    else some { s with
      segments := Function.update s.segments id (some { seg with toReport := seg.toReport - 1 })
      reports := if seg.stopReport then s.reports else s.reports ++ [(id, seg.execStatus)] }

/-- `UpdateSegExecStatus`; the assertion fails for a segment that is not known. -/
def updateSegExecStatus (s : State) (id : ℕ) (status : ExecStatus) : Option (Bool × State) :=
  let s' := if status = .kError then s.cancelStmtExec else s
  (s'.copies id).map fun copy =>
    if s'.stmt = .kCancelled ∨ s'.stmt = .kError then
      (false, { s' with
        copies := Function.update s'.copies id (some (updatedStatus copy .kCancelled)) })
    else
      (true, { s' with copies := Function.update s'.copies id (some (updatedStatus copy status)) })

/-- The coordinator handles the report at position `i`; reports can overtake each other. -/
def deliver (s : State) (i : ℕ) : Option State :=
  s.reports[i]?.bind fun (id, status) =>
    (updateSegExecStatus { s with reports := s.reports.eraseIdx i } id status).map fun r =>
      { r.2 with answers := r.2.answers ++ [(id, status, r.1)] }

/-- The tracker handles the answer at position `i`. -/
def answer (s : State) (i : ℕ) : Option State :=
  s.answers[i]?.bind fun (id, status, ok) => (s.segments id).map fun seg =>
    { s with
      answers := s.answers.eraseIdx i
      segments := Function.update s.segments id (some (seg.answered status ok)) }

def onSegment (s : State) (id : ℕ) (f : Segment → Segment) : Option State :=
  (s.segments id).map fun seg =>
    { s with segments := Function.update s.segments id (some (f seg)) }

end State

inductive Act
  | analyse (ok : Bool)
  | openPlan (ok : Bool)
  | next
  | close
  | readFirst
  | readSecond
  | addSegment (id : ℕ)
  | start (id : ℕ)
  | update (id : ℕ) (status : ExecStatus)
  /-- the tracker puts a report of the segment in its mailbox, as it does from time to time -/
  | tick (id : ℕ)
  | report (id : ℕ)
  | deliver (i : ℕ)
  | answer (i : ℕ)
  | timeout (id : ℕ)
  /-- a user, or the check for segments that were not heard of, cancels the statement -/
  | cancel

def step (s : State) : Act → Option State
  | .analyse ok =>
    if s.pc = .analyse then
      if ok then some { s with
        copies := Function.update s.copies 0 (some .kOk)
        segments := Function.update s.segments 0 (some .new)
        pc := .openPlan }
      else some { s with stmt := .kError, pc := .done false s.failed }
    else none
  | .openPlan ok =>
    if s.pc = .openPlan then
      if ok then (s.update 0 .kOk).map fun s' => { s' with pc := .next }
      else (s.update 0 .kError).map fun s' => { s' with pc := .close, failed := true }
    else none
  | .next => if s.pc = .next then (s.update 0 .kOk).map fun s' => { s' with pc := .close } else none
  | .close =>
    if s.pc = .close then (s.update 0 .kDone).map fun s' => { s' with pc := .readFirst } else none
  | .readFirst =>
    if s.pc = .readFirst then
      if s.stmt = .kCancelled then some { s with stmt := .kError, pc := .done false s.failed }
      else some { s with pc := .readSecond }
    else none
  | .readSecond =>
    if s.pc = .readSecond then
      if s.stmt = .kOk then some { s with stmt := .kDone, pc := .done true s.failed }
      else some { s with pc := .assertFailed }
    else none
  | .addSegment id =>
    if id ≠ 0 ∧ s.copies id = none then
      some { s with copies := Function.update s.copies id (some .kOk) }
    else none
  | .start id =>
    if id ≠ 0 ∧ (s.copies id).isSome ∧ s.segments id = none then
      some { s with segments := Function.update s.segments id (some .new) }
    else none
  | .update id status => if id ≠ 0 then s.update id status else none
  | .tick id => s.onSegment id fun seg =>
      if seg.stopReport then seg else { seg with toReport := seg.toReport + 1 }
  | .report id => s.report id
  | .deliver i => s.deliver i
  | .answer i => s.answer i
  | .timeout id => s.onSegment id Segment.timeout
  | .cancel => some s.cancelStmtExec

/-! ### Runs -/

/-- Errors that were recorded have cancelled, and nothing cancels between the two reads. -/
def State.inTime (s : State) : Act → Bool
  | .readSecond => !s.failed || s.cancelled
  | .deliver i => decide (s.pc = .readSecond → (s.reports[i]?.map (·.2)) ≠ some .kError)
  | .cancel => decide (s.pc ≠ .readSecond)
  | _ => true

inductive InTimeStep : State → State → Prop
  | mk {s s' : State} (a : Act) (hin : s.inTime a = true) (h : step s a = some s') :
      InTimeStep s s'

def Pc.undecided : Pc → Prop
  | .done _ _ => False
  | .assertFailed => False
  | _ => True

/-- Until the outcome is decided the statement is ok or cancelled, not so between the reads. -/
structure Invariant (s : State) : Prop where
  stmt : s.pc.undecided → s.stmt = if s.cancelled then .kCancelled else .kOk
  reading : s.pc = .readSecond → s.cancelled = false
  outcome : ∀ failed, s.pc = .done true failed → failed = false
  assertion : s.pc ≠ .assertFailed

theorem new_invariant : Invariant State.new := by
  refine ⟨fun _ => rfl, fun h => ?_, fun _ h => ?_, fun h => ?_⟩
  · cases h
  · cases h
  · cases h

structure SameView (s s' : State) : Prop where
  stmt : s'.stmt = s.stmt
  pc : s'.pc = s.pc
  cancelled : s'.cancelled = s.cancelled

variable {s s' : State}

theorem Invariant.of_sameView (h : Invariant s) (hv : SameView s s') : Invariant s' := by
  obtain ⟨hstmt, hpc, hcancelled⟩ := hv
  constructor
  · rw [hstmt, hpc, hcancelled]
    exact h.stmt
  · rw [hpc, hcancelled]
    exact h.reading
  · rw [hpc]
    exact h.outcome
  · rw [hpc]
    exact h.assertion

theorem update_sameView {id : ℕ} {status : ExecStatus} (h : s.update id status = some s') :
    SameView s s' := by
  obtain ⟨seg, -, rfl⟩ := map_eq_some_iff.mp h
  exact ⟨rfl, rfl, rfl⟩

theorem onSegment_sameView {id : ℕ} {f : Segment → Segment} (h : s.onSegment id f = some s') :
    SameView s s' := by
  obtain ⟨seg, -, rfl⟩ := map_eq_some_iff.mp h
  exact ⟨rfl, rfl, rfl⟩

theorem report_sameView {id : ℕ} (h : s.report id = some s') : SameView s s' := by
  obtain ⟨seg, -, h⟩ := bind_eq_some_iff.mp h
  obtain ⟨-, h⟩ := ite_none_left_eq_some.mp h
  cases h
  exact ⟨rfl, rfl, rfl⟩

theorem answer_sameView {i : ℕ} (h : s.answer i = some s') : SameView s s' := by
  obtain ⟨⟨id, status, ok⟩, -, h⟩ := bind_eq_some_iff.mp h
  obtain ⟨seg, -, rfl⟩ := map_eq_some_iff.mp h
  exact ⟨rfl, rfl, rfl⟩

theorem deliver_sameView {i : ℕ} (h : s.deliver i = some s') :
    s.reports[i]?.map (·.2) = some .kError ∧ SameView s.cancelStmtExec s' ∨
      s.reports[i]?.map (·.2) ≠ some .kError ∧ SameView s s' := by
  obtain ⟨⟨id, status⟩, hi, h⟩ := bind_eq_some_iff.mp h
  obtain ⟨⟨ok, s₁⟩, hs₁, rfl⟩ := map_eq_some_iff.mp h
  obtain ⟨copy, -, hs₁⟩ := map_eq_some_iff.mp hs₁
  rw [hi, map_some]
  by_cases herr : status = .kError
  · refine .inl ⟨congrArg some herr, ?_⟩
    simp only [herr, if_true] at hs₁
    split at hs₁ <;> cases hs₁ <;> exact ⟨rfl, rfl, rfl⟩
  · refine .inr ⟨fun heq => herr (some.inj heq), ?_⟩
    simp only [herr, if_false] at hs₁
    split at hs₁ <;> cases hs₁ <;> exact ⟨rfl, rfl, rfl⟩

theorem Invariant.cancelStmtExec (h : Invariant s) (hpc : s.pc ≠ .readSecond) :
    Invariant s.cancelStmtExec where
  stmt _ := rfl
  reading heq := absurd heq hpc
  outcome := h.outcome
  assertion := h.assertion

theorem Invariant.goto (h : Invariant s) (hu : s.pc.undecided) (pc : Pc) (hpc : pc.undecided)
    (hread : pc ≠ .readSecond) (failed : Bool) :
    Invariant { s with pc := pc, failed := failed } where
  stmt _ := h.stmt hu
  reading heq := absurd heq hread
  outcome failed' heq := by
    cases heq
    exact hpc.elim
  assertion heq := by
    cases heq
    exact hpc.elim

theorem Invariant.step (h : Invariant s) (a : Act) (hin : s.inTime a = true)
    (hs : QueryOutcome.step s a = some s') : Invariant s' := by
  cases a with
  | analyse ok =>
    obtain ⟨hpc, hs⟩ := ite_none_right_eq_some.mp hs
    have hu : s.pc.undecided := by rw [hpc]; trivial
    split at hs
    · cases hs
      exact (h.goto hu .openPlan trivial nofun s.failed).of_sameView ⟨rfl, rfl, rfl⟩
    · cases hs
      exact ⟨nofun, nofun, nofun, nofun⟩
  | openPlan ok =>
    obtain ⟨hpc, hs⟩ := ite_none_right_eq_some.mp hs
    have hu : s.pc.undecided := by rw [hpc]; trivial
    split at hs
    · obtain ⟨s₁, hs₁, rfl⟩ := map_eq_some_iff.mp hs
      have hv := update_sameView hs₁
      exact (h.of_sameView hv).goto (hv.pc ▸ hu) .next trivial nofun s₁.failed
    · obtain ⟨s₁, hs₁, rfl⟩ := map_eq_some_iff.mp hs
      have hv := update_sameView hs₁
      exact (h.of_sameView hv).goto (hv.pc ▸ hu) .close trivial nofun true
  | next =>
    obtain ⟨hpc, hs⟩ := ite_none_right_eq_some.mp hs
    have hu : s.pc.undecided := by rw [hpc]; trivial
    obtain ⟨s₁, hs₁, rfl⟩ := map_eq_some_iff.mp hs
    have hv := update_sameView hs₁
    exact (h.of_sameView hv).goto (hv.pc ▸ hu) .close trivial nofun s₁.failed
  | close =>
    obtain ⟨hpc, hs⟩ := ite_none_right_eq_some.mp hs
    have hu : s.pc.undecided := by rw [hpc]; trivial
    obtain ⟨s₁, hs₁, rfl⟩ := map_eq_some_iff.mp hs
    have hv := update_sameView hs₁
    exact (h.of_sameView hv).goto (hv.pc ▸ hu) .readFirst trivial nofun s₁.failed
  | readFirst =>
    obtain ⟨hpc, hs⟩ := ite_none_right_eq_some.mp hs
    have hu : s.pc.undecided := by rw [hpc]; trivial
    split at hs
    · cases hs
      exact ⟨nofun, nofun, nofun, nofun⟩
    · rename_i hne
      cases hs
      -- the status that was read is that of a statement that has not been cancelled
      have hcancelled : s.cancelled = false := by
        by_contra hc
        exact hne ((h.stmt hu).trans (if_pos (Bool.eq_true_of_not_eq_false hc)))
      exact ⟨fun _ => h.stmt hu, fun _ => hcancelled, nofun, nofun⟩
  | readSecond =>
    obtain ⟨hpc, hs⟩ := ite_none_right_eq_some.mp hs
    have hu : s.pc.undecided := by rw [hpc]; trivial
    have hcancelled := h.reading hpc
    have hstmt : s.stmt = .kOk := by rw [h.stmt hu, hcancelled]; rfl
    rw [if_pos hstmt] at hs
    cases hs
    refine ⟨nofun, nofun, fun failed heq => ?_, nofun⟩
    cases heq
    simpa [State.inTime, hcancelled] using hin
  | addSegment id | start id =>
    obtain ⟨-, hs⟩ := ite_none_right_eq_some.mp hs
    cases hs
    exact h.of_sameView ⟨rfl, rfl, rfl⟩
  | update id status =>
    obtain ⟨-, hs⟩ := ite_none_right_eq_some.mp hs
    exact h.of_sameView (update_sameView hs)
  | tick id => exact h.of_sameView (onSegment_sameView hs)
  | report id => exact h.of_sameView (report_sameView hs)
  | answer i => exact h.of_sameView (answer_sameView hs)
  | timeout id => exact h.of_sameView (onSegment_sameView hs)
  | deliver i =>
    rcases deliver_sameView hs with ⟨herr, hv⟩ | ⟨-, hv⟩
    · have hpc : s.pc ≠ .readSecond := fun hpc => of_decide_eq_true hin hpc herr
      exact (h.cancelStmtExec hpc).of_sameView hv
    · exact h.of_sameView hv
  | cancel =>
    cases hs
    exact h.cancelStmtExec (of_decide_eq_true hin)

/-- **A failed query is not reported as successful**, if reports come in time. -/
theorem failed_query_not_successful (h : Runs.Reaches InTimeStep State.new s) :
    s.pc ≠ .assertFailed ∧ ∀ status failed, s.pc = .done status failed → failed = true →
      status = false := by
  have hinv := Runs.invariant (fun _ _ hI ⟨a, hin, hs⟩ => Invariant.step hI a hin hs) h
    new_invariant
  refine ⟨hinv.assertion, fun status failed hpc hfailed => ?_⟩
  cases status with
  | false => rfl
  | true =>
    have hfalse := hinv.outcome failed hpc
    rw [hfailed] at hfalse
    cases hfalse

def inTimeRun (s : State) (a : Act) : Option State := if s.inTime a then step s a else none

theorem failed_open_heard_of :
    ∃ s, [Act.analyse true, .openPlan false, .report 0, .deliver 0, .close,
        .readFirst].foldlM inTimeRun State.new = some s ∧ s.pc = .done false true ∧
      s.pc ≠ .assertFailed := by
  have hstep : ∀ s a s', inTimeRun s a = some s' → InTimeStep s s' := by
    intro s a s' h
    obtain ⟨hin, h⟩ := ite_none_right_eq_some.mp h
    exact .mk a hin h
  have hrun : ([Act.analyse true, .openPlan false, .report 0, .deliver 0, .close,
      .readFirst].foldlM inTimeRun State.new).map (·.pc) = some (.done false true) := by
    decide
  obtain ⟨s, hs, hpc⟩ := map_eq_some_iff.mp hrun
  exact ⟨s, hs, hpc, (failed_query_not_successful (Runs.reaches_of_foldlM hstep hs)).1⟩

/-- A late report of a plan that cannot be opened, and one between the two reads. -/
theorem late_reports :
    ([Act.analyse true, .openPlan false, .close, .readFirst, .readSecond].foldlM step
        State.new).map (·.pc) = some (.done true true) ∧
    ([Act.analyse true, .openPlan true, .addSegment 1, .start 1, .update 1 .kError, .report 1,
        .next, .close, .readFirst, .deliver 0, .readSecond].foldlM step State.new).map (·.pc) =
      some .assertFailed := by
  decide

end QueryOutcome
