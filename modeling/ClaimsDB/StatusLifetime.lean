/-
The lifetime of execution status records.

The thread of a segment, the tracker's messages and the handlers that wait for answers refer to its
record.  The tracker discards records when a counter of messages is zero; the counter goes down
when a report is sent, not when it is answered.  Records of statements are discarded by status.
-/
import ClaimsDB.QueryOutcome

namespace StatusLifetime

open Option

open QueryOutcome (ExecStatus updatedStatus tryReportTimes)

/-! ### Segments -/

/-- The thread uses the record, sends a report in `UpdateStatus`, or has finished. -/
inductive Runner where
  | working
  | loading (last : Bool)
  | storing (loaded : ℤ) (last : Bool)
  | sending (last : Bool)
  | finished
deriving DecidableEq, Repr

/-- `SegmentExecStatus`, with its messages, its unanswered reports and its thread. -/
structure Segment where
  execStatus : ExecStatus
  stopReport : Bool
  reportErrorTimes : ℕ
  logicTime : ℤ
  queued : ℕ
  unanswered : List ExecStatus
  runner : Runner
  discarded : Bool
deriving DecidableEq

def Segment.new : Segment := ⟨.kOk, false, 0, 0, 0, [], .working, false⟩

inductive Answer where
  | ok
  | cancelPlan
  | unknown
deriving DecidableEq, Repr

inductive SegmentEvent where
  /-- The thread calls `UpdateStatus`; with `kDone` it is its last call. -/
  | update (status : ExecStatus)
  /-- `++logic_time_` is not atomic. -/
  | load
  | store
  | send
  | tick
  /-- The tracker handles `ReportSAtom`; it may not reach the coordinator. -/
  | report (reached : Bool)
  | answer (i : ℕ) (a : Answer)
  | timeout (i : ℕ)
deriving DecidableEq

namespace Segment

def cancelSegExec (seg : Segment) : Segment :=
  { seg with stopReport := true, execStatus := .kCancelled }

/-- `UpdateStatus`: only a status `kOk` is replaced, and reported. -/
def updateStatus (seg : Segment) (status : ExecStatus) : Segment :=
  if seg.execStatus = .kOk then
    { seg with execStatus := status, runner := .loading (status = .kDone) }
  else { seg with runner := if status = .kDone then .finished else .working }

/-- `ReportSegESAtom`: a record that need not be reported is discarded if no message is counted,
others are reported. -/
def tick (seg : Segment) : Segment :=
  if seg.stopReport then if seg.logicTime = 0 then { seg with discarded := true } else seg
  else { seg with logicTime := seg.logicTime + 1, queued := seg.queued + 1 }

def report (seg : Segment) (reached : Bool) : Segment :=
  { seg with
    logicTime := seg.logicTime - 1
    queued := seg.queued - 1
    unanswered := if seg.stopReport = false ∧ reached = true then
      seg.unanswered ++ [seg.execStatus] else seg.unanswered }

def answered (seg : Segment) (status : ExecStatus) : Answer → Segment
  | .ok =>
    { seg with
      reportErrorTimes := 0
      stopReport := seg.stopReport || decide (status = .kCancelled ∨ status = .kDone) }
  | .cancelPlan => cancelSegExec { seg with reportErrorTimes := 0 }
  | .unknown => seg

def timedOut (seg : Segment) : Segment :=
  let seg' := { seg with reportErrorTimes := seg.reportErrorTimes + 1 }
  if tryReportTimes < seg'.reportErrorTimes then seg'.cancelSegExec else seg'

def step (seg : Segment) : SegmentEvent → Option Segment
  | .update status => if seg.runner = .working then some (seg.updateStatus status) else none
  | .load =>
    match seg.runner with
    | .loading last => some { seg with runner := .storing seg.logicTime last }
    | _ => none
  | .store =>
    match seg.runner with
    | .storing loaded last => some { seg with logicTime := loaded + 1, runner := .sending last }
    | _ => none
  | .send =>
    match seg.runner with
    | .sending last =>
      some { seg with queued := seg.queued + 1, runner := if last then .finished else .working }
    | _ => none
  | .tick => some seg.tick
  | .report reached => if seg.queued = 0 then none else some (seg.report reached)
  | .answer i a =>
    seg.unanswered[i]?.map fun status =>
      answered { seg with unanswered := seg.unanswered.eraseIdx i } status a
  | .timeout i =>
    seg.unanswered[i]?.map fun _ =>
      timedOut { seg with unanswered := seg.unanswered.eraseIdx i }

def stops (seg : Segment) : SegmentEvent → Bool
  | .answer i .ok => seg.unanswered[i]? = some .kCancelled ∨ seg.unanswered[i]? = some .kDone
  | .answer _ .cancelPlan => true
  | .timeout _ => tryReportTimes < seg.reportErrorTimes + 1
  | _ => false

end Segment

def SegmentEvent.counts : SegmentEvent → Bool
  | .tick | .report _ => true
  | _ => false

def Runner.counts : Runner → Bool
  | .storing _ _ => true
  | _ => false

/-- The counter has one writer at a time, and only the last answer stops the reports. -/
def Segment.good (seg : Segment) (e : SegmentEvent) : Prop :=
  (e.counts = true → seg.runner.counts = false) ∧
    (seg.stops e = true → seg.unanswered.length = 1 ∧ seg.runner = .finished)

instance (seg : Segment) (e : SegmentEvent) : Decidable (seg.good e) :=
  inferInstanceAs (Decidable (_ ∧ _))

def Segment.Unused (seg : Segment) : Prop :=
  seg.queued = 0 ∧ seg.unanswered = [] ∧ seg.runner = .finished

def Runner.unsent : Runner → ℤ
  | .sending _ => 1
  | _ => 0

structure Segment.Invariant (seg : Segment) : Prop where
  counter : seg.logicTime = seg.queued + seg.runner.unsent
  loaded : ∀ {loaded last}, seg.runner = .storing loaded last → loaded = seg.logicTime
  stopped : seg.stopReport = true → seg.unanswered = [] ∧ seg.runner = .finished
  discarded : seg.discarded = true → seg.Unused

theorem Segment.Invariant.new : Segment.new.Invariant :=
  ⟨rfl, (fun h => by cases h), (fun h => by cases h), fun h => by cases h⟩

variable {seg seg' : Segment}

theorem eraseIdx_eq_nil {statuses : List ExecStatus} {status : ExecStatus} {i : ℕ}
    (hi : statuses[i]? = some status) (hlength : statuses.length = 1) :
    statuses.eraseIdx i = [] := by
  obtain ⟨hlt, _⟩ := List.getElem?_eq_some_iff.mp hi
  refine List.eq_nil_of_length_eq_zero ?_
  rw [List.length_eraseIdx_of_lt hlt, hlength]

theorem Segment.Invariant.handled (h : seg.Invariant) (hlive : seg.discarded = false)
    {i : ℕ} {seg' : Segment} (hcounter : seg'.logicTime = seg.logicTime)
    (hqueued : seg'.queued = seg.queued) (hrunner : seg'.runner = seg.runner)
    (hunanswered : seg'.unanswered = seg.unanswered.eraseIdx i)
    (hdiscarded : seg'.discarded = seg.discarded)
    (hstops : seg'.stopReport = true →
      seg.stopReport = true ∨ seg.unanswered.eraseIdx i = [] ∧ seg.runner = .finished) :
    seg'.Invariant := by
  refine ⟨?_, fun hstoring => ?_, fun hstop => ?_, fun hdisc => ?_⟩
  · rw [hcounter, hqueued, hrunner]
    exact h.counter
  · rw [hcounter]
    exact h.loaded (hrunner ▸ hstoring)
  · rw [hunanswered, hrunner]
    obtain hbefore | hnow := hstops hstop
    · obtain ⟨hnil, hfinished⟩ := h.stopped hbefore
      exact ⟨by rw [hnil, List.eraseIdx_nil], hfinished⟩
    · exact hnow
  · cases hdisc.symm.trans (hdiscarded.trans hlive)

theorem Segment.Invariant.step (h : seg.Invariant) (hlive : seg.discarded = false)
    {e : SegmentEvent} (hgood : seg.good e) (hstep : seg.step e = some seg') : seg'.Invariant := by
  have hnot : ∀ {P : Prop}, seg.discarded = true → P := fun hdisc => by cases hdisc.symm.trans hlive
  -- while the thread works the reports are not stopped
  have hworking : seg.runner ≠ .finished → seg.stopReport = true → False :=
    fun hrunner hstop => hrunner (h.stopped hstop).2
  have hcounter := h.counter
  cases e with
  | update status =>
    obtain ⟨hrunner, hstep⟩ := ite_none_right_eq_some.mp hstep
    cases hstep
    rw [hrunner] at hcounter
    unfold Segment.updateStatus
    split
    · refine ⟨hcounter, (fun h => by cases h), fun hstop => ?_, hnot⟩
      exact (hworking (by rw [hrunner]; decide) hstop).elim
    · refine ⟨?_, fun hstoring => ?_, fun hstop => ?_, hnot⟩
      · split <;> exact hcounter
      · simp only at hstoring
        split at hstoring <;> cases hstoring
      · exact (hworking (by rw [hrunner]; decide) hstop).elim
  | load =>
    rw [Segment.step] at hstep
    split at hstep
    case h_2 => cases hstep
    case h_1 last hrunner =>
      cases hstep
      rw [hrunner] at hcounter
      refine ⟨hcounter, (fun hstoring => by cases hstoring; rfl), fun hstop => ?_, hnot⟩
      exact (hworking (by rw [hrunner]; simp) hstop).elim
  | store =>
    rw [Segment.step] at hstep
    split at hstep
    case h_2 => cases hstep
    case h_1 loaded last hrunner =>
      cases hstep
      have hloaded := h.loaded hrunner
      rw [hrunner] at hcounter
      refine ⟨?_, (fun hstoring => by cases hstoring), fun hstop => ?_, hnot⟩
      · simp only [Runner.unsent] at hcounter ⊢
        omega
      · exact (hworking (by rw [hrunner]; simp) hstop).elim
  | send =>
    rw [Segment.step] at hstep
    split at hstep
    case h_2 => cases hstep
    case h_1 last hrunner =>
      cases hstep
      rw [hrunner] at hcounter
      refine ⟨?_, fun hstoring => ?_, fun hstop => ?_, hnot⟩
      · cases last <;> simp only [Runner.unsent] at hcounter ⊢ <;> push_cast <;> simp <;> omega
      · cases last <;> cases hstoring
      · exact (hworking (by rw [hrunner]; simp) hstop).elim
  | tick =>
    cases hstep
    have hrunner := hgood.1 rfl
    unfold Segment.tick
    split
    case isTrue hstop =>
      split
      case isTrue hzero =>
        obtain ⟨hnil, hfinished⟩ := h.stopped hstop
        refine ⟨hcounter, h.loaded, h.stopped, fun _ => ⟨?_, hnil, hfinished⟩⟩
        rw [hfinished, hzero] at hcounter
        simp only [Runner.unsent] at hcounter ⊢
        omega
      · exact h
    case isFalse hstop =>
      refine ⟨?_, fun hstoring => ?_, fun hstop' => absurd hstop' hstop, hnot⟩
      · simp only
        push_cast
        omega
      · simp only at hstoring
        rw [hstoring] at hrunner
        cases hrunner
  | report reached =>
    obtain ⟨hqueued, hstep⟩ := ite_none_left_eq_some.mp hstep
    cases hstep
    have hrunner := hgood.1 rfl
    refine ⟨?_, fun hstoring => ?_, fun hstop => ?_, hnot⟩
    · simp only [Segment.report]
      push_cast [Nat.pos_of_ne_zero hqueued]
      omega
    · simp only [Segment.report] at hstoring
      rw [hstoring] at hrunner
      cases hrunner
    · simp only [Segment.report] at hstop ⊢
      rw [if_neg fun hreported => by cases hstop.symm.trans hreported.1]
      exact h.stopped hstop
  | answer i a =>
    obtain ⟨status, hi, rfl⟩ := map_eq_some_iff.mp hstep
    cases a with
    | ok =>
      refine h.handled (i := i) hlive rfl rfl rfl rfl rfl fun hstop => ?_
      simp only [Segment.answered, Bool.or_eq_true, decide_eq_true_eq] at hstop
      refine hstop.imp id fun hlast => ?_
      obtain ⟨hlength, hfinished⟩ := hgood.2 (by simpa [Segment.stops, hi] using hlast)
      exact ⟨eraseIdx_eq_nil hi hlength, hfinished⟩
    | cancelPlan =>
      refine h.handled (i := i) hlive rfl rfl rfl rfl rfl fun _ => .inr ?_
      obtain ⟨hlength, hfinished⟩ := hgood.2 rfl
      exact ⟨eraseIdx_eq_nil hi hlength, hfinished⟩
    | unknown => exact h.handled (i := i) hlive rfl rfl rfl rfl rfl .inl
  | timeout i =>
    obtain ⟨status, hi, rfl⟩ := map_eq_some_iff.mp hstep
    unfold Segment.timedOut
    simp only
    split
    case isTrue htimes =>
      refine h.handled (i := i) hlive rfl rfl rfl rfl rfl fun _ => .inr ?_
      obtain ⟨hlength, hfinished⟩ := hgood.2 (by simpa [Segment.stops] using htimes)
      exact ⟨eraseIdx_eq_nil hi hlength, hfinished⟩
    case isFalse => exact h.handled (i := i) hlive rfl rfl rfl rfl rfl .inl

/-! ### Statements -/

structure Copy where
  execStatus : ExecStatus
  logicTime : UInt64
deriving DecidableEq

/-- Where `SelectExec` is; after `concluding` it sets the status for the last time. -/
inductive Place where
  | analysing
  | executing
  | readAgain
  | concluding (status : ExecStatus)
  | finished
deriving DecidableEq

/-- `StmtExecStatus`; messages to the tracker name a statement by its id. -/
structure Stmt where
  execStatus : ExecStatus
  copies : List Copy
  place : Place
  discarded : Bool
deriving DecidableEq

def Stmt.new : Stmt := ⟨.kOk, [], .analysing, false⟩

inductive StmtEvent where
  /-- Semantic analysis, pushing down conditions and planning, with their result. -/
  | analyse (ok : Bool)
  | addSegExecStatus
  /-- `Execute()` returns and the status is read. -/
  | readFirst
  | readSecond
  | conclude
  | cancelStmtExec
  | updateSegExecStatus (i : ℕ) (status : ExecStatus)
  | check
deriving DecidableEq

def Copy.haveErrorCase (c : Copy) (time : UInt64) : Bool :=
  c.execStatus = .kOk ∧ tryReportTimes + 1 < (time - c.logicTime).toNat

def Copy.updateStatus (c : Copy) (status : ExecStatus) (time : UInt64) : Copy :=
  if c.execStatus = .kOk then ⟨status, if time ≠ 0 then time else c.logicTime⟩ else c

namespace Stmt

def couldBeDeleted (stmt : Stmt) (time : UInt64) : Bool :=
  (stmt.execStatus = .kDone ∨ stmt.execStatus = .kError) ∧
    ∀ c ∈ stmt.copies, ¬(c.execStatus = .kOk ∧ c.haveErrorCase time = false)

/-- The loop of `StmtExecStatus::HaveErrorCase`, with what it has counted so far. -/
def haveErrorCaseLoop (time : UInt64) (size : ℕ) :
    List Copy → (errorCount count : ℕ) → (maxLost : Int32) → Bool × List Copy
  | [], errorCount, _, _ => (0 < errorCount, [])
  | c :: copies, errorCount, count, maxLost =>
    let late := c.haveErrorCase time
    let c := if late then { c with execStatus := .kCancelled } else c
    let errorCount := if late then errorCount + 1 else errorCount
    let lost := time - c.logicTime
    let done := c.execStatus = .kDone
    let count := if done then count + 1 else count
    let maxLost := if done ∧ maxLost.toInt64.toUInt64 < lost then lost.toUInt32.toInt32 else maxLost
    -- when most segments were done long ago, one that is not is taken to be in a loop
    if c.execStatus = .kOk ∧ 50 < count * 100 / size ∧ 1000 < maxLost then (true, c :: copies)
    else
      let r := haveErrorCaseLoop time size copies errorCount count maxLost
      (r.1, c :: r.2)

def haveErrorCase (stmt : Stmt) (time : UInt64) : Bool × Stmt :=
  let r := haveErrorCaseLoop time stmt.copies.length stmt.copies 0 0 0
  (r.1, { stmt with copies := r.2 })

def cancelStmtExec (stmt : Stmt) : Stmt := { stmt with execStatus := .kCancelled }

/-- `CheckStmtESAtom`: what is over is discarded, what is in error is cancelled. -/
def check (stmt : Stmt) (time : UInt64) : Stmt :=
  if stmt.couldBeDeleted time then { stmt with discarded := true }
  else
    let r := stmt.haveErrorCase time
    if r.1 then r.2.cancelStmtExec else r.2

/-- `UpdateSegExecStatus` for a segment that is known. -/
def updateSegExecStatus (stmt : Stmt) (i : ℕ) (status : ExecStatus) (time : UInt64) : Stmt :=
  let stmt := if status = .kError then stmt.cancelStmtExec else stmt
  let status := if stmt.execStatus = .kCancelled ∨ stmt.execStatus = .kError then .kCancelled
    else status
  { stmt with copies := stmt.copies.modify i (·.updateStatus status time) }

/-- One step of `SelectExec`, the tracker or a message to it. -/
def step (stmt : Stmt) (time : UInt64) : StmtEvent → Option Stmt
  | .analyse ok =>
    if stmt.place = .analysing then
      if ok then some { stmt with place := .executing }
      -- the status is set here and once more by the caller
      else some { stmt with execStatus := .kError, place := .concluding .kError }
    else none
  | .addSegExecStatus =>
    if stmt.place = .executing then
      some { stmt with copies := stmt.copies ++ [⟨.kOk, time⟩] }
    else none
  | .readFirst =>
    if stmt.place = .executing then
      if stmt.execStatus = .kCancelled then some { stmt with place := .concluding .kError }
      else some { stmt with place := .readAgain }
    else none
  | .readSecond =>
    if stmt.place = .readAgain then
      if stmt.execStatus = .kOk then some { stmt with place := .concluding .kDone }
      -- after an assertion that fails
      else some { stmt with place := .concluding .kError }
    else none
  | .conclude =>
    match stmt.place with
    | .concluding status => some { stmt with execStatus := status, place := .finished }
    | _ => none
  | .cancelStmtExec => some stmt.cancelStmtExec
  | .updateSegExecStatus i status =>
    if i < stmt.copies.length then some (stmt.updateSegExecStatus i status time) else none
  | .check => some (stmt.check time)

def good (e : StmtEvent) : Prop := e ≠ .analyse false

instance (e : StmtEvent) : Decidable (good e) := inferInstanceAs (Decidable (¬_))

def Unused (stmt : Stmt) : Prop := stmt.place = .finished

def Ended (stmt : Stmt) : Prop := stmt.execStatus = .kDone ∨ stmt.execStatus = .kError

structure Invariant (stmt : Stmt) : Prop where
  ended : stmt.Ended → stmt.Unused
  discarded : stmt.discarded = true → stmt.Unused

theorem Invariant.new : Stmt.new.Invariant :=
  ⟨fun h => by cases h <;> contradiction, fun h => by cases h⟩

variable {stmt stmt' : Stmt}

theorem not_ended_of_kCancelled (h : stmt.execStatus = .kCancelled) : ¬stmt.Ended := by
  rintro (hdone | herror)
  · cases h.symm.trans hdone
  · cases h.symm.trans herror

section

variable (h : stmt.Invariant) (hlive : stmt.discarded = false)

include h hlive

theorem Invariant.kept
    (hplace : stmt'.place = stmt.place) (hdiscarded : stmt'.discarded = stmt.discarded)
    (hended : stmt'.Ended → stmt.Ended) : stmt'.Invariant := by
  refine ⟨fun hended' => hplace.trans (h.ended (hended hended')), fun hdisc => ?_⟩
  cases hdisc.symm.trans (hdiscarded.trans hlive)

theorem Invariant.check (time : UInt64) : (stmt.check time).Invariant := by
  unfold Stmt.check
  split
  case isTrue hdeleted =>
    obtain ⟨hended, -⟩ := of_decide_eq_true hdeleted
    exact ⟨fun _ => h.ended hended, fun _ => h.ended hended⟩
  case isFalse =>
    simp only
    split
    · exact h.kept hlive rfl rfl fun hended => (not_ended_of_kCancelled rfl hended).elim
    · exact h.kept hlive rfl rfl id

theorem Invariant.updateSegExecStatus (i : ℕ)
    (status : ExecStatus) (time : UInt64) :
    (stmt.updateSegExecStatus i status time).Invariant := by
  unfold Stmt.updateSegExecStatus
  by_cases herror : status = .kError
  · simp only [if_pos herror]
    exact h.kept hlive rfl rfl fun hended => (not_ended_of_kCancelled rfl hended).elim
  · simp only [if_neg herror]
    exact h.kept hlive rfl rfl id

theorem Invariant.step {time : UInt64}
    {e : StmtEvent} (hgood : good e) (hstep : stmt.step time e = some stmt') :
    stmt'.Invariant := by
  have hnot : ∀ {P : Prop}, stmt.discarded = true → P := fun hdisc => by
    cases hdisc.symm.trans hlive
  -- as long as the thread works the statement is not over
  have hworking : ∀ {P : Prop}, stmt.place ≠ .finished → stmt.Ended → P := fun hplace hended =>
    (hplace (h.ended hended)).elim
  cases e with
  | analyse ok =>
    obtain ⟨hplace, hstep⟩ := ite_none_right_eq_some.mp hstep
    cases ok with
    | false => exact (hgood rfl).elim
    | true =>
      cases hstep
      exact ⟨hworking (by rw [hplace]; decide), hnot⟩
  | addSegExecStatus =>
    obtain ⟨hplace, hstep⟩ := ite_none_right_eq_some.mp hstep
    cases hstep
    exact h.kept hlive rfl rfl id
  | readFirst | readSecond =>
    obtain ⟨hplace, hstep⟩ := ite_none_right_eq_some.mp hstep
    split at hstep <;> cases hstep <;> exact ⟨hworking (by rw [hplace]; decide), hnot⟩
  | conclude =>
    rw [Stmt.step] at hstep
    split at hstep
    case h_2 => cases hstep
    case h_1 =>
      cases hstep
      exact ⟨fun _ => rfl, hnot⟩
  | cancelStmtExec =>
    cases hstep
    exact h.kept hlive rfl rfl fun hended => (not_ended_of_kCancelled rfl hended).elim
  | updateSegExecStatus i status =>
    obtain ⟨-, hstep⟩ := ite_none_right_eq_some.mp hstep
    cases hstep
    exact h.updateSegExecStatus hlive i status time
  | check =>
    cases hstep
    exact h.check hlive time

end

end Stmt

/-! ### The trackers -/

/-- The records of the trackers, by their ids, and the logic time of the statement tracker. -/
structure State where
  segments : ℕ → Option Segment
  stmts : ℕ → Option Stmt
  time : UInt64

inductive Event where
  | registerSegES (id : ℕ)
  | segment (id : ℕ) (e : SegmentEvent)
  | registerStmtES (id : ℕ)
  | stmt (id : ℕ) (e : StmtEvent)
  | passTime
deriving DecidableEq

namespace State

def initial : State := ⟨fun _ => none, fun _ => none, 0⟩

def step (s : State) : Event → Option State
  | .registerSegES id =>
    if s.segments id = none then
      some { s with segments := Function.update s.segments id (some .new) }
    else none
  | .segment id e =>
    match s.segments id with
    | none => none
    | some seg =>
      if seg.discarded then none
      else (seg.step e).map fun seg' =>
        { s with segments := Function.update s.segments id (some seg') }
  | .registerStmtES id =>
    if s.stmts id = none then some { s with stmts := Function.update s.stmts id (some .new) }
    else none
  | .stmt id e =>
    match s.stmts id with
    | none => none
    | some stmt =>
      if stmt.discarded then none
      else (stmt.step s.time e).map fun stmt' =>
        { s with stmts := Function.update s.stmts id (some stmt') }
  | .passTime => some { s with time := s.time + 1 }

def good (s : State) : Event → Prop
  | .segment id e => ∀ seg ∈ s.segments id, seg.good e
  | .stmt _ e => Stmt.good e
  | _ => True

instance (s : State) : (e : Event) → Decidable (s.good e)
  | .segment id e => inferInstanceAs (Decidable (∀ seg ∈ s.segments id, seg.good e))
  | .stmt _ e => inferInstanceAs (Decidable (Stmt.good e))
  | .registerSegES _ | .registerStmtES _ | .passTime => .isTrue trivial

structure RecordsOutliveUses (s : State) : Prop where
  segments : ∀ {id seg}, s.segments id = some seg → seg.discarded = true → seg.Unused
  stmts : ∀ {id stmt}, s.stmts id = some stmt → stmt.discarded = true → stmt.Unused

structure Invariant (s : State) : Prop where
  segments : ∀ {id seg}, s.segments id = some seg → seg.Invariant
  stmts : ∀ {id stmt}, s.stmts id = some stmt → stmt.Invariant

theorem Invariant.initial : State.initial.Invariant :=
  ⟨(fun h => by cases h), fun h => by cases h⟩

end State

theorem of_update_eq_some {α : Type} {P : α → Prop} {f : ℕ → Option α} {i : ℕ} {x : α}
    (hf : ∀ {id y}, f id = some y → P y) (hx : P x) {id : ℕ} {y : α}
    (hy : Function.update f i (some x) id = some y) : P y := by
  rw [Function.update_apply] at hy
  split at hy
  · cases hy
    exact hx
  · exact hf hy

theorem State.Invariant.step {s s' : State} {e : Event} (h : s.Invariant) (hgood : s.good e)
    (hstep : s.step e = some s') : s'.Invariant := by
  cases e with
  | registerSegES id =>
    rw [State.step] at hstep
    split at hstep <;> cases hstep
    exact ⟨of_update_eq_some h.segments .new, h.stmts⟩
  | segment id e =>
    rw [State.step] at hstep
    split at hstep
    case h_1 => cases hstep
    case h_2 seg hseg =>
      obtain ⟨hlive, hstep⟩ := ite_none_left_eq_some.mp hstep
      obtain ⟨seg', hstep', rfl⟩ := map_eq_some_iff.mp hstep
      have hseg' := (h.segments hseg).step (eq_false_of_ne_true hlive) (hgood seg hseg) hstep'
      exact ⟨of_update_eq_some h.segments hseg', h.stmts⟩
  | registerStmtES id =>
    rw [State.step] at hstep
    split at hstep <;> cases hstep
    exact ⟨h.segments, of_update_eq_some h.stmts .new⟩
  | stmt id e =>
    rw [State.step] at hstep
    split at hstep
    case h_1 => cases hstep
    case h_2 stmt hstmt =>
      obtain ⟨hlive, hstep⟩ := ite_none_left_eq_some.mp hstep
      obtain ⟨stmt', hstep', rfl⟩ := map_eq_some_iff.mp hstep
      have hstmt' := (h.stmts hstmt).step (eq_false_of_ne_true hlive) hgood hstep'
      exact ⟨h.segments, of_update_eq_some h.stmts hstmt'⟩
  | passTime =>
    cases hstep
    exact ⟨h.segments, h.stmts⟩

/-! ### Runs -/

def Step (s s' : State) : Prop := ∃ e, s.step e = some s'

def GoodStep (s s' : State) : Prop := ∃ e, s.good e ∧ s.step e = some s'

def run (events : List Event) : Option State := events.foldlM State.step .initial

def goodRun (events : List Event) : Option State :=
  events.foldlM (fun s e => if s.good e then s.step e else none) .initial

theorem reaches_of_run {events : List Event} {s : State} (h : run events = some s) :
    Runs.Reaches Step .initial s :=
  Runs.reaches_of_foldlM (fun _ e _ hstep => ⟨e, hstep⟩) h

theorem reaches_of_goodRun {events : List Event} {s : State} (h : goodRun events = some s) :
    Runs.Reaches GoodStep .initial s := by
  refine Runs.reaches_of_foldlM (fun s e s' hstep => ?_) h
  obtain ⟨hgood, hstep⟩ := ite_none_right_eq_some.mp hstep
  exact ⟨e, hgood, hstep⟩

/-- **Records outlive their uses** in every run of good steps. -/
theorem records_outlive_uses {s : State} (h : Runs.Reaches GoodStep .initial s) :
    s.RecordsOutliveUses := by
  have hinvariant : s.Invariant := by
    refine Runs.invariant (fun s s' hs hstep => ?_) h .initial
    obtain ⟨e, hgood, he⟩ := hstep
    exact hs.step hgood he
  exact ⟨fun hseg => (hinvariant.segments hseg).discarded,
    fun hstmt => (hinvariant.stmts hstmt).discarded⟩

def orderlyEvents : List Event :=
  [.registerStmtES 0, .stmt 0 (.analyse true), .stmt 0 .addSegExecStatus, .registerSegES 0,
    .segment 0 .tick, .segment 0 (.report true), .stmt 0 (.updateSegExecStatus 0 .kOk),
    .segment 0 (.answer 0 .ok), .stmt 0 .check, .passTime, .segment 0 (.update .kDone),
    .segment 0 .load, .segment 0 .store, .segment 0 .send, .segment 0 (.report true),
    .stmt 0 (.updateSegExecStatus 0 .kDone), .segment 0 (.answer 0 .ok), .stmt 0 .readFirst,
    .stmt 0 .readSecond, .stmt 0 .conclude, .segment 0 .tick, .stmt 0 .check]

theorem orderly_records_outlive_uses :
    ∃ s, Runs.Reaches GoodStep .initial s ∧ s.RecordsOutliveUses ∧
      (s.segments 0).map (·.discarded) = some true ∧
      (s.stmts 0).map (·.discarded) = some true := by
  have hrun : (goodRun orderlyEvents).isSome = true := by decide
  obtain ⟨s, hs⟩ := isSome_iff_exists.mp hrun
  have hsegment : (goodRun orderlyEvents).bind (fun s => (s.segments 0).map (·.discarded)) =
      some true := by decide
  have hstmt : (goodRun orderlyEvents).bind (fun s => (s.stmts 0).map (·.discarded)) =
      some true := by decide
  rw [hs] at hsegment hstmt
  have hreaches := reaches_of_goodRun hs
  exact ⟨s, hreaches, records_outlive_uses hreaches, hsegment, hstmt⟩

theorem exists_segment (events : List Event) {P : Segment → Bool}
    (h : ((run events).bind fun s => (s.segments 0).map P) = some true) :
    ∃ s seg, Runs.Reaches Step .initial s ∧ s.segments 0 = some seg ∧ P seg = true := by
  obtain ⟨s, hs, hP⟩ := bind_eq_some_iff.mp h
  obtain ⟨seg, hseg, hP⟩ := map_eq_some_iff.mp hP
  exact ⟨s, seg, reaches_of_run hs, hseg, hP⟩

/-- **Records discarded while they are used**, in four ways. -/
theorem discarded_in_use :
    (∃ s seg, Runs.Reaches Step .initial s ∧ s.segments 0 = some seg ∧
      (seg.discarded && decide (seg.runner = .working)) = true) ∧
    (∃ s seg, Runs.Reaches Step .initial s ∧ s.segments 0 = some seg ∧
      (seg.discarded && decide (seg.unanswered = [.kOk])) = true) ∧
    (∃ s seg, Runs.Reaches Step .initial s ∧ s.segments 0 = some seg ∧
      (seg.discarded && decide (seg.queued = 1)) = true) ∧
    ∃ s stmt, Runs.Reaches Step .initial s ∧ s.stmts 0 = some stmt ∧
      stmt.discarded = true ∧ stmt.place = .concluding .kError := by
  refine ⟨?_, ?_, ?_, ?_⟩
  · refine exists_segment [.registerSegES 0, .segment 0 .tick, .segment 0 (.report true),
      .segment 0 (.answer 0 .cancelPlan), .segment 0 .tick] ?_
    decide
  · refine exists_segment [.registerSegES 0, .segment 0 .tick, .segment 0 (.report true),
      .segment 0 (.update .kDone), .segment 0 .load, .segment 0 .store, .segment 0 .send,
      .segment 0 (.report true), .segment 0 (.answer 1 .ok), .segment 0 .tick] ?_
    decide
  · -- the tracker counts its message between the load and the store of the thread
    refine exists_segment [.registerSegES 0, .segment 0 (.update .kDone),
      .segment 0 .load, .segment 0 .tick, .segment 0 .store, .segment 0 .send,
      .segment 0 (.report true), .segment 0 (.answer 0 .ok), .segment 0 .tick] ?_
    decide
  · let events : List Event := [.registerStmtES 0, .stmt 0 (.analyse false), .stmt 0 .check]
    have hrun : (run events).bind (·.stmts 0) =
        some ⟨.kError, [], .concluding .kError, true⟩ := by decide
    obtain ⟨s, hs, hstmt⟩ := bind_eq_some_iff.mp hrun
    exact ⟨s, _, reaches_of_run hs, hstmt, rfl, rfl⟩

end StatusLifetime
