/-
A multi-threaded load writes every tuple exactly once.

The invariant accounts for every record (to be read, in a task list, with a worker, or with a row
id) and every sub-tuple (in a file, in a worker's blocks, or still to be inserted).
-/
import ClaimsDB.InsertAtomicity
import ClaimsDB.LoadThreads
import ClaimsDB.Runs

namespace Loader

open Multiset (coe_add coe_eq_coe coe_nil)
open Bool (false_eq_true)
open Function (update_eq_self)
open List
open Function (update update_of_ne update_self)

/-! ### Where records and tuples are -/

def HandleTuple.hand : HandleTuple → List Text
  | .addRowId record => [record]
  | _ => []

/-- The tuple of the worker, if it is still to be inserted into projection `i`. -/
def HandleTuple.pending (i : ℕ) : HandleTuple → List Memory
  | .insert k tuple _ => if k ≤ i then [tuple] else []
  | .count k tuple _ => if k ≤ i then [tuple] else []
  | _ => []

def HandleTuple.permit : HandleTuple → ℕ
  | .getTask => 1
  | _ => 0

/-- The partition of projection `i` that the tuple belongs to. -/
def LoadConfig.partOf (cfg : LoadConfig) (i : ℕ) (tuple : Memory) : ℕ :=
  match cfg.projections[i]? with
  | some p => p.partitionOf (p.getSubTuple tuple)
  | none => 0

def HandleTuple.inFile (cfg : LoadConfig) (i j : ℕ) : HandleTuple → Bool
  | .count k tuple _ => k = i ∧ cfg.partOf k tuple = j
  | .countLast k l _ => k = i ∧ l = j
  | _ => false

def Worker.live (cfg : LoadConfig) (i j : ℕ) (wk : Worker) : List Memory :=
  if wk.pc.inFile cfg i j then [] else wk.pjBuffer i j

def Worker.counting (cfg : LoadConfig) (i j : ℕ) (wk : Worker) : ℕ :=
  if wk.pc.inFile cfg i j then 1 else 0

def Worker.weight (cfg : LoadConfig) (i : ℕ) (p : Projection Memory) (j : ℕ) (wk : Worker) :
    Multiset Memory :=
  (wk.live cfg i j : Multiset Memory) + (Job.share p j (wk.pc.pending i) : Multiset Memory)

def Worker.isReturned (wk : Worker) : ℕ := if wk.pc = .returned then 1 else 0

def Reader.toRead : Reader → List Text
  | .read rest _ => rest.map withoutReturn
  | .push record rest _ => record :: rest.map withoutReturn
  | .postTuple rest _ => rest.map withoutReturn
  | _ => []

/-- The reader has pushed a task into list `k` and not posted its semaphore yet. -/
def Reader.posting (cfg : LoadConfig) (k : ℕ) : Reader → ℕ
  | .postTuple _ row => if row % cfg.threadCount = k then 1 else 0
  | _ => 0

def Reader.allRead : Reader → Bool
  | .wait _ => true
  | .checkStatus => true
  | .finishJob => true
  | .returned _ => true
  | _ => false

def Reader.waited (cfg : LoadConfig) : Reader → ℕ
  | .wait k => k
  | .checkStatus => cfg.threadCount
  | .finishJob => cfg.threadCount
  | .returned _ => cfg.threadCount
  | _ => 0

def LoadConfig.value (cfg : LoadConfig) (x : Text × ℕ) : Memory :=
  match cfg.toValue x.2 x.1 with
  | .ok (_, tuple) => tuple
  | .error _ => []

def LoadConfig.Accepts (cfg : LoadConfig) (record : Text) : Prop :=
  ∀ rowId, ∃ tuple, cfg.toValue rowId record = .ok (.success, tuple)

/-- The worker's blocks before partition `j` of projection `i` are empty. -/
def Emptied (cfg : LoadConfig) (i j : ℕ) (buffer : PerPartition (List Memory)) : Prop :=
  ∀ i' p', cfg.projections[i']? = some p' → ∀ j' < p'.numberOfPartitions,
    i' < i ∨ i' = i ∧ j' < j → buffer i' j' = []

def Load.NoMore (s : Load) (w : ℕ) : Prop := s.allTupleRead = true ∧ s.taskLists w = []

def Load.WorkerOk (cfg : LoadConfig) (s : Load) (w : ℕ) : Prop :=
  match (s.workers w).pc with
  | .tryWait true => s.allTupleRead = true
  | .insert _ _ ret => ret = .success
  | .count i _ ret => ret = .success ∧ i < cfg.projections.length
  | .flushLast i j ret => ret = .success ∧ s.NoMore w ∧ Emptied cfg i j (s.workers w).pjBuffer
  | .countLast i j ret => ret = .success ∧ s.NoMore w ∧ Emptied cfg i j (s.workers w).pjBuffer
  | .setStatus _ => False
  | .post => s.NoMore w ∧ Emptied cfg cfg.projections.length 0 (s.workers w).pjBuffer
  | .returned => s.NoMore w ∧ Emptied cfg cfg.projections.length 0 (s.workers w).pjBuffer
  | _ => True

/-- The accounts of a load in which `given` lists the records that have got their row ids. -/
structure LoadInv (cfg : LoadConfig) (records : List Text) (given : List (Text × ℕ)) (s : Load) :
    Prop where
  lines : ((records.map withoutReturn : List Text) : Multiset Text)
    = (s.reader.toRead : Multiset Text)
      + ∑ k ∈ Finset.range cfg.threadCount, (s.taskLists k : Multiset Text)
      + ∑ w ∈ Finset.range cfg.threadCount, ((s.workers w).pc.hand : Multiset Text)
      + (given.map Prod.fst : List Text)
  rowIds : given.map Prod.snd = List.range' cfg.firstRowId given.length
  rowId : s.rowId = cfg.firstRowId + given.length
  tuples : ∀ i p, cfg.projections[i]? = some p → ∀ j,
    ((s.appended i j).flatten : Multiset Memory)
      + ∑ w ∈ Finset.range cfg.threadCount, (s.workers w).weight cfg i p j
    = (Job.share p j (given.map cfg.value) : Multiset Memory)
  counters : ∀ i j,
    s.counted i j + ∑ w ∈ Finset.range cfg.threadCount, (s.workers w).counting cfg i j
    = cfg.firstBlocks i j + (s.appended i j).length
  status : s.status = .success
  sems : ∀ k < cfg.threadCount,
    s.tupleSems k + (s.workers k).pc.permit + s.reader.posting cfg k = (s.taskLists k).length
  flag : s.allTupleRead = s.reader.allRead
  finished : s.finishedSem + s.reader.waited cfg
    = ∑ w ∈ Finset.range cfg.threadCount, (s.workers w).isReturned
  workerOk : ∀ w < cfg.threadCount, s.WorkerOk cfg w
  catalogue : ∀ ret, s.reader = .returned ret → ret = .success ∧ s.catalogue = s.counted

section

variable {cfg : LoadConfig} {records : List Text} {given : List (Text × ℕ)} {s : Load} {w : ℕ}

theorem loadInv_start (cfg : LoadConfig) (records : List Text) :
    LoadInv cfg records [] (Load.start cfg records) where
  lines := by simp [Load.start, Reader.toRead, HandleTuple.hand]
  rowIds := rfl
  rowId := rfl
  tuples := fun i p _ j => by
    simp [Load.start, Worker.weight, Worker.live, HandleTuple.inFile, HandleTuple.pending,
      Job.share]
  counters := fun i j => by simp [Load.start, Worker.counting, HandleTuple.inFile]
  status := rfl
  sems := fun k _ => rfl
  flag := rfl
  finished := by simp [Load.start, Reader.waited, Worker.isReturned]
  workerOk := fun w _ => trivial
  catalogue := fun ret h => nomatch h

theorem LoadInv.returned_of_waited (h : LoadInv cfg records given s)
    (hw : w < cfg.threadCount) (hall : cfg.threadCount ≤ s.reader.waited cfg) :
    (s.workers w).pc = .returned := by
  by_contra hpc
  have hle : ∀ k ∈ Finset.range cfg.threadCount, (s.workers k).isReturned ≤ 1 := by
    intro k _
    rw [Worker.isReturned]
    split <;> omega
  have hlt : ∑ k ∈ Finset.range cfg.threadCount, (s.workers k).isReturned
      < ∑ k ∈ Finset.range cfg.threadCount, 1 := by
    refine Finset.sum_lt_sum hle ⟨w, Finset.mem_range.2 hw, ?_⟩
    rw [Worker.isReturned, if_neg hpc]
    exact Nat.one_pos
  rw [Finset.sum_const, Finset.card_range, smul_eq_mul, mul_one] at hlt
  have := h.finished
  omega

theorem Load.WorkerOk.congr {s' : Load} (h : s.WorkerOk cfg w)
    (hworker : s'.workers w = s.workers w) (hflag : s.allTupleRead = true → s'.allTupleRead = true)
    (hlist : s.allTupleRead = true → s'.taskLists w = s.taskLists w) : s'.WorkerOk cfg w := by
  have hno : s.NoMore w → s'.NoMore w := fun hn => ⟨hflag hn.1, (hlist hn.1).trans hn.2⟩
  unfold Load.WorkerOk at h ⊢
  rw [hworker]
  split at h
  · exact hflag h
  · exact h
  · exact h
  · exact ⟨h.1, hno h.2.1, h.2.2⟩
  · exact ⟨h.1, hno h.2.1, h.2.2⟩
  · exact h
  · exact ⟨hno h.1, h.2⟩
  · exact ⟨hno h.1, h.2⟩
  · trivial

/-! ### Steps of a worker -/

/-- **A worker's step**, seen from its own part of the accounts. -/
theorem LoadInv.move (h : LoadInv cfg records given s) (hw : w < cfg.threadCount)
    (hpc : (s.workers w).pc ≠ .returned) (s' : Load) (wk' : Worker) {given' : List (Text × ℕ)}
    (hworkers : s'.workers = update s.workers w wk') (hreader : s'.reader = s.reader)
    (hflag : s'.allTupleRead = s.allTupleRead) (hstatus : s'.status = s.status)
    (hlists : ∃ l, s'.taskLists = update s.taskLists w l)
    (hsems : ∀ k, k ≠ w → s'.tupleSems k = s.tupleSems k)
    (hsem : s'.tupleSems w + wk'.pc.permit + (s.taskLists w).length
      = s.tupleSems w + (s.workers w).pc.permit + (s'.taskLists w).length)
    (hlines : (s'.taskLists w : Multiset Text) + wk'.pc.hand + (given'.map Prod.fst : List Text)
      = s.taskLists w + (s.workers w).pc.hand + (given.map Prod.fst : List Text))
    (hrowIds : given'.map Prod.snd = List.range' cfg.firstRowId given'.length)
    (hrowId : s'.rowId = cfg.firstRowId + given'.length)
    (htuples : ∀ i p, cfg.projections[i]? = some p → ∀ j,
      ((s'.appended i j).flatten : Multiset Memory) + wk'.weight cfg i p j
        + Job.share p j (given.map cfg.value)
      = (s.appended i j).flatten + (s.workers w).weight cfg i p j
        + Job.share p j (given'.map cfg.value))
    (hcounters : ∀ i j, s'.counted i j + wk'.counting cfg i j + (s.appended i j).length
      = s.counted i j + (s.workers w).counting cfg i j + (s'.appended i j).length)
    (hfinished : s'.finishedSem + (s.workers w).isReturned = s.finishedSem + wk'.isReturned)
    (hok : s'.WorkerOk cfg w) : LoadInv cfg records given' s' where
  lines := by
    obtain ⟨l, hl⟩ := hlists
    have hlist := Runs.sum_update (fun l : List Text => (l : Multiset Text)) s.taskLists hw l
    have hhand := Runs.sum_update (fun wk : Worker => (wk.pc.hand : Multiset Text)) s.workers hw wk'
    rw [hl, update_self] at hlines
    rw [hl, hworkers, hreader, h.lines]
    generalize ∑ k ∈ Finset.range cfg.threadCount, (s.taskLists k : Multiset Text) = A at *
    generalize ∑ k ∈ Finset.range cfg.threadCount, ((s.workers k).pc.hand : Multiset Text) = B at *
    generalize ∑ k ∈ Finset.range cfg.threadCount,
      ((update s.taskLists w l k : List Text) : Multiset Text) = A' at *
    generalize ∑ k ∈ Finset.range cfg.threadCount,
      (((update s.workers w wk' k).pc.hand : List Text) : Multiset Text) = B' at *
    -- what this list and this hand lost, `given'` has gained
    refine add_right_cancel (b := (s.taskLists w : Multiset Text) + (s.workers w).pc.hand) ?_
    calc (s.reader.toRead : Multiset Text) + A + B + (given.map Prod.fst : List Text)
          + ((s.taskLists w : Multiset Text) + (s.workers w).pc.hand)
        = s.reader.toRead + A + B + ((s.taskLists w : Multiset Text) + (s.workers w).pc.hand
          + (given.map Prod.fst : List Text)) := by abel
      _ = s.reader.toRead + (A + l) + (B + wk'.pc.hand) + (given'.map Prod.fst : List Text) := by
        rw [← hlines]
        abel
      _ = s.reader.toRead + (A' + s.taskLists w) + (B' + (s.workers w).pc.hand)
          + (given'.map Prod.fst : List Text) := by rw [← hlist, ← hhand]
      _ = s.reader.toRead + A' + B' + (given'.map Prod.fst : List Text)
          + ((s.taskLists w : Multiset Text) + (s.workers w).pc.hand) := by abel
  rowIds := hrowIds
  rowId := hrowId
  tuples := fun i p hp j => by
    have hsum := Runs.sum_update (Worker.weight cfg i p j) s.workers hw wk'
    have hlocal := htuples i p hp j
    have hbefore := h.tuples i p hp j
    rw [hworkers]
    generalize ∑ k ∈ Finset.range cfg.threadCount, (s.workers k).weight cfg i p j = A at *
    generalize ∑ k ∈ Finset.range cfg.threadCount,
      (update s.workers w wk' k).weight cfg i p j = A' at *
    refine add_right_cancel (b := (s.workers w).weight cfg i p j
      + (Job.share p j (given.map cfg.value) : Multiset Memory)) ?_
    calc ((s'.appended i j).flatten : Multiset Memory) + A'
          + ((s.workers w).weight cfg i p j + Job.share p j (given.map cfg.value))
        = ((s'.appended i j).flatten : Multiset Memory) + (A' + (s.workers w).weight cfg i p j)
          + Job.share p j (given.map cfg.value) := by abel
      _ = (((s'.appended i j).flatten : Multiset Memory) + wk'.weight cfg i p j
          + Job.share p j (given.map cfg.value)) + A := by
        rw [hsum]
        abel
      _ = (((s.appended i j).flatten : Multiset Memory) + A) + (s.workers w).weight cfg i p j
          + Job.share p j (given'.map cfg.value) := by
        rw [hlocal]
        abel
      _ = Job.share p j (given'.map cfg.value) + ((s.workers w).weight cfg i p j
          + Job.share p j (given.map cfg.value)) := by
        rw [hbefore]
        abel
  counters := fun i j => by
    have hsum := Runs.sum_update (Worker.counting cfg i j) s.workers hw wk'
    have hlocal := hcounters i j
    have hbefore := h.counters i j
    rw [hworkers]
    omega
  status := hstatus.trans h.status
  sems := fun k hk => by
    rw [hreader, hworkers]
    by_cases hkw : k = w
    · subst hkw
      have := h.sems k hk
      rw [update_self]
      omega
    · obtain ⟨l, hl⟩ := hlists
      rw [update_of_ne hkw, hsems k hkw, hl, update_of_ne hkw]
      exact h.sems k hk
  flag := by rw [hflag, hreader, h.flag]
  finished := by
    have hsum := Runs.sum_update Worker.isReturned s.workers hw wk'
    have := h.finished
    rw [hreader, hworkers]
    omega
  workerOk := fun k hk => by
    by_cases hkw : k = w
    · rw [hkw]
      exact hok
    · obtain ⟨l, hl⟩ := hlists
      refine (h.workerOk k hk).congr ?_ (fun hset => hflag.trans hset) fun _ => ?_
      · rw [hworkers, update_of_ne hkw]
      · rw [hl, update_of_ne hkw]
  catalogue := fun ret hret => by
    -- a worker that moves has not been waited for
    rw [hreader] at hret
    exact absurd (h.returned_of_waited hw (by rw [hret]; exact le_rfl)) hpc

@[simp] theorem goto_workers_self (s : Load) (w : ℕ) (pc : HandleTuple) :
    (s.goto w pc).workers w = ⟨pc, (s.workers w).pjBuffer⟩ := update_self ..

@[simp] theorem gotoWith_workers_self (s : Load) (w : ℕ) (pc : HandleTuple)
    (buffer : PerPartition (List Memory)) :
    (s.gotoWith w pc buffer).workers w = ⟨pc, buffer⟩ := update_self ..

variable {pc : HandleTuple} {record : Text} {tuple : Memory} {r : Reader} {i : ℕ}
  {p : Projection Memory} {ret : RetCode} {j : ℕ} {rest : List Text} {row : ℕ}

section

variable (h : LoadInv cfg records given s) (hw : w < cfg.threadCount)

include h hw

theorem LoadInv.at (hpc : (s.workers w).pc = pc) : (s.goto w pc).WorkerOk cfg w := by
  have hself : s.goto w pc = s := by
    rw [Load.goto, ← hpc]
    exact congrArg (fun f => { s with workers := f }) (update_eq_self w s.workers)
  rw [hself]
  exact h.workerOk w hw

theorem LoadInv.work {pc : HandleTuple} (hpc : (s.workers w).pc = pc) (hne : pc ≠ .returned)
    (pc' : HandleTuple) (buffer : PerPartition (List Memory))
    (appended : PerPartition (List (List Memory))) (counted : PerPartition ℕ)
    (hne' : pc' ≠ .returned) (hhand : pc'.hand = pc.hand) (hpermit : pc'.permit = pc.permit)
    (htuples : ∀ i p, cfg.projections[i]? = some p → ∀ j,
      ((appended i j).flatten : Multiset Memory) + (Worker.mk pc' buffer).weight cfg i p j
      = (s.appended i j).flatten + (s.workers w).weight cfg i p j)
    (hcounters : ∀ i j,
      counted i j + (Worker.mk pc' buffer).counting cfg i j + (s.appended i j).length
      = s.counted i j + (s.workers w).counting cfg i j + (appended i j).length)
    (hok : ({ s with appended := appended, counted := counted }.gotoWith w pc' buffer).WorkerOk
      cfg w) :
    LoadInv cfg records given
      ({ s with appended := appended, counted := counted }.gotoWith w pc' buffer) := by
  refine h.move hw (by rwa [hpc]) _ ⟨pc', buffer⟩ rfl rfl rfl rfl
    ⟨s.taskLists w, (update_eq_self w s.taskLists).symm⟩ (fun _ _ => rfl) ?_ ?_
    h.rowIds h.rowId (fun i p hp j => ?_) (fun i j => ?_) ?_ hok
  · rw [hpermit, hpc]
    rfl
  · rw [hhand, hpc]
    rfl
  · exact congrArg (· + _) (htuples i p hp j)
  · exact hcounters i j
  · rw [Worker.isReturned, Worker.isReturned, if_neg hne', hpc, if_neg hne]
    rfl

theorem LoadInv.go {pc' : HandleTuple} (hpc : (s.workers w).pc = pc) (hne : pc ≠ .returned)
    (hne' : pc' ≠ .returned) (hhand : pc'.hand = pc.hand) (hpermit : pc'.permit = pc.permit)
    (hpending : ∀ i p, cfg.projections[i]? = some p → pc'.pending i = pc.pending i)
    (hinFile : ∀ i j, pc'.inFile cfg i j = pc.inFile cfg i j)
    (hok : (s.goto w pc').WorkerOk cfg w) : LoadInv cfg records given (s.goto w pc') := by
  refine h.work hw hpc hne pc' (s.workers w).pjBuffer s.appended s.counted hne' hhand hpermit
    (fun i p hp j => congrArg _ ?_) (fun i j => ?_) hok
  · rw [Worker.weight, Worker.weight, Worker.live, Worker.live, hinFile, hpending i p hp, hpc]
  · rw [Worker.counting, Worker.counting, hinFile, hpc]

theorem LoadInv.takePermit
    {b : Bool} (hpc : (s.workers w).pc = .tryWait b) (hsem : s.tupleSems w ≠ 0) :
    LoadInv cfg records given
      ({ s with tupleSems := update s.tupleSems w (s.tupleSems w - 1) }.goto w
        .getTask) := by
  refine h.move hw (by rw [hpc]; nofun) _ _ rfl rfl rfl rfl
    ⟨s.taskLists w, (update_eq_self w s.taskLists).symm⟩
    (fun k hk => update_of_ne hk _ _) ?_ ?_ h.rowIds h.rowId (fun i p _ j => ?_)
    (fun i j => ?_) ?_ ?_
  · have hupdate : update s.tupleSems w (s.tupleSems w - 1) w = s.tupleSems w - 1 :=
      update_self ..
    show update s.tupleSems w (s.tupleSems w - 1) w + 1 + (s.taskLists w).length = _
    rw [hupdate, hpc]
    show s.tupleSems w - 1 + 1 + (s.taskLists w).length
      = s.tupleSems w + 0 + (s.taskLists w).length
    omega
  · rw [hpc]
    rfl
  · rw [Worker.weight, Worker.weight, Worker.live, Worker.live, hpc]
    rfl
  · rw [Worker.counting, Worker.counting, hpc]
    rfl
  · rw [Worker.isReturned, Worker.isReturned, hpc]
    rfl
  · simp [Load.WorkerOk]

theorem LoadInv.takeTask (hpc : (s.workers w).pc = .getTask) :
    ∃ record rest, s.taskLists w = record :: rest ∧
      LoadInv cfg records given
        ({ s with taskLists := update s.taskLists w rest }.goto w
          (.addRowId record)) := by
  have hlen := h.sems w hw
  rw [hpc] at hlen
  cases hl : s.taskLists w with
  | nil =>
    rw [hl] at hlen
    simp [HandleTuple.permit] at hlen
  | cons record rest =>
    have hupdate : update s.taskLists w rest w = rest := update_self ..
    refine ⟨record, rest, rfl, h.move hw (by rw [hpc]; nofun) _ _ rfl rfl rfl rfl ⟨rest, rfl⟩
      (fun _ _ => rfl) ?_ ?_ h.rowIds h.rowId (fun i p _ j => ?_) (fun i j => ?_) ?_ ?_⟩
    · show s.tupleSems w + 0 + (s.taskLists w).length
        = s.tupleSems w + (s.workers w).pc.permit + (update s.taskLists w rest w).length
      rw [hupdate, hpc, hl, length_cons]
      show s.tupleSems w + 0 + (rest.length + 1) = s.tupleSems w + 1 + rest.length
      omega
    · show (update s.taskLists w rest w : Multiset Text) + ([record] : List Text) + _
        = s.taskLists w + (s.workers w).pc.hand + _
      rw [hupdate, hpc, hl]
      have hcons : ((record :: rest : List Text) : Multiset Text)
          = (([record] : List Text) : Multiset Text) + rest := rfl
      show _ = ((record :: rest : List Text) : Multiset Text) + (([] : List Text) : Multiset Text)
        + _
      rw [hcons, coe_nil]
      abel
    · rw [Worker.weight, Worker.weight, Worker.live, Worker.live, hpc]
      rfl
    · rw [Worker.counting, Worker.counting, hpc]
      rfl
    · rw [Worker.isReturned, Worker.isReturned, hpc]
      rfl
    · simp [Load.WorkerOk]

theorem LoadInv.record_mem
    (hpc : (s.workers w).pc = .addRowId record) : record ∈ records.map withoutReturn := by
  have hle : ((s.workers w).pc.hand : Multiset Text)
      ≤ ∑ k ∈ Finset.range cfg.threadCount, ((s.workers k).pc.hand : Multiset Text) :=
    Finset.single_le_sum (f := fun k => ((s.workers k).pc.hand : Multiset Text))
      (fun _ _ => Multiset.zero_le _) (Finset.mem_range.2 hw)
  have hmem : record ∈ ∑ k ∈ Finset.range cfg.threadCount,
      ((s.workers k).pc.hand : Multiset Text) :=
    Multiset.mem_of_le hle (by simp [hpc, HandleTuple.hand])
  rw [← Multiset.mem_coe, h.lines]
  simp only [Multiset.mem_add]
  exact .inl (.inr hmem)

theorem LoadInv.giveRowId (hpc : (s.workers w).pc = .addRowId record)
    (hvalue : cfg.toValue s.rowId record = .ok (.success, tuple)) :
    LoadInv cfg records (given ++ [(record, s.rowId)])
      ({ s with rowId := s.rowId + 1 }.goto w (.insert 0 tuple .success)) := by
  have hval : cfg.value (record, s.rowId) = tuple := by rw [LoadConfig.value, hvalue]
  refine h.move hw (by rw [hpc]; nofun) _ _ rfl rfl rfl rfl
    ⟨s.taskLists w, (update_eq_self w s.taskLists).symm⟩ (fun _ _ => rfl) ?_ ?_ ?_ ?_
    (fun i p _ j => ?_) (fun i j => ?_) ?_ ?_
  · rw [hpc]
    rfl
  · rw [hpc, map_append, ← coe_add]
    show (s.taskLists w : Multiset Text) + (([] : List Text) : Multiset Text)
        + (_ + (([record] : List Text) : Multiset Text))
      = s.taskLists w + (([record] : List Text) : Multiset Text) + _
    rw [coe_nil]
    abel
  · rw [map_append, h.rowIds, length_append, length_singleton, map_cons,
      map_nil, h.rowId, range'_concat]
    simp
  · show s.rowId + 1 = _
    rw [h.rowId, length_append, length_singleton]
    rfl
  · rw [map_append, Job.share_append, ← coe_add, Worker.weight, Worker.weight,
      Worker.live, Worker.live, hpc, map_cons, map_nil, hval]
    show _ + ((s.workers w).pjBuffer i j + ((Job.share p j [tuple] : List Memory)
      : Multiset Memory)) + _ = _ + ((s.workers w).pjBuffer i j + (([] : List Memory)
      : Multiset Memory)) + _
    rw [coe_nil]
    show ((s.appended i j).flatten : Multiset Memory) + _ + _ = _
    abel
  · rw [Worker.counting, Worker.counting, hpc]
    rfl
  · rw [Worker.isReturned, Worker.isReturned, hpc]
    rfl
  · simp [Load.WorkerOk]

end

theorem Reader.posting_of_allRead (h : r.allRead = true) (k : ℕ) : r.posting cfg k = 0 := by
  cases r <;> first | rfl | cases h

theorem share_singleton (p : Projection Memory) (j : ℕ) (tuple : Memory) :
    Job.share p j [tuple]
      = if p.partitionOf (p.getSubTuple tuple) = j then [p.getSubTuple tuple] else [] := by
  rw [Job.share, map_cons, map_nil]
  by_cases hj : p.partitionOf (p.getSubTuple tuple) = j
  · rw [if_pos hj, filter_cons_of_pos (by simpa using hj), filter_nil]
  · rw [if_neg hj, filter_cons_of_neg (by simpa using hj), filter_nil]

theorem LoadConfig.partOf_eq (hp : cfg.projections[i]? = some p) (tuple : Memory) :
    cfg.partOf i tuple = p.partitionOf (p.getSubTuple tuple) := by
  rw [LoadConfig.partOf, hp]

theorem pending_insert_succ {i' : ℕ} (hi : i' ≠ i) (tuple : Memory) (ret ret' : RetCode) :
    (HandleTuple.insert (i + 1) tuple ret).pending i'
      = (HandleTuple.insert i tuple ret').pending i' := by
  have hiff : i + 1 ≤ i' ↔ i ≤ i' := by omega
  simp [HandleTuple.pending, hiff]

section

variable (h : LoadInv cfg records given s) (hw : w < cfg.threadCount)

include h hw

theorem LoadInv.insertRoom
    (hpc : (s.workers w).pc = .insert i tuple ret) (hp : cfg.projections[i]? = some p) :
    LoadInv cfg records given
      (s.gotoWith w (.insert (i + 1) tuple .success)
        (put (s.workers w).pjBuffer i (p.partitionOf (p.getSubTuple tuple))
          ((s.workers w).pjBuffer i (p.partitionOf (p.getSubTuple tuple))
            ++ [p.getSubTuple tuple]))) := by
  refine h.work hw hpc nofun (.insert (i + 1) tuple .success) _ s.appended s.counted nofun rfl rfl
    (fun i' p' hp' j => ?_) (fun i' j => ?_) (by simp [Load.WorkerOk])
  · congr 1
    rw [Worker.weight, Worker.weight, Worker.live, Worker.live, hpc]
    by_cases hi : i' = i
    · subst hi
      obtain rfl : p = p' := Option.mem_unique hp hp'
      have hafter : (HandleTuple.insert (i' + 1) tuple RetCode.success).pending i' = [] := by
        simp [HandleTuple.pending]
      have hbefore : (HandleTuple.insert i' tuple ret).pending i' = [tuple] := by
        simp [HandleTuple.pending]
      rw [hafter, hbefore, share_singleton]
      by_cases hj : p.partitionOf (p.getSubTuple tuple) = j
      · subst hj
        simp only [HandleTuple.inFile, false_eq_true, if_false, if_true, Job.share,
          map_nil, filter_nil, coe_nil, add_zero, put_same]
        exact (coe_add _ _).symm
      · rw [if_neg hj]
        simp only [HandleTuple.inFile, false_eq_true, if_false]
        rw [put_of_ne _ _ (by simp [Ne.symm hj])]
        rfl
    · rw [pending_insert_succ hi tuple _ ret]
      simp only [HandleTuple.inFile, false_eq_true, if_false]
      rw [put_of_ne _ _ (by simp [hi])]
  · rw [Worker.counting, Worker.counting, hpc]
    rfl

theorem LoadInv.writeBlock (hpc : (s.workers w).pc = pc) (hne : pc ≠ .returned) (pc' : HandleTuple)
    (hne' : pc' ≠ .returned) (hhand : pc'.hand = pc.hand) (hpermit : pc'.permit = pc.permit)
    (hpending : ∀ i, pc'.pending i = pc.pending i)
    (hbefore : ∀ i' j', pc.inFile cfg i' j' = false)
    (hafter : ∀ i' j', pc'.inFile cfg i' j' = decide (i = i' ∧ j = j'))
    (hok : ((s.atomicFlush true i j ((s.workers w).pjBuffer i j)).2.goto w pc').WorkerOk cfg w) :
    LoadInv cfg records given
      ((s.atomicFlush true i j ((s.workers w).pjBuffer i j)).2.goto w pc') := by
  refine h.work hw hpc hne pc' (s.workers w).pjBuffer _ s.counted hne' hhand hpermit
    (fun i' p' _ j' => ?_) (fun i' j' => ?_) hok
  · rw [Worker.weight, Worker.weight, Worker.live, Worker.live, hpc, hbefore, hafter, hpending]
    by_cases hij : i = i' ∧ j = j'
    · obtain ⟨rfl, rfl⟩ := hij
      rw [put_same, flatten_append, flatten_singleton, ← coe_add]
      simp only [and_self, decide_true, if_true, false_eq_true, if_false, coe_nil]
      abel
    · rw [put_of_ne _ _ (by tauto)]
      simp [hij]
  · rw [Worker.counting, Worker.counting, hpc, hbefore, hafter]
    by_cases hij : i = i' ∧ j = j'
    · obtain ⟨rfl, rfl⟩ := hij
      rw [put_same, length_append, length_singleton]
      simp only [and_self, decide_true, if_true, false_eq_true, if_false]
      omega
    · rw [put_of_ne _ _ (by tauto)]
      simp [hij]

theorem LoadInv.countBlock
    (hpc : (s.workers w).pc = .count i tuple .success) (hp : cfg.projections[i]? = some p) :
    LoadInv cfg records given
      ((s.addBlock i (p.partitionOf (p.getSubTuple tuple))).gotoWith w
        (.insert (i + 1) tuple .success)
        (put (s.workers w).pjBuffer i (p.partitionOf (p.getSubTuple tuple))
          [p.getSubTuple tuple])) := by
  have hpart := LoadConfig.partOf_eq hp tuple
  refine h.work hw hpc nofun (.insert (i + 1) tuple .success) _ s.appended _ nofun rfl rfl
    (fun i' p' hp' j => ?_) (fun i' j => ?_) (by simp [Load.WorkerOk])
  · congr 1
    rw [Worker.weight, Worker.weight, Worker.live, Worker.live, hpc]
    by_cases hi : i' = i
    · subst hi
      obtain rfl : p = p' := Option.mem_unique hp hp'
      have hafter : (HandleTuple.insert (i' + 1) tuple RetCode.success).pending i' = [] := by
        simp [HandleTuple.pending]
      have hbefore : (HandleTuple.count i' tuple .success).pending i' = [tuple] := by
        simp [HandleTuple.pending]
      rw [hafter, hbefore, share_singleton]
      by_cases hj : p.partitionOf (p.getSubTuple tuple) = j
      · subst hj
        simp [HandleTuple.inFile, hpart, Job.share]
      · rw [if_neg hj]
        simp only [HandleTuple.inFile, hpart, hj, and_false, decide_false, false_eq_true,
          if_false]
        rw [put_of_ne _ _ (by simp [Ne.symm hj])]
        rfl
    · have hiff : i + 1 ≤ i' ↔ i ≤ i' := by omega
      simp only [HandleTuple.inFile, HandleTuple.pending, hiff, false_eq_true, if_false,
        Ne.symm hi, false_and, decide_false]
      rw [put_of_ne _ _ (by simp [hi])]
  · rw [Worker.counting, Worker.counting, hpc]
    simp only [HandleTuple.inFile, hpart, false_eq_true, if_false]
    by_cases hij : i = i' ∧ p.partitionOf (p.getSubTuple tuple) = j
    · obtain ⟨rfl, rfl⟩ := hij
      rw [put_same]
      simp
    · rw [put_of_ne _ _ (by tauto)]
      simp [hij]

theorem LoadInv.countLast (hpc : (s.workers w).pc = .countLast i j .success) :
    LoadInv cfg records given
      ((s.addBlock i j).gotoWith w (.flushLast i (j + 1) .success)
        (put (s.workers w).pjBuffer i j [])) := by
  have hat := h.at hw hpc
  simp only [Load.WorkerOk, goto_workers_self] at hat
  refine h.work hw hpc nofun (.flushLast i (j + 1) .success) _ s.appended _ nofun rfl rfl
    (fun i' p' hp' j' => ?_) (fun i' j' => ?_) ?_
  · congr 1
    rw [Worker.weight, Worker.weight, Worker.live, Worker.live, hpc]
    simp only [HandleTuple.inFile, HandleTuple.pending, false_eq_true, if_false]
    by_cases hij : i = i' ∧ j = j'
    · obtain ⟨rfl, rfl⟩ := hij
      simp
    · rw [put_of_ne _ _ (by tauto)]
      simp [hij]
  · rw [Worker.counting, Worker.counting, hpc]
    simp only [HandleTuple.inFile, false_eq_true, if_false]
    by_cases hij : i = i' ∧ j = j'
    · obtain ⟨rfl, rfl⟩ := hij
      rw [put_same]
      simp
    · rw [put_of_ne _ _ (by tauto)]
      simp [hij]
  · simp only [Load.WorkerOk, gotoWith_workers_self]
    refine ⟨trivial, hat.2.1, fun i' p' hp' j' hj' hlt => ?_⟩
    by_cases hij : i' = i ∧ j' = j
    · obtain ⟨rfl, rfl⟩ := hij
      rw [put_same]
    · rw [put_of_ne _ _ hij]
      exact hat.2.2 i' p' hp' j' hj' (by omega)

/-- The semaphore of the task list is tried; a worker that finds it taken goes on to the flag, or
to its last blocks. -/
theorem LoadInv.tryWait (hpc : (s.workers w).pc = .tryWait b) :
    ∃ given' s', workerStep cfg w true s = .ok s' ∧ LoadInv cfg records given' s' := by
  rw [workerStep, hpc]
  by_cases hsem : s.tupleSems w = 0
  · simp only [if_pos hsem]
    refine ⟨given, _, rfl, h.go hw hpc nofun ?_ ?_ ?_ (fun _ _ _ => ?_) (fun _ _ => ?_) ?_⟩
    · cases b <;> nofun
    · cases b <;> rfl
    · cases b <;> rfl
    · cases b <;> rfl
    · cases b <;> rfl
    · cases b with
      | false => simp [Load.WorkerOk]
      | true =>
        -- all records are pushed and posted, so an empty semaphore means an empty list
        have hread := h.at hw hpc
        simp only [Load.WorkerOk, goto_workers_self] at hread
        have hlen := h.sems w hw
        have hposting : s.reader.posting cfg w = 0 :=
          Reader.posting_of_allRead (h.flag.symm.trans hread) w
        rw [hsem, hpc, hposting] at hlen
        have hnil : s.taskLists w = [] := List.length_eq_zero_iff.1 hlen.symm
        simp only [if_true, Load.WorkerOk, goto_workers_self]
        refine ⟨trivial, ⟨hread, hnil⟩, fun i' p' _ j' _ hlt => ?_⟩
        omega
  · simp only [if_neg hsem]
    exact ⟨given, _, rfl, h.takePermit hw hpc hsem⟩

/-- The blocks that are not full are written, partition by partition. -/
theorem LoadInv.flushLast (hpc : (s.workers w).pc = .flushLast i j ret) :
    ∃ given' s', workerStep cfg w true s = .ok s' ∧ LoadInv cfg records given' s' := by
  rw [workerStep, hpc]
  have hat := h.at hw hpc
  simp only [Load.WorkerOk, goto_workers_self] at hat
  obtain ⟨rfl, hno, hempty⟩ := hat
  dsimp only
  cases hp : cfg.projections[i]? with
  | none =>
    refine ⟨given, _, rfl, ?_⟩
    rw [if_neg (by simp)]
    refine h.go hw hpc nofun nofun rfl rfl (fun _ _ _ => rfl) (fun _ _ => rfl) ?_
    simp only [Load.WorkerOk, goto_workers_self]
    refine ⟨hno, fun i' p' hp' j' hj' _ => hempty i' p' hp' j' hj' (.inl ?_)⟩
    have hlt : i' < cfg.projections.length := (List.getElem?_eq_some_iff.1 hp').1
    exact hlt.trans_le (List.getElem?_eq_none_iff.1 hp)
  | some p =>
    simp only
    split_ifs with hj hbuf
    · -- an empty block is passed over
      refine ⟨given, _, rfl, h.go hw hpc nofun nofun rfl rfl (fun _ _ _ => rfl)
        (fun _ _ => rfl) ?_⟩
      simp only [Load.WorkerOk, goto_workers_self]
      refine ⟨trivial, hno, fun i' p' hp' j' hj' hlt => ?_⟩
      by_cases hij : i' = i ∧ j' = j
      · obtain ⟨rfl, rfl⟩ := hij
        exact hbuf
      · exact hempty i' p' hp' j' hj' (by omega)
    · refine ⟨given, _, rfl, h.writeBlock hw hpc nofun (.countLast i j .success) nofun rfl rfl
        (fun _ => rfl) (fun _ _ => rfl) (fun i' j' => rfl) ?_⟩
      simp only [Load.WorkerOk, goto_workers_self]
      exact ⟨trivial, hno, hempty⟩
    · -- all partitions of the projection are done
      refine ⟨given, _, rfl, h.go hw hpc nofun nofun rfl rfl (fun _ _ _ => rfl)
        (fun _ _ => rfl) ?_⟩
      simp only [Load.WorkerOk, goto_workers_self]
      refine ⟨trivial, hno, fun i' p' hp' j' hj' hlt => ?_⟩
      by_cases hi : i' = i
      · subst hi
        obtain rfl : p = p' := Option.mem_unique hp hp'
        exact hempty i' p hp j' hj' (by omega)
      · exact hempty i' p' hp' j' hj' (by omega)

/-- The worker is done and tells the reader. -/
theorem LoadInv.post (hpc : (s.workers w).pc = .post) :
    ∃ given' s', workerStep cfg w true s = .ok s' ∧ LoadInv cfg records given' s' := by
  rw [workerStep, hpc]
  have hat := h.at hw hpc
  simp only [Load.WorkerOk, goto_workers_self] at hat
  refine ⟨given, _, rfl, h.move hw (by rw [hpc]; nofun) _ _ rfl rfl rfl rfl
    ⟨s.taskLists w, (update_eq_self w s.taskLists).symm⟩ (fun _ _ => rfl) ?_ ?_
    h.rowIds h.rowId (fun i p _ j => ?_) (fun i j => ?_) ?_ ?_⟩
  · rw [hpc]
    rfl
  · rw [hpc]
    rfl
  · rw [Worker.weight, Worker.weight, Worker.live, Worker.live, hpc]
    rfl
  · rw [Worker.counting, Worker.counting, hpc]
    rfl
  · rw [Worker.isReturned, Worker.isReturned, hpc]
    rfl
  · simp only [Load.WorkerOk, goto_workers_self]
    exact hat

/-- **Every step of a worker** succeeds and keeps the accounts, if the blocks it writes reach their
files. -/
theorem LoadInv.worker (hcap : ∀ p ∈ cfg.projections, 0 < p.capacity)
    (hvalid : ∀ record ∈ records.map withoutReturn, cfg.Accepts record) :
    ∃ given' s', workerStep cfg w true s = .ok s' ∧ LoadInv cfg records given' s' := by
  unfold workerStep
  cases hpc : (s.workers w).pc with
  | checkStatus =>
    refine ⟨given, _, rfl, ?_⟩
    rw [if_neg (by simp [h.status])]
    exact h.go hw hpc nofun nofun rfl rfl (fun _ _ _ => rfl) (fun _ _ => rfl)
      (by simp [Load.WorkerOk])
  | readFlag =>
    refine ⟨given, _, rfl, h.go hw hpc nofun nofun rfl rfl (fun _ _ _ => rfl) (fun _ _ => rfl) ?_⟩
    cases hf : s.allTupleRead with
    | false => simp [Load.WorkerOk]
    | true =>
      simp only [Load.WorkerOk, goto_workers_self]
      exact hf
  | tryWait b =>
    have hstep := h.tryWait hw hpc
    rwa [workerStep, hpc] at hstep
  | getTask =>
    obtain ⟨record, rest, hl, hinv⟩ := h.takeTask hw hpc
    simp only [hl]
    exact ⟨given, _, rfl, hinv⟩
  | addRowId record =>
    obtain ⟨tuple, hvalue⟩ := hvalid record (h.record_mem hw hpc) s.rowId
    simp only [hvalue, Run.bind_ok, ne_eq, not_true_eq_false, if_false]
    exact ⟨_, _, rfl, h.giveRowId hw hpc hvalue⟩
  | insert i tuple ret =>
    have hret := h.at hw hpc
    simp only [Load.WorkerOk, goto_workers_self] at hret
    subst hret
    dsimp only
    cases hp : cfg.projections[i]? with
    | none =>
      refine ⟨given, _, rfl, ?_⟩
      rw [if_neg (by simp)]
      refine h.go hw hpc nofun nofun rfl rfl (fun i' p' hp' => ?_) (fun _ _ => rfl)
        (by simp [Load.WorkerOk])
      -- the tuple has been inserted into all projections
      have hlt : i' < cfg.projections.length := (List.getElem?_eq_some_iff.1 hp').1
      have hge : cfg.projections.length ≤ i := List.getElem?_eq_none_iff.1 hp
      simp [HandleTuple.pending, Nat.not_le.2 (hlt.trans_le hge)]
    | some p =>
      have hlt : i < cfg.projections.length := (List.getElem?_eq_some_iff.1 hp).1
      simp only
      split
      · exact ⟨given, _, rfl, h.insertRoom hw hpc hp⟩
      · refine ⟨given, _, rfl, h.writeBlock hw hpc nofun (.count i tuple .success) nofun rfl rfl
          (fun _ => rfl) (fun _ _ => rfl) (fun i' j' => ?_) ?_⟩
        · show HandleTuple.inFile cfg i' j' (.count i tuple .success) = _
          simp [HandleTuple.inFile, LoadConfig.partOf_eq hp]
        · simp [Load.WorkerOk, Load.atomicFlush, hlt]
  | count i tuple ret =>
    have hret := h.at hw hpc
    simp only [Load.WorkerOk, goto_workers_self] at hret
    obtain ⟨rfl, hlt⟩ := hret
    have hp : cfg.projections[i]? = some cfg.projections[i] := getElem?_eq_getElem hlt
    simp only [hp, if_pos (hcap _ (getElem_mem hlt))]
    exact ⟨given, _, rfl, h.countBlock hw hpc hp⟩
  | flushLast i j ret =>
    have hstep := h.flushLast hw hpc
    rwa [workerStep, hpc] at hstep
  | countLast i j ret =>
    have hat := h.at hw hpc
    simp only [Load.WorkerOk, goto_workers_self] at hat
    obtain ⟨rfl, -, -⟩ := hat
    exact ⟨given, _, rfl, h.countLast hw hpc⟩
  | setStatus ret =>
    have hat := h.at hw hpc
    simp only [Load.WorkerOk, goto_workers_self] at hat
  | post =>
    have hstep := h.post hw hpc
    rwa [workerStep, hpc] at hstep
  | returned => exact ⟨given, s, rfl, h⟩

end

/-! ### Steps of the reader -/

section

variable (h : LoadInv cfg records given s)

include h

theorem LoadInv.setReader (hread : r.toRead = s.reader.toRead)
    (hposting : ∀ k, r.posting cfg k = s.reader.posting cfg k)
    (hflag : r.allRead = s.reader.allRead) (hwaited : r.waited cfg = s.reader.waited cfg)
    (hret : ∀ ret, r ≠ .returned ret) : LoadInv cfg records given { s with reader := r } where
  lines := by
    rw [hread]
    exact h.lines
  rowIds := h.rowIds
  rowId := h.rowId
  tuples := h.tuples
  counters := h.counters
  status := h.status
  sems := fun k hk => by
    rw [hposting]
    exact h.sems k hk
  flag := h.flag.trans hflag.symm
  finished := by
    rw [hwaited]
    exact h.finished
  workerOk := fun w hw => (h.workerOk w hw).congr rfl id fun _ => rfl
  catalogue := fun ret hr => absurd hr (hret ret)

theorem LoadInv.pushTask (hr : s.reader = .push record rest row) :
    LoadInv cfg records given { s with
      reader := .postTuple rest row
      taskLists := update s.taskLists (row % cfg.threadCount)
        (s.taskLists (row % cfg.threadCount) ++ [record]) } := by
  have hk : row % cfg.threadCount < cfg.threadCount := Nat.mod_lt _ cfg.threadCount_pos
  obtain ⟨l, hl⟩ : ∃ l, l = s.taskLists (row % cfg.threadCount) ++ [record] := ⟨_, rfl⟩
  rw [← hl]
  have hnot : s.allTupleRead = false := by
    rw [h.flag, hr]
    rfl
  refine ⟨?_, h.rowIds, h.rowId, h.tuples, h.counters, h.status, fun k hk' => ?_, ?_, ?_,
    fun w hw => (h.workerOk w hw).congr rfl id fun hset => ?_, fun ret hret => nomatch hret⟩
  · have hsum := Runs.sum_update (fun l : List Text => (l : Multiset Text)) s.taskLists hk l
    have hlines := h.lines
    have hread : (s.reader.toRead : Multiset Text)
        = (([record] : List Text) : Multiset Text) + (rest.map withoutReturn : List Text) := by
      rw [hr]
      rfl
    rw [hread] at hlines
    simp only [Reader.toRead]
    generalize ∑ k ∈ Finset.range cfg.threadCount, (s.taskLists k : Multiset Text) = A at *
    generalize ∑ k ∈ Finset.range cfg.threadCount,
      ((update s.taskLists (row % cfg.threadCount) l k : List Text) : Multiset Text)
        = A' at *
    rw [hl, ← coe_add] at hsum
    have hA : A' = A + (([record] : List Text) : Multiset Text) := by
      refine add_right_cancel (b := (s.taskLists (row % cfg.threadCount) : Multiset Text)) ?_
      rw [hsum]
      abel
    rw [hlines, hA]
    abel
  · -- the task that is in the list is not in the semaphore yet
    have hsem := h.sems k hk'
    rw [hr] at hsem
    simp only [Reader.posting, add_zero] at hsem ⊢
    by_cases hkw : row % cfg.threadCount = k
    · subst hkw
      rw [if_pos rfl, update_self, hl, length_append, length_singleton, hsem]
    · rw [if_neg hkw, update_of_ne (Ne.symm hkw), add_zero, hsem]
  · exact hnot
  · have hfin := h.finished
    rw [hr] at hfin
    exact hfin
  · rw [hnot] at hset
    cases hset

theorem LoadInv.postTask (hr : s.reader = .postTuple rest row) :
    LoadInv cfg records given { s with
      reader := .read rest row
      tupleSems := update s.tupleSems (row % cfg.threadCount)
        (s.tupleSems (row % cfg.threadCount) + 1) } := by
  refine ⟨?_, h.rowIds, h.rowId, h.tuples, h.counters, h.status, fun k hk => ?_, ?_, ?_,
    fun w hw => (h.workerOk w hw).congr rfl id fun _ => rfl, fun ret hret => nomatch hret⟩
  · have hlines := h.lines
    rw [hr] at hlines
    exact hlines
  · have hsem := h.sems k hk
    rw [hr] at hsem
    simp only [Reader.posting] at hsem ⊢
    by_cases hkw : row % cfg.threadCount = k
    · subst hkw
      rw [if_pos rfl] at hsem
      rw [update_self]
      omega
    · rw [if_neg hkw] at hsem
      rw [update_of_ne (Ne.symm hkw)]
      exact hsem
  · have hflag := h.flag
    rw [hr] at hflag
    exact hflag
  · have hfin := h.finished
    rw [hr] at hfin
    exact hfin

/-- **Every step of the reader** that does not pass over a record keeps the accounts. -/
theorem LoadInv.reader {rand : ℕ}
    (hrand : getRandomDecimal rand < cfg.sampleRate) :
    LoadInv cfg records given (readerStep cfg rand s) := by
  unfold readerStep
  cases hr : s.reader with
  | read rest row =>
    cases rest with
    | nil =>
      exact h.setReader (by rw [hr]; rfl) (fun k => by rw [hr]; rfl) (by rw [hr]; rfl)
        (by rw [hr]; rfl) nofun
    | cons record rest =>
      simp only [if_neg (not_le.2 hrand)]
      exact h.setReader (by rw [hr]; rfl) (fun k => by rw [hr]; rfl) (by rw [hr]; rfl)
        (by rw [hr]; rfl) nofun
  | push record rest row => exact h.pushTask hr
  | postTuple rest row => exact h.postTask hr
  | setFlag =>
    have hlines := h.lines
    have hfin := h.finished
    have hsems := h.sems
    rw [hr] at hlines hfin hsems
    exact ⟨hlines, h.rowIds, h.rowId, h.tuples, h.counters, h.status, hsems, rfl, hfin,
      fun w hw => (h.workerOk w hw).congr rfl (fun _ => rfl) fun _ => rfl,
      fun ret hret => nomatch hret⟩
  | wait k =>
    simp only
    split_ifs with hk hzero
    · refine h.setReader (by rw [hr]; rfl) (fun k => by rw [hr]; rfl) (by rw [hr]; rfl) ?_ nofun
      rw [hr]
      exact hk.symm
    · exact h
    · have hlines := h.lines
      have hsems := h.sems
      have hflag := h.flag
      have hfin := h.finished
      rw [hr] at hlines hsems hflag hfin
      refine ⟨hlines, h.rowIds, h.rowId, h.tuples, h.counters, h.status, hsems, hflag, ?_,
        fun w hw => (h.workerOk w hw).congr rfl id fun _ => rfl, fun ret hret => nomatch hret⟩
      simp only [Reader.waited] at hfin ⊢
      omega
  | checkStatus =>
    simp only
    split_ifs with hbad
    · exact absurd h.status hbad
    · exact h.setReader (by rw [hr]; rfl) (fun k => by rw [hr]; rfl) (by rw [hr]; rfl)
        (by rw [hr]; rfl) nofun
  | finishJob =>
    have hlines := h.lines
    have hsems := h.sems
    have hflag := h.flag
    have hfin := h.finished
    rw [hr] at hlines hsems hflag hfin
    refine ⟨hlines, h.rowIds, h.rowId, h.tuples, h.counters, h.status, hsems, hflag, hfin,
      fun w hw => (h.workerOk w hw).congr rfl id fun _ => rfl, fun ret hret => ?_⟩
    exact ⟨(Reader.returned.inj hret).symm, rfl⟩
  | returned ret => exact h

end

/-! ### Whole loads -/

def Turn.Smooth (cfg : LoadConfig) : Turn → Prop
  | .reader rand => getRandomDecimal rand < cfg.sampleRate
  | .worker _ written => written = true

/-- Consecutive row ids, every sub-tuple in its file, and all blocks in the catalogue. -/
def Load.ExactlyOnce (cfg : LoadConfig) (records : List Text) (s : Load) : Prop :=
  ∃ given : List (Text × ℕ), (given.map Prod.fst).Perm (records.map withoutReturn) ∧
    given.map Prod.snd = List.range' cfg.firstRowId given.length ∧
    ∀ i p, cfg.projections[i]? = some p → ∀ j < p.numberOfPartitions,
      ((s.appended i j).flatten).Perm (Job.share p j (given.map cfg.value)) ∧
      s.catalogue i j = cfg.firstBlocks i j + (s.appended i j).length

/-- **A smooth step** does not fail and keeps the accounts. -/
theorem LoadInv.step (h : LoadInv cfg records given s)
    (hcap : ∀ p ∈ cfg.projections, 0 < p.capacity)
    (hvalid : ∀ record ∈ records.map withoutReturn, cfg.Accepts record) {t : Turn}
    (ht : t.Smooth cfg) :
    ∃ given' s', loadStep cfg t s = .ok s' ∧ LoadInv cfg records given' s' := by
  cases t with
  | reader rand => exact ⟨given, _, rfl, h.reader ht⟩
  | worker w written =>
    obtain rfl : written = true := ht
    by_cases hw : w < cfg.threadCount
    · obtain ⟨given', s', hs', h'⟩ := h.worker hw hcap hvalid
      exact ⟨given', s', (if_pos hw).trans hs', h'⟩
    · exact ⟨given, s, if_neg hw, h⟩

theorem LoadInv.exactlyOnce (h : LoadInv cfg records given s) (hr : s.reader = .returned ret) :
    s.ExactlyOnce cfg records := by
  have hdone : ∀ w < cfg.threadCount, (s.workers w).pc = .returned := fun w hw =>
    h.returned_of_waited hw (by rw [hr]; exact le_rfl)
  have hok : ∀ w < cfg.threadCount,
      s.NoMore w ∧ Emptied cfg cfg.projections.length 0 (s.workers w).pjBuffer := by
    intro w hw
    have hat := h.workerOk w hw
    rw [Load.WorkerOk, hdone w hw] at hat
    exact hat
  refine ⟨given, ?_, h.rowIds, fun i p hp j hj => ⟨?_, ?_⟩⟩
  · have hlines := h.lines
    rw [Finset.sum_eq_zero fun k hk => by rw [(hok k (Finset.mem_range.1 hk)).1.2]; rfl,
      Finset.sum_eq_zero fun w hw => by rw [hdone w (Finset.mem_range.1 hw)]; rfl, hr] at hlines
    refine (coe_eq_coe.1 ?_).symm
    rw [hlines]
    simp [Reader.toRead]
  · have htuples := h.tuples i p hp j
    have hi : i < cfg.projections.length := (List.getElem?_eq_some_iff.1 hp).1
    have hnone : ∀ w ∈ Finset.range cfg.threadCount, (s.workers w).weight cfg i p j = 0 := by
      intro w hw
      have hbuf := (hok w (Finset.mem_range.1 hw)).2 i p hp j hj (.inl hi)
      rw [Worker.weight, Worker.live, hdone w (Finset.mem_range.1 hw), hbuf]
      rfl
    rw [Finset.sum_eq_zero hnone, add_zero] at htuples
    exact coe_eq_coe.1 htuples
  · have hcounters := h.counters i j
    have hnone : ∀ w ∈ Finset.range cfg.threadCount, (s.workers w).counting cfg i j = 0 := by
      intro w hw
      rw [Worker.counting, hdone w (Finset.mem_range.1 hw)]
      rfl
    rw [Finset.sum_eq_zero hnone, add_zero] at hcounters
    rw [(h.catalogue ret hr).2, hcounters]

end

/-- **A load writes every tuple exactly once**, if blocks are written and no record passed over. -/
theorem load_exactly_once (cfg : LoadConfig) (records : List Text)
    (hcap : ∀ p ∈ cfg.projections, 0 < p.capacity)
    (hvalid : ∀ record ∈ records.map withoutReturn, cfg.Accepts record) {s : Load}
    (hrun : Runs.Reaches (fun s s' => ∃ t : Turn, t.Smooth cfg ∧ loadStep cfg t s = .ok s')
      (Load.start cfg records) s) :
    (∀ t : Turn, t.Smooth cfg → ∃ s', loadStep cfg t s = .ok s') ∧
      ∀ ret, s.reader = .returned ret → ret = .success ∧ s.ExactlyOnce cfg records := by
  have hinv : ∃ given, LoadInv cfg records given s := by
    refine Runs.invariant (I := fun s => ∃ given, LoadInv cfg records given s)
      (fun s s' ⟨given, h⟩ ⟨t, ht, hs'⟩ => ?_) hrun
      ⟨[], loadInv_start cfg records⟩
    obtain ⟨given', s'', hs'', h'⟩ := h.step hcap hvalid ht
    obtain rfl : s'' = s' := Except.ok.inj (hs''.symm.trans hs')
    exact ⟨given', h'⟩
  obtain ⟨given, h⟩ := hinv
  refine ⟨fun t ht => ?_, fun ret hr => ⟨(h.catalogue ret hr).1, h.exactlyOnce hr⟩⟩
  obtain ⟨-, s', hs', -⟩ := h.step hcap hvalid ht
  exact ⟨s', hs'⟩

/-! ### Records that are valid -/

def Roomy (c : Operate) : Prop := ∀ t, ∃ b, c.toValue t = .ok b ∧ b.length ≤ c.length

theorem checkColumns_file (sep : Text) : ∀ (columns : List Operate) (i off : ℕ) (r : Reading),
    (∀ c ∈ columns, Roomy c) → off + totalsize columns ≤ r.tuple.length →
      ∃ r', checkColumns sep .file i off columns r = .ok (.success, r') := by
  intro columns
  induction columns with
  | nil => exact fun i off r _ _ => ⟨r, rfl⟩
  | cons c columns ih =>
    intro i off r hroomy hlen
    obtain ⟨t, r₁, hcol, htuple⟩ : ∃ t r₁,
        columnText sep .file i c r = .ok (t, r₁) ∧ r₁.tuple = r.tuple := by
      rw [columnText]
      split_ifs
      · exact ⟨_, _, rfl, rfl⟩
      · split
        · exact ⟨_, _, rfl, rfl⟩
        · simp only
          split_ifs <;> exact ⟨_, _, rfl, rfl⟩
    obtain ⟨b, hb, hroom⟩ := hroomy c mem_cons_self t
    simp only [totalsize, map_cons, sum_cons] at hlen
    obtain ⟨tuple, hwrite, hsize, -, -⟩ := write_ok r₁.tuple b off (by rw [htuple]; omega)
    obtain ⟨r', hr'⟩ := ih (i + 1) (off + c.length) { r₁ with tuple := tuple }
      (fun c hc => hroomy c (mem_cons_of_mem _ hc))
      (by simp only [totalsize, hsize, htuple]; omega)
    refine ⟨r', ?_⟩
    rw [checkColumns, hcol]
    simp only [hb, Run.bind_ok, hwrite, hr']

variable {cfg : LoadConfig}

theorem accepts_of_roomy (h : ∀ c ∈ cfg.table.columns, Roomy c) (record : Text) :
    cfg.Accepts record := by
  intro rowId
  obtain ⟨r, hr⟩ := checkColumns_file cfg.colSeparator cfg.table.columns 0 0
    ⟨toDecimal rowId ++ cfg.colSeparator ++ record ++ cfg.colSeparator, true,
      List.replicate (totalsize cfg.table.columns) 0, []⟩ h (by simp)
  rw [LoadConfig.toValue, checkAndToValue, hr, Run.bind_ok]
  simp only
  split
  · exact ⟨_, rfl⟩
  · exact ⟨_, rfl⟩

/-! ### A table with two projections -/

def twoProjections : LoadConfig where
  table := { oneColumn (operateInt true) with projections := [wholeProjection, wholeProjection] }
  openFlag := .appendFile
  threadCount := 1
  colSeparator := [124]
  sampleRate := 1
  threadCount_pos := le_rfl

def record7 : Text := [55]

theorem twoProjections_roomy : ∀ c ∈ twoProjections.table.columns, Roomy c := by
  intro c hc t
  obtain rfl | rfl : c = operateULong true ∨ c = operateInt true := by
    simpa [twoProjections, oneColumn, Table.columns] using hc
  · exact ⟨_, rfl, (Codec.length_leBytes _ _).le⟩
  · exact ⟨_, rfl, (Codec.length_leBytes _ _).le⟩

def oneRecordTurns (rand : ℕ) (written : Bool) : List Turn :=
  List.replicate 3 (.reader rand) ++ List.replicate 8 (.worker 0 true)
    ++ List.replicate 2 (.reader rand) ++ List.replicate 3 (.worker 0 true)
    ++ [.worker 0 written] ++ List.replicate 7 (.worker 0 true)
    ++ List.replicate 4 (.reader rand)

theorem reaches_of_runLoad : ∀ {turns : List Turn} {s s' : Load},
    (∀ t ∈ turns, t.Smooth cfg) → runLoad cfg turns s = .ok s' →
      Runs.Reaches (fun s s' => ∃ t : Turn, t.Smooth cfg ∧ loadStep cfg t s = .ok s') s s' := by
  intro turns
  induction turns with
  | nil =>
    intro s s' _ h
    obtain rfl : s = s' := Except.ok.inj h
    exact .refl
  | cons t turns ih =>
    intro s s' ht h
    rw [runLoad, foldlM_cons] at h
    obtain ⟨s₁, hs₁, hrest⟩ := Run.bind_eq_ok h
    exact .head ⟨t, ht t mem_cons_self, hs₁⟩
      (ih (fun t' ht' => ht t' (mem_cons_of_mem _ ht')) hrest)

/-- Success without the record stored: a block is not written, and `rand_r` gives `RAND_MAX`. -/
theorem lost_block_reported_as_success :
    twoProjections.Accepts record7 ∧
    (∃ s, runLoad twoProjections (oneRecordTurns 0 false) (Load.start twoProjections [record7])
        = .ok s ∧ s.reader = .returned .success ∧ s.appended 0 0 = [] ∧ s.catalogue 0 0 = 1 ∧
      ¬s.ExactlyOnce twoProjections [record7]) ∧
    ∃ s, runLoad twoProjections (oneRecordTurns randMax true) (Load.start twoProjections [record7])
        = .ok s ∧ s.reader = .returned .success ∧ s.appended 0 0 = [] ∧
      ¬s.ExactlyOnce twoProjections [record7] := by
  refine ⟨accepts_of_roomy twoProjections_roomy _, ?_, ?_⟩
  · have heval : (runLoad twoProjections (oneRecordTurns 0 false)
        (Load.start twoProjections [record7])).map
          (fun s => (s.reader, s.appended 0 0, s.catalogue 0 0))
        = .ok (.returned .success, [], 1) := by
      decide +kernel
    obtain ⟨s, hs, hobs⟩ := Run.map_eq_ok heval
    simp only [Prod.mk.injEq] at hobs
    obtain ⟨hreader, happ, hcat⟩ := hobs
    refine ⟨s, hs, hreader, happ, hcat, ?_⟩
    rintro ⟨given, -, -, hfiles⟩
    have hcount := (hfiles 0 wholeProjection rfl 0 Nat.one_pos).2
    rw [hcat, happ] at hcount
    cases hcount
  · have heval : (runLoad twoProjections (oneRecordTurns randMax true)
        (Load.start twoProjections [record7])).map
          (fun s => (s.reader, s.appended 0 0)) = .ok (.returned .success, []) := by
      decide +kernel
    obtain ⟨s, hs, hobs⟩ := Run.map_eq_ok heval
    simp only [Prod.mk.injEq] at hobs
    obtain ⟨hreader, happ⟩ := hobs
    refine ⟨s, hs, hreader, happ, ?_⟩
    rintro ⟨given, hrecords, -, hfiles⟩
    have hfile := (hfiles 0 wholeProjection rfl 0 Nat.one_pos).1
    rw [happ] at hfile
    -- the only partition takes every tuple
    cases given with
    | nil => exact absurd hrecords.length_eq (by simp)
    | cons x given => exact absurd hfile.length_eq (by simp [Job.share, wholeProjection])

/-- Reader and worker one after the other. -/
def alternating : List Turn := (List.replicate 35 [.reader 0, .worker 0 true]).flatten

/-- The records 7 and 8, read while the worker inserts. -/
theorem load_exactly_once_two_records :
    ∃ s, runLoad twoProjections alternating (Load.start twoProjections [record7, [56]]) = .ok s ∧
      s.reader = .returned .success ∧ s.ExactlyOnce twoProjections [record7, [56]] := by
  have heval : (runLoad twoProjections alternating
      (Load.start twoProjections [record7, [56]])).map (fun s => s.reader)
        = .ok (.returned .success) := by
    decide +kernel
  obtain ⟨s, hs, hreader⟩ := Run.map_eq_ok heval
  refine ⟨s, hs, hreader, ((load_exactly_once twoProjections [record7, [56]] (by decide)
    (fun record _ => accepts_of_roomy twoProjections_roomy record)
    (reaches_of_runLoad ?_ hs)).2 _ hreader).2⟩
  intro t ht
  have hturn : t = .reader 0 ∨ t = .worker 0 true := by
    obtain ⟨pair, hpair, ht⟩ := mem_flatten.1 ht
    rw [eq_of_mem_replicate hpair] at ht
    simpa using ht
  rcases hturn with rfl | rfl
  · show getRandomDecimal 0 < 1
    decide +kernel
  · rfl

end Loader
