/-
Loading files with several threads: the reader of `LoadFromFileMultiThread` deals the records out
to the task lists of the workers, which run `HandleTuple`.  A step of a party is what it does up to
and including its next access to something shared.
-/
import ClaimsDB.InsertStatement

namespace Loader

inductive FileOpenFlag
  | createFile
  | appendFile
  deriving DecidableEq

/-- The table, `load_thread_num`, the separator and the part of the records to be loaded. -/
structure LoadConfig where
  table : Table
  openFlag : FileOpenFlag
  threadCount : ℕ
  colSeparator : Text
  sampleRate : ℚ
  threadCount_pos : 1 ≤ threadCount

def randMax : ℕ := 2147483647

/-- `GetRandomDecimal`, from what `rand_r` gives -/
def getRandomDecimal (rand : ℕ) : ℚ := (rand : ℚ) / randMax

namespace LoadConfig

def projections (cfg : LoadConfig) : List (Projection Memory) := cfg.table.projections

def firstRowId (cfg : LoadConfig) : ℕ :=
  match cfg.openFlag with
  | .createFile => 0
  | .appendFile => cfg.table.rowNumber

def firstBlocks (cfg : LoadConfig) : PerPartition ℕ :=
  match cfg.openFlag with
  | .createFile => fun _ _ => 0
  | .appendFile => cfg.table.numberOfBlocks

/-- `AddRowIdColumn` and `CheckAndToValue` of a record, into a buffer of zeros. -/
def toValue (cfg : LoadConfig) (rowId : ℕ) (record : Text) : Run (RetCode × Memory) := do
  let line := toDecimal rowId ++ cfg.colSeparator ++ record ++ cfg.colSeparator
  let (ret, r) ← checkAndToValue cfg.table.columns line
    (List.replicate (totalsize cfg.table.columns) 0) cfg.colSeparator .file
  return (ret, r.tuple)

end LoadConfig

/-! ### The parties -/

/-- Where a worker is in `HandleTuple`, with the variables that it needs from there on. -/
inductive HandleTuple
  /-- at the head of the loop, before `multi_thread_status_` is read -/
  | checkStatus
  /-- before `all_tuple_read_` is read -/
  | readFlag
  /-- before `try_wait`, with what was read -/
  | tryWait (allTupleRead : Bool)
  | getTask
  | addRowId (record : Text)
  /-- before projection `i` of `InsertSingleTuple` -/
  | insert (i : ℕ) (tuple : Memory) (ret : RetCode)
  /-- in `InsertTupleIntoProjection`, after `AtomicFlush` -/
  | count (i : ℕ) (tuple : Memory) (ret : RetCode)
  /-- in `FlushNotFullBlock`, before partition `j` of projection `i` -/
  | flushLast (i j : ℕ) (ret : RetCode)
  /-- in `FlushNotFullBlock`, after `AtomicFlush` -/
  | countLast (i j : ℕ) (ret : RetCode)
  /-- before `multi_thread_status_` is set -/
  | setStatus (ret : RetCode)
  /-- before `finished_thread_sem_.post()` -/
  | post
  | returned
  deriving DecidableEq

structure Worker where
  pc : HandleTuple
  /-- `local_pj_buffer` -/
  pjBuffer : PerPartition (List Memory)

/-- Where the reader is in `LoadFromFileMultiThread`. -/
inductive Reader
  /-- before the next record, after `rowIdInFile` of them -/
  | read (rest : List Text) (rowIdInFile : ℕ)
  | push (record : Text) (rest : List Text) (rowIdInFile : ℕ)
  | postTuple (rest : List Text) (rowIdInFile : ℕ)
  /-- before `all_tuple_read_` is set -/
  | setFlag
  /-- waiting for the threads, `k` of which have finished -/
  | wait (k : ℕ)
  /-- before `multi_thread_status_` is read -/
  | checkStatus
  /-- before `FinishJobAfterLoading` -/
  | finishJob
  | returned (ret : RetCode)
  deriving DecidableEq

/-- The state of a load.  `appended` holds the blocks that it has appended to the files. -/
structure Load where
  reader : Reader
  workers : ℕ → Worker
  allTupleRead : Bool
  /-- `multi_thread_status_` -/
  status : RetCode
  taskLists : ℕ → List Text
  /-- `tuple_count_sem_in_lists_` -/
  tupleSems : ℕ → ℕ
  /-- `finished_thread_sem_` -/
  finishedSem : ℕ
  /-- `row_id_in_table_` -/
  rowId : ℕ
  appended : PerPartition (List (List Memory))
  /-- `blocks_per_partition_` -/
  counted : PerPartition ℕ
  catalogue : PerPartition ℕ

def Load.start (cfg : LoadConfig) (records : List Text) : Load where
  reader := .read records 0
  workers _ := ⟨.checkStatus, fun _ _ => []⟩
  allTupleRead := false
  status := .success
  taskLists _ := []
  tupleSems _ := 0
  finishedSem := 0
  rowId := cfg.firstRowId
  appended _ _ := []
  counted := cfg.firstBlocks
  catalogue := cfg.table.numberOfBlocks

def withoutReturn (record : Text) : Text := if record = [13] then [] else record

/-- One step of the reader; `rand` is what `rand_r` gives. -/
def readerStep (cfg : LoadConfig) (rand : ℕ) (s : Load) : Load :=
  match s.reader with
  | .read [] _ => { s with reader := .setFlag }
  | .read (record :: rest) row =>
    if getRandomDecimal rand ≥ cfg.sampleRate then { s with reader := .read rest (row + 1) }
    else { s with reader := .push (withoutReturn record) rest (row + 1) }
  | .push record rest row =>
    let k := row % cfg.threadCount
    { s with
      reader := .postTuple rest row
      taskLists := Function.update s.taskLists k (s.taskLists k ++ [record]) }
  | .postTuple rest row =>
    let k := row % cfg.threadCount
    { s with
      reader := .read rest row
      tupleSems := Function.update s.tupleSems k (s.tupleSems k + 1) }
  | .setFlag => { s with reader := .wait 0, allTupleRead := true }
  | .wait k =>
    if k = cfg.threadCount then { s with reader := .checkStatus }
    else if s.finishedSem = 0 then s
    else { s with reader := .wait (k + 1), finishedSem := s.finishedSem - 1 }
  | .checkStatus =>
    if s.status ≠ .success then { s with reader := .returned s.status }
    else { s with reader := .finishJob }
  -- the code of `Close` is overwritten by that of `UpdateCatalog`
  | .finishJob => { s with reader := .returned .success, catalogue := s.counted }
  | .returned _ => s

def Load.goto (s : Load) (w : ℕ) (pc : HandleTuple) : Load :=
  { s with workers := Function.update s.workers w { s.workers w with pc := pc } }

def Load.gotoWith (s : Load) (w : ℕ) (pc : HandleTuple) (buffer : PerPartition (List Memory)) :
    Load :=
  { s with workers := Function.update s.workers w ⟨pc, buffer⟩ }

/-- `AtomicFlush` of a block: the code and the files.  A write can fail. -/
def Load.atomicFlush (s : Load) (written : Bool) (i j : ℕ) (block : List Memory) :
    RetCode × Load :=
  if written then (.success, { s with appended := put s.appended i j (s.appended i j ++ [block]) })
  else (.failure, s)

/-- `__sync_add_and_fetch(&blocks_per_partition_[i][j], 1)` -/
def Load.addBlock (s : Load) (i j : ℕ) : Load :=
  { s with counted := put s.counted i j (s.counted i j + 1) }

/-- One step of worker `w`; `written` says whether a block it writes reaches the file. -/
def workerStep (cfg : LoadConfig) (w : ℕ) (written : Bool) (s : Load) : Run Load :=
  let buffer := (s.workers w).pjBuffer
  match (s.workers w).pc with
  | .checkStatus => .ok (s.goto w (if s.status ≠ .success then .post else .readFlag))
  | .readFlag => .ok (s.goto w (.tryWait s.allTupleRead))
  | .tryWait allTupleRead =>
    if s.tupleSems w = 0 then
      .ok (s.goto w (if allTupleRead then .flushLast 0 0 .success else .checkStatus))
    else
      let s := { s with tupleSems := Function.update s.tupleSems w (s.tupleSems w - 1) }
      .ok (s.goto w .getTask)
  | .getTask =>
    match s.taskLists w with
    | [] => .error .nullDeref
    | record :: rest =>
      let s := { s with taskLists := Function.update s.taskLists w rest }
      .ok (s.goto w (.addRowId record))
  | .addRowId record => do
    let (ret, tuple) ← cfg.toValue s.rowId record
    let s := { s with rowId := s.rowId + 1 }
    if ret ≠ .success then return s.goto w (.setStatus ret)
    else return s.goto w (.insert 0 tuple .success)
  | .insert i tuple ret =>
    match cfg.projections[i]? with
    | none => .ok (s.goto w (if ret ≠ .success then .setStatus ret else .checkStatus))
    | some p =>
      let sub := p.getSubTuple tuple
      let part := p.partitionOf sub
      if (buffer i part).length < p.capacity then
        .ok (s.gotoWith w (.insert (i + 1) tuple .success)
          (put buffer i part (buffer i part ++ [sub])))
      else
        let (ret, s) := s.atomicFlush written i part (buffer i part)
        .ok (s.goto w (.count i tuple ret))
  | .count i tuple ret =>
    match cfg.projections[i]? with
    | none => .error .outOfBounds
    | some p =>
      let sub := p.getSubTuple tuple
      let part := p.partitionOf sub
      -- a block that holds no tuple gives no place for one
      if 0 < p.capacity then
        .ok ((s.addBlock i part).gotoWith w (.insert (i + 1) tuple ret)
          (put buffer i part [sub]))
      else .error .nullDeref
  | .flushLast i j ret =>
    match cfg.projections[i]? with
    | none => .ok (s.goto w (if ret ≠ .success then .setStatus ret else .post))
    | some p =>
      if j < p.numberOfPartitions then
        if buffer i j = [] then .ok (s.goto w (.flushLast i (j + 1) ret))
        else
          let (ret, s) := s.atomicFlush written i j (buffer i j)
          .ok (s.goto w (.countLast i j ret))
      else .ok (s.goto w (.flushLast (i + 1) 0 ret))
  | .countLast i j ret =>
    .ok ((s.addBlock i j).gotoWith w (.flushLast i (j + 1) ret) (put buffer i j []))
  | .setStatus ret => .ok ({ s with status := ret }.goto w .post)
  | .post => .ok ({ s with finishedSem := s.finishedSem + 1 }.goto w .returned)
  | .returned => .ok s

inductive Turn
  | reader (rand : ℕ)
  | worker (w : ℕ) (written : Bool)

def loadStep (cfg : LoadConfig) : Turn → Load → Run Load
  | .reader rand, s => .ok (readerStep cfg rand s)
  | .worker w written, s => if w < cfg.threadCount then workerStep cfg w written s else .ok s

def runLoad (cfg : LoadConfig) (turns : List Turn) (s : Load) : Run Load :=
  turns.foldlM (fun s t => loadStep cfg t s) s

end Loader
