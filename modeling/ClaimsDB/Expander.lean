/-
The expander: several threads run one child, and a buffer hands their blocks on.

The parties are the consumer, the calls of `Expand` and `Shrink`, and the workers.  A step is what
a party does up to and including its next access to something shared.  A thread that is done can
be given to a later call; it then has the same `pid`.
-/
import ClaimsDB.Runs

namespace Expander

open Finset

open Function (update update_of_ne update_self)

variable {T : Type}

/-- What an expander is opened with.  Thread ids are numbers below `threads`. -/
structure Config where
  threads : ℕ
  initThreadCount : ℕ
  bufferSize : ℕ

/-! ### The parties -/

inductive Consumer
  /-- in `Open`, which has still to create `n` threads -/
  | opening (n : ℕ)
  /-- in `Next`, before `getBlock` -/
  | getBlock
  /-- in `getBlock`, before the block that was fetched goes to the empty ones -/
  | putEmptyBlock
  /-- in `Next`, before `ChildExhausted` -/
  | childExhausted
  | returned (ret : Bool)
  deriving DecidableEq

/-- Where a call of `CreateWorkingThread` is; `idle` is before the call, and for `Expand` before
`input_data_complete_` is read. -/
inductive Create
  | idle
  | tryAcquire
  | createThread
  | wait (posted : Bool)
  | release
  | returned (ret : Bool)
  deriving DecidableEq

/-- Where a thread is in `ExpandedWork`. -/
inductive Worker (T : Type)
  /-- not in `ExpandedWork` -/
  | idle
  | addIntoWorking (caller : Option ℕ)
  | registerStatus (caller : Option ℕ)
  | post (caller : Option ℕ)
  | childExhausted
  | openChild
  | checkAfterOpen
  | getEmptyBlock
  /-- in `getEmptyBlock`, after the semaphore -/
  | popEmptyBlock
  | checkWhileWaiting
  | next
  | countTuples (block : List T)
  | insertOneBlock (block : List T)
  | returnEmptyBlock
  | checkAtEnd
  | setIncomplete
  | setComplete
  | removeFromWorking
  | removeFromCalledBack
  | postShrink
  | deleteStatus

/-- Where a call of `Shrink` is, with the thread that it calls back. -/
inductive Shrink
  | idle
  | isCallBack (pid : ℕ)
  | setSemaphore (pid : ℕ)
  | removeFromWorking (pid : ℕ)
  | addIntoCalledBack (pid : ℕ)
  | callback (pid : ℕ)
  | findSemaphore (pid : ℕ)
  /-- waiting for the semaphore of call `k` -/
  | wait (pid k : ℕ)
  | eraseSemaphore (pid : ℕ)
  deriving DecidableEq

/-- The state, with the blocks that were obtained and delivered so far. -/
structure State (T : Type) where
  consumer : Consumer
  workers : ℕ → Worker T
  /-- the calls of `CreateWorkingThread`: that of `Open`, and of each `Expand` -/
  creates : Option ℕ → Create
  shrinks : ℕ → Shrink
  inputDataComplete : Bool
  /-- `in_work_expanded_thread_list_` -/
  working : Finset ℕ
  /-- `being_called_bacl_expanded_thread_list_` -/
  calledBack : Finset ℕ
  /-- whether `exclusive_expanding_` is held from one step to the next -/
  exclusiveExpanding : Bool
  /-- `call_back_` in `id_to_status_` of the tracker -/
  callBack : ℕ → Option Bool
  /-- `tid_to_shrink_semaphore_`, which points to the semaphore of a `Shrink` call -/
  shrinkSemaphore : ℕ → Option ℕ
  /-- the value of the semaphore of each `Shrink` call -/
  posts : ℕ → ℕ
  receivedTuples : ℕ
  /-- `block_stream_used_list_` -/
  used : List (List T)
  /-- the length of `block_stream_empty_list_` -/
  emptyBlocks : ℕ
  /-- `sema_empty_block_` -/
  emptySem : ℕ
  obtained : List (List T)
  delivered : List (List T)

/-- The expander when `Open` is about to create its first thread. -/
def State.start (cfg : Config) : State T where
  consumer := .opening cfg.initThreadCount
  workers _ := .idle
  creates _ := .idle
  shrinks _ := .idle
  inputDataComplete := false
  working := ∅
  calledBack := ∅
  exclusiveExpanding := false
  callBack _ := none
  shrinkSemaphore _ := none
  posts _ := 0
  receivedTuples := 0
  used := []
  emptyBlocks := cfg.bufferSize
  emptySem := cfg.bufferSize
  obtained := []
  delivered := []

/-! ### Steps -/

/-- `ChildExhausted`, once it has both locks. -/
def State.exhausted (s : State T) : Bool :=
  s.inputDataComplete && decide (s.working = ∅) && decide (s.calledBack = ∅) && s.used.isEmpty

def State.isCallBack (s : State T) (pid : ℕ) : Bool := s.callBack pid = some true

def State.goto (s : State T) (pid : ℕ) (pc : Worker T) : State T :=
  { s with workers := update s.workers pid pc }

def State.gotoShrink (s : State T) (k : ℕ) (pc : Shrink) : State T :=
  { s with shrinks := update s.shrinks k pc }

def State.gotoCreate (s : State T) (c : Option ℕ) (pc : Create) : State T :=
  { s with creates := update s.creates c pc }

def consumerStep (s : State T) : Option (State T) :=
  match s.consumer with
  | .opening 0 => some { s with consumer := .getBlock }
  | .opening (n + 1) =>
    match s.creates none with
    | .idle => some (s.gotoCreate none .tryAcquire)
    | .returned true => some { s.gotoCreate none .idle with consumer := .opening n }
    -- the callers of `Open` go on whatever it returns
    | .returned false => some { s with consumer := .getBlock }
    | _ => none
  | .getBlock =>
    match s.used with
    | [] => some { s with consumer := .childExhausted }
    | block :: rest =>
      some { s with consumer := .putEmptyBlock, used := rest, delivered := s.delivered ++ [block] }
  | .putEmptyBlock =>
    some { s with
      consumer := .returned true, emptyBlocks := s.emptyBlocks + 1, emptySem := s.emptySem + 1 }
  | .childExhausted =>
    if s.exclusiveExpanding then none
    else if s.exhausted then some { s with consumer := .returned false }
    else some { s with consumer := .getBlock }
  | .returned true => some { s with consumer := .getBlock }
  | .returned false => none

/-- One step of `CreateWorkingThread` or `Expand`; without `pid` `pthread_create` fails. -/
def createStep (cfg : Config) (c : Option ℕ) (pid : Option ℕ) (s : State T) : Option (State T) :=
  match s.creates c with
  | .idle =>
    match c with
    -- `Open` begins its calls itself
    | none => none
    | some _ => some (if s.inputDataComplete then s else s.gotoCreate c .tryAcquire)
  | .tryAcquire =>
    if s.exclusiveExpanding then some (s.gotoCreate c (.returned false))
    else some { s.gotoCreate c .createThread with exclusiveExpanding := true }
  | .createThread =>
    match pid with
    -- the lock is not released
    | none => some (s.gotoCreate c (.returned false))
    | some pid =>
      match s.workers pid with
      | .idle =>
        if pid < cfg.threads then
          some ((s.gotoCreate c (.wait false)).goto pid (.addIntoWorking c))
        else none
      | _ => none
  | .wait false => none
  | .wait true => some (s.gotoCreate c .release)
  | .release => some { s.gotoCreate c (.returned true) with exclusiveExpanding := false }
  | .returned _ =>
    match c with
    | none => none
    | some _ => some (s.gotoCreate c .idle)

/-- One step of thread `pid`; `answer` is the block with which `Next` of the child returns true,
none if it returns false. -/
def workerStep (pid : ℕ) (answer : Option (List T)) (s : State T) : Option (State T) :=
  match s.workers pid with
  | .idle => none
  | .addIntoWorking c =>
    some { s.goto pid (.registerStatus c) with working := insert pid s.working }
  | .registerStatus c =>
    match s.callBack pid with
    | some _ => none
    | none => some { s.goto pid (.post c) with
        callBack := update s.callBack pid (some false) }
  | .post c => some ((s.gotoCreate c (.wait true)).goto pid .childExhausted)
  | .childExhausted =>
    if s.exclusiveExpanding then none
    else some (s.goto pid (if s.exhausted then .deleteStatus else .openChild))
  | .openChild => some (s.goto pid .checkAfterOpen)
  | .checkAfterOpen =>
    some (s.goto pid (if s.isCallBack pid then .removeFromCalledBack else .getEmptyBlock))
  | .getEmptyBlock =>
    if s.emptySem = 0 then some (s.goto pid .checkWhileWaiting)
    else some { s.goto pid .popEmptyBlock with emptySem := s.emptySem - 1 }
  | .popEmptyBlock =>
    if s.emptyBlocks = 0 then none
    else some { s.goto pid .next with emptyBlocks := s.emptyBlocks - 1 }
  | .checkWhileWaiting =>
    some (s.goto pid (if s.isCallBack pid then .checkAtEnd else .getEmptyBlock))
  | .next =>
    match answer with
    -- an empty block is not given back
    | some [] => some (s.goto pid .getEmptyBlock)
    | some (t :: ts) =>
      some { s.goto pid (.countTuples (t :: ts)) with obtained := s.obtained ++ [t :: ts] }
    | none => some (s.goto pid .returnEmptyBlock)
  | .countTuples block =>
    some { s.goto pid (.insertOneBlock block) with
      receivedTuples := s.receivedTuples + block.length }
  | .insertOneBlock block => some { s.goto pid .getEmptyBlock with used := s.used ++ [block] }
  | .returnEmptyBlock =>
    some { s.goto pid .checkAtEnd with
      emptyBlocks := s.emptyBlocks + 1, emptySem := s.emptySem + 1 }
  | .checkAtEnd => some (s.goto pid (if s.isCallBack pid then .setIncomplete else .setComplete))
  | .setIncomplete => some { s.goto pid .removeFromCalledBack with inputDataComplete := false }
  | .setComplete => some { s.goto pid .removeFromWorking with inputDataComplete := true }
  | .removeFromWorking =>
    if pid ∈ s.working then some { s.goto pid .deleteStatus with working := s.working.erase pid }
    else some (s.goto pid .removeFromCalledBack)
  | .removeFromCalledBack =>
    some { s.goto pid .postShrink with calledBack := s.calledBack.erase pid }
  | .postShrink =>
    match s.shrinkSemaphore pid with
    | none => none
    | some k => some { s.goto pid .deleteStatus with
        posts := update s.posts k (s.posts k + 1) }
  | .deleteStatus =>
    some { s.goto pid .idle with callBack := update s.callBack pid none }

def shrinkStep (k : ℕ) (s : State T) : Option (State T) :=
  match s.shrinks k with
  | .idle =>
    if h : s.working.Nonempty then some (s.gotoShrink k (.isCallBack (s.working.min' h)))
    else some s
  | .isCallBack pid => some (s.gotoShrink k (if s.isCallBack pid then .idle else .setSemaphore pid))
  | .setSemaphore pid =>
    some { s.gotoShrink k (.removeFromWorking pid) with
      shrinkSemaphore := update s.shrinkSemaphore pid (some k)
      posts := update s.posts k 0 }
  | .removeFromWorking pid =>
    some { s.gotoShrink k (.addIntoCalledBack pid) with working := s.working.erase pid }
  | .addIntoCalledBack pid =>
    some { s.gotoShrink k (.callback pid) with calledBack := insert pid s.calledBack }
  | .callback pid =>
    some { s.gotoShrink k (.findSemaphore pid) with
      callBack := update s.callBack pid ((s.callBack pid).map fun _ => true) }
  | .findSemaphore pid =>
    match s.shrinkSemaphore pid with
    | none => none
    | some j => some (s.gotoShrink k (.wait pid j))
  | .wait pid j =>
    if s.posts j = 0 then none
    else some { s.gotoShrink k (.eraseSemaphore pid) with
      posts := update s.posts j (s.posts j - 1) }
  | .eraseSemaphore pid =>
    some { s.gotoShrink k .idle with
      shrinkSemaphore := update s.shrinkSemaphore pid none }

/-- Which party moves, and what it is given by the child or the system. -/
inductive Action (T : Type)
  | consumer
  | create (c : Option ℕ) (pid : Option ℕ)
  | worker (pid : ℕ) (answer : Option (List T))
  | shrink (k : ℕ)

def step (cfg : Config) : Action T → State T → Option (State T)
  | .consumer, s => consumerStep s
  | .create c pid, s => createStep cfg c pid s
  | .worker pid answer, s => if pid < cfg.threads then workerStep pid answer s else none
  | .shrink k, s => shrinkStep k s

def run (cfg : Config) (s : State T) (actions : List (Action T)) : Option (State T) :=
  actions.foldlM (fun s a => step cfg a s) s

/-! ### What the workers hold -/

def Worker.held : Worker T → Multiset (List T)
  | .countTuples block => {block}
  | .insertOneBlock block => {block}
  | _ => 0

/-- The worker is between `AddIntoWorkingThreadList` and the end of its loop. -/
def Worker.inLoop : Worker T → Prop
  | .idle | .addIntoWorking _ => False
  | .checkAtEnd | .setIncomplete | .setComplete | .removeFromWorking | .removeFromCalledBack
  | .postShrink | .deleteStatus => False
  | _ => True

def State.held (cfg : Config) (s : State T) : Multiset (List T) :=
  ∑ pid ∈ range cfg.threads, (s.workers pid).held

/-- The workers that are at one of the places `P` are in one of the two lists of threads, or on the
way from the one to the other. -/
def State.Listed (P : Worker T → Prop) (s : State T) : Prop :=
  ∀ pid, P (s.workers pid) → pid ∈ s.working ∨ pid ∈ s.calledBack ∨
    ∃ k, s.shrinks k = .addIntoCalledBack pid

structure Invariant (cfg : Config) (s : State T) : Prop where
  accounted : (s.obtained : Multiset (List T)) = s.delivered + s.used + s.held cfg
  listed : ∀ pid, (s.workers pid).inLoop → pid ∈ s.working ∨ pid ∈ s.calledBack ∨
    ∃ k, s.shrinks k = .addIntoCalledBack pid

theorem start_invariant (cfg : Config) : Invariant cfg (State.start cfg : State T) where
  accounted := by simp [State.start, State.held, Worker.held]
  listed pid h := h.elim

section

variable {cfg : Config} {s s' : State T}

variable {pid : ℕ} {P : Worker T → Prop} {k : ℕ}

@[simp] theorem goto_workers_self (s : State T) (pid : ℕ) (pc : Worker T) :
    (s.goto pid pc).workers pid = pc := update_self ..

theorem goto_workers_of_ne (s : State T) {q : ℕ} (pc : Worker T) (h : q ≠ pid) :
    (s.goto pid pc).workers q = s.workers q := update_of_ne h ..

theorem State.Listed.move {P : Worker T → Prop} (h : s.Listed P) {pid : ℕ} (pc : Worker T)
    (hw : s'.workers = (s.goto pid pc).workers) (hs : s'.shrinks = s.shrinks)
    (hwork : ∀ q, q ≠ pid → q ∈ s.working → q ∈ s'.working)
    (hback : ∀ q, q ≠ pid → q ∈ s.calledBack → q ∈ s'.calledBack)
    (hpc : P pc → pid ∈ s'.working ∨
      P (s.workers pid) ∧ s'.working = s.working ∧ s'.calledBack = s.calledBack) :
    s'.Listed P := by
  intro q hq
  rw [hw] at hq
  rw [hs]
  by_cases hqp : q = pid
  · subst hqp
    rw [goto_workers_self] at hq
    rcases hpc hq with hmem | ⟨hold, hwk, hcb⟩
    · exact .inl hmem
    · rw [hwk, hcb]
      exact h q hold
  · rw [goto_workers_of_ne s pc hqp] at hq
    exact (h q hq).imp (hwork q hqp) (Or.imp_left (hback q hqp))

theorem State.Listed.moveShrink (h : s.Listed P) (pc : Shrink)
    (hs : s'.shrinks = (s.gotoShrink k pc).shrinks) (hw : s'.workers = s.workers)
    (hwork : ∀ q ∈ s.working, q ∈ s'.working ∨ pc = .addIntoCalledBack q)
    (hback : s.calledBack ⊆ s'.calledBack)
    (hpc : ∀ q, s.shrinks k = .addIntoCalledBack q → q ∈ s'.calledBack) : s'.Listed P := by
  intro q hq
  rw [hw] at hq
  rw [hs]
  rcases h q hq with hmem | hmem | ⟨j, hj⟩
  · rcases hwork q hmem with hmem | rfl
    · exact .inl hmem
    · exact .inr (.inr ⟨k, update_self k _ _⟩)
  · exact .inr (.inl (hback hmem))
  · by_cases hjk : j = k
    · subst hjk
      exact .inr (.inl (hpc q hj))
    · exact .inr (.inr ⟨j, (update_of_ne hjk _ _).trans hj⟩)

section

variable (h : Invariant cfg s)

include h

theorem Invariant.move {pid : ℕ} (pc : Worker T) (hpid : pid < cfg.threads)
    (hw : s'.workers = (s.goto pid pc).workers) (hs : s'.shrinks = s.shrinks)
    (hd : s'.delivered = s.delivered)
    (hacc : (s'.obtained : Multiset (List T)) + s.used + (s.workers pid).held =
      s.obtained + s'.used + pc.held)
    (hwork : ∀ q, q ≠ pid → q ∈ s.working → q ∈ s'.working)
    (hback : ∀ q, q ≠ pid → q ∈ s.calledBack → q ∈ s'.calledBack)
    (hpc : pc.inLoop → pid ∈ s'.working ∨
      (s.workers pid).inLoop ∧ s'.working = s.working ∧ s'.calledBack = s.calledBack) :
    Invariant cfg s' where
  accounted := by
    have hheld : s'.held cfg + (s.workers pid).held = s.held cfg + pc.held := by
      rw [State.held, State.held, hw]
      exact Runs.sum_update Worker.held s.workers hpid pc
    -- both sides with what the worker held before
    apply add_right_cancel (b := (s.used : Multiset (List T)) + (s.workers pid).held)
    calc (s'.obtained : Multiset (List T)) + (s.used + (s.workers pid).held)
        = s.delivered + s.used + s.held cfg + s'.used + pc.held := by
          rw [← h.accounted, ← add_assoc, hacc]
      _ = s.delivered + s'.used + (s'.held cfg + (s.workers pid).held) + s.used := by
          rw [hheld]; abel
      _ = s'.delivered + s'.used + s'.held cfg + (s.used + (s.workers pid).held) := by
          rw [hd]; abel
  listed := State.Listed.move h.listed pc hw hs hwork hback hpc

theorem Invariant.goto {pc : Worker T} (hpid : pid < cfg.threads)
    (hheld : (s.workers pid).held = pc.held) (hloop : pc.inLoop → (s.workers pid).inLoop) :
    Invariant cfg (s.goto pid pc) :=
  h.move pc hpid rfl rfl rfl (by rw [hheld]; rfl) (fun _ _ hq => hq) (fun _ _ hq => hq)
    fun hpc => .inr ⟨hloop hpc, rfl, rfl⟩

theorem Invariant.congr (hw : s'.workers = s.workers)
    (hs : s'.shrinks = s.shrinks) (hwork : s'.working = s.working)
    (hback : s'.calledBack = s.calledBack) (ho : s'.obtained = s.obtained)
    (hd : s'.delivered ++ s'.used = s.delivered ++ s.used) : Invariant cfg s' where
  accounted := by
    rw [ho, h.accounted, Multiset.coe_add, Multiset.coe_add, hd, State.held, State.held, hw]
  listed := by
    rw [hw, hs, hwork, hback]
    exact h.listed

theorem consumerStep_invariant (hstep : consumerStep s = some s') : Invariant cfg s' := by
  unfold consumerStep at hstep
  split at hstep
  · cases hstep
    exact h.congr rfl rfl rfl rfl rfl rfl
  · split at hstep <;> cases hstep <;> exact h.congr rfl rfl rfl rfl rfl rfl
  · split at hstep
    · cases hstep
      exact h.congr rfl rfl rfl rfl rfl rfl
    · rename_i block rest hused
      cases hstep
      exact h.congr rfl rfl rfl rfl rfl (by simp [hused])
  · cases hstep
    exact h.congr rfl rfl rfl rfl rfl rfl
  · split at hstep
    · cases hstep
    · split at hstep <;> cases hstep <;> exact h.congr rfl rfl rfl rfl rfl rfl
  · cases hstep
    exact h.congr rfl rfl rfl rfl rfl rfl
  · cases hstep

theorem createStep_invariant {c pid : Option ℕ}
    (hstep : createStep cfg c pid s = some s') : Invariant cfg s' := by
  unfold createStep at hstep
  split at hstep
  · split at hstep
    · cases hstep
    · cases hstep
      split
      · exact h
      · exact h.congr rfl rfl rfl rfl rfl rfl
  · split at hstep <;> cases hstep <;> exact h.congr rfl rfl rfl rfl rfl rfl
  · split at hstep
    · cases hstep
      exact h.congr rfl rfl rfl rfl rfl rfl
    · split at hstep
      · rename_i hidle
        obtain ⟨hpid, hstep⟩ := Option.ite_none_right_eq_some.mp hstep
        cases hstep
        -- a thread that was not working begins
        have hc : Invariant cfg (s.gotoCreate c (.wait false)) :=
          h.congr rfl rfl rfl rfl rfl rfl
        have hheld : ((s.gotoCreate c (.wait false)).workers _).held = 0 :=
          congrArg Worker.held hidle
        exact hc.goto hpid hheld False.elim
      · cases hstep
  · cases hstep
  · cases hstep
    exact h.congr rfl rfl rfl rfl rfl rfl
  · cases hstep
    exact h.congr rfl rfl rfl rfl rfl rfl
  · split at hstep
    · cases hstep
    · cases hstep
      exact h.congr rfl rfl rfl rfl rfl rfl

theorem workerStep_invariant {answer : Option (List T)}
    (hpid : pid < cfg.threads) (hstep : workerStep pid answer s = some s') : Invariant cfg s' := by
  -- the moves that leave the blocks and the lists as they were
  have goto : ∀ pc : Worker T, (s.workers pid).held = pc.held →
      (pc.inLoop → (s.workers pid).inLoop) → Invariant cfg (s.goto pid pc) :=
    fun pc => h.goto hpid
  cases hpc : s.workers pid <;> simp only [workerStep, hpc] at hstep
  case idle => cases hstep
  case addIntoWorking c =>
    cases hstep
    refine h.move (.registerStatus c) hpid rfl rfl rfl ?_
      (fun q _ hq => mem_insert_of_mem hq) (fun _ _ hq => hq)
      fun _ => .inl (mem_insert_self pid _)
    rw [hpc]
    rfl
  case registerStatus c =>
    split at hstep
    · cases hstep
    · cases hstep
      exact (goto (.post c) (by rw [hpc]; rfl) (by rw [hpc]; exact id)).congr
        rfl rfl rfl rfl rfl rfl
  case post c =>
    cases hstep
    exact (goto .childExhausted (by rw [hpc]; rfl) (by rw [hpc]; exact id)).congr
      rfl rfl rfl rfl rfl rfl
  case childExhausted =>
    split at hstep
    · cases hstep
    · cases hstep
      split
      · exact goto .deleteStatus (by rw [hpc]; rfl) False.elim
      · exact goto .openChild (by rw [hpc]; rfl) (by rw [hpc]; exact id)
  case openChild =>
    cases hstep
    exact goto .checkAfterOpen (by rw [hpc]; rfl) (by rw [hpc]; exact id)
  case checkAfterOpen =>
    cases hstep
    split
    · exact goto .removeFromCalledBack (by rw [hpc]; rfl) False.elim
    · exact goto .getEmptyBlock (by rw [hpc]; rfl) (by rw [hpc]; exact id)
  case getEmptyBlock =>
    split at hstep
    · cases hstep
      exact goto .checkWhileWaiting (by rw [hpc]; rfl) (by rw [hpc]; exact id)
    · cases hstep
      exact (goto .popEmptyBlock (by rw [hpc]; rfl) (by rw [hpc]; exact id)).congr
        rfl rfl rfl rfl rfl rfl
  case popEmptyBlock =>
    split at hstep
    · cases hstep
    · cases hstep
      exact (goto .next (by rw [hpc]; rfl) (by rw [hpc]; exact id)).congr rfl rfl rfl rfl rfl rfl
  case checkWhileWaiting =>
    cases hstep
    split
    · exact goto .checkAtEnd (by rw [hpc]; rfl) False.elim
    · exact goto .getEmptyBlock (by rw [hpc]; rfl) (by rw [hpc]; exact id)
  case next =>
    split at hstep
    · cases hstep
      exact goto .getEmptyBlock (by rw [hpc]; rfl) (by rw [hpc]; exact id)
    · rename_i t ts
      cases hstep
      -- the block is obtained, and the worker holds it
      refine h.move (.countTuples (t :: ts)) hpid rfl rfl rfl ?_ (fun _ _ hq => hq)
        (fun _ _ hq => hq) fun _ => .inr ⟨by rw [hpc]; trivial, rfl, rfl⟩
      rw [hpc]
      simp only [Worker.held, ← Multiset.coe_add, Multiset.coe_singleton]
      abel
    · cases hstep
      exact goto .returnEmptyBlock (by rw [hpc]; rfl) (by rw [hpc]; exact id)
  case countTuples block =>
    cases hstep
    exact (goto (.insertOneBlock block) (by rw [hpc]; rfl) (by rw [hpc]; exact id)).congr
      rfl rfl rfl rfl rfl rfl
  case insertOneBlock block =>
    cases hstep
    refine h.move .getEmptyBlock hpid rfl rfl rfl ?_ (fun _ _ hq => hq)
      (fun _ _ hq => hq) fun _ => .inr ⟨by rw [hpc]; trivial, rfl, rfl⟩
    rw [hpc]
    simp only [State.goto, Worker.held, ← Multiset.coe_add, Multiset.coe_singleton]
    abel
  case returnEmptyBlock =>
    cases hstep
    exact (goto .checkAtEnd (by rw [hpc]; rfl) False.elim).congr rfl rfl rfl rfl rfl rfl
  case checkAtEnd =>
    cases hstep
    split
    · exact goto .setIncomplete (by rw [hpc]; rfl) False.elim
    · exact goto .setComplete (by rw [hpc]; rfl) False.elim
  case setIncomplete =>
    cases hstep
    exact (goto .removeFromCalledBack (by rw [hpc]; rfl) False.elim).congr rfl rfl rfl rfl rfl rfl
  case setComplete =>
    cases hstep
    exact (goto .removeFromWorking (by rw [hpc]; rfl) False.elim).congr rfl rfl rfl rfl rfl rfl
  case removeFromWorking =>
    split at hstep
    · cases hstep
      refine h.move .deleteStatus hpid rfl rfl rfl ?_
        (fun q hq hmem => mem_erase.mpr ⟨hq, hmem⟩) (fun _ _ hq => hq) False.elim
      rw [hpc]
      rfl
    · cases hstep
      exact goto .removeFromCalledBack (by rw [hpc]; rfl) False.elim
  case removeFromCalledBack =>
    cases hstep
    refine h.move .postShrink hpid rfl rfl rfl ?_ (fun _ _ hq => hq)
      (fun q hq hmem => mem_erase.mpr ⟨hq, hmem⟩) False.elim
    rw [hpc]
    rfl
  case postShrink =>
    split at hstep
    · cases hstep
    · cases hstep
      exact (goto .deleteStatus (by rw [hpc]; rfl) False.elim).congr rfl rfl rfl rfl rfl rfl
  case deleteStatus =>
    cases hstep
    exact (goto .idle (by rw [hpc]; rfl) False.elim).congr rfl rfl rfl rfl rfl rfl

end

theorem shrinkStep_listed (h : s.Listed P) (hstep : shrinkStep k s = some s') : s'.Listed P := by
  -- the moves that leave the lists as they were
  have goto : ∀ (pc : Shrink) (r : State T), r.shrinks = (s.gotoShrink k pc).shrinks →
      r.workers = s.workers → r.working = s.working → r.calledBack = s.calledBack →
      (∀ q, s.shrinks k ≠ .addIntoCalledBack q) → r.Listed P :=
    fun pc r hs hw hwork hback hne =>
      h.moveShrink pc hs hw (fun q hq => .inl (hwork ▸ hq)) (fun q hq => hback ▸ hq)
        fun q hq => absurd hq (hne q)
  cases hpc : s.shrinks k <;> simp only [shrinkStep, hpc] at hstep
  case idle =>
    split at hstep
    · cases hstep
      exact goto _ _ rfl rfl rfl rfl (by simp [hpc])
    · cases hstep
      exact h
  case isCallBack pid =>
    cases hstep
    exact goto _ _ rfl rfl rfl rfl (by simp [hpc])
  case setSemaphore pid =>
    cases hstep
    exact goto (.removeFromWorking pid) _ rfl rfl rfl rfl (by simp [hpc])
  case removeFromWorking pid =>
    cases hstep
    refine h.moveShrink (.addIntoCalledBack pid) rfl rfl (fun q hq => ?_) (fun _ hq => hq)
      (by simp [hpc])
    by_cases hqp : q = pid
    · exact .inr (by rw [hqp])
    · exact .inl (mem_erase.mpr ⟨hqp, hq⟩)
  case addIntoCalledBack pid =>
    cases hstep
    refine h.moveShrink (.callback pid) rfl rfl (fun _ hq => .inl hq)
      (subset_insert _ _) fun q hq => ?_
    rw [hpc, Shrink.addIntoCalledBack.injEq] at hq
    exact hq ▸ mem_insert_self pid _
  case callback pid =>
    cases hstep
    exact goto (.findSemaphore pid) _ rfl rfl rfl rfl (by simp [hpc])
  case findSemaphore pid =>
    split at hstep
    · cases hstep
    · cases hstep
      exact goto _ _ rfl rfl rfl rfl (by simp [hpc])
  case wait pid j =>
    split at hstep
    · cases hstep
    · cases hstep
      exact goto (.eraseSemaphore pid) _ rfl rfl rfl rfl (by simp [hpc])
  case eraseSemaphore pid =>
    cases hstep
    exact goto .idle _ rfl rfl rfl rfl (by simp [hpc])

theorem shrinkStep_frame (hstep : shrinkStep k s = some s') :
    s'.workers = s.workers ∧ s'.obtained = s.obtained ∧ s'.delivered = s.delivered ∧
      s'.used = s.used ∧ s'.inputDataComplete = s.inputDataComplete := by
  unfold shrinkStep at hstep
  repeat' split at hstep
  all_goals cases hstep
  all_goals exact ⟨rfl, rfl, rfl, rfl, rfl⟩

theorem shrinkStep_invariant (h : Invariant cfg s) (hstep : shrinkStep k s = some s') :
    Invariant cfg s' where
  accounted := by
    obtain ⟨hw, ho, hd, hu, -⟩ := shrinkStep_frame hstep
    rw [ho, hd, hu, State.held, hw]
    exact h.accounted
  listed := shrinkStep_listed h.listed hstep

theorem step_invariant (h : Invariant cfg s) {a : Action T} (hstep : step cfg a s = some s') :
    Invariant cfg s' := by
  cases a with
  | consumer => exact consumerStep_invariant h hstep
  | create c pid => exact createStep_invariant h hstep
  | worker pid answer =>
    obtain ⟨hpid, hstep⟩ := Option.ite_none_right_eq_some.mp hstep
    exact workerStep_invariant h hpid hstep
  | shrink k => exact shrinkStep_invariant h hstep

end

/-! ### Runs -/

/-- No worker that a `Shrink` call has taken out of the working list, and not yet put in the
called-back list, holds a block. -/
def State.NoBlockBetweenLists (s : State T) : Prop :=
  ∀ k pid, s.shrinks k = .addIntoCalledBack pid → (s.workers pid).held = 0

def CarefulStep (cfg : Config) (s s' : State T) : Prop :=
  ∃ a, step cfg a s = some s' ∧
    (a = .consumer → s.consumer = .childExhausted → s.NoBlockBetweenLists)

variable {cfg : Config} {s s' : State T} {a : Action T}

theorem reaches_invariant (h : Runs.Reaches (CarefulStep cfg) (State.start cfg) s) :
    Invariant cfg s :=
  Runs.invariant (I := Invariant cfg) (fun _ _ hi ⟨_, hstep, _⟩ => step_invariant hi hstep) h
    (start_invariant cfg)

theorem held_eq_zero_of_exhausted (h : Invariant cfg s) (hex : s.exhausted = true)
    (hnone : s.NoBlockBetweenLists) : s.held cfg = 0 := by
  simp only [State.exhausted, Bool.and_eq_true, decide_eq_true_eq] at hex
  obtain ⟨⟨⟨-, hwork⟩, hback⟩, -⟩ := hex
  refine sum_eq_zero fun pid _ => ?_
  have hloop : (s.workers pid).held = 0 ∨ (s.workers pid).inLoop := by
    cases s.workers pid <;> simp [Worker.held, Worker.inLoop]
  refine hloop.elim id fun hin => ?_
  rcases h.listed pid hin with hmem | hmem | ⟨k, hk⟩
  · rw [hwork] at hmem
    exact absurd hmem (notMem_empty pid)
  · rw [hback] at hmem
    exact absurd hmem (notMem_empty pid)
  · exact hnone k pid hk

theorem createStep_frame {c pid : Option ℕ} (hstep : createStep cfg c pid s = some s') :
    s'.consumer = s.consumer ∧ s'.shrinks = s.shrinks := by
  unfold createStep at hstep
  repeat' split at hstep
  all_goals cases hstep
  all_goals exact ⟨rfl, rfl⟩

theorem workerStep_frame {pid : ℕ} {answer : Option (List T)}
    (hstep : workerStep pid answer s = some s') :
    s'.consumer = s.consumer ∧ s'.shrinks = s.shrinks := by
  unfold workerStep at hstep
  repeat' split at hstep
  all_goals cases hstep
  all_goals exact ⟨rfl, rfl⟩

theorem shrinkStep_consumer {k : ℕ} (hstep : shrinkStep k s = some s') :
    s'.consumer = s.consumer := by
  unfold shrinkStep at hstep
  repeat' split at hstep
  all_goals cases hstep
  all_goals rfl

theorem step_consumer (hstep : step cfg a s = some s') (ha : a ≠ .consumer) :
    s'.consumer = s.consumer := by
  cases a with
  | consumer => exact absurd rfl ha
  | create c pid => exact (createStep_frame hstep).1
  | worker pid answer =>
    obtain ⟨-, hstep⟩ := Option.ite_none_right_eq_some.mp hstep
    exact (workerStep_frame hstep).1
  | shrink k => exact shrinkStep_consumer hstep

theorem returned_false_cases (hstep : step cfg a s = some s') (hs : s.consumer ≠ .returned false)
    (hs' : s'.consumer = .returned false) :
    a = .consumer ∧ s.consumer = .childExhausted ∧ s.exhausted = true ∧
      s' = { s with consumer := .returned false } := by
  by_cases ha : a = .consumer
  · subst ha
    refine ⟨rfl, ?_⟩
    simp only [step] at hstep
    unfold consumerStep at hstep
    split at hstep
    · cases hstep
      cases hs'
    · split at hstep <;> cases hstep
      · exact absurd hs' hs
      · cases hs'
      · cases hs'
    · split at hstep <;> cases hstep <;> cases hs'
    · cases hstep
      cases hs'
    · rename_i hcheck
      split at hstep
      · cases hstep
      · split at hstep
        · rename_i hex
          cases hstep
          exact ⟨hcheck, hex, rfl⟩
        · cases hstep
          cases hs'
    · cases hstep
      cases hs'
    · cases hstep
  · rw [step_consumer hstep ha] at hs'
    exact absurd hs' hs

/-- **The expander loses no block** unless exhaustion is checked while one is between the lists. -/
theorem expander_loses_no_block (cfg : Config) {s s' : State T}
    (hrun : Runs.Reaches (CarefulStep cfg) (State.start cfg) s) (hstep : CarefulStep cfg s s')
    (hs : s.consumer ≠ .returned false) (hs' : s'.consumer = .returned false) :
    s'.delivered.Perm s'.obtained := by
  obtain ⟨a, hstep, hnone⟩ := hstep
  obtain ⟨ha, hcheck, hex, rfl⟩ := returned_false_cases hstep hs hs'
  have hinv := reaches_invariant hrun
  have hheld : s.held cfg = 0 := held_eq_zero_of_exhausted hinv hex (hnone ha hcheck)
  have hused : s.used = [] := by
    simp only [State.exhausted, Bool.and_eq_true, List.isEmpty_iff] at hex
    exact hex.2
  have hall := hinv.accounted
  rw [hheld, hused, Multiset.coe_nil, add_zero, add_zero] at hall
  exact (Multiset.coe_eq_coe.mp hall).symm

theorem step_shrinks (hstep : step cfg a s = some s') (ha : ∀ k, a ≠ .shrink k) :
    s'.shrinks = s.shrinks := by
  cases a with
  | consumer =>
    simp only [step, consumerStep] at hstep
    repeat' split at hstep
    all_goals cases hstep
    all_goals rfl
  | create c pid => exact (createStep_frame hstep).2
  | worker pid answer =>
    obtain ⟨-, hstep⟩ := Option.ite_none_right_eq_some.mp hstep
    exact (workerStep_frame hstep).2
  | shrink k => exact absurd rfl (ha k)

theorem reaches_of_run {actions : List (Action T)} (hrun : run cfg s actions = some s')
    (hidle : ∀ k, s.shrinks k = .idle) (hno : ∀ a ∈ actions, ∀ k, a ≠ .shrink k) :
    Runs.Reaches (CarefulStep cfg) s s' ∧ ∀ k, s'.shrinks k = .idle := by
  induction actions generalizing s with
  | nil =>
    cases hrun
    exact ⟨.refl, hidle⟩
  | cons a actions ih =>
    obtain ⟨s₁, hstep, hrest⟩ := Option.bind_eq_some_iff.mp hrun
    have hshrinks := step_shrinks hstep (hno a List.mem_cons_self)
    have hcareful : CarefulStep cfg s s₁ := by
      refine ⟨a, hstep, fun _ _ k pid hk => ?_⟩
      rw [hidle k] at hk
      cases hk
    have hidle₁ : ∀ k, s₁.shrinks k = .idle := fun k => by rw [hshrinks, hidle k]
    obtain ⟨hreach, hidle'⟩ := ih hrest hidle₁ fun b hb => hno b (List.mem_cons_of_mem a hb)
    exact ⟨.head hcareful hreach, hidle'⟩

/-- `Open` creates one thread, with pid 0, which then opens the child. -/
def openOneThread : List (Action ℕ) :=
  [.consumer, .create none none, .create none (some 0), .worker 0 none, .worker 0 none,
    .worker 0 none, .create none none, .create none none, .consumer, .worker 0 none, .worker 0 none,
    .worker 0 none]

def deliverOneBlock : List (Action ℕ) :=
  openOneThread ++ [.consumer, .worker 0 none, .worker 0 none, .worker 0 (some [7]), .worker 0 none,
    .worker 0 none, .consumer, .consumer, .consumer, .worker 0 none, .worker 0 none, .worker 0 none,
    .worker 0 none, .worker 0 none, .worker 0 none, .worker 0 none, .consumer]

theorem one_block_delivered : ∃ s s' : State ℕ,
    run ⟨1, 1, 1⟩ (State.start ⟨1, 1, 1⟩) deliverOneBlock = some s ∧
      step ⟨1, 1, 1⟩ .consumer s = some s' ∧ s'.consumer = .returned false ∧
      s'.obtained = [[7]] ∧ s'.delivered.Perm s'.obtained := by
  obtain ⟨s, hs⟩ : ∃ s, run ⟨1, 1, 1⟩ (State.start ⟨1, 1, 1⟩) deliverOneBlock = some s :=
    Option.isSome_iff_exists.mp (by decide)
  obtain ⟨s', hs'⟩ : ∃ s', step ⟨1, 1, 1⟩ .consumer s = some s' := by
    have h : ((run ⟨1, 1, 1⟩ (State.start ⟨1, 1, 1⟩) deliverOneBlock).bind
        (step ⟨1, 1, 1⟩ .consumer)).isSome := by decide
    rw [hs] at h
    exact Option.isSome_iff_exists.mp h
  have hend : ((run ⟨1, 1, 1⟩ (State.start ⟨1, 1, 1⟩) deliverOneBlock).map
      fun s => s.consumer) = some .childExhausted := by decide
  have hend' : (((run ⟨1, 1, 1⟩ (State.start ⟨1, 1, 1⟩) deliverOneBlock).bind
      (step ⟨1, 1, 1⟩ .consumer)).map fun s => (s.consumer, s.obtained)) =
        some (.returned false, [[7]]) := by decide
  rw [hs] at hend hend'
  simp only [Option.bind_some, hs', Option.map_some, Option.some.injEq, Prod.mk.injEq] at hend hend'
  obtain ⟨hreach, hidle⟩ := reaches_of_run hs (fun _ => rfl)
    (by simp [deliverOneBlock, openOneThread])
  have hstep : CarefulStep ⟨1, 1, 1⟩ s s' :=
    ⟨.consumer, hs', fun _ _ k pid hk => by rw [hidle k] at hk; cases hk⟩
  exact ⟨s, s', hs, hs', hend'.1, hend'.2,
    expander_loses_no_block ⟨1, 1, 1⟩ hreach hstep (by rw [hend]; decide) hend'.1⟩

/-- The first thread holds a block when the second finishes, and is then called back. -/
def loseOneBlock : List (Action ℕ) :=
  openOneThread ++ [.consumer, .create none none, .create none (some 1), .worker 1 none,
    .worker 1 none, .worker 1 none, .create none none, .create none none, .consumer, .consumer,
    .worker 0 none, .worker 0 none, .worker 0 (some [7]),
    .worker 1 none, .worker 1 none, .worker 1 none, .worker 1 none, .worker 1 none,
    .worker 1 none, .worker 1 none, .worker 1 none, .worker 1 none, .worker 1 none,
    .shrink 0, .shrink 0, .shrink 0, .shrink 0, .consumer, .consumer]

/-- `Next` returns false while the block that the first thread obtained is not even in the
buffer. -/
theorem block_held_between_lists_lost :
    ((run ⟨2, 2, 2⟩ (State.start ⟨2, 2, 2⟩) loseOneBlock).map fun s =>
      (s.consumer, s.obtained, s.delivered)) = some (.returned false, [[7]], []) := by
  decide

/-- **Every block is accounted for**, whenever threads are created and called back. -/
theorem every_block_accounted (cfg : Config) {s : State T}
    (h : Runs.Reaches (fun s s' => ∃ a, step cfg a s = some s') (State.start cfg) s) :
    (s.obtained : Multiset (List T)) = s.delivered + s.used + s.held cfg :=
  (Runs.invariant (fun _ _ hi ⟨_, hs⟩ => step_invariant hi hs) h (start_invariant cfg)).accounted

theorem lost_block_held : ∃ s, run ⟨2, 2, 2⟩ (State.start ⟨2, 2, 2⟩) loseOneBlock = some s ∧
    (s.obtained : Multiset (List ℕ)) = s.delivered + s.used + s.held ⟨2, 2, 2⟩ :=
  ⟨_, rfl, every_block_accounted _ (Runs.reaches_of_foldlM (fun _ a _ ha => ⟨a, ha⟩)
    (show run _ _ loseOneBlock = _ from rfl))⟩

end Expander
