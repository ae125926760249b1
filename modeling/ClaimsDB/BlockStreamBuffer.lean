/-
The blocks of the expander's buffer.

A block goes from the empty blocks to a worker, which has the child fill it, to the filled ones,
to the consumer, and back.  Blocks are numbers, and `content` says what is in each; the call-back
signal and what the child returns are given with each step.
-/
import ClaimsDB.Runs

open List

namespace BlockStreamBuffer

open Multiset (coe_add coe_singleton cons_coe mem_add nodup_add singleton_add)

variable {T : Type}

structure Config where
  threads : ℕ
  bufferSize : ℕ

/-! ### The parties -/

/-- Where a thread is in the loop of `ExpandedWork`.  `asking` is the variable `block_for_asking`
where it can be null. -/
inductive Worker
  | exited (asking : Option ℕ)
  | getEmptyBlock (asking : Option ℕ)
  /-- in `getEmptyBlock`, after the semaphore -/
  | popEmptyBlock (asking : Option ℕ)
  /-- in `getEmptyBlock`, after the locked section -/
  | setEmpty (block : ℕ)
  /-- `getEmptyBlock` returned false -/
  | checkWhileWaiting (asking : Option ℕ)
  | next (block : ℕ)
  | insertOneBlock (block : ℕ)
  | returnEmptyBlock (block : ℕ)
  deriving DecidableEq

/-- Where the consumer is in `getBlock`. -/
inductive Consumer
  | idle
  | switchBlock (fetched : ℕ)
  | putEmptyBlock (fetched : ℕ)
  deriving DecidableEq

/-- The buffer and its parties, with what was inserted and delivered so far. -/
structure State (T : Type) where
  workers : ℕ → Worker
  consumer : Consumer
  /-- `block_stream_empty_list_` -/
  empty : List ℕ
  /-- `block_stream_used_list_` -/
  used : List ℕ
  /-- `sema_empty_block_` -/
  emptySem : ℕ
  content : ℕ → List T
  inserted : List (List T)
  delivered : List (List T)

def State.start (cfg : Config) : State T where
  workers _ := .exited none
  consumer := .idle
  empty := range cfg.bufferSize
  used := []
  emptySem := cfg.bufferSize
  content _ := []
  inserted := []
  delivered := []

def State.goto (s : State T) (pid : ℕ) (pc : Worker) : State T :=
  { s with workers := Function.update s.workers pid pc }

def State.setContent (s : State T) (block : ℕ) (tuples : List T) : State T :=
  { s with content := Function.update s.content block tuples }

/-! ### Steps -/

/-- What a worker is given: whether it finds itself called back, and what `Next` of the child
returns and leaves in the block. -/
structure Answer (T : Type) where
  callBack : Bool
  ret : Bool
  tuples : List T

/-- One step of thread `pid`; one that has left the loop can be given to the expander again. -/
def workerStep (pid : ℕ) (answer : Answer T) (s : State T) : Option (State T) :=
  match s.workers pid with
  | .exited _ => some (s.goto pid (.getEmptyBlock none))
  | .getEmptyBlock asking =>
    if s.emptySem = 0 then some (s.goto pid (.checkWhileWaiting none))
    else some { s.goto pid (.popEmptyBlock asking) with emptySem := s.emptySem - 1 }
  | .popEmptyBlock _ =>
    match s.empty with
    | [] => none
    | block :: rest => some { s.goto pid (.setEmpty block) with empty := rest }
  | .setEmpty block => some ((s.setContent block []).goto pid (.next block))
  | .checkWhileWaiting asking =>
    some (s.goto pid (if answer.callBack then .exited asking else .getEmptyBlock asking))
  | .next block =>
    match answer.ret, answer.tuples with
    -- the block stays in `block_for_asking`
    | true, [] => some ((s.setContent block []).goto pid (.getEmptyBlock (some block)))
    | true, t :: ts => some ((s.setContent block (t :: ts)).goto pid (.insertOneBlock block))
    | false, [] => some ((s.setContent block []).goto pid (.returnEmptyBlock block))
    -- the assertion that the block is empty
    | false, _ :: _ => none
  | .insertOneBlock block =>
    some { s.goto pid (.getEmptyBlock none) with
      used := s.used ++ [block], inserted := s.inserted ++ [s.content block] }
  | .returnEmptyBlock block =>
    some { s.goto pid (.exited none) with
      empty := s.empty ++ [block], emptySem := s.emptySem + 1 }

/-- One step of the consumer, whose own block has the content `own`. -/
def consumerStep (own : List T) (s : State T) : Option (State T) :=
  match s.consumer with
  | .idle =>
    match s.used with
    | [] => some s
    | block :: rest => some { s with consumer := .switchBlock block, used := rest }
  | .switchBlock block =>
    some { s.setContent block own with
      consumer := .putEmptyBlock block, delivered := s.delivered ++ [s.content block] }
  | .putEmptyBlock block =>
    some { s with consumer := .idle, empty := s.empty ++ [block], emptySem := s.emptySem + 1 }

inductive Action (T : Type)
  | worker (pid : ℕ) (answer : Answer T)
  | consumer (own : List T)

def step (cfg : Config) (s : State T) : Action T → Option (State T)
  | .worker pid answer => if pid < cfg.threads then workerStep pid answer s else none
  | .consumer own => consumerStep own s

/-- In this step `Next` of the child returns true and leaves the block empty. -/
def Action.returnsNothing (s : State T) : Action T → Bool
  | .worker pid answer =>
    match s.workers pid with
    | .next _ => answer.ret && answer.tuples.isEmpty
    | _ => false
  | .consumer _ => false

/-! ### Where the blocks are -/

def inHand : Option ℕ → Multiset ℕ
  | none => 0
  | some block => {block}

def Worker.hands : Worker → Multiset ℕ
  | .exited asking | .getEmptyBlock asking | .popEmptyBlock asking | .checkWhileWaiting asking =>
    inHand asking
  | .setEmpty block | .next block | .insertOneBlock block | .returnEmptyBlock block => {block}

def Consumer.hand : Consumer → Multiset ℕ
  | .idle => 0
  | .switchBlock block | .putEmptyBlock block => {block}

def Worker.left : Worker → Option ℕ
  | .exited asking | .getEmptyBlock asking | .popEmptyBlock asking | .checkWhileWaiting asking =>
    asking
  | _ => none

def State.held (cfg : Config) (s : State T) : Multiset ℕ :=
  ∑ pid ∈ Finset.range cfg.threads, (s.workers pid).hands

def State.places (cfg : Config) (s : State T) : Multiset ℕ :=
  s.empty + s.used + s.held cfg + s.consumer.hand

def State.fetched (s : State T) : List (List T) :=
  match s.consumer with
  | .switchBlock block => [s.content block]
  | _ => []

structure Invariant (cfg : Config) (s : State T) : Prop where
  accounted : s.places cfg = Multiset.range cfg.bufferSize
  left : ∀ pid, (s.workers pid).left = none
  ordered : s.inserted = s.delivered ++ s.fetched ++ s.used.map s.content

theorem start_invariant (cfg : Config) : Invariant cfg (State.start cfg : State T) where
  accounted := by
    simp [State.start, State.places, State.held, Worker.hands, inHand, Consumer.hand]
    rfl
  left _ := rfl
  ordered := rfl

section

variable {cfg : Config} {s s' : State T}

@[simp] theorem goto_workers_self (s : State T) (pid : ℕ) (pc : Worker) :
    (s.goto pid pc).workers pid = pc := Function.update_self ..

variable {pid block : ℕ}

theorem goto_workers_of_ne (s : State T) {q : ℕ} (pc : Worker) (h : q ≠ pid) :
    (s.goto pid pc).workers q = s.workers q := Function.update_of_ne h ..

section

variable (h : Invariant cfg s)

include h

theorem Invariant.not_mem_of_held (hpid : pid < cfg.threads)
    (hb : block ∈ (s.workers pid).hands) : block ∉ s.used ∧ block ∉ s.consumer.hand := by
  have hnodup : (s.places cfg).Nodup := h.accounted ▸ Multiset.nodup_range _
  have hheld : block ∈ s.held cfg :=
    Multiset.mem_sum.mpr ⟨pid, Finset.mem_range.mpr hpid, hb⟩
  obtain ⟨hrest, -, hhand⟩ := nodup_add.mp hnodup
  obtain ⟨-, -, hlists⟩ := nodup_add.mp hrest
  refine ⟨fun hused => ?_, fun hc => ?_⟩
  · exact Multiset.disjoint_left.mp hlists (mem_add.mpr (.inr hused)) hheld
  · exact Multiset.disjoint_left.mp hhand (mem_add.mpr (.inr hheld)) hc

theorem Invariant.not_mem_used_of_hand (hb : block ∈ s.consumer.hand) : block ∉ s.used := by
  have hnodup : (s.places cfg).Nodup := h.accounted ▸ Multiset.nodup_range _
  obtain ⟨-, -, hhand⟩ := nodup_add.mp hnodup
  intro hused
  refine Multiset.disjoint_left.mp hhand ?_ hb
  exact mem_add.mpr (.inl (mem_add.mpr (.inr hused)))

theorem Invariant.setContent (hpid : pid < cfg.threads)
    (hb : block ∈ (s.workers pid).hands) (tuples : List T) :
    Invariant cfg (s.setContent block tuples) where
  accounted := h.accounted
  left := h.left
  ordered := by
    obtain ⟨hused, hhand⟩ := h.not_mem_of_held hpid hb
    have hmap : s.used.map (s.setContent block tuples).content = s.used.map s.content :=
      map_congr_left fun b hmem =>
        Function.update_of_ne (fun hbb : b = block => hused (hbb ▸ hmem)) _ _
    have hfetched : (s.setContent block tuples).fetched = s.fetched := by
      unfold State.fetched State.setContent
      cases hc : s.consumer with
      | switchBlock b =>
        have hne : b ≠ block := by
          rintro rfl
          exact hhand (by rw [hc]; exact Multiset.mem_singleton_self b)
        simp only [Function.update_of_ne hne]
      | idle => rfl
      | putEmptyBlock b => rfl
    rw [hfetched, show (s.setContent block tuples).used = s.used from rfl, hmap]
    exact h.ordered

theorem Invariant.move (pc : Worker) (hpid : pid < cfg.threads)
    (hw : s'.workers = (s.goto pid pc).workers) (hc : s'.consumer = s.consumer)
    (hacc : (s'.empty : Multiset ℕ) + s'.used + pc.hands = s.empty + s.used + (s.workers pid).hands)
    (hleft : pc.left = none)
    (hord : s'.inserted = s'.delivered ++ s'.fetched ++ s'.used.map s'.content) :
    Invariant cfg s' where
  accounted := by
    have hheld : s'.held cfg + (s.workers pid).hands = s.held cfg + pc.hands := by
      rw [State.held, hw]
      exact Runs.sum_update Worker.hands s.workers hpid pc
    rw [← h.accounted]
    -- both sides with what the thread has in its hands before and after
    apply add_right_cancel (b := (s.workers pid).hands + pc.hands)
    calc s'.places cfg + ((s.workers pid).hands + pc.hands)
        = (s'.empty + s'.used + pc.hands) + (s'.held cfg + (s.workers pid).hands)
            + s'.consumer.hand := by rw [State.places]; abel
      _ = (s.empty + s.used + (s.workers pid).hands) + (s.held cfg + pc.hands)
            + s.consumer.hand := by rw [hacc, hheld, hc]
      _ = s.places cfg + ((s.workers pid).hands + pc.hands) := by rw [State.places]; abel
  left q := by
    rw [hw]
    by_cases hq : q = pid
    · subst hq
      rwa [goto_workers_self]
    · rw [goto_workers_of_ne s pc hq]
      exact h.left q
  ordered := hord

theorem Invariant.goto {pc : Worker} (hpid : pid < cfg.threads)
    (hhands : pc.hands = (s.workers pid).hands) (hleft : pc.left = none) :
    Invariant cfg (s.goto pid pc) :=
  h.move pc hpid rfl rfl (by rw [hhands]; rfl) hleft h.ordered

theorem workerStep_invariant {answer : Answer T} (hpid : pid < cfg.threads)
    (hans : Action.returnsNothing s (.worker pid answer) = false)
    (hstep : workerStep pid answer s = some s') : Invariant cfg s' := by
  have hleft := h.left pid
  cases hpc : s.workers pid <;> simp only [workerStep, hpc, Worker.left] at hstep hleft
  case exited asking =>
    cases hstep
    subst hleft
    exact h.goto hpid (by rw [hpc]; rfl) rfl
  case getEmptyBlock asking =>
    subst hleft
    split at hstep <;> cases hstep
    · exact h.goto hpid (by rw [hpc]; rfl) rfl
    · exact h.move (.popEmptyBlock none) hpid rfl rfl (by rw [hpc]; rfl) rfl h.ordered
  case popEmptyBlock asking =>
    subst hleft
    split at hstep
    · cases hstep
    · rename_i block rest hempty
      cases hstep
      refine h.move (.setEmpty block) hpid rfl rfl ?_ rfl h.ordered
      simp only [hpc, hempty, Worker.hands, inHand, State.goto, ← cons_coe,
        ← singleton_add]
      abel
  case setEmpty block =>
    cases hstep
    have hb : block ∈ (s.workers pid).hands := by rw [hpc]; exact Multiset.mem_singleton_self block
    exact (h.setContent hpid hb []).goto hpid (congrArg Worker.hands hpc).symm rfl
  case checkWhileWaiting asking =>
    subst hleft
    cases hstep
    split
    · exact h.goto hpid (by rw [hpc]; rfl) rfl
    · exact h.goto hpid (by rw [hpc]; rfl) rfl
  case next block =>
    have hb : block ∈ (s.workers pid).hands := by rw [hpc]; exact Multiset.mem_singleton_self block
    simp only [Action.returnsNothing, hpc] at hans
    split at hstep
    · rename_i hret htuples
      rw [hret, htuples] at hans
      cases hans
    · rename_i t ts _ _
      cases hstep
      exact (h.setContent hpid hb (t :: ts)).goto hpid (congrArg Worker.hands hpc).symm rfl
    · cases hstep
      exact (h.setContent hpid hb []).goto hpid (congrArg Worker.hands hpc).symm rfl
    · cases hstep
  case insertOneBlock block =>
    cases hstep
    refine h.move (.getEmptyBlock none) hpid rfl rfl ?_ rfl ?_
    · simp only [hpc, Worker.hands, inHand, State.goto, ← coe_add, coe_singleton]
      abel
    · rw [map_append, ← append_assoc]
      exact congrArg (· ++ [s.content block]) h.ordered
  case returnEmptyBlock block =>
    cases hstep
    refine h.move (.exited none) hpid rfl rfl ?_ rfl h.ordered
    simp only [hpc, Worker.hands, inHand, State.goto, ← coe_add, coe_singleton]
    abel

theorem consumerStep_invariant {own : List T}
    (hstep : consumerStep own s = some s') : Invariant cfg s' := by
  have hacc := h.accounted
  have hord := h.ordered
  cases hc : s.consumer <;> simp only [consumerStep, hc] at hstep
  case idle =>
    split at hstep
    · cases hstep
      exact h
    · rename_i block rest hused
      cases hstep
      refine ⟨?_, h.left, ?_⟩
      · rw [← hacc]
        simp only [State.places, State.held, hc, hused, Consumer.hand, ← cons_coe,
          ← singleton_add]
        abel
      · simpa only [State.fetched, hc, hused, map_cons, append_nil, append_assoc,
          singleton_append] using hord
  case switchBlock block =>
    cases hstep
    -- the block in the consumer's hand is not in the list, so its new content is not delivered
    have hnot : block ∉ s.used := h.not_mem_used_of_hand (by
      rw [hc]
      exact Multiset.mem_singleton_self block)
    have hmap : s.used.map (s.setContent block own).content = s.used.map s.content :=
      map_congr_left fun b hmem =>
        Function.update_of_ne (fun hbb : b = block => hnot (hbb ▸ hmem)) _ _
    refine ⟨?_, h.left, ?_⟩
    · rw [← hacc, State.places, State.places, hc]
      rfl
    · show s.inserted = (s.delivered ++ [s.content block]) ++ [] ++
        s.used.map (s.setContent block own).content
      rw [hmap, append_nil, hord, State.fetched, hc]
  case putEmptyBlock block =>
    cases hstep
    refine ⟨?_, h.left, ?_⟩
    · rw [← hacc]
      simp only [State.places, State.held, hc, Consumer.hand, ← coe_add,
        coe_singleton]
      abel
    · simpa only [State.fetched, hc] using hord

end

end

variable {cfg : Config} {s s' : State T} {pid : ℕ}

/-! ### Runs -/

def ProducingStep (cfg : Config) (s s' : State T) : Prop :=
  ∃ a, Action.returnsNothing s a = false ∧ step cfg s a = some s'

theorem producingStep_invariant (h : Invariant cfg s) (hstep : ProducingStep cfg s s') :
    Invariant cfg s' := by
  obtain ⟨a, hans, ha⟩ := hstep
  cases a with
  | worker pid answer =>
    obtain ⟨hpid, ha⟩ := Option.ite_none_right_eq_some.mp ha
    exact workerStep_invariant h hpid hans ha
  | consumer own => exact consumerStep_invariant h ha

/-- **Block conservation**, if the child never returns true without a tuple. -/
theorem block_conservation (cfg : Config) {s : State T}
    (hrun : Runs.Reaches (ProducingStep cfg) (State.start cfg) s) :
    s.places cfg = Multiset.range cfg.bufferSize ∧
      (∀ pid asking, s.workers pid = .exited asking → asking = none) ∧
      s.inserted = s.delivered ++ s.fetched ++ s.used.map s.content := by
  have hinv : Invariant cfg s :=
    Runs.invariant (I := Invariant cfg) (fun _ _ hi hs => producingStep_invariant hi hs) hrun
      (start_invariant cfg)
  refine ⟨hinv.accounted, fun pid asking hpc => ?_, hinv.ordered⟩
  have hleft := hinv.left pid
  rwa [hpc] at hleft

def firstBlock (ret : Bool) (tuples : List ℕ) : List (Action ℕ) :=
  replicate 4 (.worker 0 ⟨false, true, []⟩) ++ [.worker 0 ⟨false, ret, tuples⟩]

def passOneBlock : List (Action ℕ) :=
  firstBlock true [7] ++ [.worker 0 ⟨false, true, []⟩, .consumer [], .consumer [], .consumer []]

theorem one_block_conserved : ∃ s : State ℕ,
    Runs.Reaches (ProducingStep ⟨1, 2⟩) (State.start ⟨1, 2⟩) s ∧ s.delivered = [[7]] ∧
      s.places ⟨1, 2⟩ = Multiset.range 2 := by
  let act (s : State ℕ) (a : Action ℕ) : Option (State ℕ) :=
    if Action.returnsNothing s a then none else step ⟨1, 2⟩ s a
  obtain ⟨s, hs⟩ : ∃ s, passOneBlock.foldlM act (State.start ⟨1, 2⟩) = some s :=
    Option.isSome_iff_exists.mp (by decide)
  have hend : (passOneBlock.foldlM act (State.start ⟨1, 2⟩)).map (·.delivered) = some [[7]] := by
    decide
  rw [hs, Option.map_some, Option.some.injEq] at hend
  have hreach : Runs.Reaches (ProducingStep ⟨1, 2⟩) (State.start ⟨1, 2⟩) s := by
    refine Runs.reaches_of_foldlM (fun s a s' ha => ?_) hs
    obtain ⟨hnot, ha⟩ := Option.ite_none_left_eq_some.mp ha
    exact ⟨a, Bool.eq_false_iff.mpr hnot, ha⟩
  exact ⟨s, hreach, hend, (block_conservation ⟨1, 2⟩ hreach).1⟩

def forgetOneBlock : List (Action ℕ) :=
  firstBlock true [] ++ replicate 2 (.worker 0 ⟨false, true, []⟩)

/-- The first block is then in no list and in nobody's hands. -/
theorem empty_block_forgotten : ∃ s : State ℕ,
    forgetOneBlock.foldlM (step ⟨1, 2⟩) (State.start ⟨1, 2⟩) = some s ∧ 0 ∉ s.places ⟨1, 2⟩ := by
  obtain ⟨s, hs⟩ : ∃ s, forgetOneBlock.foldlM (step ⟨1, 2⟩) (State.start ⟨1, 2⟩) = some s :=
    Option.isSome_iff_exists.mp (by decide)
  have hend : (forgetOneBlock.foldlM (step ⟨1, 2⟩) (State.start ⟨1, 2⟩)).map
      (fun s => decide (0 ∈ s.places ⟨1, 2⟩)) = some false := by
    decide
  rw [hs, Option.map_some, Option.some.injEq] at hend
  exact ⟨s, hs, of_decide_eq_false hend⟩

end BlockStreamBuffer
