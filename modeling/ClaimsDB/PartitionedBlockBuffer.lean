/-
The partitioned buffer of the exchange senders.

Calls insert a block or take one of a given or of any partition; a step is what a call does up to
and including its next locked section or semaphore operation.  A call for one partition looks at it
in one section and takes the block in another: if it is empty by then, the assertion fails.
-/
import ClaimsDB.Runs

namespace PartitionedBlockBuffer

open List Option
open Function (update update_of_ne update_self)

variable {C : Type}

structure Config where
  nPartitions : ℕ
  nBlocks : ℕ
  /-- calls are numbered, and a number is used again when its call has returned -/
  callers : ℕ

variable {cfg : Config}

/-! ### The calls -/

inductive Call (cfg : Config) (C : Type)
  | idle
  /-- `insertBlockToPartitionedList`, before `empty_blocks.wait()` -/
  | waitEmpty (src : C) (partition : Fin cfg.nPartitions)
  | putBlock (src : C) (partition : Fin cfg.nPartitions)
  | postUsed
  /-- `getBlock` for any partition, before `used_blocks.wait()` -/
  | waitUsed
  | choosePartition
  | postEmpty
  /-- `getBlock` for one partition, before it looks at the number of its blocks -/
  | checkPartition (partition : Fin cfg.nPartitions)
  | takeBlock (partition : Fin cfg.nPartitions)
  /-- with the lock, before `used_blocks.wait()` -/
  | waitUsedLocked
  /-- with the lock, before `empty_blocks.post()` -/
  | postEmptyLocked
  /-- `front()` was called on an empty list -/
  | noFront
  /-- the divisor of `rand()` was zero -/
  | divisionByZero

/-- The buffer and the calls, with what was put in each partition and taken out so far. -/
structure State (cfg : Config) (C : Type) where
  calls : ℕ → Call cfg C
  /-- the call that has `lock` between two steps -/
  lock : Option ℕ
  /-- `empty_block_list` -/
  empty : List ℕ
  /-- `blocks_in_partition_list` -/
  parts : Fin cfg.nPartitions → List ℕ
  /-- `empty_blocks` -/
  emptySem : ℕ
  /-- `used_blocks` -/
  usedSem : ℕ
  content : ℕ → C
  inserted : Fin cfg.nPartitions → List C
  taken : Fin cfg.nPartitions → List C

/-- A new buffer, whose blocks have whatever `malloc` gave them. -/
def State.start (cfg : Config) (content : ℕ → C) : State cfg C where
  calls _ := .idle
  lock := none
  empty := List.range cfg.nBlocks
  parts _ := []
  emptySem := cfg.nBlocks
  usedSem := 0
  content := content
  inserted _ := []
  taken _ := []

def State.goto (s : State cfg C) (k : ℕ) (pc : Call cfg C) : State cfg C :=
  { s with calls := update s.calls k pc }

/-- `getBlockInPartitionedBlockList`, where the caller's block has the content `desc`. -/
def State.getBlockInPartitionedBlockList (s : State cfg C) (p : Fin cfg.nPartitions) (desc : C) :
    Option (State cfg C) :=
  match s.parts p with
  | [] => none
  | block :: rest => some { s with
      parts := update s.parts p rest
      empty := s.empty ++ [block]
      content := update s.content block desc
      taken := update s.taken p (s.taken p ++ [s.content block]) }

/-- What `insertBlockToPartitionedList` does with the lock, for the block that it has picked. -/
def State.putBlock (s : State cfg C) (p : Fin cfg.nPartitions) (src : C) (block : ℕ)
    (rest : List ℕ) : State cfg C :=
  { s with
    empty := rest
    content := update s.content block src
    parts := update s.parts p (s.parts p ++ [block])
    inserted := update s.inserted p (s.inserted p ++ [src]) }

def State.nonEmptyPartitions (s : State cfg C) : List (Fin cfg.nPartitions) :=
  (List.finRange cfg.nPartitions).filter fun p => !(s.parts p).isEmpty

/-! ### Steps -/

inductive Request (cfg : Config) (C : Type)
  | insertBlockToPartitionedList (src : C) (partitionId : ℕ)
  | getAnyBlock
  | getBlock (partition : Fin cfg.nPartitions)

def begin (k : ℕ) (r : Request cfg C) (s : State cfg C) : Option (State cfg C) :=
  match s.calls k, r with
  | .idle, .insertBlockToPartitionedList src partitionId =>
    if h : partitionId < cfg.nPartitions then some (s.goto k (.waitEmpty src ⟨partitionId, h⟩))
    else none
  | .idle, .getAnyBlock => some (s.goto k .waitUsed)
  | .idle, .getBlock partition => some (s.goto k (.checkPartition partition))
  | _, _ => none

/-- One step of call `k`; `rand` is what `rand()` returns, `desc` the content of the block that
the caller hands in to be exchanged. -/
def callStep (k : ℕ) (rand : ℕ) (desc : C) (s : State cfg C) : Option (State cfg C) :=
  match s.calls k with
  | .waitEmpty src p =>
    if s.emptySem = 0 then none
    else some { s.goto k (.putBlock src p) with emptySem := s.emptySem - 1 }
  | .putBlock src p =>
    if s.lock = none then
      match s.empty with
      | [] => some (s.goto k .noFront)
      | block :: rest => some ((s.putBlock p src block rest).goto k .postUsed)
    else none
  | .postUsed => some { s.goto k .idle with usedSem := s.usedSem + 1 }
  | .waitUsed =>
    if s.usedSem = 0 then none
    else some { s.goto k .choosePartition with usedSem := s.usedSem - 1 }
  | .choosePartition =>
    if s.lock = none then
      -- the index is below the length unless the length is zero
      match s.nonEmptyPartitions[rand % s.nonEmptyPartitions.length]? with
      | none => some (s.goto k .divisionByZero)
      | some p =>
        (s.getBlockInPartitionedBlockList p desc).map fun s' => s'.goto k .postEmpty
    else none
  | .postEmpty => some { s.goto k .idle with emptySem := s.emptySem + 1 }
  | .checkPartition p =>
    if s.lock = none then some (s.goto k (if (s.parts p).isEmpty then .idle else .takeBlock p))
    else none
  | .takeBlock p =>
    if s.lock = none then
      (s.getBlockInPartitionedBlockList p desc).map fun s' =>
        { s'.goto k .waitUsedLocked with lock := some k }
    else none
  | .waitUsedLocked =>
    if s.usedSem = 0 then none
    else some { s.goto k .postEmptyLocked with usedSem := s.usedSem - 1 }
  | .postEmptyLocked =>
    some { s.goto k .idle with emptySem := s.emptySem + 1, lock := none }
  | _ => none

inductive Action (cfg : Config) (C : Type)
  | begin (k : ℕ) (r : Request cfg C)
  | step (k : ℕ) (rand : ℕ) (desc : C)

def step (s : State cfg C) : Action cfg C → Option (State cfg C)
  | .begin k r => if k < cfg.callers then begin k r s else none
  | .step k rand desc => if k < cfg.callers then callStep k rand desc s else none

def Step (s s' : State cfg C) : Prop := ∃ a, step s a = some s'

/-! ### What every step keeps -/

def Call.hasLock : Call cfg C → Prop
  | .waitUsedLocked | .postEmptyLocked => True
  | _ => False

/-- Blocks of a partition that were put and not posted, or waited for and not taken. -/
def Call.usedCredit : Call cfg C → ℕ
  | .postUsed | .choosePartition => 1
  | _ => 0

def Call.usedDebt : Call cfg C → ℕ
  | .waitUsedLocked => 1
  | _ => 0

/-- Empty blocks that the call answers for, though they are not in `empty_blocks`. -/
def Call.emptyCredit : Call cfg C → ℕ
  | .putBlock _ _ | .postEmpty | .waitUsedLocked | .postEmptyLocked => 1
  | _ => 0

def State.total (s : State cfg C) (f : Call cfg C → ℕ) : ℕ :=
  ∑ k ∈ Finset.range cfg.callers, f (s.calls k)

def State.usedBlocks (s : State cfg C) : ℕ := ∑ p, (s.parts p).length

def State.places (s : State cfg C) : Multiset ℕ := s.empty + ∑ p, (s.parts p : Multiset ℕ)

def Call.broken : Call cfg C → Prop
  | .noFront | .divisionByZero => True
  | _ => False

structure Invariant (s : State cfg C) : Prop where
  accounted : s.places = Multiset.range cfg.nBlocks
  ordered : ∀ p, s.inserted p = s.taken p ++ (s.parts p).map s.content
  used : s.usedBlocks + s.total Call.usedDebt = s.usedSem + s.total Call.usedCredit
  empty : s.empty.length = s.emptySem + s.total Call.emptyCredit
  lock : ∀ k, (s.calls k).hasLock ↔ s.lock = some k
  unbroken : ∀ k, ¬(s.calls k).broken

theorem start_invariant (content : ℕ → C) : Invariant (State.start cfg content) where
  accounted := by
    simp [State.start, State.places]
    rfl
  ordered _ := rfl
  used := by simp [State.start, State.usedBlocks, State.total, Call.usedDebt, Call.usedCredit]
  empty := by simp [State.start, State.total, Call.emptyCredit]
  lock k := by simp [State.start, Call.hasLock]
  unbroken _ := id

section

variable {s s' : State cfg C}

variable {k block : ℕ} {p : Fin cfg.nPartitions} {rest : List ℕ} {desc : C}

theorem total_goto (f : Call cfg C → ℕ) (hk : k < cfg.callers) {pc : Call cfg C}
    (hcalls : s'.calls = (s.goto k pc).calls) : s'.total f + f (s.calls k) = s.total f + f pc := by
  rw [State.total, hcalls]
  exact Runs.sum_update f s.calls hk pc

theorem le_total (f : Call cfg C → ℕ) (hk : k < cfg.callers) : f (s.calls k) ≤ s.total f :=
  Finset.single_le_sum (f := fun k => f (s.calls k)) (fun _ _ => Nat.zero_le _)
    (Finset.mem_range.mpr hk)

theorem Invariant.total_usedDebt (h : Invariant s) (hlock : s.lock = none) :
    s.total Call.usedDebt = 0 := by
  refine Finset.sum_eq_zero fun k _ => ?_
  have hno : ¬(s.calls k).hasLock := by simp [h.lock k, hlock]
  cases hpc : s.calls k <;> rw [hpc] at hno <;> first | rfl | exact absurd trivial hno

section

variable (h : Invariant s) {k : ℕ} (pc : Call cfg C) (hk : k < cfg.callers)
  (hcalls : s'.calls = (s.goto k pc).calls)

include h pc hk hcalls

theorem Invariant.move (hplaces : s'.places = s.places)
    (hord : ∀ p, s'.inserted p = s'.taken p ++ (s'.parts p).map s'.content)
    (hused : s'.usedBlocks + pc.usedDebt + (s.usedSem + (s.calls k).usedCredit) =
      s'.usedSem + pc.usedCredit + (s.usedBlocks + (s.calls k).usedDebt))
    (hempty : s'.empty.length + (s.emptySem + (s.calls k).emptyCredit) =
      s'.emptySem + pc.emptyCredit + s.empty.length)
    (hself : pc.hasLock ↔ s'.lock = some k) (hothers : ∀ j, j ≠ k → (s'.lock = some j ↔
      s.lock = some j)) (hbroken : ¬pc.broken) : Invariant s' where
  accounted := hplaces.trans h.accounted
  ordered := hord
  used := by
    have hdebt := total_goto Call.usedDebt hk hcalls
    have hcredit := total_goto Call.usedCredit hk hcalls
    have hbefore := h.used
    omega
  empty := by
    have hcredit := total_goto Call.emptyCredit hk hcalls
    have hbefore := h.empty
    omega
  lock j := by
    rw [hcalls, State.goto]
    by_cases hj : j = k
    · subst hj
      simpa only [update_self] using hself
    · simp only [update_of_ne hj]
      rw [h.lock j, hothers j hj]
  unbroken j := by
    rw [hcalls, State.goto]
    by_cases hj : j = k
    · subst hj
      simpa only [update_self] using hbroken
    · simpa only [update_of_ne hj] using h.unbroken j

theorem Invariant.goto (hempty : s'.empty = s.empty)
    (hparts : s'.parts = s.parts) (hcontent : s'.content = s.content)
    (hinserted : s'.inserted = s.inserted) (htaken : s'.taken = s.taken) (hlock : s'.lock = s.lock)
    (husedSem : s.usedSem + (s.calls k).usedCredit + pc.usedDebt =
      s'.usedSem + pc.usedCredit + (s.calls k).usedDebt)
    (hemptySem : s.emptySem + (s.calls k).emptyCredit = s'.emptySem + pc.emptyCredit)
    (hself : pc.hasLock ↔ (s.calls k).hasLock) (hbroken : ¬pc.broken) : Invariant s' := by
  refine h.move pc hk hcalls ?_ ?_ ?_ ?_ ?_ (fun _ _ => by rw [hlock]) hbroken
  · rw [State.places, State.places, hempty, hparts]
  · rw [hinserted, htaken, hparts, hcontent]
    exact h.ordered
  · rw [State.usedBlocks, State.usedBlocks, hparts]
    omega
  · rw [hempty]
    omega
  · rw [hself, h.lock k, hlock]

end

/-! ### The locked sections -/

theorem coe_append_head (l : List ℕ) (block : ℕ) (rest : List ℕ) :
    ((l ++ [block] : List ℕ) : Multiset ℕ) + rest = l + (block :: rest : List ℕ) := by
  rw [Multiset.coe_add, Multiset.coe_add, append_assoc]
  rfl

theorem places_update (p : Fin cfg.nPartitions) (l e : List ℕ)
    (hmove : (e : Multiset ℕ) + l = s.empty + s.parts p) :
    (e : Multiset ℕ) + ∑ q, (update s.parts p l q : Multiset ℕ) = s.places := by
  have hsum := Runs.sum_update_of_mem (fun l : List ℕ => (l : Multiset ℕ)) s.parts
    (Finset.mem_univ p) l
  apply add_right_cancel (b := (s.parts p : Multiset ℕ))
  rw [add_assoc, hsum, State.places]
  calc (e : Multiset ℕ) + (∑ q, (s.parts q : Multiset ℕ) + l)
      = (e + l) + ∑ q, (s.parts q : Multiset ℕ) := by abel
    _ = s.empty + ∑ q, (s.parts q : Multiset ℕ) + s.parts p := by rw [hmove]; abel

theorem usedBlocks_update (p : Fin cfg.nPartitions) (l : List ℕ) :
    ∑ q, (update s.parts p l q).length + (s.parts p).length = s.usedBlocks + l.length :=
  Runs.sum_update_of_mem List.length s.parts (Finset.mem_univ p) l

theorem Invariant.not_mem_parts (h : Invariant s) (hb : block ∈ s.empty) (q : Fin cfg.nPartitions) :
    block ∉ s.parts q := by
  have hnodup : s.places.Nodup := h.accounted ▸ Multiset.nodup_range _
  obtain ⟨-, -, hdisj⟩ := Multiset.nodup_add.mp hnodup
  intro hq
  exact Multiset.disjoint_left.mp hdisj hb (Multiset.mem_sum.mpr ⟨q, Finset.mem_univ q, hq⟩)

theorem Invariant.not_mem_rest (h : Invariant s) (hp : s.parts p = block :: rest)
    (q : Fin cfg.nPartitions) : block ∉ update s.parts p rest q := by
  have hnodup : s.places.Nodup := h.accounted ▸ Multiset.nodup_range _
  have hmove : ((s.empty ++ [block] : List ℕ) : Multiset ℕ) + rest = s.empty + s.parts p := by
    rw [hp, coe_append_head]
  rw [← places_update p rest (s.empty ++ [block]) hmove] at hnodup
  obtain ⟨-, -, hdisj⟩ := Multiset.nodup_add.mp hnodup
  intro hq
  refine Multiset.disjoint_left.mp hdisj ?_ (Multiset.mem_sum.mpr ⟨q, Finset.mem_univ q, hq⟩)
  simp

theorem map_update_of_not_mem {l : List ℕ} (hb : block ∉ l) (content : ℕ → C) (c : C) :
    l.map (update content block c) = l.map content :=
  map_congr_left fun b hmem =>
    update_of_ne (fun hbb : b = block => hb (hbb ▸ hmem)) _ _

theorem Invariant.take (h : Invariant s)
    (hstep : s.getBlockInPartitionedBlockList p desc = some s') :
    s'.places = s.places ∧ (∀ q, s'.inserted q = s'.taken q ++ (s'.parts q).map s'.content) ∧
      s'.usedBlocks + 1 = s.usedBlocks ∧ s'.empty.length = s.empty.length + 1 ∧
      s'.calls = s.calls ∧ s'.lock = s.lock ∧ s'.emptySem = s.emptySem ∧
      s'.usedSem = s.usedSem := by
  unfold State.getBlockInPartitionedBlockList at hstep
  split at hstep
  · cases hstep
  · rename_i block rest hp
    cases hstep
    refine ⟨?_, fun q => ?_, ?_, by simp, rfl, rfl, rfl, rfl⟩
    · refine places_update p rest (s.empty ++ [block]) ?_
      rw [hp, coe_append_head]
    · show s.inserted q = _ ++ (update s.parts p rest q).map _
      rw [map_update_of_not_mem (h.not_mem_rest hp q), h.ordered q]
      by_cases hq : q = p
      · subst hq
        simp [hp]
      · simp only [update_of_ne hq]
    · have hsum := usedBlocks_update (s := s) p rest
      rw [hp, length_cons] at hsum
      simp only [State.usedBlocks] at hsum ⊢
      omega

theorem Invariant.put (h : Invariant s) (p : Fin cfg.nPartitions) (src : C)
    (hempty : s.empty = block :: rest) :
    (s.putBlock p src block rest).places = s.places ∧
      (∀ q, (s.putBlock p src block rest).inserted q = (s.putBlock p src block rest).taken q ++
        ((s.putBlock p src block rest).parts q).map (s.putBlock p src block rest).content) ∧
      (s.putBlock p src block rest).usedBlocks = s.usedBlocks + 1 := by
  have hnot : ∀ q, block ∉ s.parts q := h.not_mem_parts (by simp [hempty])
  refine ⟨?_, fun q => ?_, ?_⟩
  · refine places_update p (s.parts p ++ [block]) rest ?_
    rw [hempty, add_comm, coe_append_head, add_comm]
  · show update s.inserted p (s.inserted p ++ [src]) q = s.taken q ++
      (update s.parts p (s.parts p ++ [block]) q).map (update s.content block src)
    by_cases hq : q = p
    · subst hq
      simp only [update_self, map_append, map_cons, map_nil]
      rw [map_update_of_not_mem (hnot q), h.ordered q, append_assoc]
    · simp only [update_of_ne hq]
      rw [map_update_of_not_mem (hnot q), h.ordered q]
  · have hsum := usedBlocks_update (s := s) p (s.parts p ++ [block])
    rw [length_append, length_singleton] at hsum
    simp only [State.usedBlocks, State.putBlock] at hsum ⊢
    omega

/-- **A call for any partition finds one**, as it has waited for a block. -/
theorem Invariant.nonEmptyPartitions_ne_nil (h : Invariant s) (hk : k < cfg.callers)
    (hpc : s.calls k = .choosePartition) (hlock : s.lock = none) : s.nonEmptyPartitions ≠ [] := by
  have hone : 1 ≤ s.total Call.usedCredit := by
    have hle := le_total (s := s) Call.usedCredit hk
    rwa [hpc] at hle
  have hused := h.used
  rw [h.total_usedDebt hlock] at hused
  obtain ⟨p, -, hp⟩ : ∃ p ∈ Finset.univ, (s.parts p).length ≠ 0 := by
    apply Finset.exists_ne_zero_of_sum_ne_zero
    rw [State.usedBlocks] at hused
    omega
  have hmem : p ∈ s.nonEmptyPartitions := by
    have hne : s.parts p ≠ [] := fun hnil => hp (by rw [hnil]; rfl)
    simp [State.nonEmptyPartitions, hne]
  exact ne_nil_of_mem hmem

theorem Invariant.empty_ne_nil (h : Invariant s) (hk : k < cfg.callers) {src : C}
    (hpc : s.calls k = .putBlock src p) : s.empty ≠ [] := by
  have hone : 1 ≤ s.total Call.emptyCredit := by
    have hle := le_total (s := s) Call.emptyCredit hk
    rwa [hpc] at hle
  intro hnil
  have hempty := h.empty
  rw [hnil, length_nil] at hempty
  omega

/-! ### Whole steps -/

theorem begin_invariant (h : Invariant s) {r : Request cfg C} (hk : k < cfg.callers)
    (hstep : begin k r s = some s') : Invariant s' := by
  have goto : ∀ pc : Call cfg C, s.calls k = .idle → pc.usedDebt = 0 → pc.usedCredit = 0 →
      pc.emptyCredit = 0 → ¬pc.hasLock → ¬pc.broken → Invariant (s.goto k pc) := by
    intro pc hidle hdebt hcredit hempty hlock hbroken
    refine h.goto pc hk rfl rfl rfl rfl rfl rfl rfl ?_ ?_ ?_ hbroken
    · rw [hidle, hdebt, hcredit]
      rfl
    · rw [hidle, hempty]
      rfl
    · rw [hidle]
      exact iff_of_false hlock id
  unfold begin at hstep
  split at hstep
  · rename_i hidle
    split at hstep
    · cases hstep
      exact goto _ hidle rfl rfl rfl id id
    · cases hstep
  · rename_i hidle
    cases hstep
    exact goto .waitUsed hidle rfl rfl rfl id id
  · rename_i hidle
    cases hstep
    exact goto (.checkPartition _) hidle rfl rfl rfl id id
  · cases hstep

theorem callStep_invariant (h : Invariant s) {rand : ℕ} (hk : k < cfg.callers)
    (hstep : callStep k rand desc s = some s') : Invariant s' := by
  cases hpc : s.calls k <;> simp only [callStep, hpc] at hstep
  case waitEmpty src p =>
    obtain ⟨hpos, hstep⟩ := ite_none_left_eq_some.mp hstep
    cases hstep
    refine h.goto (.putBlock src p) hk rfl rfl rfl rfl rfl rfl rfl ?_ ?_ (by rw [hpc]; rfl) id
    · rw [hpc]
      rfl
    · simp only [hpc, Call.emptyCredit]
      omega
  case putBlock src p =>
    obtain ⟨hlock, hstep⟩ := ite_none_right_eq_some.mp hstep
    split at hstep
    · rename_i hnil
      exact absurd hnil (h.empty_ne_nil hk hpc)
    · rename_i block rest hempty
      cases hstep
      obtain ⟨hplaces, hord, hused⟩ := h.put p src hempty
      refine h.move .postUsed hk rfl hplaces hord ?_ ?_ ?_ (fun _ _ => Iff.rfl) id
      · show (s.putBlock p src block rest).usedBlocks + _ + _ = _
        rw [hused, hpc]
        simp only [Call.usedDebt, Call.usedCredit, State.goto, State.putBlock]
        omega
      · simp only [hpc, hempty, Call.emptyCredit, State.goto, State.putBlock, length_cons]
        omega
      · simp [Call.hasLock, State.goto, State.putBlock, hlock]
  case postUsed =>
    cases hstep
    refine h.goto .idle hk rfl rfl rfl rfl rfl rfl rfl ?_ (by rw [hpc]; rfl) (by rw [hpc]; rfl) id
    simp only [hpc, Call.usedDebt, Call.usedCredit]
  case waitUsed =>
    obtain ⟨hpos, hstep⟩ := ite_none_left_eq_some.mp hstep
    cases hstep
    refine h.goto .choosePartition hk rfl rfl rfl rfl rfl rfl rfl ?_ (by rw [hpc]; rfl)
      (by rw [hpc]; rfl) id
    simp only [hpc, Call.usedDebt, Call.usedCredit]
    omega
  case choosePartition =>
    obtain ⟨hlock, hstep⟩ := ite_none_right_eq_some.mp hstep
    split at hstep
    · -- the modulus is not zero, so the index is below the length
      rename_i hnone
      have hne := h.nonEmptyPartitions_ne_nil hk hpc hlock
      rw [List.getElem?_eq_none_iff] at hnone
      exact absurd (Nat.mod_lt rand (length_pos_of_ne_nil hne)) (Nat.not_lt.mpr hnone)
    · obtain ⟨s₁, hs₁, rfl⟩ := map_eq_some_iff.mp hstep
      obtain ⟨hplaces, hord, hused, hempty, hcalls, hl, hes, hus⟩ := h.take hs₁
      refine h.move .postEmpty hk ?_ hplaces hord ?_ ?_ ?_ ?_ id
      · simp only [State.goto, hcalls]
      · show s₁.usedBlocks + _ + _ = _
        simp only [hpc, Call.usedDebt, Call.usedCredit, State.goto, hus]
        omega
      · simp only [hpc, Call.emptyCredit, State.goto, hempty, hes]
        omega
      · simp [Call.hasLock, State.goto, hl, hlock]
      · intro j _
        simp only [State.goto, hl]
  case postEmpty =>
    cases hstep
    refine h.goto .idle hk rfl rfl rfl rfl rfl rfl rfl (by rw [hpc]; rfl) ?_ (by rw [hpc]; rfl) id
    simp only [hpc, Call.emptyCredit]
  case checkPartition p =>
    obtain ⟨-, hstep⟩ := ite_none_right_eq_some.mp hstep
    cases hstep
    split
    · exact h.goto .idle hk rfl rfl rfl rfl rfl rfl rfl (by rw [hpc]; rfl) (by rw [hpc]; rfl)
        (by rw [hpc]; rfl) id
    · exact h.goto (.takeBlock p) hk rfl rfl rfl rfl rfl rfl rfl (by rw [hpc]; rfl)
        (by rw [hpc]; rfl) (by rw [hpc]; rfl) id
  case takeBlock p =>
    obtain ⟨hlock, hstep⟩ := ite_none_right_eq_some.mp hstep
    obtain ⟨s₁, hs₁, rfl⟩ := map_eq_some_iff.mp hstep
    obtain ⟨hplaces, hord, hused, hempty, hcalls, hl, hes, hus⟩ := h.take hs₁
    refine h.move .waitUsedLocked hk ?_ hplaces hord ?_ ?_ ?_ ?_ id
    · simp only [State.goto, hcalls]
    · show s₁.usedBlocks + _ + _ = _
      simp only [hpc, Call.usedDebt, Call.usedCredit, State.goto, hus]
      omega
    · simp only [hpc, Call.emptyCredit, State.goto, hempty, hes]
      omega
    · exact iff_of_true trivial rfl
    · intro j hj
      rw [hlock]
      simp [Ne.symm hj]
  case waitUsedLocked =>
    obtain ⟨hpos, hstep⟩ := ite_none_left_eq_some.mp hstep
    cases hstep
    refine h.goto .postEmptyLocked hk rfl rfl rfl rfl rfl rfl rfl ?_ (by rw [hpc]; rfl)
      (by rw [hpc]; rfl) id
    simp only [hpc, Call.usedDebt, Call.usedCredit]
    omega
  case postEmptyLocked =>
    cases hstep
    have hmine : s.lock = some k := (h.lock k).mp (by rw [hpc]; trivial)
    refine h.move .idle hk rfl rfl h.ordered ?_ ?_ (iff_of_false id nofun) ?_ id
    · simp only [hpc, Call.usedDebt, Call.usedCredit, State.goto, State.usedBlocks]
      omega
    · simp only [hpc, Call.emptyCredit, State.goto]
      omega
    · intro j hj
      rw [hmine]
      simp [Ne.symm hj]
  all_goals cases hstep

theorem step_invariant (h : Invariant s) (hstep : Step s s') : Invariant s' := by
  obtain ⟨a, ha⟩ := hstep
  cases a with
  | begin k r =>
    obtain ⟨hk, ha⟩ := ite_none_right_eq_some.mp ha
    exact begin_invariant h hk ha
  | step k rand desc =>
    obtain ⟨hk, ha⟩ := ite_none_right_eq_some.mp ha
    exact callStep_invariant h hk ha

theorem reaches_invariant {content : ℕ → C}
    (hrun : Runs.Reaches Step (State.start cfg content) s) : Invariant s :=
  Runs.invariant (I := Invariant) (fun _ _ => step_invariant) hrun (start_invariant content)

theorem Invariant.lengths (h : Invariant s) : s.empty.length + s.usedBlocks = cfg.nBlocks := by
  have hcard := congrArg Multiset.card h.accounted
  rw [State.places, Multiset.card_add, Multiset.card_range, Multiset.card_sum] at hcard
  exact hcard

theorem Invariant.takes_any_block (h : Invariant s) (hk : k < cfg.callers)
    (hpc : s.calls k = .choosePartition) (hlock : s.lock = none) (rand : ℕ) (desc : C) :
    ∃ s', callStep k rand desc s = some s' ∧ s'.calls k = .postEmpty := by
  have hne := h.nonEmptyPartitions_ne_nil hk hpc hlock
  have hlt := Nat.mod_lt rand (length_pos_of_ne_nil hne)
  obtain ⟨p, hp⟩ : ∃ p, s.nonEmptyPartitions[rand % s.nonEmptyPartitions.length]? = some p :=
    ⟨_, getElem?_eq_getElem hlt⟩
  have hmem : p ∈ s.nonEmptyPartitions := mem_of_getElem? hp
  simp only [State.nonEmptyPartitions, mem_filter, Bool.not_eq_true',
    isEmpty_eq_false_iff] at hmem
  obtain ⟨block, rest, hparts⟩ := exists_cons_of_ne_nil hmem.2
  obtain ⟨s₁, hs₁⟩ : ∃ s₁, s.getBlockInPartitionedBlockList p desc = some s₁ := by
    simp only [State.getBlockInPartitionedBlockList, hparts]
    exact ⟨_, rfl⟩
  refine ⟨s₁.goto k .postEmpty, ?_, ?_⟩
  · simp only [callStep, hpc, hlock, hp, hs₁, if_true, map_some]
  · simp only [State.goto, update_self]

end

/-- **The partitioned buffer keeps its blocks**, each partition being a queue. -/
theorem partitioned_buffer_keeps_blocks (content : ℕ → C) {s : State cfg C}
    (hrun : Runs.Reaches Step (State.start cfg content) s) :
    s.places = Multiset.range cfg.nBlocks ∧ s.empty.length + s.usedBlocks = cfg.nBlocks ∧
      (∀ p, s.inserted p = s.taken p ++ (s.parts p).map s.content) ∧
      s.usedBlocks + s.total Call.usedDebt = s.usedSem + s.total Call.usedCredit ∧
      s.empty.length = s.emptySem + s.total Call.emptyCredit ∧ (∀ k, ¬(s.calls k).broken) ∧
      ∀ k < cfg.callers, s.calls k = .choosePartition → s.lock = none →
        s.nonEmptyPartitions.length ≠ 0 ∧
        ∀ rand desc, ∃ s', callStep k rand desc s = some s' ∧ s'.calls k = .postEmpty := by
  have h := reaches_invariant hrun
  refine ⟨h.accounted, h.lengths, h.ordered, h.used, h.empty, h.unbroken, ?_⟩
  intro k hk hpc hlock
  refine ⟨fun hzero => ?_, h.takes_any_block hk hpc hlock⟩
  exact h.nonEmptyPartitions_ne_nil hk hpc hlock (List.length_eq_zero_iff.mp hzero)

/-- Two blocks go into partition 1; calls for any partition and for that one take them. -/
def insertTwoTakeTwo : List (Action ⟨2, 2, 2⟩ ℕ) :=
  [.begin 0 (.insertBlockToPartitionedList 7 1), .step 0 0 0, .step 0 0 0, .step 0 0 0,
    .begin 0 (.insertBlockToPartitionedList 8 1), .step 0 0 0, .step 0 0 0, .step 0 0 0,
    .begin 1 .getAnyBlock, .step 1 5 0, .step 1 5 0, .step 1 5 0,
    .begin 1 (.getBlock 1), .step 1 0 0, .step 1 0 0, .step 1 0 0, .step 1 0 0]

theorem two_blocks_in_order : ∃ s : State ⟨2, 2, 2⟩ ℕ,
    Runs.Reaches Step (State.start ⟨2, 2, 2⟩ fun _ => 0) s ∧ s.taken 1 = [7, 8] ∧
      s.inserted 1 = s.taken 1 ++ (s.parts 1).map s.content := by
  obtain ⟨s, hs⟩ : ∃ s, insertTwoTakeTwo.foldlM step (State.start ⟨2, 2, 2⟩ fun _ => 0) = some s :=
    isSome_iff_exists.mp (by decide)
  have hend : (insertTwoTakeTwo.foldlM step (State.start ⟨2, 2, 2⟩ fun _ => 0)).map
      (fun s => s.taken 1) = some [7, 8] := by decide
  rw [hs, map_some, some.injEq] at hend
  have hreach : Runs.Reaches Step (State.start ⟨2, 2, 2⟩ fun _ => 0) s :=
    Runs.reaches_of_foldlM (fun _ a _ ha => ⟨a, ha⟩) hs
  exact ⟨s, hreach, hend, (partitioned_buffer_keeps_blocks (fun _ => 0) hreach).2.2.1 1⟩

end PartitionedBlockBuffer
