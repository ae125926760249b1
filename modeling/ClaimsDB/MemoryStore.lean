/-
The chunks held in memory, and the budget they are charged to.

When the budget refuses a new chunk, `ApplyChunk` evicts one and takes over its charge.  The free
memory, whether the pool can allocate, the random number and the order of the hash map are
arguments of the operations.

* **`budget_accounted`** — the budget is charged for the chunks held, and eviction finds one.
-/
import ClaimsDB.Faults
import ClaimsDB.Runs

namespace Storage

open List

@[irreducible] def chunkSize : ℕ := 64 * 1024 * 1024

def ulongAdd (a b : ℕ) : ℕ := if a + b < 2 ^ 64 then a + b else a + b - 2 ^ 64

def ulongSub (a b : ℕ) : ℕ := if b ≤ a then a - b else a + 2 ^ 64 - b

/-- `ChunkID`, for partitions identified by `P`. -/
abbrev ChunkID (P : Type) := P × ℕ

/-! ### The budget -/

/-- The part of `BufferManager` that is about storage. -/
structure BufferManager where
  storageUsed : ℕ
  /-- `storage_budget_max_ * memory_utilization / 100` -/
  limit : ℕ
  limit_lt : limit + chunkSize < 2 ^ 64

namespace BufferManager

/-- `applyStorageDedget`; `freeMemory` is what the system reports. -/
def applyStorageDedget (b : BufferManager) (size freeMemory : ℕ) : Option BufferManager :=
  if size ≤ freeMemory ∧ ulongAdd b.storageUsed size ≤ b.limit then
    some { b with storageUsed := ulongAdd b.storageUsed size }
  else none

def returnStorageBudget (b : BufferManager) (size : ℕ) : BufferManager :=
  { b with storageUsed := ulongSub b.storageUsed size }

variable {b : BufferManager} {size : ℕ}

theorem applyStorageDedget_eq_some {b' : BufferManager} {free : ℕ}
    (h : b.applyStorageDedget size free = some b') :
    b'.storageUsed = ulongAdd b.storageUsed size ∧ b'.limit = b.limit ∧
      b'.storageUsed ≤ b'.limit := by
  rw [applyStorageDedget] at h
  split_ifs at h with hc
  cases h
  exact ⟨rfl, rfl, hc.2⟩

end BufferManager

/-! ### The store -/

/-- `++` of an `int`, which starts again below zero where it overflows. -/
def intInc (n : ℤ) : ℤ := Int.bmod (n + 1) (2 ^ 32)

theorem intInc_eq {n : ℤ} (h₀ : 0 ≤ n) (h : n < 2 ^ 31 - 1) : intInc n = n + 1 := by
  rw [intInc, Int.bmod_def]
  omega

/-- `HdfsInMemoryChunk`; instead of the address, what is stored there. -/
structure HdfsInMemoryChunk (B : Type) where
  hook : List B
  length : ℤ
  /-- the calls of `ApplyChunk` since the last one for this chunk, in an `int` -/
  lifetime : ℤ
  deriving DecidableEq, Repr

/-- `FreeChunkLRU` and `FreeChunkRandom`. -/
inductive FreeChunk
  | lru
  | random
  deriving DecidableEq, Repr

abbrev ChunkList (P B : Type) := List (ChunkID P × HdfsInMemoryChunk B)

/-- What the environment decides during `ApplyChunk`. -/
structure Environment (P B : Type) where
  freeMemory : ℕ
  /-- `chunk_pool_.malloc()` returns memory -/
  poolAllocates : Bool
  rand : ℕ
  /-- the order in which `chunk_list_` is iterated -/
  iterate : ChunkList P B → ChunkList P B
  iterate_perm : ∀ l, (iterate l).Perm l

/-- `MemoryChunkStore` together with the budget it charges. -/
structure MemoryChunkStore (P B : Type) where
  chunkList : ChunkList P B
  fc : Option FreeChunk
  budget : BufferManager

namespace MemoryChunkStore

variable {P B : Type} [DecidableEq P]

def new (limit : ℕ) (h : limit + chunkSize < 2 ^ 64) : MemoryChunkStore P B :=
  ⟨[], none, ⟨0, limit, h⟩⟩

def holds (m : MemoryChunkStore P B) (c : ChunkID P) : Bool := m.chunkList.any (·.1 = c)

def wasteTime (l : ChunkList P B) : ChunkList P B :=
  l.map fun e => (e.1, { e.2 with lifetime := intInc e.2.lifetime })

/-- What `IsExist` does to the list: all chunks age, the one found is young again. -/
def isExist (m : MemoryChunkStore P B) (c : ChunkID P) : MemoryChunkStore P B :=
  { m with chunkList := (wasteTime m.chunkList).map fun e =>
      if e.1 = c then (e.1, { e.2 with lifetime := 0 }) else e }

/-- The chunk `FreeChunkLRU` chooses from the chunks in the order they are iterated. -/
def lruTarget : ChunkList P B → Option (ChunkID P)
  | [] => none
  | e :: l => some ((e :: l).foldl (fun target mei =>
      if target.2.lifetime ≤ mei.2.lifetime then mei else target) e).1

def randomTarget (rand : ℕ) (l : ChunkList P B) : Option (ChunkID P) :=
  (l[rand % l.length]?).map (·.1)

def erase (m : MemoryChunkStore P B) (c : ChunkID P) : MemoryChunkStore P B :=
  { m with chunkList := m.chunkList.eraseP (·.1 = c) }

/-- `fc_->WayOfFreeChunk()`: without a chunk `begin()` is not to be dereferenced. -/
def wayOfFreeChunk (m : MemoryChunkStore P B) (env : Environment P B) :
    Run (MemoryChunkStore P B) :=
  match m.fc with
  | none => .error .nullDeref
  | some fc =>
    let target := match fc with
      | .lru => lruTarget (env.iterate m.chunkList)
      | .random => randomTarget env.rand (env.iterate m.chunkList)
    match target with
    | none => .error .outOfBounds
    | some c => .ok (m.erase c)

/-- `HasEnoughMemory`, and `WayOfFreeChunk` if there is not enough. -/
def makeRoom (m : MemoryChunkStore P B) (env : Environment P B) : Run (MemoryChunkStore P B) :=
  match m.budget.applyStorageDedget chunkSize env.freeMemory with
  | some budget => .ok { m with budget }
  | none => m.wayOfFreeChunk env

def applyChunk (m : MemoryChunkStore P B) (c : ChunkID P) (env : Environment P B) :
    Run (MemoryChunkStore P B × Bool) :=
  if m.holds c then .ok (m.isExist c, false)
  else do
    let m ← (m.isExist c).makeRoom env
    if env.poolAllocates then
      .ok ({ m with chunkList := m.chunkList ++ [(c, ⟨[], chunkSize, 0⟩)] }, true)
    else .ok (m, false)

def returnChunk (m : MemoryChunkStore P B) (c : ChunkID P) : MemoryChunkStore P B :=
  if m.holds c then
    { m.erase c with budget := m.budget.returnStorageBudget chunkSize }
  else m

def getChunk (m : MemoryChunkStore P B) (c : ChunkID P) : Option (HdfsInMemoryChunk B) :=
  (m.chunkList.find? (·.1 = c)).map (·.2)

def updateChunkInfo (m : MemoryChunkStore P B) (c : ChunkID P) (info : HdfsInMemoryChunk B) :
    MemoryChunkStore P B :=
  { m with chunkList := m.chunkList.map fun e => if e.1 = c then (e.1, info) else e }

def putChunk (m : MemoryChunkStore P B) (c : ChunkID P) (info : HdfsInMemoryChunk B) :
    MemoryChunkStore P B × Bool :=
  if m.holds c then (m, false)
  else ({ m with chunkList := m.chunkList ++ [(c, info)] }, true)

def setFreeAlgorithm (m : MemoryChunkStore P B) (flag : ℕ) : MemoryChunkStore P B :=
  { m with fc := some (if flag = 1 then .lru else .random) }

/-! ### What the operations do -/

def chunks (m : MemoryChunkStore P B) : List (ChunkID P) := m.chunkList.map (·.1)

omit [DecidableEq P] in
theorem length_chunks (m : MemoryChunkStore P B) : m.chunks.length = m.chunkList.length :=
  length_map _

variable {m : MemoryChunkStore P B} {c : ChunkID P} {l : ChunkList P B}
  {m' : MemoryChunkStore P B} {env : Environment P B}

theorem holds_iff : m.holds c = true ↔ c ∈ m.chunks := by
  simp [holds, chunks]

@[simp] theorem isExist_chunks (m : MemoryChunkStore P B) (c : ChunkID P) :
    (m.isExist c).chunks = m.chunks := by
  simp only [chunks, isExist, wasteTime, map_map]
  refine map_congr_left fun e _ => ?_
  simp only [Function.comp_apply]
  split_ifs <;> rfl

@[simp] theorem isExist_budget (m : MemoryChunkStore P B) (c : ChunkID P) :
    (m.isExist c).budget = m.budget := rfl

theorem erase_chunks (m : MemoryChunkStore P B) (c : ChunkID P) :
    (m.erase c).chunks = m.chunks.eraseP (· = c) := by
  simp only [chunks, erase, eraseP_map]
  rfl

theorem length_erase (h : c ∈ m.chunks) : (m.erase c).chunks.length + 1 = m.chunks.length := by
  have hpos : 0 < m.chunks.length := length_pos_of_mem h
  rw [erase_chunks, length_eraseP_of_mem h (by simp)]
  omega

omit [DecidableEq P] in
theorem foldl_lifetime_mem {l' : ChunkList P B} : ∀ {l : ChunkList P B}
    {e : ChunkID P × HdfsInMemoryChunk B}, e ∈ l' → (∀ x ∈ l, x ∈ l') →
    l.foldl (fun target mei => if target.2.lifetime ≤ mei.2.lifetime then mei else target) e ∈ l'
  | [], _, he, _ => he
  | x :: l, e, he, hl => by
    rw [foldl_cons]
    refine foldl_lifetime_mem ?_ fun y hy => hl y (by simp [hy])
    split_ifs
    · exact hl x (by simp)
    · exact he

omit [DecidableEq P] in
theorem lruTarget_mem (h : lruTarget l = some c) : c ∈ l.map (·.1) := by
  cases l with
  | nil => cases h
  | cons e l =>
    rw [← Option.some.inj h]
    exact mem_map_of_mem (foldl_lifetime_mem (by simp) fun x hx => hx)

omit [DecidableEq P] in
theorem randomTarget_mem {rand : ℕ} (h : randomTarget rand l = some c) : c ∈ l.map (·.1) := by
  obtain ⟨e, he, rfl⟩ := Option.map_eq_some_iff.mp h
  exact mem_map_of_mem (mem_of_getElem? he)

theorem wayOfFreeChunk_eq_ok (h : m.wayOfFreeChunk env = .ok m') :
    ∃ c ∈ m.chunks, m' = m.erase c := by
  have hmem : ∀ {c}, c ∈ (env.iterate m.chunkList).map (·.1) → c ∈ m.chunks := fun hc =>
    ((env.iterate_perm m.chunkList).map _).mem_iff.mp hc
  rw [wayOfFreeChunk] at h
  split at h
  · cases h
  · rename_i fc _
    dsimp only at h
    split at h
    · cases h
    · rename_i c hc
      refine ⟨c, hmem ?_, (Except.ok.inj h).symm⟩
      cases fc with
      | lru => exact lruTarget_mem hc
      | random => exact randomTarget_mem hc

/-- Room for one more chunk: the budget has been charged, or a chunk has been evicted. -/
inductive Room (m : MemoryChunkStore P B) (env : Environment P B) : MemoryChunkStore P B → Prop
  | charged {budget} (h : m.budget.applyStorageDedget chunkSize env.freeMemory = some budget) :
      Room m env { m with budget }
  | evicted {c : ChunkID P} (h : m.budget.applyStorageDedget chunkSize env.freeMemory = none)
      (hc : c ∈ m.chunks) : Room m env (m.erase c)

theorem makeRoom_eq_ok (h : m.makeRoom env = .ok m') : Room m env m' := by
  rw [makeRoom] at h
  split at h
  · rename_i budget hb
    rw [← Except.ok.inj h]
    exact .charged hb
  · rename_i hb
    obtain ⟨c, hc, rfl⟩ := wayOfFreeChunk_eq_ok h
    exact .evicted hb hc

/-- **All that `ApplyChunk` can do**: refuse a chunk that it holds, or make room and then take
the chunk if the pool allocates. -/
theorem applyChunk_cases {r : Bool} (h : m.applyChunk c env = .ok (m', r)) :
    (c ∈ m.chunks ∧ m' = m.isExist c ∧ r = false) ∨
    (c ∉ m.chunks ∧ ∃ m₁, Room (m.isExist c) env m₁ ∧
      (env.poolAllocates = true ∧ r = true ∧
          m' = { m₁ with chunkList := m₁.chunkList ++ [(c, ⟨[], chunkSize, 0⟩)] } ∨
        env.poolAllocates = false ∧ r = false ∧ m' = m₁)) := by
  rw [applyChunk] at h
  by_cases hc : m.holds c = true
  · rw [if_pos hc] at h
    obtain ⟨rfl, rfl⟩ := Prod.mk.inj (Except.ok.inj h)
    exact .inl ⟨holds_iff.mp hc, rfl, rfl⟩
  · rw [if_neg hc] at h
    refine .inr ⟨fun hmem => hc (holds_iff.mpr hmem), ?_⟩
    cases hroom : (m.isExist c).makeRoom env with
    | error e =>
      rw [hroom] at h
      cases h
    | ok m₁ =>
      refine ⟨m₁, makeRoom_eq_ok hroom, ?_⟩
      rw [hroom, Run.bind_ok] at h
      by_cases hp : env.poolAllocates = true
      · rw [if_pos hp] at h
        obtain ⟨rfl, rfl⟩ := Prod.mk.inj (Except.ok.inj h)
        exact .inl ⟨hp, rfl, rfl⟩
      · rw [if_neg hp] at h
        obtain ⟨rfl, rfl⟩ := Prod.mk.inj (Except.ok.inj h)
        exact .inr ⟨by simpa using hp, rfl, rfl⟩

theorem applyChunk_of_granted {budget : BufferManager} (hc : c ∉ m.chunks)
    (hb : m.budget.applyStorageDedget chunkSize env.freeMemory = some budget) :
    m.applyChunk c env = .ok (if env.poolAllocates then
        ({ m.isExist c with
            chunkList := (m.isExist c).chunkList ++ [(c, ⟨[], chunkSize, 0⟩)], budget }, true)
      else ({ m.isExist c with budget }, false)) := by
  have hroom : (m.isExist c).makeRoom env = .ok { m.isExist c with budget } := by
    rw [makeRoom, isExist_budget, hb]
  rw [applyChunk, if_neg (fun h => hc (holds_iff.mp h)), hroom, Run.bind_ok]
  split_ifs <;> rfl

end MemoryChunkStore

/-! ### Accounting -/

open MemoryChunkStore

variable {P B : Type} [DecidableEq P]

inductive StoreOp (P B : Type)
  | applyChunk (c : ChunkID P) (env : Environment P B)
  | returnChunk (c : ChunkID P)
  | putChunk (c : ChunkID P) (info : HdfsInMemoryChunk B)
  | setFreeAlgorithm (flag : ℕ)

def StoreOp.run (m : MemoryChunkStore P B) : StoreOp P B → Run (MemoryChunkStore P B)
  | .applyChunk c env => (m.applyChunk c env).map (·.1)
  | .returnChunk c => .ok (m.returnChunk c)
  | .putChunk c info => .ok (m.putChunk c info).1
  | .setFreeAlgorithm flag => .ok (m.setFreeAlgorithm flag)

/-- The amount charged at the `BufferManager` is that of the chunks in memory. -/
def Charged (m : MemoryChunkStore P B) : Prop :=
  m.budget.storageUsed = chunkSize * m.chunkList.length

/-- `ApplyChunk` comes to the call of `WayOfFreeChunk`. -/
def AttemptsEviction (m : MemoryChunkStore P B) (c : ChunkID P) (env : Environment P B) : Prop :=
  c ∉ m.chunks ∧ m.budget.applyStorageDedget chunkSize env.freeMemory = none

/-- New chunks can be allocated, the first one has room, and `PutChunk` adds no chunk. -/
def Allowed (m : MemoryChunkStore P B) : StoreOp P B → Prop
  | .applyChunk c env => c ∈ m.chunks ∨ env.poolAllocates = true ∧
      (m.chunkList = [] → chunkSize ≤ env.freeMemory ∧ chunkSize ≤ m.budget.limit)
  | .putChunk c _ => c ∈ m.chunks
  | .returnChunk _ => True
  | .setFreeAlgorithm _ => True

def AllowedStep (m m' : MemoryChunkStore P B) : Prop := ∃ op, Allowed m op ∧ op.run m = .ok m'

structure Solvent (m : MemoryChunkStore P B) : Prop where
  charged : m.budget.storageUsed = chunkSize * m.chunks.length
  within : m.budget.storageUsed ≤ m.budget.limit

omit [DecidableEq P] in
theorem Solvent.new {limit : ℕ} (h : limit + chunkSize < 2 ^ 64) :
    Solvent (MemoryChunkStore.new limit h : MemoryChunkStore P B) :=
  ⟨rfl, Nat.zero_le _⟩

variable {m m' : MemoryChunkStore P B}

omit [DecidableEq P] in
theorem Solvent.add_mod (h : Solvent m) :
    ulongAdd m.budget.storageUsed chunkSize = m.budget.storageUsed + chunkSize := by
  have hw := h.within
  have hl := m.budget.limit_lt
  exact if_pos (by omega)

theorem Solvent.applyChunk (h : Solvent m) {c : ChunkID P} {env : Environment P B} {r : Bool}
    (hc : c ∈ m.chunks ∨ env.poolAllocates = true) (hm : m.applyChunk c env = .ok (m', r)) :
    Solvent m' := by
  rcases applyChunk_cases hm with ⟨-, rfl, -⟩ | ⟨hnew, m₁, hroom, hcases⟩
  · exact ⟨by rw [isExist_budget, isExist_chunks]; exact h.charged, h.within⟩
  · rcases hcases with ⟨-, -, rfl⟩ | ⟨hp, -⟩
    swap
    · simp [hnew, hp] at hc
    -- the new chunk is charged for, or it takes over the charge of the evicted one
    have hroom' : m₁.budget.storageUsed = chunkSize * (m₁.chunks.length + 1) ∧
        m₁.budget.storageUsed ≤ m₁.budget.limit := by
      cases hroom with
      | @charged b hb =>
        obtain ⟨hused, -, hle⟩ := BufferManager.applyStorageDedget_eq_some hb
        have hlen : ({ m.isExist c with budget := b } : MemoryChunkStore P B).chunks = m.chunks :=
          isExist_chunks m c
        refine ⟨?_, hle⟩
        rw [hlen, Nat.mul_add, Nat.mul_one, ← h.charged]
        rw [isExist_budget, h.add_mod] at hused
        exact hused
      | evicted hb hmem =>
        refine ⟨?_, h.within⟩
        rw [length_erase hmem, isExist_chunks]
        exact h.charged
    refine ⟨?_, hroom'.2⟩
    rw [hroom'.1]
    simp [chunks]

theorem Solvent.returnChunk (h : Solvent m) (c : ChunkID P) : Solvent (m.returnChunk c) := by
  rw [MemoryChunkStore.returnChunk]
  split_ifs with hc
  · have hch := h.charged
    have hw := h.within
    rw [← length_erase (holds_iff.mp hc), Nat.mul_add, Nat.mul_one] at hch
    have hused : (m.budget.returnStorageBudget chunkSize).storageUsed =
        m.budget.storageUsed - chunkSize := if_pos (by omega)
    have hlimit : (m.budget.returnStorageBudget chunkSize).limit = m.budget.limit := rfl
    generalize m.budget.returnStorageBudget chunkSize = budget at hused hlimit ⊢
    refine ⟨?_, ?_⟩
    · show budget.storageUsed = chunkSize * (m.erase c).chunks.length
      omega
    · show budget.storageUsed ≤ budget.limit
      omega
  · exact h

theorem Solvent.step {m m' : MemoryChunkStore P B} (h : Solvent m) (hs : AllowedStep m m') :
    Solvent m' := by
  obtain ⟨op, hop, hrun⟩ := hs
  cases op with
  | applyChunk c env =>
    obtain ⟨⟨m₁, r⟩, hm₁, rfl⟩ := Run.map_eq_ok hrun
    exact h.applyChunk (hop.imp_right And.left) hm₁
  | returnChunk c =>
    rw [← Except.ok.inj hrun]
    exact h.returnChunk c
  | putChunk c info =>
    have hmem : m.holds c = true := holds_iff.mpr hop
    rw [← Except.ok.inj hrun, putChunk, if_pos hmem]
    exact h
  | setFreeAlgorithm flag =>
    rw [← Except.ok.inj hrun]
    exact ⟨h.charged, h.within⟩

/-- **The accounts** in every state reached by allowed operations. -/
theorem budget_accounted {limit : ℕ} {hlimit : limit + chunkSize < 2 ^ 64}
    {m : MemoryChunkStore P B} (hm : Runs.Reaches AllowedStep (MemoryChunkStore.new limit hlimit) m) :
    Charged m ∧ ∀ c env, Allowed m (.applyChunk c env) → AttemptsEviction m c env →
      m.chunkList ≠ [] := by
  have h : Solvent m := Runs.invariant (fun _ _ h hs => h.step hs) hm (.new hlimit)
  refine ⟨by rw [Charged, ← length_chunks]; exact h.charged, ?_⟩
  rintro c env hallowed ⟨hnew, hrefused⟩ hnil
  obtain ⟨-, hfits⟩ := hallowed.resolve_left hnew
  obtain ⟨hfree, hlim⟩ := hfits hnil
  -- nothing is charged yet, so the budget does not refuse
  have hzero : m.budget.storageUsed = 0 := by rw [h.charged, length_chunks, hnil]; rfl
  have hadd := h.add_mod
  rw [BufferManager.applyStorageDedget, hadd, hzero, Nat.zero_add, if_pos ⟨hfree, hlim⟩] at hrefused
  cases hrefused

def Environment.withMemory (freeMemory : ℕ) (poolAllocates : Bool) : Environment ℕ ℕ :=
  ⟨freeMemory, poolAllocates, 0, id, fun _ => .refl _⟩

theorem sixteenChunks_fit : 2 ^ 30 + chunkSize < 2 ^ 64 := by
  simp [chunkSize]

def sixteenChunks : MemoryChunkStore ℕ ℕ := .new (2 ^ 30) sixteenChunks_fit

theorem sixteenChunks_grant (poolAllocates : Bool) :
    sixteenChunks.budget.applyStorageDedget chunkSize
        (Environment.withMemory (2 ^ 40) poolAllocates).freeMemory
      = some { sixteenChunks.budget with storageUsed := chunkSize } := by
  simp [BufferManager.applyStorageDedget, sixteenChunks, MemoryChunkStore.new, chunkSize,
    Environment.withMemory, ulongAdd]

/-- One chunk is charged; a second one for which there is no memory finds it to evict. -/
theorem budget_accounted_one : ∃ m, Runs.Reaches AllowedStep sixteenChunks m ∧
    m.chunks = [(0, 0)] ∧ Charged m ∧ AttemptsEviction m (0, 1) (.withMemory 0 true) ∧
      m.chunkList ≠ [] := by
  have hnew : ((0, 0) : ChunkID ℕ) ∉ sixteenChunks.chunks := not_mem_nil
  have hrun := applyChunk_of_granted hnew (sixteenChunks_grant true)
  have hallowed : Allowed sixteenChunks (.applyChunk (0, 0) (.withMemory (2 ^ 40) true)) :=
    .inr ⟨rfl, fun _ => by simp [Environment.withMemory, sixteenChunks, chunkSize,
      MemoryChunkStore.new]⟩
  obtain ⟨m, hreach, hchunks⟩ : ∃ m, Runs.Reaches AllowedStep sixteenChunks m ∧
      m.chunks = [(0, 0)] :=
    ⟨_, .single ⟨_, hallowed, by rw [StoreOp.run, hrun]; exact rfl⟩, rfl⟩
  obtain ⟨hcharged, hevict⟩ := budget_accounted hreach
  have hattempt : AttemptsEviction m (0, 1) (.withMemory 0 true) :=
    ⟨by rw [hchunks]; decide,
      if_neg fun h => absurd h.1 (by simp [Environment.withMemory, chunkSize])⟩
  refine ⟨m, hreach, hchunks, hcharged, hattempt, hevict _ _ (.inr ⟨rfl, fun hnil => ?_⟩) hattempt⟩
  simp [MemoryChunkStore.chunks, hnil] at hchunks

/-- A chunk put without charge, a charge left behind, an eviction without a chunk. -/
theorem budget_not_accounted :
    (∃ m, (StoreOp.putChunk (0, 0) ⟨[], chunkSize, 0⟩).run sixteenChunks = .ok m ∧
      m.budget.storageUsed = 0 ∧ m.chunkList.length = 1 ∧ ¬ Charged m) ∧
    (∃ m, (StoreOp.applyChunk (0, 0) (.withMemory (2 ^ 40) false)).run sixteenChunks = .ok m ∧
      m.budget.storageUsed = chunkSize ∧ m.chunkList = [] ∧ ¬ Charged m) ∧
    AttemptsEviction sixteenChunks (0, 0) (.withMemory 0 true) ∧ sixteenChunks.chunkList = [] ∧
    (StoreOp.applyChunk (0, 0) (.withMemory 0 true)).run (sixteenChunks.setFreeAlgorithm 1)
      = .error .outOfBounds := by
  have hpos : chunkSize ≠ 0 := by simp [chunkSize]
  have hnew : ((0, 0) : ChunkID ℕ) ∉ sixteenChunks.chunks := not_mem_nil
  have hgranted : (StoreOp.applyChunk (0, 0) (.withMemory (2 ^ 40) false)).run sixteenChunks
      = .ok { sixteenChunks.isExist (0, 0) with
          budget := { sixteenChunks.budget with storageUsed := chunkSize } } := by
    rw [StoreOp.run, applyChunk_of_granted hnew (sixteenChunks_grant false)]
    rfl
  have hrefused : (StoreOp.applyChunk (0, 0) (.withMemory 0 true)).run
      (sixteenChunks.setFreeAlgorithm 1) = .error .outOfBounds := by
    have hroom : ((sixteenChunks.setFreeAlgorithm 1).isExist (0, 0)).makeRoom (.withMemory 0 true)
        = .error .outOfBounds := by
      rw [makeRoom, isExist_budget, setFreeAlgorithm, BufferManager.applyStorageDedget, chunkSize, Environment.withMemory]
      rfl
    have hholds : (sixteenChunks.setFreeAlgorithm 1).holds (0, 0) = false := rfl
    rw [StoreOp.run, applyChunk, hholds, if_neg Bool.false_ne_true, hroom]
    rfl
  refine ⟨⟨_, rfl, rfl, rfl, fun h => hpos ?_⟩, ⟨_, hgranted, rfl, rfl, fun h => hpos ?_⟩,
    ⟨hnew, (by simp [BufferManager.applyStorageDedget, chunkSize, Environment.withMemory])⟩, rfl, hrefused⟩
  · exact (h.trans (Nat.mul_one _)).symm
  · exact h.trans (Nat.mul_zero _)

end Storage
