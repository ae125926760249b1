/-
Collecting the entries of an index.

The threads of `bottomLayerCollecting` share the iterator of the current chunk, two counters from
which blocks are numbered, and the list of blocks that were left; apart from the sections under a
lock they interleave in any way.
-/
import ClaimsDB.PartitionScan

namespace IndexBuilding

open Storage

variable {Tuple Key : Type}

/-- `memory c k` is the block at `start_ + k * block_size_` of chunk `c`, or behind its blocks. -/
structure Partition (Tuple : Type) where
  numberOfChunks : ℕ
  blocks : ℕ → ℕ
  memory : ℕ → ℕ → List Tuple

/-- An entry: chunk offset, key, block offset and tuple offset. -/
abbrev Entry (Key : Type) : Type := ℕ × Key × ℕ × ℕ

/-- `remaining_block`, with the tuples that its iterator has not passed. -/
structure RemainingBlock (Tuple : Type) where
  tuples : List Tuple
  chunkOffset : ℕ
  blockOffset : ℕ
  tupleOffset : ℕ

/-- The locked section of `InMemoryChunkReaderItetaor::NextBlock`. -/
def nextBlock (it : ChunkReaderIterator) : Option ChunkReaderIterator :=
  if it.numberOfBlocks ≤ it.curBlock then none else some { it with curBlock := it.curBlock + 1 }

/-! ### Threads -/

/-- Where a thread is in `Next` and `askForNextBlock`, with the entries in its output block. -/
inductive Pc (Tuple Key : Type)
  | call
  | fill (rb : RemainingBlock Tuple) (out : List (Entry Key))
  | ask (out : List (Entry Key))
  /-- calls `NextBlock` on it -/
  | nextBlock (out : List (Entry Key))
  /-- computes the address from `cur_block_` of the iterator, for the first block of a chunk or a
  later one -/
  | address (it : ℕ) (first : Bool) (out : List (Entry Key))
  /-- reads `chunk_offset_` -/
  | numberChunk (tuples : List Tuple) (out : List (Entry Key))
  /-- increments `block_offset_` -/
  | numberBlock (tuples : List Tuple) (chunkOffset : ℕ) (out : List (Entry Key))
  | nextChunk (out : List (Entry Key))
  | opened (out : List (Entry Key))
  /-- calls `NextBlock` for its first block -/
  | firstBlock (out : List (Entry Key))
  /-- increments `chunk_offset_` -/
  | newChunk (tuples : List Tuple) (out : List (Entry Key))
  /-- `Next` has returned false -/
  | finished

/-- What the threads share, where they are, and what was read and produced so far. -/
structure State (Tuple Key : Type) where
  iterators : List ChunkReaderIterator
  chunkReaderIterator : Option ℕ
  chunkCur : ℕ
  chunkOffset : ℕ
  blockOffset : ℕ
  remaining : List (RemainingBlock Tuple)
  pcs : ℕ → Pc Tuple Key
  reads : List BlockRef
  entries : List (Entry Key)

def State.new : State Tuple Key := ⟨[], none, 0, 0, 0, [], fun _ => .call, [], []⟩

def State.goto (s : State Tuple Key) (t : ℕ) (pc : Pc Tuple Key) : State Tuple Key :=
  { s with pcs := Function.update s.pcs t pc }

/-- The operator: the partition, the key column, and how many entries an output block holds. -/
structure Operator (Tuple Key : Type) where
  partition : Partition Tuple
  key : Tuple → Key
  capacity : ℕ

/-- One step of thread `t`; there is none after a null pointer has been followed. -/
def threadStep (op : Operator Tuple Key) (s : State Tuple Key) (t : ℕ) :
    Option (State Tuple Key) :=
  match s.pcs t with
  | .call =>
    match s.remaining with
    | [] => some (s.goto t (.ask []))
    | rb :: rest => some ({ s with remaining := rest }.goto t (.fill rb []))
  | .fill rb out =>
    match rb.tuples with
    | [] => some (s.goto t (.ask out))
    | tuple :: tuples =>
      if out.length < op.capacity then
        let entry := (rb.chunkOffset, op.key tuple, rb.blockOffset, rb.tupleOffset)
        some (s.goto t (.fill { rb with
          tuples := tuples, tupleOffset := (rb.tupleOffset + 1) % 2 ^ 16 } (out ++ [entry])))
      else
        some ({ s with
          remaining := s.remaining ++ [rb], entries := s.entries ++ out }.goto t .call)
  | .ask out =>
    match s.chunkReaderIterator with
    | none => some (s.goto t (.nextChunk out))
    | some _ => some (s.goto t (.nextBlock out))
  | .nextBlock out =>
    s.chunkReaderIterator.bind fun i => s.iterators[i]?.map fun it =>
      match nextBlock it with
      | none => s.goto t (.nextChunk out)
      | some it' => { s with iterators := s.iterators.set i it' }.goto t (.address i false out)
  | .address i first out =>
    s.iterators[i]?.map fun it =>
      let tuples := op.partition.memory it.chunkOff it.curBlock
      { s with reads := s.reads ++ [(it.chunkOff, it.curBlock)] }.goto t
        (if first then .newChunk tuples out else .numberChunk tuples out)
  | .numberChunk tuples out => some (s.goto t (.numberBlock tuples s.chunkOffset out))
  | .numberBlock tuples chunkOffset out =>
    let blockOffset := (s.blockOffset + 1) % 2 ^ 16
    some ({ s with blockOffset := blockOffset }.goto t
      (.fill ⟨tuples, chunkOffset, blockOffset, 0⟩ out))
  | .nextChunk out =>
    if s.chunkCur < op.partition.numberOfChunks then
      let it : ChunkReaderIterator := ⟨s.chunkCur, op.partition.blocks s.chunkCur, 0⟩
      some ({ s with
        iterators := s.iterators ++ [it]
        chunkReaderIterator := some s.iterators.length
        chunkCur := s.chunkCur + 1 }.goto t (.opened out))
    else some ({ s with chunkReaderIterator := none }.goto t (.opened out))
  | .opened out =>
    match s.chunkReaderIterator with
    | some _ => some (s.goto t (.firstBlock out))
    | none =>
      if out = [] then some (s.goto t .finished)
      else some ({ s with entries := s.entries ++ out }.goto t .call)
  | .firstBlock out =>
    s.chunkReaderIterator.bind fun i => s.iterators[i]?.map fun it =>
      match nextBlock it with
      -- what `NextBlock` returns is not looked at
      | none => s.goto t (.newChunk [] out)
      | some it' => { s with iterators := s.iterators.set i it' }.goto t (.address i true out)
  | .newChunk tuples out =>
    some ({ s with chunkOffset := s.chunkOffset + 1, blockOffset := 0 }.goto t
      (.fill ⟨tuples, s.chunkOffset + 1, 0, 0⟩ out))
  | .finished => none

def Step (op : Operator Tuple Key) (s s' : State Tuple Key) : Prop :=
  ∃ t, threadStep op s t = some s'

/-! ### What is read -/

def Partition.allBlocks (p : Partition Tuple) : List BlockRef :=
  (List.range p.numberOfChunks).flatMap (chunkBlocks p.blocks)

def Operator.allEntries (op : Operator Tuple Key) : List (Entry Key) :=
  op.partition.allBlocks.flatMap fun (c, k) =>
    (op.partition.memory c k).zipIdx.map fun (tuple, i) => (c, op.key tuple, k, i)

/-- Every block was read once, and every stored tuple has its true position. -/
def TruePositions (op : Operator Tuple Key) (s : State Tuple Key) : Prop :=
  s.reads.Perm op.partition.allBlocks ∧ s.entries.Perm op.allEntries

def Partition.NothingStored (p : Partition Tuple) : Prop := ∀ c < p.numberOfChunks, p.blocks c = 0

def Pc.Blank : Pc Tuple Key → Prop
  | .call => True
  | .fill rb out => rb.tuples = [] ∧ out = []
  | .ask out => out = []
  | .nextBlock out => out = []
  | .address _ _ _ => False
  | .numberChunk tuples out => tuples = [] ∧ out = []
  | .numberBlock tuples _ out => tuples = [] ∧ out = []
  | .nextChunk out => out = []
  | .opened out => out = []
  | .firstBlock out => out = []
  | .newChunk tuples out => tuples = [] ∧ out = []
  | .finished => True

structure Blank (s : State Tuple Key) : Prop where
  iterators : ∀ it ∈ s.iterators, it.numberOfBlocks = 0
  reads : s.reads = []
  entries : s.entries = []
  remaining : ∀ rb ∈ s.remaining, rb.tuples = []
  pcs : ∀ t, (s.pcs t).Blank

/-- `cur_block_` is not 0 any more; and where nothing is stored nothing has been found. -/
structure Invariant (op : Operator Tuple Key) (s : State Tuple Key) : Prop where
  reads : ∀ r ∈ s.reads, r.2 ≠ 0
  address : ∀ t i first out, s.pcs t = .address i first out →
    ∃ it : ChunkReaderIterator, s.iterators[i]? = some it ∧ it.curBlock ≠ 0
  blank : op.partition.NothingStored → Blank s

theorem new_invariant (op : Operator Tuple Key) : Invariant op State.new where
  reads _ h := by cases h
  address _ _ _ _ h := by cases h
  blank _ := ⟨nofun, rfl, rfl, nofun, fun _ => trivial⟩

variable {op : Operator Tuple Key} {s s' : State Tuple Key} {t : ℕ}

theorem goto_pcs {P : ℕ → Pc Tuple Key → Prop} {pcs : ℕ → Pc Tuple Key} {pc : Pc Tuple Key}
    (hpc : P t pc) (hrest : ∀ u, u ≠ t → P u (pcs u)) (u : ℕ) :
    P u (Function.update pcs t pc u) := by
  by_cases hu : u = t
  · subst hu
    rwa [Function.update_self]
  · rw [Function.update_of_ne hu]
    exact hrest u hu

theorem Invariant.move (h : Invariant op s) {pc : Pc Tuple Key}
    (hit : s'.iterators = s.iterators) (hreads : s'.reads = s.reads)
    (hpcs : s'.pcs = Function.update s.pcs t pc) (hpc : ∀ i first out, pc ≠ .address i first out)
    (hblank : op.partition.NothingStored → s'.entries = [] ∧
      (∀ rb ∈ s'.remaining, rb.tuples = []) ∧ pc.Blank) : Invariant op s' where
  reads := hreads ▸ h.reads
  address u := by
    rw [hpcs, hit]
    refine goto_pcs (P := fun _ pc => ∀ i first out, pc = .address i first out →
      ∃ it : ChunkReaderIterator, s.iterators[i]? = some it ∧ it.curBlock ≠ 0)
      (fun i first out heq => absurd heq (hpc i first out)) (fun v _ => h.address v) u
  blank hnone := by
    obtain ⟨hentries, hremaining, hpc⟩ := hblank hnone
    have hs := h.blank hnone
    exact ⟨hit ▸ hs.iterators, hreads ▸ hs.reads, hentries, hremaining,
      hpcs ▸ goto_pcs hpc fun v _ => hs.pcs v⟩

theorem Invariant.advance (h : Invariant op s) {i : ℕ} {it it' : ChunkReaderIterator}
    (hi : s.iterators[i]? = some it) (hnext : nextBlock it = some it') (first : Bool)
    (out : List (Entry Key)) :
    Invariant op ({ s with iterators := s.iterators.set i it' }.goto t (.address i first out)) := by
  have hlt := (List.getElem?_eq_some_iff.mp hi).1
  obtain ⟨hblocks, hnext⟩ := Option.ite_none_left_eq_some.mp hnext
  cases hnext
  refine ⟨h.reads, fun u => ?_, fun hnone => ?_⟩
  · refine goto_pcs (P := fun _ pc => ∀ j first out, pc = .address j first out →
      ∃ it₁ : ChunkReaderIterator, (s.iterators.set i { it with curBlock := it.curBlock + 1 })[j]?
        = some it₁ ∧ it₁.curBlock ≠ 0) ?_ ?_ u
    · intro j first out heq
      cases heq
      exact ⟨_, List.getElem?_set_self hlt, Nat.succ_ne_zero _⟩
    · intro v _ j first out heq
      by_cases hij : i = j
      · subst hij
        exact ⟨_, List.getElem?_set_self hlt, Nat.succ_ne_zero _⟩
      · rw [List.getElem?_set_ne hij]
        exact h.address v j first out heq
  · have hzero := (h.blank hnone).iterators it (List.mem_of_getElem? hi)
    omega

theorem Invariant.blankPc (h : Invariant op s) {pc : Pc Tuple Key} (hpc : s.pcs t = pc)
    (hnone : op.partition.NothingStored) : pc.Blank := hpc ▸ (h.blank hnone).pcs t

theorem Invariant.step (h : Invariant op s) (hs : threadStep op s t = some s') :
    Invariant op s' := by
  unfold threadStep at hs
  cases hpc : s.pcs t with
  | call =>
    simp only [hpc] at hs
    split at hs
    · cases hs
      exact h.move rfl rfl rfl nofun fun hnone =>
        ⟨(h.blank hnone).entries, (h.blank hnone).remaining, rfl⟩
    · rename_i rb rest hrest
      cases hs
      refine h.move rfl rfl rfl nofun fun hnone => ⟨(h.blank hnone).entries, ?_, ?_⟩
      · exact fun rb' hrb' => (h.blank hnone).remaining rb' (hrest ▸ List.mem_cons_of_mem _ hrb')
      · exact ⟨(h.blank hnone).remaining rb (hrest ▸ List.mem_cons_self), rfl⟩
  | fill rb out =>
    have hfill := h.blankPc hpc
    simp only [hpc] at hs
    split at hs
    · cases hs
      exact h.move rfl rfl rfl nofun fun hnone =>
        ⟨(h.blank hnone).entries, (h.blank hnone).remaining, (hfill hnone).2⟩
    · rename_i tuple tuples htuples
      have hstored : ¬ op.partition.NothingStored := fun hnone => by
        have hnil := (hfill hnone).1
        rw [htuples] at hnil
        cases hnil
      split at hs <;> cases hs <;> exact h.move rfl rfl rfl nofun fun hnone => absurd hnone hstored
  | ask out =>
    have hout := h.blankPc hpc
    simp only [hpc] at hs
    split at hs <;> cases hs <;> exact h.move rfl rfl rfl nofun fun hnone =>
      ⟨(h.blank hnone).entries, (h.blank hnone).remaining, hout hnone⟩
  | nextBlock out =>
    have hout := h.blankPc hpc
    simp only [hpc] at hs
    obtain ⟨i, -, hs⟩ := Option.bind_eq_some_iff.mp hs
    obtain ⟨it, hi, rfl⟩ := Option.map_eq_some_iff.mp hs
    split
    · exact h.move rfl rfl rfl nofun fun hnone =>
        ⟨(h.blank hnone).entries, (h.blank hnone).remaining, hout hnone⟩
    · rename_i it' hnext
      exact h.advance hi hnext false out
  | address i first out =>
    have hstored : ¬ op.partition.NothingStored := h.blankPc hpc
    obtain ⟨it, hi, hcur⟩ := h.address t i first out hpc
    simp only [hpc, hi, Option.map_some] at hs
    cases hs
    refine ⟨?_, fun u => ?_, fun hnone => absurd hnone hstored⟩
    · exact List.forall_mem_append.2 ⟨h.reads, by simpa using hcur⟩
    · refine goto_pcs (P := fun _ pc => ∀ j first out, pc = .address j first out →
        ∃ it₁ : ChunkReaderIterator, s.iterators[j]? = some it₁ ∧ it₁.curBlock ≠ 0) ?_
        (fun v _ => h.address v) u
      intro j first' out' heq
      split at heq <;> cases heq
  | numberChunk tuples out | numberBlock tuples chunkOffset out | newChunk tuples out =>
    have hout := h.blankPc hpc
    simp only [hpc] at hs
    cases hs
    exact h.move rfl rfl rfl nofun fun hnone =>
      ⟨(h.blank hnone).entries, (h.blank hnone).remaining, hout hnone⟩
  | nextChunk out =>
    have hout := h.blankPc hpc
    simp only [hpc] at hs
    split at hs
    · rename_i hlt
      cases hs
      refine ⟨h.reads, fun u => ?_, fun hnone => ?_⟩
      · refine goto_pcs (P := fun _ pc => ∀ j first out, pc = .address j first out →
          ∃ it₁ : ChunkReaderIterator, (s.iterators ++
            [(⟨s.chunkCur, op.partition.blocks s.chunkCur, 0⟩ : ChunkReaderIterator)])[j]? =
              some it₁ ∧ it₁.curBlock ≠ 0) (fun _ _ _ heq => by cases heq) ?_ u
        intro v _ j first out' heq
        obtain ⟨it, hit, hcur⟩ := h.address v j first out' heq
        have hj := (List.getElem?_eq_some_iff.mp hit).1
        exact ⟨it, by rw [List.getElem?_append_left hj, hit], hcur⟩
      · have hs := h.blank hnone
        exact ⟨List.forall_mem_append.2 ⟨hs.iterators, by simpa using hnone _ hlt⟩, hs.reads,
          hs.entries, hs.remaining, goto_pcs (hout hnone) fun v _ => hs.pcs v⟩
    · cases hs
      exact h.move rfl rfl rfl nofun fun hnone =>
        ⟨(h.blank hnone).entries, (h.blank hnone).remaining, hout hnone⟩
  | opened out =>
    have hout := h.blankPc hpc
    simp only [hpc] at hs
    split at hs
    · cases hs
      exact h.move rfl rfl rfl nofun fun hnone =>
        ⟨(h.blank hnone).entries, (h.blank hnone).remaining, hout hnone⟩
    · split at hs
      · cases hs
        exact h.move rfl rfl rfl nofun fun hnone =>
          ⟨(h.blank hnone).entries, (h.blank hnone).remaining, trivial⟩
      · rename_i hne
        cases hs
        exact h.move rfl rfl rfl nofun fun hnone => absurd (hout hnone) hne
  | firstBlock out =>
    have hout := h.blankPc hpc
    simp only [hpc] at hs
    obtain ⟨i, -, hs⟩ := Option.bind_eq_some_iff.mp hs
    obtain ⟨it, hi, rfl⟩ := Option.map_eq_some_iff.mp hs
    split
    · exact h.move rfl rfl rfl nofun fun hnone =>
        ⟨(h.blank hnone).entries, (h.blank hnone).remaining, rfl, hout hnone⟩
    · rename_i it' hnext
      exact h.advance hi hnext true out
  | finished =>
    simp only [hpc] at hs
    cases hs

theorem mem_allBlocks {p : Partition Tuple} {c k : ℕ} :
    (c, k) ∈ p.allBlocks ↔ c < p.numberOfChunks ∧ k < p.blocks c := by
  simp only [Partition.allBlocks, List.mem_flatMap, List.mem_range, chunkBlocks, List.mem_map,
    Prod.mk.injEq]
  constructor
  · rintro ⟨c', hc', k', hk', rfl, rfl⟩
    exact ⟨hc', hk'⟩
  · rintro ⟨hc, hk⟩
    exact ⟨c, hc, k, hk, rfl, rfl⟩

theorem allBlocks_of_nothingStored {p : Partition Tuple} (h : p.NothingStored) :
    p.allBlocks = [] := by
  refine List.eq_nil_iff_forall_not_mem.mpr fun ⟨c, k⟩ hmem => ?_
  obtain ⟨hc, hk⟩ := mem_allBlocks.mp hmem
  rw [h c hc] at hk
  exact Nat.not_lt_zero k hk

/-- **Positions** are true iff nothing is stored: the first block of a chunk is never read. -/
theorem positions_iff_nothing_stored (h : Runs.Reaches (Step op) State.new s) :
    TruePositions op s ↔ op.partition.NothingStored := by
  have hinv := Runs.invariant (fun _ _ hI ⟨_, hs⟩ => Invariant.step hI hs) h (new_invariant op)
  constructor
  · rintro ⟨hreads, -⟩ c hc
    by_contra hne
    have hmem : (c, 0) ∈ op.partition.allBlocks :=
      mem_allBlocks.mpr ⟨hc, Nat.pos_of_ne_zero hne⟩
    exact hinv.reads (c, 0) (hreads.mem_iff.mpr hmem) rfl
  · intro hnone
    have hblank := hinv.blank hnone
    rw [TruePositions, hblank.reads, hblank.entries, Operator.allEntries,
      allBlocks_of_nothingStored hnone]
    exact ⟨.refl _, .refl _⟩

def twoBlocks : Operator ℕ ℕ where
  partition := ⟨1, fun _ => 2, fun _ k => if k = 0 then [10] else if k = 1 then [20] else []⟩
  key := id
  capacity := 4

def runAlone (op : Operator Tuple Key) : ℕ → State Tuple Key → Option (State Tuple Key)
  | 0, s => some s
  | n + 1, s => (threadStep op s 0).bind (runAlone op n)

theorem reaches_of_runAlone (n : ℕ) (h : runAlone op n s = some s') :
    Runs.Reaches (Step op) s s' := by
  induction n generalizing s with
  | zero =>
    cases h
    exact .refl
  | succ n ih =>
    obtain ⟨s₁, hs₁, hrest⟩ := Option.bind_eq_some_iff.mp h
    exact .head ⟨0, hs₁⟩ (ih hrest)

theorem two_blocks_collected :
    ∃ s, runAlone twoBlocks 23 State.new = some s ∧ ¬ TruePositions twoBlocks s := by
  obtain ⟨s, hs⟩ : ∃ s, runAlone twoBlocks 23 State.new = some s :=
    Option.isSome_iff_exists.mp (by decide)
  refine ⟨s, hs, fun hpos => ?_⟩
  have hnone := (positions_iff_nothing_stored (reaches_of_runAlone 23 hs)).mp hpos
  exact absurd (hnone 0 Nat.one_pos) (by decide)

/-- The second block has the position of the first one, in a chunk that does not exist. -/
theorem first_block_skipped :
    (runAlone twoBlocks 23 State.new).map (fun s => (s.reads, s.entries)) =
        some ([(0, 1), (0, 2)], [(1, 20, 0, 0)]) ∧
      twoBlocks.partition.allBlocks = [(0, 0), (0, 1)] ∧
      twoBlocks.allEntries = [(0, 10, 0, 0), (0, 20, 1, 0)] := by
  decide

end IndexBuilding
