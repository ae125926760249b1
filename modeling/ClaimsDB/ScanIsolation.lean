/-
Scans and the eviction of chunks.

A scan hands out blocks as addresses into chunks in memory.  Opening a chunk applies for memory,
for which another chunk may be evicted, and loads it.  What is at an address after the chunk has
been freed is not determined, and the address may be used again.

* **`scans_isolated_from_eviction`** — if no chunk in use is evicted, scans read their files.
-/
import ClaimsDB.StorageCoherence

namespace ScanIsolation

open List Function
open Storage MemoryChunkStore

variable {P B : Type} [DecidableEq P]

structure Iterator (P : Type) where
  chunk : ChunkID P
  start : ℕ
  numberOfBlocks : ℕ
  curBlock : ℕ

/-- Where a scan is in `CreateChunkReaderIterator`. -/
inductive Phase (P : Type)
  | idle
  | opening (c : ChunkID P)
  | found (c : ChunkID P)
  /-- before `ApplyChunk` -/
  | apply (c : ChunkID P)
  | load (c : ChunkID P) (start : ℕ)
  /-- before `UpdateChunkInfo` -/
  | update (c : ChunkID P) (start : ℕ) (length : ℤ)
  deriving DecidableEq

structure Reader (P : Type) where
  chunkCur : ℕ
  chunkIt : Option (Iterator P)
  phase : Phase P

/-- A block that was handed out: its address is that of block `block` in the memory at `start`. -/
structure Delivered (P : Type) where
  chunk : ChunkID P
  start : ℕ
  block : ℕ
  deriving DecidableEq

/-- The chunks, locks and levels; the store and the memory; the scans and their blocks. -/
structure World (P B : Type) where
  level : ChunkID P → Bool
  lock : ChunkID P → Option ℕ
  memstore : MemoryChunkStore P ℕ
  memory : ℕ → List B
  readers : ℕ → Reader P
  delivered : ℕ → Option (Delivered P)

def World.new (m : MemoryChunkStore P ℕ) (memory : ℕ → List B) : World P B :=
  ⟨fun _ => false, fun _ => none, m, memory, fun _ => ⟨0, none, .idle⟩, fun _ => none⟩

/-- What can happen; `ApplyChunk` gets an address and what is left in freed memory. -/
inductive Event (P B : Type)
  | ask (r t : ℕ)
  | openChunk (r : ℕ)
  | getChunk (r : ℕ)
  | applyChunk (r : ℕ) (env : Environment P ℕ) (start : ℕ) (junk : List B)
  | load (r : ℕ) (junk : List B)
  | updateChunkInfo (r : ℕ)

/-- The files, how they are read, and the partition that each scan reads. -/
structure Setting (P B : Type) where
  cfg : StorageConfig
  file : P → List B
  part : ℕ → P

namespace World

def setReader (w : World P B) (r : ℕ) (rd : Reader P) : World P B :=
  { w with readers := update w.readers r rd }

def nextBlock (it : Iterator P) : Option (Delivered P × Iterator P) :=
  if it.curBlock < it.numberOfBlocks then
    some (⟨it.chunk, it.start, it.curBlock⟩, { it with curBlock := it.curBlock + 1 })
  else none

def ask (σ : Setting P B) (w : World P B) (r t : ℕ) : World P B :=
  let rd := w.readers r
  match rd.chunkIt.bind nextBlock with
  | some (d, it) =>
    { w.setReader r { rd with chunkIt := some it } with
      delivered := update w.delivered t (some d) }
  | none =>
    let rd' : Reader P := if rd.chunkCur < chunksIn (σ.file (σ.part r)) then
      ⟨rd.chunkCur + 1, none, .opening (σ.part r, rd.chunkCur)⟩ else { rd with chunkIt := none }
    { w.setReader r rd' with delivered := update w.delivered t none }

def freed (m m' : MemoryChunkStore P ℕ) : List ℕ :=
  (m.chunkList.filter fun e => !m'.holds e.1).flatMap (·.2.hook)

/-- `ApplyChunk` for a chunk whose lock the scan has. -/
def apply (w : World P B) (r : ℕ) (c : ChunkID P) (env : Environment P ℕ) (start : ℕ)
    (junk : List B) : Option (World P B) :=
  match w.memstore.applyChunk c env with
  | .ok (m, true) =>
    if m.chunkList.all fun e => start ∉ e.2.hook then
      some { w.setReader r { w.readers r with phase := .load c start } with
        memstore := m.updateChunkInfo c ⟨[start], chunkSize, 0⟩
        memory := fun a => if a ∈ freed w.memstore m then junk else w.memory a }
    else none
  -- the assertion fails
  | _ => none

def load (σ : Setting P B) (w : World P B) (r : ℕ) (c : ChunkID P) (start : ℕ) (junk : List B) :
    World P B :=
  let (content, length) := loadChunk σ.cfg (σ.file c.1) c.2
  if length ≤ 0 then
    { w.setReader r { w.readers r with phase := .idle } with
      lock := update w.lock c none
      memstore := w.memstore.returnChunk c
      memory := update w.memory start junk }
  else
    { w.setReader r { w.readers r with phase := .update c start length } with
      memory := update w.memory start content }

end World

open World in
def step (σ : Setting P B) (w : World P B) : Event P B → Option (World P B)
  | .ask r t =>
    match (w.readers r).phase with
    | .idle => some (w.ask σ r t)
    | _ => none
  | .openChunk r =>
    match (w.readers r).phase with
    | .opening c =>
      if w.lock c = none then
        if w.level c ∧ (w.memstore.getChunk c).isSome then
          some { w.setReader r { w.readers r with phase := .found c } with
            lock := update w.lock c (some r) }
        else
          some { w.setReader r { w.readers r with phase := .apply c } with
            lock := update w.lock c (some r)
            level := update w.level c false }
      else none
    | _ => none
  | .getChunk r =>
    match (w.readers r).phase with
    | .found c =>
      let it : Option (Iterator P) := (w.memstore.getChunk c).map fun info =>
        ⟨c, info.hook.headD 0, info.length.toNat / blockSize, 0⟩
      some { w.setReader r { w.readers r with chunkIt := it, phase := .idle } with
        lock := update w.lock c none }
    | _ => none
  | .applyChunk r env start junk =>
    match (w.readers r).phase with
    | .apply c => w.apply r c env start junk
    | _ => none
  | .load r junk =>
    match (w.readers r).phase with
    | .load c start => some (w.load σ r c start junk)
    | _ => none
  | .updateChunkInfo r =>
    match (w.readers r).phase with
    | .update c start length =>
      let it : Iterator P := ⟨c, start, length.toNat / blockSize, 0⟩
      some { w.setReader r { w.readers r with chunkIt := some it, phase := .idle } with
        lock := update w.lock c none
        level := update w.level c true
        memstore := w.memstore.updateChunkInfo c ⟨[start], length, 0⟩ }
    | _ => none

/-! ### What is used -/

structure Ref (P : Type) where
  chunk : ChunkID P
  start : ℕ
  blocks : ℕ

def Iterator.ref (it : Iterator P) : Ref P := ⟨it.chunk, it.start, it.numberOfBlocks⟩

def Delivered.ref (d : Delivered P) : Ref P := ⟨d.chunk, d.start, d.block + 1⟩

def Phase.Uses (ref : Ref P) : Phase P → Prop
  | .load c start => ref = ⟨c, start, 0⟩
  | .update c start length => ref = ⟨c, start, length.toNat / blockSize⟩
  | _ => False

def Reader.Uses (rd : Reader P) (ref : Ref P) : Prop :=
  (∃ it, rd.chunkIt = some it ∧ it.curBlock < it.numberOfBlocks ∧ ref = it.ref) ∨
    rd.phase.Uses ref

def Uses (w : World P B) (ref : Ref P) : Prop :=
  (∃ r, (w.readers r).Uses ref) ∨ ∃ t d, w.delivered t = some d ∧ ref = d.ref

def Anchored (m : MemoryChunkStore P ℕ) (c : ChunkID P) (start : ℕ) : Prop :=
  ∃ info, (c, info) ∈ m.chunkList ∧ info.hook = [start]

def Right (σ : Setting P B) (memory : ℕ → List B) (ref : Ref P) : Prop :=
  ∀ k < ref.blocks, ∃ b, (memory ref.start)[k]? = some b ∧
    (chunkOf (σ.file ref.chunk.1) ref.chunk.2)[k]? = some b

def PhaseOk (σ : Setting P B) (w : World P B) (r : ℕ) : Phase P → Prop
  | .idle => True
  | .opening c => c.2 < chunksIn (σ.file c.1)
  | .found c => c.2 < chunksIn (σ.file c.1) ∧ w.lock c = some r ∧ w.level c = true
  | .apply c => c.2 < chunksIn (σ.file c.1) ∧ w.lock c = some r ∧ w.level c = false
  | .load c _ => c.2 < chunksIn (σ.file c.1) ∧ w.lock c = some r ∧ w.level c = false ∧
      ∀ ref, Uses w ref → ref.chunk = c → ref.blocks = 0
  | .update c _ _ => c.2 < chunksIn (σ.file c.1) ∧ w.lock c = some r ∧ w.level c = false

def Apart (m : MemoryChunkStore P ℕ) : Prop :=
  ∀ e ∈ m.chunkList, ∀ e' ∈ m.chunkList, ∀ a ∈ e.2.hook, a ∈ e'.2.hook → e.1 = e'.1

/-- What is used is in memory and right; so is every chunk whose level is `MEMORY`. -/
structure Invariant (σ : Setting P B) (w : World P B) : Prop where
  nodup : w.memstore.chunks.Nodup
  apart : Apart w.memstore
  uses : ∀ ref, Uses w ref → Anchored w.memstore ref.chunk ref.start ∧ Right σ w.memory ref
  ready : ∀ c info, (c, info) ∈ w.memstore.chunkList → w.level c = true →
    ∃ start, info.hook = [start] ∧ Right σ w.memory ⟨c, start, info.length.toNat / blockSize⟩
  phases : ∀ r, PhaseOk σ w r (w.readers r).phase

/-! ### Fair steps -/

/-- `ApplyChunk` evicts no chunk that is used; and the position of a chunk on the local disk has
not more than 32 bits. -/
def Fair (σ : Setting P B) (w : World P B) : Event P B → Prop
  | .applyChunk r env _ _ => ∀ c m, (w.readers r).phase = .apply c →
      w.memstore.applyChunk c env = .ok (m, true) →
      ∀ ref, Uses w ref → ref.chunk ∈ m.chunks
  | .load r _ => ∀ c start, (w.readers r).phase = .load c start →
      σ.cfg.localDiskMode = true → c.2 < 64
  | _ => True

inductive FairStep (σ : Setting P B) : World P B → World P B → Prop
  | mk {w w' : World P B} (e : Event P B) (hfair : Fair σ w e) (h : step σ w e = some w') :
      FairStep σ w w'

/-! ### Addresses -/

variable {m : MemoryChunkStore P ℕ} {c : ChunkID P} {start : ℕ}
  {e' : ChunkID P × HdfsInMemoryChunk ℕ} {σ : Setting P B} {memory : ℕ → List B} {ref : Ref P}

omit [DecidableEq P] in
theorem Anchored.mem_chunks (h : Anchored m c start) : c ∈ m.chunks := by
  obtain ⟨info, hinfo, -⟩ := h
  exact mem_map_of_mem hinfo

omit [DecidableEq P] in
theorem Anchored.unique (hnd : m.chunks.Nodup) {start' : ℕ} (h : Anchored m c start)
    (h' : Anchored m c start') : start = start' := by
  obtain ⟨info, hinfo, hhook⟩ := h
  obtain ⟨info', hinfo', hhook'⟩ := h'
  have heq := (Prod.mk.inj (inj_on_of_nodup_map hnd hinfo hinfo' rfl)).2
  rw [heq, hhook'] at hhook
  exact (List.singleton_inj.mp hhook).symm

theorem mem_updateChunkInfo {info : HdfsInMemoryChunk ℕ}
    (h : e' ∈ (m.updateChunkInfo c info).chunkList) :
    (e' = (c, info) ∧ c ∈ m.chunks) ∨ (e'.1 ≠ c ∧ e' ∈ m.chunkList) := by
  obtain ⟨e, he, rfl⟩ := List.mem_map.mp h
  by_cases hc : e.1 = c
  · rw [if_pos hc]
    exact .inl ⟨by rw [hc], hc ▸ mem_map_of_mem he⟩
  · rw [if_neg hc]
    exact .inr ⟨hc, he⟩

theorem Anchored.updateChunkInfo {v : ChunkID P} (h : Anchored m v start)
    (info : HdfsInMemoryChunk ℕ) (hv : v = c → info.hook = [start]) :
    Anchored (m.updateChunkInfo c info) v start := by
  obtain ⟨info', hinfo', hhook⟩ := h
  by_cases hc : v = c
  · exact ⟨info, List.mem_map.mpr ⟨_, hinfo', by rw [if_pos hc]⟩, hv hc⟩
  · exact ⟨info', List.mem_map.mpr ⟨_, hinfo', by rw [if_neg hc]⟩, hhook⟩

omit [DecidableEq P] in
theorem Right.mono (h : Right σ memory ref) {n : ℕ} (hn : n ≤ ref.blocks) :
    Right σ memory ⟨ref.chunk, ref.start, n⟩ :=
  fun k hk => h k (lt_of_lt_of_le hk hn)

omit [DecidableEq P] in
theorem Right.of_eq {memory' : ℕ → List B} (h : Right σ memory ref)
    (heq : memory' ref.start = memory ref.start) : Right σ memory' ref := by
  intro k hk
  rw [heq]
  exact h k hk

omit [DecidableEq P] in
theorem right_loaded (hc : c.2 < chunksIn (σ.file c.1))
    (hsmall : σ.cfg.localDiskMode = true → c.2 < 64)
    (hmem : memory start = (loadChunk σ.cfg (σ.file c.1) c.2).1) :
    Right σ memory ⟨c, start, (loadChunk σ.cfg (σ.file c.1) c.2).2.toNat / blockSize⟩ := by
  have hfor : loadedFor σ.cfg c.2 = c.2 := by
    rw [loadedFor]
    split_ifs with hmode
    · exact Nat.mod_eq_of_lt (hsmall hmode)
    · rfl
  rw [loadChunk_eq σ.cfg hc, hfor] at hmem ⊢
  intro k hk
  rw [Int.toNat_natCast, Nat.mul_div_cancel_left _ blockSize_pos] at hk
  rw [hmem]
  exact ⟨_, getElem?_eq_getElem hk, getElem?_eq_getElem hk⟩

/-! ### One scan moves -/

section Move

variable {σ : Setting P B} {w w' : World P B} {r : ℕ} {rd : Reader P}

omit [DecidableEq P] in
theorem PhaseOk.frame {r' : ℕ} {ph : Phase P} (h : PhaseOk σ w r' ph)
    (hlock : ∀ c, w.lock c = some r' → w'.lock c = some r' ∧ w'.level c = w.level c)
    (huses : ∀ ref, Uses w' ref → w.lock ref.chunk = some r' →
      ref.blocks = 0 ∨ ∃ ref₀, Uses w ref₀ ∧ ref₀.chunk = ref.chunk ∧ ref.blocks ≤ ref₀.blocks) :
    PhaseOk σ w' r' ph := by
  cases ph with
  | idle => exact h
  | opening c => exact h
  | found c | apply c | update c start length =>
    obtain ⟨hrange, hl, hlevel⟩ := h
    exact ⟨hrange, (hlock c hl).1, (hlock c hl).2.trans hlevel⟩
  | load c start =>
    obtain ⟨hrange, hl, hlevel, halone⟩ := h
    refine ⟨hrange, (hlock c hl).1, (hlock c hl).2.trans hlevel, fun ref href hc => ?_⟩
    rcases huses ref href (hc ▸ hl) with hzero | ⟨ref₀, href₀, hchunk, hle⟩
    · exact hzero
    · have hzero := halone ref₀ href₀ (hchunk.trans hc)
      omega

def Covered (w : World P B) (d : Delivered P) : Prop :=
  ∃ ref, Uses w ref ∧ ref.chunk = d.chunk ∧ ref.start = d.start ∧ d.block < ref.blocks

omit [DecidableEq P] in
theorem covered_of_delivered (w : World P B) : ∀ t d, w.delivered t = some d → Covered w d :=
  fun t d hd => ⟨d.ref, .inr ⟨t, d, hd, rfl⟩, rfl, rfl, Nat.lt_succ_self _⟩

omit [DecidableEq P] in
theorem Invariant.move (h : Invariant σ w) (hreaders : w'.readers = update w.readers r rd)
    (hdelivered : ∀ t d, w'.delivered t = some d → Covered w d)
    (hnodup : w'.memstore.chunks.Nodup)
    (hapart : Apart w'.memstore)
    (hkeep : ∀ ref, Uses w ref → Anchored w'.memstore ref.chunk ref.start ∧ Right σ w'.memory ref)
    (hnew : ∀ ref, rd.Uses ref → Uses w ref ∨ w.lock ref.chunk = some r ∧
      Anchored w'.memstore ref.chunk ref.start ∧ Right σ w'.memory ref)
    (hready : ∀ c info, (c, info) ∈ w'.memstore.chunkList → w'.level c = true →
      ∃ start, info.hook = [start] ∧ Right σ w'.memory ⟨c, start, info.length.toNat / blockSize⟩)
    (hlock : ∀ r' ≠ r, ∀ c, w.lock c = some r' → w'.lock c = some r' ∧ w'.level c = w.level c)
    (hphase : PhaseOk σ w' r rd.phase) : Invariant σ w' := by
  -- what is used now was used, or is used by the scan that moves
  have hcases : ∀ ref, Uses w' ref →
      (w.lock ref.chunk = some r ∧ Anchored w'.memstore ref.chunk ref.start ∧
        Right σ w'.memory ref) ∨
      ∃ ref₀, Uses w ref₀ ∧ ref₀.chunk = ref.chunk ∧ ref₀.start = ref.start ∧
        ref.blocks ≤ ref₀.blocks := by
    rintro ref (⟨r', hr'⟩ | ⟨t, d, hd, rfl⟩)
    · rw [hreaders] at hr'
      by_cases heq : r' = r
      · rw [heq, update_self] at hr'
        rcases hnew ref hr' with hold | hmine
        · exact .inr ⟨ref, hold, rfl, rfl, le_rfl⟩
        · exact .inl hmine
      · rw [update_of_ne heq] at hr'
        exact .inr ⟨ref, .inl ⟨r', hr'⟩, rfl, rfl, le_rfl⟩
    · obtain ⟨ref₀, href₀, hchunk, hstart, hlt⟩ := hdelivered t d hd
      exact .inr ⟨ref₀, href₀, hchunk, hstart, hlt⟩
  refine ⟨hnodup, hapart, fun ref href => ?_, hready, fun r' => ?_⟩
  · rcases hcases ref href with ⟨-, hmine⟩ | ⟨ref₀, href₀, hchunk, hstart, hle⟩
    · exact hmine
    · obtain ⟨hanch, hright⟩ := hkeep ref₀ href₀
      obtain ⟨c, start, n⟩ := ref
      obtain rfl : ref₀.chunk = c := hchunk
      obtain rfl : ref₀.start = start := hstart
      exact ⟨hanch, hright.mono hle⟩
  · rw [hreaders]
    by_cases heq : r' = r
    · rw [heq, update_self]
      exact hphase
    · rw [update_of_ne heq]
      refine (h.phases r').frame (hlock r' heq) fun ref href hl => ?_
      rcases hcases ref href with ⟨hmine, -⟩ | ⟨ref₀, href₀, hchunk, -, hle⟩
      · exact absurd (Option.mem_unique hl hmine) heq
      · exact .inr ⟨ref₀, href₀, hchunk, hle⟩

variable {c : ChunkID P}

theorem lock_frame (hc : ∀ r' ≠ r, w.lock c ≠ some r') (v : Option ℕ) (b : Bool) :
    ∀ r' ≠ r, ∀ c', w.lock c' = some r' → update w.lock c v c' = some r' ∧
      update w.level c b c' = w.level c' := by
  intro r' hr' c' hl
  have hne : c' ≠ c := by
    rintro rfl
    exact hc r' hr' hl
  rw [update_of_ne hne, update_of_ne hne]
  exact ⟨hl, rfl⟩

omit [DecidableEq P] in
theorem lock_mine (hc : w.lock c = some r) : ∀ r' ≠ r, w.lock c ≠ some r' :=
  fun _ hr' heq => hr' (Option.mem_unique heq hc)

end Move

/-! ### Every fair step keeps the invariant -/

section Steps

variable {σ : Setting P B} {w w' : World P B} {r : ℕ}

omit [DecidableEq P] in
theorem nextBlock_eq_some {it it' : Iterator P} {d : Delivered P}
    (h : World.nextBlock it = some (d, it')) :
    it.curBlock < it.numberOfBlocks ∧ d = ⟨it.chunk, it.start, it.curBlock⟩ ∧
      it' = { it with curBlock := it.curBlock + 1 } := by
  rw [World.nextBlock] at h
  split_ifs at h with hlt
  cases h
  exact ⟨hlt, rfl, rfl⟩

omit [DecidableEq P] in
theorem Invariant.ask (h : Invariant σ w) (hidle : (w.readers r).phase = .idle) (t : ℕ) :
    Invariant σ (w.ask σ r t) := by
  have hold : ∀ d v t', update w.delivered t v t' = some d → v = some d ∨ Covered w d := by
    intro d v t' hd
    by_cases ht : t' = t
    · rw [ht, update_self] at hd
      exact .inl hd
    · rw [update_of_ne ht] at hd
      exact .inr (covered_of_delivered w t' d hd)
  rw [World.ask]
  cases hnext : (w.readers r).chunkIt.bind World.nextBlock with
  | some next =>
    obtain ⟨d, it'⟩ := next
    obtain ⟨it, hit, hblock⟩ := Option.bind_eq_some_iff.mp hnext
    obtain ⟨hlt, rfl, rfl⟩ := nextBlock_eq_some hblock
    have hused : Uses w it.ref := .inl ⟨r, .inl ⟨it, hit, hlt, rfl⟩⟩
    refine h.move rfl (fun t' d hd => ?_) h.nodup h.apart h.uses (fun ref href => .inl ?_) h.ready
      (fun _ _ _ hl => ⟨hl, rfl⟩) ?_
    · rcases hold d _ t' hd with hnow | hcov
      · cases hnow
        exact ⟨it.ref, hused, rfl, rfl, hlt⟩
      · exact hcov
    · rcases href with ⟨it', hit', -, rfl⟩ | hphase
      · cases hit'
        exact hused
      · exact .inl ⟨r, .inr hphase⟩
    · show PhaseOk σ _ r (w.readers r).phase
      rw [hidle]
      trivial
  | none =>
    -- the scan has no chunk any more, and does not load one yet
    refine h.move rfl (fun t' d hd => ?_) h.nodup h.apart h.uses (fun ref href => ?_) h.ready
      (fun _ _ _ hl => ⟨hl, rfl⟩) ?_
    · rcases hold d _ t' hd with hnow | hcov
      · cases hnow
      · exact hcov
    · split_ifs at href
      · rcases href with ⟨_, hit', -⟩ | hphase
        · cases hit'
        · exact hphase.elim
      · rcases href with ⟨_, hit', -⟩ | hphase
        · cases hit'
        · exact .inl (.inl ⟨r, .inr hphase⟩)
    · split_ifs with hcur
      · exact hcur
      · show PhaseOk σ _ r (w.readers r).phase
        rw [hidle]
        trivial

omit [DecidableEq P] in
theorem uses_of_phase {ph : Phase P} (hph : ∀ ref, ¬ ph.Uses ref) {ref : Ref P}
    (h : Reader.Uses { w.readers r with phase := ph } ref) : Uses w ref := by
  rcases h with hit | hphase
  · exact .inl ⟨r, .inl hit⟩
  · exact absurd hphase (hph ref)

variable {c : ChunkID P} {start : ℕ}

section

variable (h : Invariant σ w)

include h

theorem Invariant.openFound (hphase : (w.readers r).phase = .opening c)
    (hfree : w.lock c = none) (hlevel : w.level c = true) :
    Invariant σ { w.setReader r { w.readers r with phase := .found c } with
      lock := update w.lock c (some r) } := by
  have hrange := h.phases r
  rw [hphase] at hrange
  refine h.move rfl (covered_of_delivered w) h.nodup h.apart h.uses
    (fun ref href => .inl (uses_of_phase (fun _ => id) href)) h.ready (fun r' hr' c' hl => ?_)
    ⟨hrange, update_self .., hlevel⟩
  exact ⟨(lock_frame (fun _ _ heq => by simp [hfree] at heq) _ true r' hr' c' hl).1, rfl⟩

theorem Invariant.openApply (hphase : (w.readers r).phase = .opening c)
    (hfree : w.lock c = none) :
    Invariant σ { w.setReader r { w.readers r with phase := .apply c } with
      lock := update w.lock c (some r)
      level := update w.level c false } := by
  have hrange := h.phases r
  rw [hphase] at hrange
  refine h.move rfl (covered_of_delivered w) h.nodup h.apart h.uses
    (fun ref href => .inl (uses_of_phase (fun _ => id) href)) (fun c' info hinfo hlevel => ?_)
    (lock_frame (fun _ _ heq => by simp [hfree] at heq) _ _)
    ⟨hrange, update_self .., update_self ..⟩
  replace hlevel : update w.level c false c' = true := hlevel
  have hne : c' ≠ c := by
    rintro rfl
    rw [update_self] at hlevel
    cases hlevel
  rw [update_of_ne hne] at hlevel
  exact h.ready c' info hinfo hlevel

theorem Invariant.getChunk (hphase : (w.readers r).phase = .found c) :
    Invariant σ { w.setReader r { w.readers r with
        chunkIt := (w.memstore.getChunk c).map fun info =>
          ⟨c, info.hook.headD 0, info.length.toNat / blockSize, 0⟩
        phase := .idle } with
      lock := update w.lock c none } := by
  have hok := h.phases r
  rw [hphase] at hok
  obtain ⟨-, hlock, hlevel⟩ := hok
  refine h.move rfl (covered_of_delivered w) h.nodup h.apart h.uses (fun ref href => .inr ?_)
    h.ready (fun r' hr' c' hl => ⟨(lock_frame (lock_mine hlock) _ true r' hr' c' hl).1, rfl⟩) trivial
  rcases href with ⟨it, hit, -, rfl⟩ | hphase
  · obtain ⟨info, hinfo, rfl⟩ := Option.map_eq_some_iff.mp hit
    obtain ⟨start, hhook, hright⟩ := h.ready c info (getChunk_mem hinfo) hlevel
    have hstart : info.hook.headD 0 = start := by rw [hhook]; rfl
    refine ⟨hlock, ⟨info, getChunk_mem hinfo, ?_⟩, ?_⟩
    · rw [Iterator.ref, hstart, hhook]
    · rw [Iterator.ref, hstart]
      exact hright
  · exact hphase.elim

theorem Invariant.updateChunkInfo {length : ℤ}
    (hphase : (w.readers r).phase = .update c start length) :
    Invariant σ { w.setReader r { w.readers r with
        chunkIt := some ⟨c, start, length.toNat / blockSize, 0⟩
        phase := .idle } with
      lock := update w.lock c none
      level := update w.level c true
      memstore := w.memstore.updateChunkInfo c ⟨[start], length, 0⟩ } := by
  have hok := h.phases r
  rw [hphase] at hok
  obtain ⟨-, hlock, -⟩ := hok
  have hused : Uses w ⟨c, start, length.toNat / blockSize⟩ :=
    .inl ⟨r, .inr (by rw [hphase]; rfl)⟩
  obtain ⟨hanch, hright⟩ := h.uses _ hused
  -- the address of the chunk is already the one that is recorded
  have hkeep : ∀ {v a}, Anchored w.memstore v a →
      Anchored (w.memstore.updateChunkInfo c ⟨[start], length, 0⟩) v a := by
    intro v a hv
    refine hv.updateChunkInfo _ ?_
    rintro rfl
    exact congrArg (fun x => [x]) (hanch.unique h.nodup hv)
  have hentry : ∀ e' ∈ (w.memstore.updateChunkInfo c ⟨[start], length, 0⟩).chunkList,
      ∃ e ∈ w.memstore.chunkList, e'.1 = e.1 ∧ e'.2.hook = e.2.hook := by
    intro e' he'
    rcases mem_updateChunkInfo he' with ⟨rfl, -⟩ | ⟨-, hmem⟩
    · obtain ⟨info, hinfo, hhook⟩ := hanch
      exact ⟨_, hinfo, rfl, hhook.symm⟩
    · exact ⟨e', hmem, rfl, rfl⟩
  refine h.move rfl (covered_of_delivered w) ?_ (fun e₁ he₁ e₂ he₂ a ha₁ ha₂ => ?_)
    (fun ref href => ⟨hkeep (h.uses ref href).1, (h.uses ref href).2⟩) (fun ref href => .inl ?_)
    (fun c' info hinfo hlevel => ?_) (lock_frame (lock_mine hlock) _ _) trivial
  · rw [updateChunkInfo_chunks]
    exact h.nodup
  · obtain ⟨e₁', he₁', hid₁, hhook₁⟩ := hentry e₁ he₁
    obtain ⟨e₂', he₂', hid₂, hhook₂⟩ := hentry e₂ he₂
    rw [hid₁, hid₂]
    exact h.apart e₁' he₁' e₂' he₂' a (hhook₁ ▸ ha₁) (hhook₂ ▸ ha₂)
  · rcases href with ⟨it, hit, -, rfl⟩ | hphase
    · cases hit
      exact hused
    · exact hphase.elim
  · rcases mem_updateChunkInfo hinfo with ⟨heq, -⟩ | ⟨hne, hmem⟩
    · obtain ⟨rfl, rfl⟩ := Prod.mk.inj heq
      exact ⟨start, rfl, hright⟩
    · replace hlevel : update w.level c true c' = true := hlevel
      rw [update_of_ne hne] at hlevel
      exact h.ready c' info hmem hlevel

theorem Invariant.load (hphase : (w.readers r).phase = .load c start)
    (hsmall : σ.cfg.localDiskMode = true → c.2 < 64) (junk : List B) :
    Invariant σ (w.load σ r c start junk) := by
  have hok := h.phases r
  rw [hphase] at hok
  obtain ⟨hrange, hlock, hlevel, halone⟩ := hok
  have hused : Uses w ⟨c, start, 0⟩ := .inl ⟨r, .inr (by rw [hphase]; rfl)⟩
  obtain ⟨hanch, -⟩ := h.uses _ hused
  obtain ⟨info₀, hinfo₀, hhook₀⟩ := hanch
  -- another chunk is at another address
  have hother : ∀ {v info a}, (v, info) ∈ w.memstore.chunkList → info.hook = [a] → v ≠ c →
      ∀ content : List B, update w.memory start content a = w.memory a := by
    intro v info a hv hhook hne content
    refine update_of_ne ?_ _ _
    rintro rfl
    exact hne (h.apart _ hv _ hinfo₀ a (by simp [hhook]) (by simp [hhook₀]))
  rw [World.load]
  simp only [if_neg (loadChunk_pos σ.cfg hrange)]
  refine h.move rfl (covered_of_delivered w) h.nodup h.apart (fun ref href => ?_)
    (fun ref href => ?_) (fun v info hv hvlevel => ?_) (fun _ _ _ hl => ⟨hl, rfl⟩)
    ⟨hrange, hlock, hlevel⟩
  · obtain ⟨hrefAnch, hright⟩ := h.uses ref href
    refine ⟨hrefAnch, ?_⟩
    by_cases hc : ref.chunk = c
    · intro k hk
      rw [halone ref href hc] at hk
      exact absurd hk (Nat.not_lt_zero k)
    · obtain ⟨info, hv, hhook⟩ := hrefAnch
      exact hright.of_eq (hother hv hhook hc _)
  · rcases href with hit | rfl
    · exact .inl (.inl ⟨r, .inl hit⟩)
    · exact .inr ⟨hlock, ⟨info₀, hinfo₀, hhook₀⟩,
        right_loaded hrange hsmall (update_self ..)⟩
  · have hne : v ≠ c := by
      rintro rfl
      exact Bool.false_ne_true (hlevel.symm.trans hvlevel)
    obtain ⟨a, hhook, hright⟩ := h.ready v info hv hvlevel
    exact ⟨a, hhook, hright.of_eq (hother hv hhook hne _)⟩

end

end Steps

/-! ### Applying for memory -/

variable {m m' : MemoryChunkStore P ℕ} {c : ChunkID P} {env : Environment P ℕ}

theorem applied_entry (h : m.applyChunk c env = .ok (m', true)) {info : HdfsInMemoryChunk ℕ}
    {e' : ChunkID P × HdfsInMemoryChunk ℕ} (he' : e' ∈ (m'.updateChunkInfo c info).chunkList) :
    e' = (c, info) ∨ e'.1 ≠ c ∧ e' ∈ m'.chunkList ∧ ∃ e ∈ m.chunkList,
      e'.1 = e.1 ∧ e'.2.hook = e.2.hook ∧ e'.2.length = e.2.length := by
  obtain ⟨-, m₁, hsub, hlist⟩ := applyChunk_true h
  rcases mem_updateChunkInfo he' with ⟨heq, -⟩ | ⟨hne, hmem⟩
  · exact .inl heq
  · refine .inr ⟨hne, hmem, ?_⟩
    rw [hlist, mem_append, mem_singleton] at hmem
    rcases hmem with hmem | rfl
    · exact hsub.entry e' hmem
    · exact absurd rfl hne

theorem applied_nodup (hnd : m.chunks.Nodup) (h : m.applyChunk c env = .ok (m', true)) :
    m'.chunks.Nodup := by
  obtain ⟨hnew, m₁, hsub, hlist⟩ := applyChunk_true h
  have hchunks : m'.chunks = m₁.chunks ++ [c] := by
    rw [chunks, hlist, map_append]
    rfl
  rw [hchunks]
  refine List.Nodup.append (hnd.sublist hsub.chunks) (nodup_singleton c) ?_
  rw [disjoint_singleton]
  exact fun hmem => hnew (hsub.chunks.subset hmem)

theorem Anchored.applied {v : ChunkID P} {start : ℕ} (hnd : m.chunks.Nodup)
    (h : m.applyChunk c env = .ok (m', true)) (hv : Anchored m v start) (hmem : v ∈ m'.chunks)
    (info : HdfsInMemoryChunk ℕ) : Anchored (m'.updateChunkInfo c info) v start := by
  obtain ⟨hnew, m₁, hsub, hlist⟩ := applyChunk_true h
  have hne : v ≠ c := fun heq => hnew (heq ▸ hv.mem_chunks)
  obtain ⟨e', he', rfl⟩ := List.mem_map.mp hmem
  have hold : e' ∈ m₁.chunkList := by
    rw [hlist, mem_append, mem_singleton] at he'
    rcases he' with he' | rfl
    · exact he'
    · exact absurd rfl hne
  obtain ⟨e, he, hid, hhook, -⟩ := hsub.entry e' hold
  obtain ⟨info₀, hinfo₀, hhook₀⟩ := hv
  have heq : e = (e'.1, info₀) := inj_on_of_nodup_map hnd he hinfo₀ hid.symm
  rw [heq] at hhook
  exact Anchored.updateChunkInfo ⟨e'.2, he', hhook.trans hhook₀⟩ _ fun heq => absurd heq hne

section Apply

variable {σ : Setting P B} {w w' : World P B} {r : ℕ}

variable {c : ChunkID P} {env : Environment P ℕ} {start : ℕ} {junk : List B}
  {m m' : MemoryChunkStore P ℕ}

theorem apply_eq_some (h : w.apply r c env start junk = some w') :
    ∃ m, w.memstore.applyChunk c env = .ok (m, true) ∧ (∀ e ∈ m.chunkList, start ∉ e.2.hook) ∧
      w' = { w.setReader r { w.readers r with phase := .load c start } with
        memstore := m.updateChunkInfo c ⟨[start], chunkSize, 0⟩
        memory := fun a => if a ∈ World.freed w.memstore m then junk else w.memory a } := by
  rw [World.apply] at h
  split at h
  · rename_i m hm
    split_ifs at h with hfree
    refine ⟨m, hm, fun e he => ?_, (Option.some.inj h).symm⟩
    exact of_decide_eq_true (List.all_eq_true.mp hfree e he)
  · cases h

theorem not_mem_freed (hapart : Apart m) {v : ChunkID P} (hv : Anchored m v start)
    (hmem : v ∈ m'.chunks) : start ∉ World.freed m m' := by
  intro hfreed
  obtain ⟨e, he, hstart⟩ := List.mem_flatMap.mp hfreed
  obtain ⟨he, hgone⟩ := List.mem_filter.mp he
  obtain ⟨info, hinfo, hhook⟩ := hv
  have hid : e.1 = v := hapart e he _ hinfo start hstart (by simp [hhook])
  rw [hid, holds_iff.mpr hmem] at hgone
  cases hgone

theorem Apart.applied (hapart : Apart m) (h : m.applyChunk c env = .ok (m', true))
    (hfree : ∀ e ∈ m'.chunkList, start ∉ e.2.hook) (length lifetime : ℤ) :
    Apart (m'.updateChunkInfo c ⟨[start], length, lifetime⟩) := by
  intro e₁ he₁ e₂ he₂ a ha₁ ha₂
  rcases applied_entry h he₁ with rfl | ⟨-, hmem₁, e₁', he₁', hid₁, hhook₁, -⟩ <;>
    rcases applied_entry h he₂ with rfl | ⟨-, hmem₂, e₂', he₂', hid₂, hhook₂, -⟩
  · rfl
  · rw [List.mem_singleton.mp ha₁] at ha₂
    exact absurd ha₂ (hfree e₂ hmem₂)
  · rw [List.mem_singleton.mp ha₂] at ha₁
    exact absurd ha₁ (hfree e₁ hmem₁)
  · rw [hid₁, hid₂]
    exact hapart e₁' he₁' e₂' he₂' a (hhook₁ ▸ ha₁) (hhook₂ ▸ ha₂)

theorem Invariant.apply (h : Invariant σ w) {c : ChunkID P} {env : Environment P ℕ} {start : ℕ}
    {junk : List B} (hphase : (w.readers r).phase = .apply c)
    (hfair : ∀ m, w.memstore.applyChunk c env = .ok (m, true) →
      ∀ ref, Uses w ref → ref.chunk ∈ m.chunks)
    (hs : w.apply r c env start junk = some w') : Invariant σ w' := by
  have hok := h.phases r
  rw [hphase] at hok
  obtain ⟨hrange, hlock, hlevel⟩ := hok
  obtain ⟨m, hm, hfree, rfl⟩ := apply_eq_some hs
  obtain ⟨hnew, m₁, -, hlist⟩ := applyChunk_true hm
  have hcmem : (c, ⟨[], chunkSize, 0⟩) ∈ m.chunkList := by
    rw [hlist]
    exact mem_append_right _ (mem_singleton_self _)
  have hanch : Anchored (m.updateChunkInfo c ⟨[start], chunkSize, 0⟩) c start :=
    ⟨⟨[start], chunkSize, 0⟩, List.mem_map.mpr ⟨_, hcmem, by rw [if_pos rfl]⟩, rfl⟩
  -- nothing of this chunk has been used
  have hunused : ∀ ref, Uses w ref → ref.chunk ≠ c := fun ref href heq =>
    hnew (heq ▸ (h.uses ref href).1.mem_chunks)
  have hkept : ∀ {v a}, Anchored w.memstore v a → v ∈ m.chunks →
      (if a ∈ World.freed w.memstore m then junk else w.memory a) = w.memory a :=
    fun hv hmem => if_neg (not_mem_freed h.apart hv hmem)
  refine h.move rfl (covered_of_delivered w) ?_ (h.apart.applied hm hfree _ _) (fun ref href => ?_)
    (fun ref href => ?_) (fun v info hv hvlevel => ?_) (fun _ _ _ hl => ⟨hl, rfl⟩)
    ⟨hrange, hlock, hlevel, fun ref href hc => ?_⟩
  · rw [updateChunkInfo_chunks]
    exact applied_nodup h.nodup hm
  · obtain ⟨hrefAnch, hright⟩ := h.uses ref href
    have hmem := hfair m hm ref href
    exact ⟨hrefAnch.applied h.nodup hm hmem _, hright.of_eq (hkept hrefAnch hmem)⟩
  · rcases href with hit | rfl
    · exact .inl (.inl ⟨r, .inl hit⟩)
    · exact .inr ⟨hlock, hanch, fun k hk => absurd hk (Nat.not_lt_zero k)⟩
  · rcases applied_entry hm hv with heq | ⟨-, hmem, e, he, hid, hhook, hlength⟩
    · obtain ⟨rfl, rfl⟩ := Prod.mk.inj heq
      exact absurd (hlevel.symm.trans hvlevel) Bool.false_ne_true
    · obtain ⟨v', info'⟩ := e
      obtain rfl : v = v' := hid
      obtain ⟨a, ha, hright⟩ := h.ready v info' he hvlevel
      refine ⟨a, hhook.trans ha, ?_⟩
      rw [show info.length = info'.length from hlength]
      exact hright.of_eq (hkept ⟨info', he, ha⟩ (mem_map_of_mem hmem))
  · rcases href with ⟨r', hr'⟩ | ⟨t, d, hd, rfl⟩
    · replace hr' : (update w.readers r { w.readers r with phase := .load c start }
        r').Uses ref := hr'
      by_cases heq : r' = r
      · rw [heq, update_self] at hr'
        rcases hr' with hit | rfl
        · exact absurd hc (hunused ref (.inl ⟨r, .inl hit⟩))
        · rfl
      · rw [update_of_ne heq] at hr'
        exact absurd hc (hunused ref (.inl ⟨r', hr'⟩))
    · exact absurd hc (hunused d.ref (.inr ⟨t, d, hd, rfl⟩))

end Apply

/-! ### Every run -/

section Runs

variable {σ : Setting P B} {w w' : World P B}

theorem Invariant.step (h : Invariant σ w) (hs : FairStep σ w w') : Invariant σ w' := by
  obtain ⟨e, hfair, hs⟩ := hs
  cases e with
  | ask r t =>
    simp only [ScanIsolation.step] at hs
    split at hs
    · rename_i hphase
      cases hs
      exact h.ask hphase t
    · cases hs
  | openChunk r =>
    simp only [ScanIsolation.step] at hs
    split at hs
    · rename_i c hphase
      split_ifs at hs with hfree hin
      · cases hs
        exact h.openFound hphase hfree hin.1
      · cases hs
        exact h.openApply hphase hfree
    · cases hs
  | getChunk r =>
    simp only [ScanIsolation.step] at hs
    split at hs
    · rename_i c hphase
      cases hs
      exact h.getChunk hphase
    · cases hs
  | applyChunk r env start junk =>
    simp only [ScanIsolation.step] at hs
    split at hs
    · rename_i c hphase
      exact h.apply hphase (fun m => hfair c m hphase) hs
    · cases hs
  | load r junk =>
    simp only [ScanIsolation.step] at hs
    split at hs
    · rename_i c start hphase
      cases hs
      exact h.load hphase (hfair c start hphase) junk
    · cases hs
  | updateChunkInfo r =>
    simp only [ScanIsolation.step] at hs
    split at hs
    · rename_i c start length hphase
      cases hs
      exact h.updateChunkInfo hphase
    · cases hs

omit [DecidableEq P] in
theorem Invariant.new (σ : Setting P B) {m : MemoryChunkStore P ℕ} (hm : m.chunkList = [])
    (memory : ℕ → List B) : Invariant σ (World.new m memory) := by
  have hunused : ∀ ref, ¬ Uses (World.new m memory) ref := by
    rintro ref (⟨r, ⟨it, hit, -⟩ | hphase⟩ | ⟨t, d, hd, -⟩)
    · cases hit
    · exact hphase
    · cases hd
  refine ⟨?_, fun e he => ?_, fun ref href => absurd href (hunused ref), fun _ _ _ hl => ?_,
    fun _ => trivial⟩
  · rw [World.new, chunks, hm]
    exact nodup_nil
  · rw [World.new, hm] at he
    cases he
  · cases hl

def Isolated (σ : Setting P B) (w : World P B) : Prop :=
  ∀ t d, w.delivered t = some d → ∃ b, (w.memory d.start)[d.block]? = some b ∧
    (σ.file d.chunk.1)[blocksPerChunk * d.chunk.2 + d.block]? = some b

omit [DecidableEq P] in
theorem Invariant.isolated (h : Invariant σ w) : Isolated σ w := by
  intro t d hd
  obtain ⟨b, hmem, hfile⟩ := (h.uses d.ref (.inr ⟨t, d, hd, rfl⟩)).2 d.block (Nat.lt_succ_self _)
  refine ⟨b, hmem, ?_⟩
  have hlt : d.block < blocksPerChunk := by
    have hlength := (List.getElem?_eq_some_iff.mp hfile).1
    rw [chunkOf, length_take] at hlength
    exact lt_of_lt_of_le hlength (min_le_left _ _)
  rw [chunkOf, getElem?_take_of_lt hlt, getElem?_drop] at hfile
  exact hfile

/-- **Isolation**, if no chunk in use is evicted and no offset is too large. -/
theorem scans_isolated_from_eviction {m : MemoryChunkStore P ℕ} (hm : m.chunkList = [])
    {memory : ℕ → List B} (h : Runs.Reaches (FairStep σ) (World.new m memory) w) :
    Isolated σ w :=
  (Runs.invariant (fun _ _ hI hs => Invariant.step hI hs) h (.new σ hm memory)).isolated

end Runs

/-! ### Two scans, and room for one chunk -/

def twoPartitions : Setting ℕ ℕ where
  cfg := ⟨false, 64⟩
  file p := [10 * (p + 1)]
  part r := r

def oneChunk : MemoryChunkStore ℕ ℕ :=
  ⟨[], some .lru, ⟨0, chunkSize, by simp [chunkSize]⟩⟩

def plainEnvironment : Environment ℕ ℕ := .withMemory chunkSize true

def firstScan : List (Event ℕ ℕ) :=
  [.ask 0 0, .openChunk 0, .applyChunk 0 plainEnvironment 5 [], .load 0 [], .updateChunkInfo 0,
    .ask 0 0]

def secondScan : List (Event ℕ ℕ) :=
  [.ask 1 1, .openChunk 1, .applyChunk 1 plainEnvironment 5 [], .load 1 []]

theorem foldlM_step_cons {σ : Setting P B} {e : Event P B} {es : List (Event P B)}
    {w w' : World P B} (h : (e :: es).foldlM (step σ) w = some w') :
    ∃ w₁, step σ w e = some w₁ ∧ es.foldlM (step σ) w₁ = some w' := by
  rw [foldlM_cons] at h
  exact Option.bind_eq_some_iff.mp h

theorem scan_alone_isolated :
    ∃ w, Runs.Reaches (FairStep twoPartitions) (World.new oneChunk fun _ => []) w ∧
      w.delivered 0 = some ⟨(0, 0), 5, 0⟩ ∧ Isolated twoPartitions w := by
  have hrun : (firstScan.foldlM (step twoPartitions) (World.new oneChunk fun _ => [])).map
      (·.delivered 0) = some (some ⟨(0, 0), 5, 0⟩) := by
    decide +kernel
  obtain ⟨w, hw, hdelivered⟩ := Option.map_eq_some_iff.mp hrun
  rw [firstScan] at hw
  obtain ⟨w₁, h₁, hw⟩ := foldlM_step_cons hw
  obtain ⟨w₂, h₂, hw⟩ := foldlM_step_cons hw
  obtain ⟨w₃, h₃, hw⟩ := foldlM_step_cons hw
  obtain ⟨w₄, h₄, hw⟩ := foldlM_step_cons hw
  obtain ⟨w₅, h₅, hw⟩ := foldlM_step_cons hw
  obtain ⟨w₆, h₆, hw⟩ := foldlM_step_cons hw
  -- nothing is used before the scan has memory
  have hunused : ∀ ref, ¬ Uses w₂ ref := by
    clear hw h₃ h₄ h₅ h₆
    cases h₁
    cases h₂
    rintro ref (⟨r, hr⟩ | ⟨t, d, hd, -⟩)
    · by_cases heq : r = 0
      · rw [heq] at hr
        rcases hr with ⟨it, hit, -⟩ | hphase
        · cases hit
        · exact hphase
      · replace hr : (update (update (fun _ => (⟨0, none, .idle⟩ : Reader ℕ)) 0 _)
          0 _ r).Uses ref := hr
        rw [update_of_ne heq, update_of_ne heq] at hr
        rcases hr with ⟨it, hit, -⟩ | hphase
        · cases hit
        · exact hphase
    · replace hd : update (fun _ => none) 0 none t = some d := hd
      rw [update_eq_self] at hd
      cases hd
  have hreach : Runs.Reaches (FairStep twoPartitions) (World.new oneChunk fun _ => []) w₆ :=
    .head (.mk (.ask 0 0) trivial h₁) <| .head (.mk (.openChunk 0) trivial h₂) <|
      .head (.mk (.applyChunk 0 plainEnvironment 5 [])
        (fun _ _ _ _ ref href => absurd href (hunused ref)) h₃) <|
      .head (.mk (.load 0 []) (fun _ _ _ hmode => absurd hmode Bool.false_ne_true) h₄) <|
      .head (.mk (.updateChunkInfo 0) trivial h₅) <| .single (.mk (.ask 0 0) trivial h₆)
  cases hw
  exact ⟨w, hreach, hdelivered, scans_isolated_from_eviction rfl hreach⟩

/-- The chunk of a block in use is evicted, and another one loaded to its address. -/
theorem block_overwritten :
    ∃ w, (firstScan ++ secondScan).foldlM (step twoPartitions) (World.new oneChunk fun _ => []) =
        some w ∧ w.delivered 0 = some ⟨(0, 0), 5, 0⟩ ∧ (w.memory 5)[0]? = some 20 ∧
      (twoPartitions.file 0)[0]? = some 10 ∧ ¬ Isolated twoPartitions w := by
  have hrun : ((firstScan ++ secondScan).foldlM (step twoPartitions)
      (World.new oneChunk fun _ => [])).map (fun w => (w.delivered 0, (w.memory 5)[0]?)) =
        some (some ⟨(0, 0), 5, 0⟩, some 20) := by
    decide +kernel
  obtain ⟨w, hw, hobs⟩ := Option.map_eq_some_iff.mp hrun
  obtain ⟨hdelivered, hmemory⟩ := Prod.mk.inj hobs
  refine ⟨w, hw, hdelivered, hmemory, rfl, fun h => ?_⟩
  obtain ⟨b, hb, hfile⟩ := h 0 _ hdelivered
  rw [hmemory] at hb
  cases hb
  cases hfile

end ScanIsolation
