/-
The parallel scan of a partition.  A call of `NextBlock` goes through locked sections: a section
hands out a block, moves on to the next chunk, or finds no chunk left.
-/
import ClaimsDB.Runs

namespace Storage

open List

/-- A block of a partition: the chunk and the position in it. -/
abbrev BlockRef := ℕ × ℕ

/-- `ChunkReaderIterator`, with what the block accessors are made from. -/
structure ChunkReaderIterator where
  chunkOff : ℕ
  numberOfBlocks : ℕ
  curBlock : ℕ
  deriving DecidableEq, Repr

namespace ChunkReaderIterator

/-- `GetNextBlockAccessor`, the same for the chunks in memory, on disk and in HDFS. -/
def getNextBlockAccessor (it : ChunkReaderIterator) : Option (BlockRef × ChunkReaderIterator) :=
  if it.numberOfBlocks ≤ it.curBlock then none
  else some ((it.chunkOff, it.curBlock), { it with curBlock := it.curBlock + 1 })

def remaining (it : ChunkReaderIterator) : List BlockRef :=
  (List.range' it.curBlock (it.numberOfBlocks - it.curBlock)).map fun k => (it.chunkOff, k)

theorem remaining_of_none {it : ChunkReaderIterator} (h : it.getNextBlockAccessor = none) :
    it.remaining = [] := by
  rw [getNextBlockAccessor] at h
  split_ifs at h with hle
  rw [remaining, Nat.sub_eq_zero_of_le hle, range'_zero, map_nil]

theorem remaining_of_some {it it' : ChunkReaderIterator} {b : BlockRef}
    (h : it.getNextBlockAccessor = some (b, it')) : it.remaining = b :: it'.remaining := by
  rw [getNextBlockAccessor] at h
  split_ifs at h with hle
  obtain ⟨rfl, rfl⟩ := Prod.mk.inj (Option.some.inj h)
  obtain ⟨m, hm⟩ : ∃ m, it.numberOfBlocks - it.curBlock = m + 1 :=
    ⟨it.numberOfBlocks - it.curBlock - 1, by omega⟩
  have hm' : it.numberOfBlocks - (it.curBlock + 1) = m := by omega
  simp only [remaining, hm, hm', range'_succ, map_cons]

end ChunkReaderIterator

/-- The partition that is scanned: `number_of_chunks_`, and for every chunk what its
`CreateChunkReaderIterator` returns. -/
structure ScannedPartition where
  numberOfChunks : ℕ
  createChunkReaderIterator : ℕ → Option ChunkReaderIterator

/-- Every chunk can be loaded; chunk `i` has `blocks i` blocks. -/
def Loadable (ps : ScannedPartition) (blocks : ℕ → ℕ) : Prop :=
  ∀ i < ps.numberOfChunks, ps.createChunkReaderIterator i = some ⟨i, blocks i, 0⟩

structure PartitionReader where
  chunkCur : ℕ
  chunkIt : Option ChunkReaderIterator
  deriving DecidableEq, Repr

def PartitionReader.new : PartitionReader := ⟨0, none⟩

def nextChunk (ps : ScannedPartition) (r : PartitionReader) :
    Option ChunkReaderIterator × ℕ :=
  if r.chunkCur < ps.numberOfChunks then
    (ps.createChunkReaderIterator r.chunkCur, r.chunkCur + 1)
  else (none, r.chunkCur)

/-- How a locked section of `NextBlock` ends. -/
inductive Outcome
  | block (b : BlockRef)
  /-- another chunk was opened: `return NextBlock(block)` -/
  | again
  | exhausted
  deriving DecidableEq, Repr

/-- What `NextBlock` does between `lock_.acquire()` and `lock_.release()`. -/
def locked (ps : ScannedPartition) (r : PartitionReader) : PartitionReader × Outcome :=
  match r.chunkIt.bind (·.getNextBlockAccessor) with
  | some (b, it) => ({ r with chunkIt := some it }, .block b)
  | none =>
    match nextChunk ps r with
    | (some it, cur) => (⟨cur, some it⟩, .again)
    | (none, cur) => (⟨cur, none⟩, .exhausted)

/-! ### What is left -/

def chunkBlocks (blocks : ℕ → ℕ) (i : ℕ) : List BlockRef :=
  (List.range (blocks i)).map fun k => (i, k)

def allBlocks (ps : ScannedPartition) (blocks : ℕ → ℕ) : List BlockRef :=
  (List.range ps.numberOfChunks).flatMap (chunkBlocks blocks)

/-- The blocks that have not been handed out: those of the current chunk, and the chunks that
have not been opened. -/
def PartitionReader.remaining (ps : ScannedPartition) (blocks : ℕ → ℕ) (r : PartitionReader) :
    List BlockRef :=
  r.chunkIt.elim [] (·.remaining)
    ++ (List.range' r.chunkCur (ps.numberOfChunks - r.chunkCur)).flatMap (chunkBlocks blocks)

variable {ps : ScannedPartition} {blocks : ℕ → ℕ}

theorem remaining_of_exhausted {r : PartitionReader}
    (h : r.chunkIt.bind (·.getNextBlockAccessor) = none) :
    r.remaining ps blocks = (List.range' r.chunkCur (ps.numberOfChunks - r.chunkCur)).flatMap
      (chunkBlocks blocks) := by
  have hcur : r.chunkIt.elim [] (·.remaining) = [] := by
    cases hit : r.chunkIt with
    | none => rfl
    | some it =>
      rw [hit] at h
      exact ChunkReaderIterator.remaining_of_none h
  rw [PartitionReader.remaining, hcur, nil_append]

/-- **One locked section** hands out the first block left, and false only if none is. -/
theorem locked_remaining (hload : Loadable ps blocks) (r : PartitionReader) :
    match locked ps r with
    | (r', .block b) => r.remaining ps blocks = b :: r'.remaining ps blocks ∧
        r'.chunkCur = r.chunkCur
    | (r', .again) => r'.remaining ps blocks = r.remaining ps blocks ∧
        r.chunkCur < ps.numberOfChunks ∧ r'.chunkCur = r.chunkCur + 1
    | (r', .exhausted) => r.remaining ps blocks = [] ∧ r'.remaining ps blocks = [] := by
  rw [locked]
  cases hacc : r.chunkIt.bind (·.getNextBlockAccessor) with
  | some x =>
    obtain ⟨b, it'⟩ := x
    obtain ⟨it, hit, hnext⟩ := Option.bind_eq_some_iff.mp hacc
    refine ⟨?_, rfl⟩
    simp [PartitionReader.remaining, hit, ChunkReaderIterator.remaining_of_some hnext]
  | none =>
    have hrem : r.remaining ps blocks = _ := remaining_of_exhausted hacc
    by_cases hlt : r.chunkCur < ps.numberOfChunks
    · obtain ⟨m, hm⟩ : ∃ m, ps.numberOfChunks - r.chunkCur = m + 1 :=
        ⟨ps.numberOfChunks - r.chunkCur - 1, by omega⟩
      have hm' : ps.numberOfChunks - (r.chunkCur + 1) = m := by omega
      have hnext : nextChunk ps r = (some ⟨r.chunkCur, blocks r.chunkCur, 0⟩, r.chunkCur + 1) := by
        rw [nextChunk, if_pos hlt, hload _ hlt]
      rw [hnext]
      refine ⟨?_, hlt, rfl⟩
      rw [hrem, hm, range'_succ, flatMap_cons, PartitionReader.remaining, hm']
      simp [ChunkReaderIterator.remaining, chunkBlocks, range_eq_range']
    · have hnext : nextChunk ps r = (none, r.chunkCur) := if_neg hlt
      rw [hnext]
      have hzero : ps.numberOfChunks - r.chunkCur = 0 := by omega
      constructor
      · rw [hrem, hzero, range'_zero, flatMap_nil]
      · simp [PartitionReader.remaining, hzero]

/-! ### Threads -/

/-- The threads that share the iterator: which of them are in a call, and what the calls so far
have returned, `none` being false. -/
structure Scan (Thread : Type) where
  reader : PartitionReader
  inCall : Thread → Bool
  returned : List (Thread × Option BlockRef)

variable {Thread : Type} [DecidableEq Thread]

namespace Scan

def new (Thread : Type) : Scan Thread := ⟨PartitionReader.new, fun _ => false, []⟩

def handedOut (s : Scan Thread) : List BlockRef := s.returned.filterMap (·.2)

def runSection (ps : ScannedPartition) (s : Scan Thread) (t : Thread) : Scan Thread :=
  match locked ps s.reader with
  | (r, .block b) => ⟨r, Function.update s.inCall t false, s.returned ++ [(t, some b)]⟩
  | (r, .again) => ⟨r, s.inCall, s.returned⟩
  | (r, .exhausted) => ⟨r, Function.update s.inCall t false, s.returned ++ [(t, none)]⟩

inductive ThreadStep (ps : ScannedPartition) (t : Thread) : Scan Thread → Scan Thread → Prop
  /-- `NextBlock` is called -/
  | call (s : Scan Thread) (h : s.inCall t = false) :
      ThreadStep ps t s { s with inCall := Function.update s.inCall t true }
  | enter (s : Scan Thread) (h : s.inCall t = true) : ThreadStep ps t s (s.runSection ps t)

def Step (ps : ScannedPartition) (s s' : Scan Thread) : Prop := ∃ t, ThreadStep ps t s s'

/-- The blocks handed out, followed by those left, are all blocks; and whenever a call has
returned false none is left. -/
structure Accounted (ps : ScannedPartition) (blocks : ℕ → ℕ) (s : Scan Thread) : Prop where
  all : s.handedOut ++ s.reader.remaining ps blocks = allBlocks ps blocks
  done : ∀ t, (t, none) ∈ s.returned → s.reader.remaining ps blocks = []

omit [DecidableEq Thread] in
theorem Accounted.new : Accounted ps blocks (Scan.new Thread) :=
  ⟨by simp [handedOut, Scan.new, PartitionReader.remaining, PartitionReader.new, allBlocks,
    range_eq_range'], by simp [Scan.new]⟩

theorem Accounted.runSection (hload : Loadable ps blocks) {s : Scan Thread}
    (h : Accounted ps blocks s) (t : Thread) : Accounted ps blocks (s.runSection ps t) := by
  have hsec := locked_remaining hload s.reader
  rw [Scan.runSection]
  rcases hl : locked ps s.reader with ⟨r, _ | _ | _⟩
  all_goals rw [hl] at hsec
  · obtain ⟨hrem, -⟩ := hsec
    refine ⟨?_, fun u hu => ?_⟩
    · rw [← h.all, hrem]
      simp [handedOut]
    · have hmem : (u, none) ∈ s.returned := by simpa using hu
      have hnil := h.done u hmem
      rw [hrem] at hnil
      cases hnil
  · obtain ⟨hrem, -⟩ := hsec
    exact ⟨by rw [← h.all, ← hrem]; rfl, fun u hu => hrem.trans (h.done u hu)⟩
  · obtain ⟨hrem, hrem'⟩ := hsec
    refine ⟨?_, fun _ _ => hrem'⟩
    rw [← h.all, hrem]
    simp [handedOut, hrem']

theorem Accounted.step (hload : Loadable ps blocks) {s s' : Scan Thread}
    (h : Accounted ps blocks s) (hs : Step ps s s') : Accounted ps blocks s' := by
  obtain ⟨t, hs⟩ := hs
  cases hs with
  | call _ => exact ⟨h.all, h.done⟩
  | enter _ => exact h.runSection hload t

theorem call_returns (hload : Loadable ps blocks) (s : Scan Thread) {t : Thread}
    (hin : s.inCall t = true) :
    ∃ s' x, Runs.Reaches (ThreadStep ps t) s s' ∧ s'.inCall t = false ∧
      s'.returned = s.returned ++ [(t, x)] := by
  obtain ⟨s', hs', x, hret, hx⟩ := Runs.finish (ThreadStep ps t)
    (fun u => u.inCall t = true ∧ u.returned = s.returned)
    (fun u => ∃ x, u.inCall t = false ∧ u.returned = s.returned ++ [(t, x)])
    (fun u => ps.numberOfChunks - u.reader.chunkCur) (fun u hu => by
      obtain ⟨hu, hret⟩ := hu
      refine ⟨u.runSection ps t, .enter u hu, ?_⟩
      have hsec := locked_remaining hload u.reader
      rw [runSection]
      rcases hl : locked ps u.reader with ⟨r, b | _ | _⟩
      all_goals rw [hl] at hsec
      · exact .inl ⟨some b, by simp, by rw [hret]⟩
      · refine .inr ⟨⟨hu, hret⟩, ?_⟩
        show ps.numberOfChunks - r.chunkCur < ps.numberOfChunks - u.reader.chunkCur
        omega
      · exact .inl ⟨none, by simp, by rw [hret]⟩) ⟨hin, rfl⟩
  exact ⟨s', x, hs', hret, hx⟩

end Scan

theorem nodup_allBlocks : (allBlocks ps blocks).Nodup := by
  refine List.nodup_flatMap.mpr
    ⟨fun i _ => List.nodup_range.map fun _ _ h => (Prod.mk.inj h).2, ?_⟩
  refine List.nodup_range.imp fun {i j} hij => ?_
  rw [Function.onFun, disjoint_left]
  rintro ⟨a, b⟩ hi hj
  simp only [chunkBlocks, mem_map, Prod.mk.injEq] at hi hj
  obtain ⟨_, _, rfl, _⟩ := hi
  obtain ⟨_, _, rfl, _⟩ := hj
  exact hij rfl

/-- **The parallel scan** hands every block out once, and every call returns. -/
theorem scan_exactly_once (hload : Loadable ps blocks) {s : Scan Thread}
    (hs : Runs.Reaches (Scan.Step ps) (Scan.new Thread) s) :
    s.handedOut.Nodup ∧ (∀ b ∈ s.handedOut, b ∈ allBlocks ps blocks) ∧
    (∀ t, (t, none) ∈ s.returned → s.handedOut.Perm (allBlocks ps blocks)) ∧
    ∀ t, s.inCall t = true → ∃ s' x, Runs.Reaches (Scan.ThreadStep ps t) s s' ∧
      s'.inCall t = false ∧ s'.returned = s.returned ++ [(t, x)] ∧
      (x = none → s.handedOut.Perm (allBlocks ps blocks)) := by
  have hacc : ∀ {s}, Runs.Reaches (Scan.Step ps) (Scan.new Thread) s → s.Accounted ps blocks :=
    fun hs => Runs.invariant (fun _ _ h hstep => h.step hload hstep) hs .new
  have hfalse : ∀ {s}, Runs.Reaches (Scan.Step ps) (Scan.new Thread) s → ∀ t,
      (t, none) ∈ s.returned → s.handedOut = allBlocks ps blocks := fun hs t ht => by
    have h := hacc hs
    rw [← h.all, h.done t ht, append_nil]
  have hsub : s.handedOut.Sublist (allBlocks ps blocks) :=
    (hacc hs).all ▸ sublist_append_left _ _
  refine ⟨nodup_allBlocks.sublist hsub, fun b hb => hsub.subset hb,
    fun t ht => .of_eq (hfalse hs t ht), fun t ht => ?_⟩
  obtain ⟨s', x, hrun, hin, hret⟩ := s.call_returns hload ht
  refine ⟨s', x, hrun, hin, hret, ?_⟩
  rintro rfl
  -- the run of the one thread continues the run of all
  have hs' : Runs.Reaches (Scan.Step ps) (Scan.new Thread) s' :=
    hs.trans (hrun.lift id fun _ _ h => ⟨t, h⟩)
  have hall := hfalse hs' t (by rw [hret]; simp)
  have heq : s'.handedOut = s.handedOut := by simp [Scan.handedOut, hret]
  exact .of_eq (heq ▸ hall)

def twoChunks : ScannedPartition where
  numberOfChunks := 2
  createChunkReaderIterator i := some ⟨i, if i = 0 then 2 else 0, 0⟩

theorem scan_exactly_once_twoChunks :
    let s : Scan ℕ := ⟨⟨1, some ⟨0, 2, 1⟩⟩, fun _ => false, [(7, some (0, 0))]⟩
    Runs.Reaches (Scan.Step twoChunks) (Scan.new ℕ) s ∧ s.handedOut.Nodup := by
  have hreach : Runs.Reaches (Scan.Step twoChunks) (Scan.new ℕ)
      ⟨⟨1, some ⟨0, 2, 1⟩⟩, fun _ => false, [(7, some (0, 0))]⟩ := by
    refine .head ⟨7, .call _ rfl⟩ (.head ⟨7, .enter _ (by simp)⟩ (.head ⟨7, .enter _ ?_⟩ ?_))
    · simp [Scan.runSection, locked, nextChunk, twoChunks, Scan.new, PartitionReader.new]
    · convert Relation.ReflTransGen.refl using 1
      simp [Scan.runSection, locked, nextChunk, twoChunks, Scan.new, PartitionReader.new,
        ChunkReaderIterator.getNextBlockAccessor]
  have hload : Loadable twoChunks fun i => if i = 0 then 2 else 0 := fun _ _ => rfl
  exact ⟨hreach, (scan_exactly_once hload hreach).1⟩

end Storage
