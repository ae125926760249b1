/-
Coherence of the partitions, their chunks and the memory.

* `Coherent.step`, `storage_coherent` — the invariant and what follows from it;
* `stale_read` — chunk 64 of a file on the local disk is read as chunk 0.
-/
import ClaimsDB.StorageLevels

namespace Storage

open List Except
open Function (update update_of_ne update_self)
open Option (mem_unique some)

variable {P B : Type} [DecidableEq P]

open MemoryChunkStore

/-! ### Memories that hold less -/

/-- Every chunk of the one memory is, with the same contents, in the other one. -/
structure SubStore (m' m : MemoryChunkStore P B) : Prop where
  entry : ∀ e' ∈ m'.chunkList, ∃ e ∈ m.chunkList,
    e'.1 = e.1 ∧ e'.2.hook = e.2.hook ∧ e'.2.length = e.2.length
  chunks : m'.chunks.Sublist m.chunks

namespace SubStore

omit [DecidableEq P] in
theorem refl (m : MemoryChunkStore P B) : SubStore m m :=
  ⟨fun e he => ⟨e, he, rfl, rfl, rfl⟩, List.Sublist.refl _⟩

omit [DecidableEq P] in
theorem trans {m₁ m₂ m₃ : MemoryChunkStore P B} (h : SubStore m₁ m₂) (h' : SubStore m₂ m₃) :
    SubStore m₁ m₃ := by
  refine ⟨fun e₁ he₁ => ?_, h.chunks.trans h'.chunks⟩
  obtain ⟨e₂, he₂, hid, hhook, hlen⟩ := h.entry e₁ he₁
  obtain ⟨e₃, he₃, hid', hhook', hlen'⟩ := h'.entry e₂ he₂
  exact ⟨e₃, he₃, hid.trans hid', hhook.trans hhook', hlen.trans hlen'⟩

theorem isExist (m : MemoryChunkStore P B) (c : ChunkID P) : SubStore (m.isExist c) m := by
  refine ⟨fun e' he' => ?_, by rw [isExist_chunks]⟩
  simp only [MemoryChunkStore.isExist, wasteTime, map_map, mem_map,
    Function.comp_apply] at he'
  obtain ⟨e, he, rfl⟩ := he'
  refine ⟨e, he, ?_⟩
  split_ifs <;> exact ⟨rfl, rfl, rfl⟩

theorem erase (m : MemoryChunkStore P B) (c : ChunkID P) : SubStore (m.erase c) m :=
  ⟨fun e he => ⟨e, mem_of_mem_eraseP he, rfl, rfl, rfl⟩,
    by rw [erase_chunks]; exact eraseP_sublist⟩

variable {m' m : MemoryChunkStore P B}

omit [DecidableEq P] in
theorem of_chunkList (h : m'.chunkList = m.chunkList) : SubStore m' m :=
  ⟨fun e he => ⟨e, h ▸ he, rfl, rfl, rfl⟩, by rw [MemoryChunkStore.chunks, h]; rfl⟩

theorem of_room {env : Environment P B} (h : Room m env m') : SubStore m' m := by
  cases h with
  | charged _ => exact of_chunkList rfl
  | evicted _ _ => exact erase m _

theorem returnChunk (m : MemoryChunkStore P B) (c : ChunkID P) : SubStore (m.returnChunk c) m := by
  rw [MemoryChunkStore.returnChunk]
  split_ifs
  · have hsub : SubStore { m.erase c with budget := m.budget.returnStorageBudget chunkSize }
        (m.erase c) := of_chunkList rfl
    exact hsub.trans (erase m c)
  · exact refl m

end SubStore

variable {m : MemoryChunkStore P B} {chunks : List (ChunkStorage P)} {m' : MemoryChunkStore P B}
  {c : ChunkID P} {env : Environment P B} {info : HdfsInMemoryChunk B} {file : List B} {i : ℕ}
  {cfg : StorageConfig} {cs cs' : ChunkStorage P} {p : P} {ps : PartitionStorage P}

theorem not_mem_returnChunk (hnd : m.chunks.Nodup) (c : ChunkID P) :
    c ∉ (m.returnChunk c).chunks := by
  rw [MemoryChunkStore.returnChunk]
  split_ifs with hc
  · have herase : (m.erase c).chunks = m.chunks.erase c := by
      rw [erase_chunks, erase_eq_eraseP]
      congr 1
      funext x
      by_cases h : x = c
      · simp [h]
      · simp [h, Ne.symm h]
    have hnot : c ∉ (m.erase c).chunks := by
      rw [herase]
      exact hnd.not_mem_erase
    exact hnot
  · exact fun h => hc (holds_iff.mpr h)

theorem returnChunks : ∀ {m : MemoryChunkStore P B},
    m.chunks.Nodup →
    SubStore (chunks.foldl (fun m cs => m.returnChunk cs.chunkId) m) m ∧
      ∀ cs ∈ chunks, cs.chunkId ∉
        (chunks.foldl (fun m cs => m.returnChunk cs.chunkId) m).chunks := by
  induction chunks with
  | nil => exact fun {m} _ => ⟨.refl m, by simp⟩
  | cons cs chunks ih =>
    intro m hnd
    have hsub := SubStore.returnChunk m cs.chunkId
    obtain ⟨hsub', hnot⟩ := ih (hnd.sublist hsub.chunks)
    exact ⟨hsub'.trans hsub, List.forall_mem_cons.2
      ⟨fun h => not_mem_returnChunk hnd _ (hsub'.chunks.subset h), hnot⟩⟩

theorem applyChunk_true (h : m.applyChunk c env = .ok (m', true)) :
    c ∉ m.chunks ∧ ∃ m₁, SubStore m₁ m ∧
      m'.chunkList = m₁.chunkList ++ [(c, ⟨[], chunkSize, 0⟩)] := by
  rcases applyChunk_cases h with ⟨-, -, hr⟩ | ⟨hnew, m₁, hroom, ⟨-, -, rfl⟩ | ⟨-, hr, -⟩⟩
  · cases hr
  · exact ⟨hnew, m₁, (SubStore.of_room hroom).trans (.isExist m c), rfl⟩
  · cases hr

theorem applyChunk_false (hp : env.poolAllocates = true)
    (h : m.applyChunk c env = .ok (m', false)) : c ∈ m.chunks := by
  rcases applyChunk_cases h with ⟨hc, -⟩ | ⟨-, m₁, -, ⟨-, hr, -⟩ | ⟨hp', -⟩⟩
  · exact hc
  · cases hr
  · rw [hp] at hp'
    cases hp'

theorem getChunk_mem (h : m.getChunk c = some info) : (c, info) ∈ m.chunkList := by
  obtain ⟨e, he, rfl⟩ := Option.map_eq_some_iff.mp h
  have hc : e.1 = c := by simpa using find?_some he
  rw [← hc]
  exact mem_of_find?_eq_some he

theorem getChunk_none (h : m.getChunk c = none) : c ∉ m.chunks := by
  rw [getChunk, Option.map_eq_none_iff, find?_eq_none] at h
  intro hc
  obtain ⟨e, he, hid⟩ := List.mem_map.mp hc
  exact h e he (by simpa using hid)

@[simp] theorem updateChunkInfo_chunks (m : MemoryChunkStore P B) (c : ChunkID P)
    (info : HdfsInMemoryChunk B) : (m.updateChunkInfo c info).chunks = m.chunks := by
  simp only [chunks, updateChunkInfo, map_map]
  refine map_congr_left fun e _ => ?_
  simp only [Function.comp_apply]
  split_ifs <;> rfl

/-! ### What is loaded -/

/-- The chunk that is loaded for chunk `i`. -/
def loadedFor (cfg : StorageConfig) (i : ℕ) : ℕ := if cfg.localDiskMode then i % 64 else i

theorem loadedFor_le (cfg : StorageConfig) (i : ℕ) : loadedFor cfg i ≤ i := by
  rw [loadedFor]
  split_ifs
  · exact Nat.mod_le i 64
  · exact le_rfl

theorem diskPos_eq (i : ℕ) : diskPos i = chunkSize * (i % 64) := by
  have h : (2 : ℕ) ^ 32 = chunkSize * 64 := by simp [chunkSize]
  rw [diskPos, h, Nat.mul_mod_mul_left]

theorem lt_chunksIn : i < chunksIn file ↔ blocksPerChunk * i < file.length := by
  rw [chunksIn, blocksPerChunk]
  omega

theorem chunkSize_mul (k : ℕ) : chunkSize * k = blockSize * (blocksPerChunk * k) := by
  rw [chunkSize_eq, Nat.mul_comm blocksPerChunk, Nat.mul_assoc]

theorem chunkSize_mul_lt {k : ℕ} :
    chunkSize * k < fileLength file ↔ blocksPerChunk * k < file.length := by
  rw [chunkSize_mul, fileLength, Nat.mul_lt_mul_left blockSize_pos]

theorem pread_chunk (file : List B) (k : ℕ) :
    pread file (chunkSize * k) = (chunkOf file k, ((blockSize * (chunkOf file k).length : ℕ) : ℤ)) := by
  rw [pread, chunkSize_mul, Nat.mul_div_cancel_left _ blockSize_pos, chunkOf]
  simp

theorem loadChunk_eq (cfg : StorageConfig) (h : i < chunksIn file) :
    loadChunk cfg file i = (chunkOf file (loadedFor cfg i),
      ((blockSize * (chunkOf file (loadedFor cfg i)).length : ℕ) : ℤ)) := by
  have hlt : chunkSize * loadedFor cfg i < fileLength file :=
    chunkSize_mul_lt.mpr (lt_of_le_of_lt (Nat.mul_le_mul_left _ (loadedFor_le cfg i))
      (lt_chunksIn.mp h))
  rw [loadChunk]
  rw [loadedFor] at hlt ⊢
  split_ifs at hlt ⊢
  · rw [loadFromDisk, diskPos_eq, if_pos hlt, pread_chunk]
  · rw [loadFromHdfs, if_pos hlt, pread_chunk]

theorem chunkOf_ne_nil (h : i < chunksIn file) : chunkOf file i ≠ [] := by
  have hlt := lt_chunksIn.mp h
  rw [← length_pos_iff, chunkOf, length_take, length_drop, blocksPerChunk]
  rw [blocksPerChunk] at hlt
  omega

theorem loadChunk_pos (cfg : StorageConfig) (h : i < chunksIn file) :
    ¬ (loadChunk cfg file i).2 ≤ 0 := by
  have hpos := List.length_pos_iff.mpr (chunkOf_ne_nil ((loadedFor_le cfg i).trans_lt h))
  rw [loadChunk_eq cfg h]
  exact not_le.mpr (Int.natCast_pos.mpr (Nat.mul_pos blockSize_pos hpos))

theorem inMemoryReader_loaded (cfg : StorageConfig) (h : i < chunksIn file)
    (hinfo : (info.hook, info.length) = loadChunk cfg file i) :
    inMemoryReader info = chunkOf file (loadedFor cfg i) := by
  rw [loadChunk_eq cfg h] at hinfo
  obtain ⟨hhook, hlen⟩ := Prod.mk.inj hinfo
  rw [inMemoryReader, hhook, hlen, Int.toNat_natCast, Nat.mul_div_cancel_left _ blockSize_pos,
    take_length]

theorem diskReader_eq (hcfg : cfg.localDiskMode = true) (h : i < chunksIn file) :
    diskReader cfg file i = chunkOf file (loadedFor cfg i) := by
  have hlt : chunkSize * (i % 64) < fileLength file :=
    chunkSize_mul_lt.mpr (lt_of_le_of_lt (Nat.mul_le_mul_left _ (Nat.mod_le i 64))
      (lt_chunksIn.mp h))
  rw [diskReader, if_pos hcfg, diskPos_eq, if_neg (not_le.mpr hlt), loadedFor, if_pos hcfg, chunkOf]
  have hdiv : chunkSize * (i % 64) / blockSize = blocksPerChunk * (i % 64) := by
    rw [chunkSize_mul, Nat.mul_div_cancel_left _ blockSize_pos]
  rw [hdiv]
  dsimp only
  split_ifs with hwrap
  · rfl
  · -- the chunk is the last one: what is left of the file is at most a chunk
    have hle : fileLength file ≤ chunkSize * (i % 64 + 1) := by
      rw [Nat.mul_add, Nat.mul_one]
      exact (not_lt.mp hwrap).trans (Nat.mod_le _ _)
    rw [chunkSize_mul, fileLength] at hle
    replace hle := Nat.le_of_mul_le_mul_left hle blockSize_pos
    rw [chunkSize_mul, fileLength, ← Nat.mul_sub, Nat.mul_div_cancel_left _ blockSize_pos,
      ← length_drop, take_length, take_of_length_le]
    rw [length_drop]
    rw [Nat.mul_add, Nat.mul_one] at hle
    omega

theorem chunkOf_append (h : i + 1 < chunksIn file) (bs : List B) :
    chunkOf (file ++ bs) i = chunkOf file i := by
  have hlt := lt_chunksIn.mp h
  rw [blocksPerChunk] at hlt
  rw [chunkOf, chunkOf, blocksPerChunk, drop_append_of_le_length (by omega),
    take_append_of_le_length (by rw [length_drop]; omega)]

theorem chunksIn_le_append (file bs : List B) : chunksIn file ≤ chunksIn (file ++ bs) := by
  rw [chunksIn, chunksIn, length_append]
  exact Nat.div_le_div_right (by omega)

theorem loadChunk_append (cfg : StorageConfig) (h : i + 1 < chunksIn file) (bs : List B) :
    loadChunk cfg (file ++ bs) i = loadChunk cfg file i := by
  have hle := chunksIn_le_append file bs
  rw [loadChunk_eq cfg (by omega), loadChunk_eq cfg (by omega),
    chunkOf_append (lt_of_le_of_lt (Nat.succ_le_succ (loadedFor_le cfg i)) h)]

/-! ### Opening a chunk -/

/-- **All that `CreateChunkReaderIterator` can do.** -/
theorem createChunkReaderIterator_cases {r : Option (List B)}
    (hlevel : cs.currentStorageLevel ≠ .disk)
    (h : cs.createChunkReaderIterator cfg file m env = .ok (cs', m', r)) :
    (∃ info, cs.currentStorageLevel = .memory ∧ (cs.chunkId, info) ∈ m.chunkList ∧ cs' = cs ∧
      m' = m ∧ r = some (inMemoryReader info)) ∨
    (cs.currentStorageLevel = .memory → cs.chunkId ∉ m.chunks) ∧
      (cs.desirableStorageLevel ≠ .memory ∧ cs' = { cs with currentStorageLevel := .hdfs } ∧
          m' = m ∧ r = some (diskReader cfg file cs.chunkId.2) ∨
        cs.desirableStorageLevel = .memory ∧ ∃ m₁, m.applyChunk cs.chunkId env = .ok (m₁, true) ∧
          (cs', m', r) = { cs with currentStorageLevel := .hdfs }.load cfg file m₁) := by
  rw [ChunkStorage.createChunkReaderIterator] at h
  by_cases hmem : cs.currentStorageLevel = .memory ∧ (m.getChunk cs.chunkId).isSome
  · -- the chunk is in memory
    obtain ⟨info, hinfo⟩ := Option.isSome_iff_exists.mp hmem.2
    have hclean : cs.cleanDirty m = cs := by
      rw [ChunkStorage.cleanDirty, if_neg (by simp [hinfo])]
    rw [hclean, hmem.1, hinfo] at h
    simp only [Option.map_some, ok.injEq, Prod.mk.injEq] at h
    obtain ⟨rfl, rfl, rfl⟩ := h
    exact .inl ⟨info, hmem.1, getChunk_mem hinfo, rfl, rfl, rfl⟩
  · -- the chunk is not in memory, or not any more
    have hfreed : cs.currentStorageLevel = .memory → cs.chunkId ∉ m.chunks := fun hl =>
      getChunk_none (by simpa [hl] using hmem)
    have hclean : cs.cleanDirty m = { cs with currentStorageLevel := .hdfs } := by
      rw [ChunkStorage.cleanDirty]
      cases hl : cs.currentStorageLevel with
      | memory =>
        have hnone : m.getChunk cs.chunkId = none := by simpa [hl] using hmem
        simp [hnone]
      | disk => exact absurd hl hlevel
      | hdfs => simp [← hl]
    refine .inr ⟨hfreed, ?_⟩
    rw [hclean] at h
    dsimp only at h
    by_cases hd : cs.desirableStorageLevel = .memory
    · rw [if_pos hd] at h
      refine .inr ⟨hd, ?_⟩
      cases happ : m.applyChunk cs.chunkId env with
      | error e =>
        rw [happ] at h
        cases h
      | ok x =>
        obtain ⟨m₁, applied⟩ := x
        rw [happ, Run.bind_ok] at h
        cases applied with
        | false => cases h
        | true => exact ⟨m₁, rfl, (ok.inj h).symm⟩
    · rw [if_neg hd] at h
      simp only [ok.injEq, Prod.mk.injEq] at h
      obtain ⟨rfl, rfl, rfl⟩ := h
      exact .inl ⟨hd, rfl, rfl, rfl⟩

theorem load_eq (cfg : StorageConfig) (m : MemoryChunkStore P B)
    (h : cs.chunkId.2 < chunksIn file) :
    ∃ info : HdfsInMemoryChunk B, (info.hook, info.length) = loadChunk cfg file cs.chunkId.2 ∧
      cs.load cfg file m = ({ cs with currentStorageLevel := .memory },
        m.updateChunkInfo cs.chunkId info, some (inMemoryReader info)) := by
  refine ⟨⟨(loadChunk cfg file cs.chunkId.2).1, (loadChunk cfg file cs.chunkId.2).2, 0⟩, rfl, ?_⟩
  rw [ChunkStorage.load]
  exact if_neg (loadChunk_pos cfg h)

/-! ### The chunks of a partition -/

open PartitionStorage

omit [DecidableEq P] in
theorem reloadLast_append (init : List (ChunkStorage P)) (x : ChunkStorage P) :
    reloadLast (init ++ [x]) = init ++ [{ x with currentStorageLevel := .hdfs }] := by
  simp [reloadLast]

omit [DecidableEq P] in
theorem length_reloadLast (chunks : List (ChunkStorage P)) :
    (reloadLast chunks).length = chunks.length := by
  rcases eq_nil_or_concat chunks with rfl | ⟨init, x, rfl⟩
  · rfl
  · simp [reloadLast_append]

omit [DecidableEq P] in
theorem getElem?_reloadLast (h : i + 1 < chunks.length) : (reloadLast chunks)[i]? = chunks[i]? := by
  rcases eq_nil_or_concat chunks with rfl | ⟨init, x, rfl⟩
  · rfl
  · rw [concat_eq_append] at h ⊢
    have hlt : i < init.length := by simpa using h
    rw [reloadLast_append, getElem?_append_left hlt, getElem?_append_left hlt]

omit [DecidableEq P] in
theorem mem_reloadLast (h : (reloadLast chunks)[i]? = some cs') : ∃ cs, chunks[i]? = some cs ∧
      cs'.chunkId = cs.chunkId ∧ (cs' = cs ∨ cs'.currentStorageLevel = .hdfs) := by
  by_cases hi : i + 1 < chunks.length
  · rw [getElem?_reloadLast hi] at h
    exact ⟨cs', h, rfl, .inl rfl⟩
  · rcases eq_nil_or_concat chunks with rfl | ⟨init, x, rfl⟩
    · cases h
    · have hlt := (List.getElem?_eq_some_iff.mp h).1
      rw [length_reloadLast] at hlt
      obtain rfl : i = init.length := by simp at hi hlt; omega
      rw [concat_eq_append] at h ⊢
      rw [reloadLast_append] at h
      simp at h
      exact ⟨x, by simp, by rw [← h], .inr (by rw [← h])⟩

omit [DecidableEq P] in
theorem mem_newChunks {first last : ℕ} {level : StorageLevel}
    (h : (newChunks p first last level)[i]? = some cs) : cs = .new (p, first + i) level := by
  rw [newChunks, getElem?_map, Option.map_eq_some_iff] at h
  obtain ⟨k, hk, rfl⟩ := h
  obtain ⟨hlt, rfl⟩ := List.getElem?_eq_some_iff.mp hk
  simp

/-! ### Coherence -/

structure PartitionOk (p : P) (file : List B) (ps : PartitionStorage P) : Prop where
  length : ps.chunkList.length = ps.numberOfChunks
  number : ps.numberOfChunks = chunksIn file
  chunk : ∀ (i : ℕ) (cs : ChunkStorage P), ps.chunkList[i]? = some cs →
    cs.chunkId = (p, i) ∧ cs.currentStorageLevel ≠ .disk

omit [DecidableEq P] in
theorem PartitionOk.create (cfg : StorageConfig) (m : MemoryChunkStore P B) (p : P)
    (file : List B) (level : StorageLevel) :
    PartitionOk p file (PartitionStorage.create cfg m p (chunksIn file) level).1 := by
  refine ⟨by simp [PartitionStorage.create, newChunks], rfl, fun i cs h => ?_⟩
  rw [mem_newChunks h, Nat.zero_add]
  exact ⟨rfl, nofun⟩

theorem PartitionOk.update (h : PartitionOk p file ps) (m : MemoryChunkStore P B) (bs : List B)
    (level : StorageLevel) :
    PartitionOk p (file ++ bs)
      (ps.updateChunksWithInsertOrAppend m p (chunksIn (file ++ bs)) level).1 := by
  have hle := chunksIn_le_append file bs
  have hlen := h.length
  have hnum := h.number
  refine ⟨?_, rfl, fun i cs hcs => ?_⟩
  · simp only [updateChunksWithInsertOrAppend, length_append, length_reloadLast, newChunks,
      length_map, length_range']
    omega
  · simp only [updateChunksWithInsertOrAppend] at hcs
    by_cases hi : i < ps.chunkList.length
    · rw [getElem?_append_left (by rwa [length_reloadLast])] at hcs
      obtain ⟨cs₀, hcs₀, hid, hlevel⟩ := mem_reloadLast hcs
      obtain ⟨hid₀, hdisk⟩ := h.chunk i cs₀ hcs₀
      refine ⟨hid.trans hid₀, ?_⟩
      rcases hlevel with rfl | hlevel
      · exact hdisk
      · rw [hlevel]
        nofun
    · rw [getElem?_append_right (by rw [length_reloadLast]; omega), length_reloadLast] at hcs
      rw [mem_newChunks hcs, ← hlen, Nat.add_sub_cancel' (not_lt.mp hi)]
      exact ⟨rfl, nofun⟩

/-- A chunk held in memory belongs to a partition, is known there to be in memory, and has the
contents that would be loaded for it. -/
def Held (cfg : StorageConfig) (s : BlockManager P B) (e : ChunkID P × HdfsInMemoryChunk B) :
    Prop :=
  ∃ ps cs, s.partitions e.1.1 = some ps ∧ ps.chunkList[e.1.2]? = some cs ∧
    cs.currentStorageLevel = .memory ∧ (e.2.hook, e.2.length) = loadChunk cfg (s.file e.1.1) e.1.2

structure Coherent (cfg : StorageConfig) (s : BlockManager P B) : Prop where
  part : ∀ p ps, s.partitions p = some ps → PartitionOk p (s.file p) ps
  held : ∀ e ∈ s.memstore.chunkList, Held cfg s e
  nodup : s.memstore.chunks.Nodup

theorem readChunk_eq (cfg : StorageConfig) {s : BlockManager P B} (hp : s.partitions p = some ps)
    (hi : i < ps.numberOfChunks) (hcs : ps.chunkList[i]? = some cs) (env : Environment P B) :
    s.readChunk cfg p i env =
      (cs.createChunkReaderIterator cfg (s.file p) s.memstore env).map fun x =>
        ({ s with
            partitions := update s.partitions p
              (some { ps with chunkList := ps.chunkList.set i x.1 })
            memstore := x.2.1 }, x.2.2) := by
  rw [BlockManager.readChunk, hp]
  dsimp only
  rw [if_pos hi, Run.index_eq_ok hcs, Run.bind_ok]
  cases cs.createChunkReaderIterator cfg (s.file p) s.memstore env <;> rfl

namespace Coherent

variable {cfg : StorageConfig} {s : BlockManager P B}

omit [DecidableEq P] in
theorem new {limit : ℕ} (h : limit + chunkSize < 2 ^ 64) :
    Coherent cfg (BlockManager.new limit h : BlockManager P B) :=
  ⟨fun _ _ h => (by cases h), fun _ h => (by cases h), nodup_nil⟩

variable {p : P} {ps : PartitionStorage P} {i : ℕ} {cs : ChunkStorage P}
  {m : MemoryChunkStore P B} {cs' : ChunkStorage P} {env : Environment P B} {r : Option (List B)}
  {s' : BlockManager P B}

section

variable (hs : Coherent cfg s)

include hs

omit [DecidableEq P] in
theorem level (hp : s.partitions p = some ps)
    (hcs : ps.chunkList[i]? = some cs) (hheld : (p, i) ∈ s.memstore.chunks) :
    cs.currentStorageLevel = .memory := by
  obtain ⟨e, he, hid⟩ := List.mem_map.mp hheld
  obtain ⟨ps', cs', hp', hcs', hlevel, -⟩ := hs.held e he
  rw [hid] at hp' hcs'
  rw [hp] at hp'
  obtain rfl := some.inj hp'
  rw [hcs] at hcs'
  rwa [some.inj hcs']

omit [DecidableEq P] in
theorem sub (hm : SubStore m s.memstore) : Coherent cfg { s with memstore := m } := by
  refine ⟨hs.part, fun e he => ?_, hs.nodup.sublist hm.chunks⟩
  obtain ⟨e₀, he₀, hid, hhook, hlen⟩ := hm.entry e he
  obtain ⟨ps, cs, hp, hcs, hlevel, hload⟩ := hs.held e₀ he₀
  exact ⟨ps, cs, hid ▸ hp, hid ▸ hcs, hlevel, by rw [hhook, hlen, hid]; exact hload⟩

theorem removePartition (p : P) : Coherent cfg (s.removePartition p) := by
  rw [BlockManager.removePartition]
  cases hp : s.partitions p with
  | none => exact hs
  | some ps =>
    obtain ⟨hsub, hgone⟩ := @returnChunks P B _ ps.chunkList _ hs.nodup
    refine ⟨fun q qs hq => ?_, fun e he => ?_, hs.nodup.sublist hsub.chunks⟩
    · by_cases hqp : q = p
      · simp [hqp] at hq
      · exact hs.part q qs (by simpa [hqp] using hq)
    · obtain ⟨qs, cs, hq, hcs, hlevel, hload⟩ := (hs.sub hsub).held e he
      -- a chunk of the partition would have been returned
      have hne : e.1.1 ≠ p := by
        intro heq
        have hqs : ps = qs := mem_unique hp (heq ▸ hq)
        obtain ⟨hid, -⟩ := (hs.part p ps hp).chunk e.1.2 cs (hqs ▸ hcs)
        refine hgone cs (mem_of_getElem? (hqs ▸ hcs)) ?_
        rw [hid, ← heq]
        exact mem_map_of_mem he
      exact ⟨qs, cs, by simpa [hne] using hq, hcs, hlevel, hload⟩

theorem bindNew (hp : s.partitions p = none) (bs : List B)
    (level : StorageLevel) : Coherent cfg (s.writeAndBind cfg p bs level) := by
  simp only [BlockManager.writeAndBind, BlockManager.addPartition, hp, Option.isSome_none,
    Bool.false_eq_true, if_false]
  refine ⟨fun q qs hq => ?_, fun e he => ?_, hs.nodup⟩
  · by_cases hqp : q = p
    · subst hqp
      simp only [update_self, some.injEq] at hq ⊢
      rw [← hq]
      exact .create cfg s.memstore q bs level
    · simp only [update_of_ne hqp] at hq ⊢
      exact hs.part q qs hq
  · -- nothing is held of a partition that is not bound
    obtain ⟨qs, cs, hq, hcs, hlevel, hload⟩ := hs.held e he
    have hne : e.1.1 ≠ p := fun heq => by
      rw [heq, hp] at hq
      cases hq
    exact ⟨qs, cs, by simpa [hne] using hq, hcs, hlevel, by simpa [hne] using hload⟩

theorem bindAppend (hp : s.partitions p = some ps) (bs : List B)
    (level : StorageLevel) : Coherent cfg (s.writeAndBind cfg p bs level) := by
  have hok := hs.part p ps hp
  simp only [BlockManager.writeAndBind, BlockManager.addPartition, hp, Option.isSome_some, if_true]
  have hsub : SubStore (ps.updateChunksWithInsertOrAppend s.memstore p
      (chunksIn (s.file p ++ bs)) level).2 s.memstore := by
    rw [updateChunksWithInsertOrAppend]
    cases ps.chunkList.getLast? with
    | none => exact .refl _
    | some cs => exact .returnChunk _ _
  refine ⟨fun q qs hq => ?_, fun e he => ?_, hs.nodup.sublist hsub.chunks⟩
  · by_cases hqp : q = p
    · subst hqp
      simp only [update_self, some.injEq] at hq ⊢
      rw [← hq]
      exact hok.update s.memstore bs level
    · simp only [update_of_ne hqp] at hq ⊢
      exact hs.part q qs hq
  · obtain ⟨qs, cs, hq, hcs, hlevel, hload⟩ := (hs.sub hsub).held e he
    by_cases heq : e.1.1 = p
    · -- a chunk of this partition: not the last one, which has been returned
      obtain rfl : ps = qs := mem_unique hp (heq ▸ hq)
      obtain ⟨hid, -⟩ := hok.chunk e.1.2 cs hcs
      have hlt : e.1.2 + 1 < ps.chunkList.length := by
        have hi := (List.getElem?_eq_some_iff.mp hcs).1
        by_contra hge
        have hlast : ps.chunkList.getLast? = some cs := by
          rw [getLast?_eq_getElem?, ← hcs]
          congr 1
          omega
        have hgone := not_mem_returnChunk hs.nodup cs.chunkId
        simp only [updateChunksWithInsertOrAppend, hlast] at he
        have hmem : e.1 ∈ (s.memstore.returnChunk cs.chunkId).chunks := mem_map_of_mem he
        have hid' : cs.chunkId = e.1 := by rw [hid, ← heq]
        rw [← hid'] at hmem
        exact hgone hmem
      rw [hok.length, hok.number] at hlt
      refine ⟨(ps.updateChunksWithInsertOrAppend s.memstore p (chunksIn (s.file p ++ bs)) level).1,
        cs, by simp only [heq, update_self], ?_, hlevel, ?_⟩
      · have hlt' : e.1.2 + 1 < ps.chunkList.length := by rwa [hok.length, hok.number]
        simp only [updateChunksWithInsertOrAppend]
        rw [getElem?_append_left (by rw [length_reloadLast]; omega), getElem?_reloadLast hlt']
        exact hcs
      · simp only [heq, update_self] at hload ⊢
        rw [hload, loadChunk_append cfg hlt]
    · exact ⟨qs, cs, by simpa [heq] using hq, hcs, hlevel, by simpa [heq] using hload⟩

theorem replace {p : P} {ps : PartitionStorage P} {i : ℕ}
    {cs cs' : ChunkStorage P} {m : MemoryChunkStore P B} (hp : s.partitions p = some ps)
    (hcs : ps.chunkList[i]? = some cs) (hid : cs'.chunkId = cs.chunkId)
    (hdisk : cs'.currentStorageLevel ≠ .disk) (hnd : m.chunks.Nodup)
    (hheld : ∀ e ∈ m.chunkList, e.1 ≠ (p, i) ∧ Held cfg s e ∨ e.1 = (p, i) ∧
      cs'.currentStorageLevel = .memory ∧
      (e.2.hook, e.2.length) = loadChunk cfg (s.file p) i) :
    Coherent cfg { s with
      partitions := update s.partitions p
        (some { ps with chunkList := ps.chunkList.set i cs' })
      memstore := m } := by
  have hok := hs.part p ps hp
  have hi := (List.getElem?_eq_some_iff.mp hcs).1
  refine ⟨fun q qs hq => ?_, fun e he => ?_, hnd⟩
  · by_cases hqp : q = p
    · subst hqp
      simp only [update_self, some.injEq] at hq
      rw [← hq]
      refine ⟨by rw [length_set]; exact hok.length, hok.number, fun j x hx => ?_⟩
      by_cases hj : i = j
      · subst hj
        rw [getElem?_set_self hi, some.injEq] at hx
        rw [← hx]
        exact ⟨hid.trans (hok.chunk i cs hcs).1, hdisk⟩
      · rw [getElem?_set_ne hj] at hx
        exact hok.chunk j x hx
    · simp only [update_of_ne hqp] at hq
      exact hs.part q qs hq
  · rcases hheld e he with ⟨hne, qs, x, hq, hx, hlevel, hload⟩ | ⟨heq, hlevel, hload⟩
    · by_cases hqp : e.1.1 = p
      · obtain rfl : ps = qs := mem_unique hp (hqp ▸ hq)
        have hij : i ≠ e.1.2 := fun h => hne (by rw [h, ← hqp])
        refine ⟨{ ps with chunkList := ps.chunkList.set i cs' }, x, ?_, ?_, hlevel, hload⟩
        · simp only [hqp, update_self]
        · rw [getElem?_set_ne hij]
          exact hx
      · exact ⟨qs, x, by simpa [hqp] using hq, hx, hlevel, hload⟩
    · refine ⟨{ ps with chunkList := ps.chunkList.set i cs' }, cs', ?_, ?_, hlevel, ?_⟩
      · simp only [heq, update_self]
      · rw [heq]
        exact getElem?_set_self hi
      · rw [heq]
        exact hload

theorem loaded {c : ChunkID P} {m₁ : MemoryChunkStore P B}
    (happ : s.memstore.applyChunk c env = .ok (m₁, true)) (info : HdfsInMemoryChunk B) :
    (m₁.updateChunkInfo c info).chunks.Nodup ∧ ∀ e ∈ (m₁.updateChunkInfo c info).chunkList,
      e.1 ≠ c ∧ Held cfg s e ∨ e.1 = c ∧ e.2 = info := by
  obtain ⟨hnew, m₂, hsub, hlist⟩ := applyChunk_true happ
  have hchunks : m₁.chunks = m₂.chunks ++ [c] := by
    rw [chunks, hlist]
    simp [chunks]
  constructor
  · rw [updateChunkInfo_chunks, hchunks]
    refine List.nodup_append.mpr ⟨hs.nodup.sublist hsub.chunks, nodup_singleton c, ?_⟩
    rintro a ha b hb rfl
    rw [mem_singleton] at hb
    exact hnew (hsub.chunks.subset (hb ▸ ha))
  · intro e he
    obtain ⟨e₀, he₀, rfl⟩ := List.mem_map.mp he
    by_cases hc : e₀.1 = c
    · rw [if_pos hc]
      exact .inr ⟨hc, rfl⟩
    · rw [if_neg hc]
      rw [hlist, mem_append] at he₀
      rcases he₀ with he₀ | he₀
      · exact .inl ⟨hc, (hs.sub hsub).held e₀ he₀⟩
      · rw [mem_singleton] at he₀
        exact absurd (by rw [he₀]) hc

/-- **Opening a chunk** keeps the coherence, and the blocks are those of the chunk that is loaded
in its place. -/
theorem opened (hp : s.partitions p = some ps)
    (hcs : ps.chunkList[i]? = some cs)
    (h : cs.createChunkReaderIterator cfg (s.file p) s.memstore env = .ok (cs', m, r)) :
    Coherent cfg { s with
      partitions := update s.partitions p
        (some { ps with chunkList := ps.chunkList.set i cs' })
      memstore := m } ∧
    (r = some (chunkOf (s.file p) (loadedFor cfg i)) ∨
      cfg.localDiskMode = false ∧ cs.desirableStorageLevel ≠ .memory) := by
  have hok := hs.part p ps hp
  obtain ⟨hid, hdisk⟩ := hok.chunk i cs hcs
  have hi : i < chunksIn (s.file p) := by
    rw [← hok.number, ← hok.length]
    exact (List.getElem?_eq_some_iff.mp hcs).1
  have hid2 : cs.chunkId.2 = i := by rw [hid]
  -- a chunk held in memory is not this one, or this one is known to be in memory
  have hheld : ∀ e ∈ s.memstore.chunkList, e.1 ≠ (p, i) ∧ Held cfg s e ∨ e.1 = (p, i) ∧
      cs.currentStorageLevel = .memory ∧
      (e.2.hook, e.2.length) = loadChunk cfg (s.file p) i := fun e he => by
    by_cases heq : e.1 = (p, i)
    · obtain ⟨qs, x, -, -, -, hload⟩ := hs.held e he
      rw [heq] at hload
      exact .inr ⟨heq, hs.level hp hcs (heq ▸ mem_map_of_mem he), hload⟩
    · exact .inl ⟨heq, hs.held e he⟩
  rcases createChunkReaderIterator_cases hdisk h with
    ⟨info, hlevel, hmem, rfl, rfl, rfl⟩ | ⟨hfreed, ⟨hd, rfl, rfl, rfl⟩ | ⟨hd, m₁, happ, hload⟩⟩
  · refine ⟨hs.replace hp hcs rfl hdisk hs.nodup hheld, .inl ?_⟩
    rcases hheld _ hmem with ⟨hne, -⟩ | ⟨-, -, hinfo⟩
    · exact absurd hid hne
    · rw [inMemoryReader_loaded cfg hi hinfo]
  · have hnot : (p, i) ∉ s.memstore.chunks := fun hmem =>
      hfreed (hs.level hp hcs hmem) (hid ▸ hmem)
    refine ⟨hs.replace hp hcs rfl nofun hs.nodup fun e he => ?_, ?_⟩
    · exact .inl ⟨fun heq => hnot (heq ▸ mem_map_of_mem he), hs.held e he⟩
    · cases hcfg : cfg.localDiskMode with
      | false => exact .inr ⟨rfl, hd⟩
      | true =>
        refine .inl ?_
        rw [hid2, diskReader_eq hcfg hi]
  · have hlt : ({ cs with currentStorageLevel := .hdfs } : ChunkStorage P).chunkId.2
        < chunksIn (s.file p) := by
      rw [hid2]
      exact hi
    obtain ⟨info, hinfo, hl⟩ := load_eq cfg m₁ hlt
    rw [hl, hid] at hload
    simp only [Prod.mk.injEq] at hload
    obtain ⟨rfl, rfl, rfl⟩ := hload
    rw [hid2] at hinfo
    obtain ⟨hnd, hentries⟩ := hs.loaded (hid ▸ happ) info
    refine ⟨hs.replace hp hcs hid.symm nofun hnd fun e he => ?_, .inl ?_⟩
    · refine (hentries e he).imp_right ?_
      rintro ⟨heq, hei⟩
      exact ⟨heq, rfl, hei ▸ hinfo⟩
    · rw [inMemoryReader_loaded cfg hi hinfo]

theorem readChunk (h : s.readChunk cfg p i env = .ok (s', r)) :
    Coherent cfg s' ∧ ∀ ps cs, s.partitions p = some ps → ps.chunkList[i]? = some cs →
      r = some (chunkOf (s.file p) (loadedFor cfg i)) ∨
        cfg.localDiskMode = false ∧ cs.desirableStorageLevel ≠ .memory := by
  cases hp : s.partitions p with
  | none =>
    rw [BlockManager.readChunk, hp] at h
    cases h
  | some ps =>
    have hlen := (hs.part p ps hp).length
    by_cases hi : i < ps.numberOfChunks
    · obtain ⟨cs, hcs⟩ : ∃ cs, ps.chunkList[i]? = some cs :=
        ⟨_, getElem?_eq_getElem (hlen ▸ hi)⟩
      rw [readChunk_eq cfg hp hi hcs] at h
      obtain ⟨⟨cs', m, blocks⟩, hc, heq⟩ := Run.map_eq_ok h
      obtain ⟨rfl, rfl⟩ := Prod.mk.inj heq
      obtain ⟨hs', hr⟩ := hs.opened hp hcs hc
      refine ⟨hs', fun ps' cs' hp' hcs' => ?_⟩
      obtain rfl := some.inj hp'
      rw [hcs] at hcs'
      obtain rfl := some.inj hcs'
      exact hr
    · rw [BlockManager.readChunk, hp] at h
      dsimp only at h
      rw [if_neg hi] at h
      obtain ⟨rfl, rfl⟩ := Prod.mk.inj (ok.inj h)
      refine ⟨hs, fun ps' cs hp' hcs => ?_⟩
      obtain rfl := some.inj hp'
      exact absurd ((List.getElem?_eq_some_iff.mp hcs).1) (by omega)

theorem step (h : StorageStep cfg s s') : Coherent cfg s' := by
  obtain ⟨op, hop⟩ := h
  cases op with
  | writeAndBind p bs level =>
    rw [← ok.inj hop]
    cases hp : s.partitions p with
    | none => exact hs.bindNew hp bs level
    | some ps => exact hs.bindAppend hp bs level
  | removePartition p =>
    rw [← ok.inj hop]
    exact hs.removePartition p
  | readChunk p i env =>
    obtain ⟨⟨s₁, r⟩, hread, rfl⟩ := Run.map_eq_ok hop
    exact (hs.readChunk hread).1
  | evict env =>
    obtain ⟨m, hm, rfl⟩ := Run.map_eq_ok hop
    obtain ⟨c, -, rfl⟩ := wayOfFreeChunk_eq_ok hm
    exact hs.sub (.erase _ c)

end

end Coherent

/-! ### What follows -/

theorem applyChunk_ne_assertFailed (m : MemoryChunkStore P B) (c : ChunkID P)
    (env : Environment P B) : m.applyChunk c env ≠ .error .assertFailed := by
  have hfree : ∀ m : MemoryChunkStore P B, m.wayOfFreeChunk env ≠ .error .assertFailed := by
    intro m h
    rw [wayOfFreeChunk] at h
    split at h
    · cases h
    · dsimp only at h
      split at h <;> cases h
  have hroom : ∀ m : MemoryChunkStore P B, m.makeRoom env ≠ .error .assertFailed := by
    intro m h
    rw [makeRoom] at h
    split at h
    · cases h
    · exact hfree m h
  intro h
  rw [applyChunk] at h
  by_cases hc : m.holds c = true
  · rw [if_pos hc] at h
    cases h
  · rw [if_neg hc] at h
    cases hm : (m.isExist c).makeRoom env with
    | error e =>
      rw [hm] at h
      exact hroom _ (hm.trans (congrArg error (error.inj h)))
    | ok m₁ =>
      rw [hm, Run.bind_ok] at h
      split_ifs at h

theorem createChunkReaderIterator_ne_assertFailed {cfg : StorageConfig} {file : List B}
    {m : MemoryChunkStore P B} {env : Environment P B} {cs : ChunkStorage P}
    (hdisk : cs.currentStorageLevel ≠ .disk)
    (hlevel : cs.chunkId ∈ m.chunks → cs.currentStorageLevel = .memory)
    (hp : env.poolAllocates = true) :
    cs.createChunkReaderIterator cfg file m env ≠ .error .assertFailed := by
  intro h
  rw [ChunkStorage.createChunkReaderIterator] at h
  have hid : (cs.cleanDirty m).chunkId = cs.chunkId := by
    rw [ChunkStorage.cleanDirty]
    split_ifs <;> rfl
  have hclean : (cs.cleanDirty m).currentStorageLevel = .hdfs → cs.chunkId ∉ m.chunks := by
    rw [ChunkStorage.cleanDirty]
    split_ifs with hc
    · exact fun _ => getChunk_none (by simpa using hc.2)
    · exact fun hl hmem => by
        rw [hlevel hmem] at hl
        cases hl
  have hdisk' : (cs.cleanDirty m).currentStorageLevel ≠ .disk := by
    rw [ChunkStorage.cleanDirty]
    split_ifs
    · nofun
    · exact hdisk
  dsimp only at h
  split at h
  · cases h
  · exact hdisk' ‹_›
  · rename_i hl
    split_ifs at h
    cases happ : m.applyChunk (cs.cleanDirty m).chunkId env with
    | error e =>
      rw [happ] at h
      exact applyChunk_ne_assertFailed _ _ _
        (happ.trans (congrArg error (error.inj h)))
    | ok x =>
      obtain ⟨m₁, applied⟩ := x
      cases applied with
      | true =>
        rw [happ] at h
        cases h
      | false => exact hclean hl (hid ▸ applyChunk_false hp happ)

def bound (cfg : StorageConfig) (file : List ℕ) : BlockManager ℕ ℕ :=
  BlockManager.writeAndBind cfg (.new (2 ^ 30) sixteenChunks_fit) 0 file .memory

theorem reaches_bound (cfg : StorageConfig) (file : List ℕ) :
    Runs.Reaches (StorageStep cfg) (BlockManager.new (2 ^ 30) (by simp [chunkSize]))
      (bound cfg file) :=
  .single ⟨.writeAndBind 0 file .memory, rfl⟩

theorem bound_partitions (cfg : StorageConfig) (file : List ℕ) :
    (bound cfg file).partitions 0
      = some ⟨chunksIn file, newChunks 0 0 (chunksIn file) .memory, .memory⟩ := by
  simp [bound, BlockManager.writeAndBind, BlockManager.addPartition, BlockManager.new,
    PartitionStorage.create]

theorem bound_file (cfg : StorageConfig) (file : List ℕ) : (bound cfg file).file 0 = file := by
  simp [bound, BlockManager.writeAndBind, BlockManager.addPartition, BlockManager.new]

theorem head?_chunkOf (file : List B) (i : ℕ) : (chunkOf file i).head? = file[blocksPerChunk * i]? := by
  rw [chunkOf, head?_take, if_neg (by simp [blocksPerChunk]), head?_drop]

theorem bound_readChunk (cfg : StorageConfig) {file : List ℕ} {i : ℕ} (hi : i < chunksIn file) :
    ∃ s', (bound cfg file).readChunk cfg 0 i (.withMemory (2 ^ 40) true)
      = .ok (s', some (chunkOf file (loadedFor cfg i))) := by
  have hcs : (newChunks 0 0 (chunksIn file) .memory)[i]?
      = some (.new ((0, i) : ChunkID ℕ) .memory) := by
    simp [newChunks, hi]
  have hcoh : Coherent cfg (bound cfg file) :=
    Runs.invariant (fun _ _ h hstep => h.step hstep) (reaches_bound cfg file) (.new _)
  have hnew : ((0, i) : ChunkID ℕ) ∉ (bound cfg file).memstore.chunks := not_mem_nil
  have hbudget : (bound cfg file).memstore.budget = sixteenChunks.budget := rfl
  have happ := applyChunk_of_granted hnew (hbudget ▸ sixteenChunks_grant true)
  obtain ⟨m₁, hm₁⟩ : ∃ m₁, (bound cfg file).memstore.applyChunk (0, i)
      (.withMemory (2 ^ 40) true) = .ok (m₁, true) := ⟨_, happ⟩
  have hclean : (ChunkStorage.new ((0, i) : ChunkID ℕ) .memory).cleanDirty (bound cfg file).memstore
      = .new (0, i) .memory := by
    simp [ChunkStorage.cleanDirty, ChunkStorage.new]
  have hcreate : (ChunkStorage.new ((0, i) : ChunkID ℕ) .memory).createChunkReaderIterator cfg
      ((bound cfg file).file 0) (bound cfg file).memstore (.withMemory (2 ^ 40) true)
      = .ok ((ChunkStorage.new (0, i) .memory).load cfg ((bound cfg file).file 0) m₁) := by
    rw [ChunkStorage.createChunkReaderIterator, hclean]
    simp only [ChunkStorage.new, hm₁, Run.bind_ok, if_true]
  have hread := readChunk_eq cfg (bound_partitions cfg file) hi hcs (.withMemory (2 ^ 40) true)
  rw [hcreate] at hread
  obtain ⟨s', r, hok⟩ : ∃ s' r, (bound cfg file).readChunk cfg 0 i (.withMemory (2 ^ 40) true)
      = .ok (s', r) := ⟨_, _, hread⟩
  -- the coherence says which blocks these are
  rcases (hcoh.readChunk hok).2 _ _ (bound_partitions cfg file) hcs with hr | ⟨-, hd⟩
  · rw [bound_file] at hr
    exact ⟨s', hr ▸ hok⟩
  · exact absurd rfl hd

end Storage
