/-
Partitions, their chunks, and where the chunks are read from: a read takes a chunk from the
`MemoryChunkStore`, or loads it from the file and leaves it there.
-/
import ClaimsDB.MemoryStore

namespace Storage

@[irreducible] def blockSize : ℕ := 64 * 1024

def blocksPerChunk : ℕ := 1024

theorem chunkSize_eq : chunkSize = blocksPerChunk * blockSize := by
  simp [chunkSize, blocksPerChunk, blockSize]

theorem blockSize_pos : 0 < blockSize := by
  simp [blockSize]

inductive StorageLevel
  | memory
  | disk
  | hdfs
  deriving DecidableEq, Repr

/-- What is configured: `local_disk_mode`, and in megabytes the budget that decides about the way
chunks are freed. -/
structure StorageConfig where
  localDiskMode : Bool
  budgetInMilibyte : ℕ

/-! ### Files -/

variable {P B : Type}

def chunkOf (file : List B) (i : ℕ) : List B :=
  (file.drop (blocksPerChunk * i)).take blocksPerChunk

/-- The chunks of a file, `ceil(number_of_blocks / 1024)`. -/
def chunksIn (file : List B) : ℕ := (file.length + (blocksPerChunk - 1)) / blocksPerChunk

def fileLength (file : List B) : ℕ := blockSize * file.length

/-- At most `CHUNK_SIZE` bytes from a position on, and how many they are. -/
def pread (file : List B) (startPos : ℕ) : List B × ℤ :=
  let content := (file.drop (startPos / blockSize)).take blocksPerChunk
  (content, blockSize * content.length)

/-- The position of a chunk in `LoadFromDisk` and the reader, in 32 bits. -/
def diskPos (off : ℕ) : ℕ := chunkSize * off % 2 ^ 32

def loadFromDisk (file : List B) (off : ℕ) : List B × ℤ :=
  if diskPos off < fileLength file then pread file (diskPos off) else ([], 0)

/-- `LoadFromHdfs`, where the offset has 64 bits. -/
def loadFromHdfs (file : List B) (off : ℕ) : List B × ℤ :=
  if chunkSize * off < fileLength file then pread file (chunkSize * off) else ([], -1)

def loadChunk (cfg : StorageConfig) (file : List B) (off : ℕ) : List B × ℤ :=
  if cfg.localDiskMode then loadFromDisk file off else loadFromHdfs file off

/-- The blocks that the accessors of an `InMemoryChunkReaderItetaor` give, one after the other. -/
def inMemoryReader (info : HdfsInMemoryChunk B) : List B :=
  info.hook.take (info.length.toNat / blockSize)

/-- The blocks that `NextBlock` of a `DiskChunkReaderIteraror` gives.  It opens a local file, which
there is only in local disk mode.  `GetBlock` of its accessors asserts false, so that scans, which
ask for accessors, stop there. -/
def diskReader (cfg : StorageConfig) (file : List B) (off : ℕ) : List B :=
  if cfg.localDiskMode then
    if fileLength file ≤ diskPos off then []
    else
      let numberOfBlocks :=
        if (diskPos off + chunkSize) % 2 ^ 32 < fileLength file then blocksPerChunk
        else (fileLength file - diskPos off) / blockSize
      (file.drop (diskPos off / blockSize)).take numberOfBlocks
  else []

/-! ### Chunks and partitions -/

structure ChunkStorage (P : Type) where
  chunkId : ChunkID P
  desirableStorageLevel : StorageLevel
  currentStorageLevel : StorageLevel
  deriving DecidableEq, Repr

def ChunkStorage.new (c : ChunkID P) (level : StorageLevel) : ChunkStorage P := ⟨c, level, .hdfs⟩

structure PartitionStorage (P : Type) where
  numberOfChunks : ℕ
  chunkList : List (ChunkStorage P)
  desirableStorageLevel : StorageLevel

structure BlockManager (P B : Type) where
  file : P → List B
  partitions : P → Option (PartitionStorage P)
  memstore : MemoryChunkStore P B

variable [DecidableEq P]

namespace ChunkStorage

/-- `CreateChunkReaderIterator` first finds out that a chunk has been freed. -/
def cleanDirty (m : MemoryChunkStore P B) (cs : ChunkStorage P) : ChunkStorage P :=
  if cs.currentStorageLevel = .memory ∧ (m.getChunk cs.chunkId).isNone then
    { cs with currentStorageLevel := .hdfs }
  else cs

def load (cfg : StorageConfig) (file : List B) (m : MemoryChunkStore P B) (cs : ChunkStorage P) :
    ChunkStorage P × MemoryChunkStore P B × Option (List B) :=
  let (content, length) := loadChunk cfg file cs.chunkId.2
  if length ≤ 0 then (cs, m.returnChunk cs.chunkId, none)
  else
    let info : HdfsInMemoryChunk B := ⟨content, length, 0⟩
    ({ cs with currentStorageLevel := .memory }, m.updateChunkInfo cs.chunkId info,
      some (inMemoryReader info))

/-- `CreateChunkReaderIterator`: the blocks of the iterator, or `none` for `NULL`. -/
def createChunkReaderIterator (cfg : StorageConfig) (file : List B) (m : MemoryChunkStore P B)
    (env : Environment P B) (cs : ChunkStorage P) :
    Run (ChunkStorage P × MemoryChunkStore P B × Option (List B)) :=
  let cs := cs.cleanDirty m
  match cs.currentStorageLevel with
  | .memory => .ok (cs, m, (m.getChunk cs.chunkId).map inMemoryReader)
  | .disk => .error .assertFailed
  | .hdfs =>
    if cs.desirableStorageLevel = .memory then do
      let (m, applied) ← m.applyChunk cs.chunkId env
      if applied then .ok (cs.load cfg file m) else .error .assertFailed
    else .ok (cs, m, some (diskReader cfg file cs.chunkId.2))

end ChunkStorage

namespace PartitionStorage

/-- The chunks `from`, …, `to - 1` of a partition. -/
def newChunks (p : P) (first last : ℕ) (level : StorageLevel) : List (ChunkStorage P) :=
  (List.range' first (last - first)).map fun i => .new (p, i) level

def reloadLast (chunks : List (ChunkStorage P)) : List (ChunkStorage P) :=
  match chunks.getLast? with
  | none => chunks
  | some cs => chunks.dropLast ++ [{ cs with currentStorageLevel := .hdfs }]

def updateChunksWithInsertOrAppend (ps : PartitionStorage P) (m : MemoryChunkStore P B) (p : P)
    (numberOfChunks : ℕ) (level : StorageLevel) : PartitionStorage P × MemoryChunkStore P B :=
  ({ ps with
      numberOfChunks
      chunkList := reloadLast ps.chunkList ++ newChunks p ps.numberOfChunks numberOfChunks level },
    match ps.chunkList.getLast? with
    | none => m
    | some cs => m.returnChunk cs.chunkId)

def removeAllChunks (ps : PartitionStorage P) (m : MemoryChunkStore P B) : MemoryChunkStore P B :=
  ps.chunkList.foldl (fun m cs => m.returnChunk cs.chunkId) m

/-- The constructor of `PartitionStorage`, which also decides how chunks are freed. -/
def create (cfg : StorageConfig) (m : MemoryChunkStore P B) (p : P) (numberOfChunks : ℕ)
    (level : StorageLevel) : PartitionStorage P × MemoryChunkStore P B :=
  (⟨numberOfChunks, newChunks p 0 numberOfChunks level, level⟩,
    m.setFreeAlgorithm
      (if cfg.budgetInMilibyte < numberOfChunks * chunkSize % 2 ^ 32 / 1024 / 1024 then 0 else 1))

end PartitionStorage

namespace BlockManager

def new (limit : ℕ) (h : limit + chunkSize < 2 ^ 64) : BlockManager P B :=
  ⟨fun _ => [], fun _ => none, .new limit h⟩

def addPartition (cfg : StorageConfig) (s : BlockManager P B) (p : P) (numberOfChunks : ℕ)
    (level : StorageLevel) : BlockManager P B :=
  let (ps, m) := match s.partitions p with
    | some ps => ps.updateChunksWithInsertOrAppend s.memstore p numberOfChunks level
    | none => PartitionStorage.create cfg s.memstore p numberOfChunks level
  { s with partitions := Function.update s.partitions p (some ps), memstore := m }

def removePartition (s : BlockManager P B) (p : P) : BlockManager P B :=
  match s.partitions p with
  | none => s
  | some ps =>
    { s with partitions := Function.update s.partitions p none
             memstore := ps.removeAllChunks s.memstore }

/-- Blocks are written, and the partition is bound with the chunks it then has. -/
def writeAndBind (cfg : StorageConfig) (s : BlockManager P B) (p : P) (bs : List B)
    (level : StorageLevel) : BlockManager P B :=
  let file := if (s.partitions p).isSome then s.file p ++ bs else bs
  addPartition cfg { s with file := Function.update s.file p file } p (chunksIn file) level

/-- Chunk `i` of a partition is read: the blocks, or `none` if there is no iterator. -/
def readChunk (cfg : StorageConfig) (s : BlockManager P B) (p : P) (i : ℕ)
    (env : Environment P B) : Run (BlockManager P B × Option (List B)) :=
  match s.partitions p with
  | none => .error .nullDeref
  | some ps =>
    if i < ps.numberOfChunks then do
      let cs ← Run.index ps.chunkList i
      let (cs, m, blocks) ← cs.createChunkReaderIterator cfg (s.file p) s.memstore env
      .ok ({ s with
              partitions := Function.update s.partitions p
                (some { ps with chunkList := ps.chunkList.set i cs })
              memstore := m }, blocks)
    else .ok (s, none)

end BlockManager

inductive StorageOp (P B : Type)
  | writeAndBind (p : P) (bs : List B) (level : StorageLevel)
  | removePartition (p : P)
  | readChunk (p : P) (i : ℕ) (env : Environment P B)
  | evict (env : Environment P B)

def StorageOp.run (cfg : StorageConfig) (s : BlockManager P B) :
    StorageOp P B → Run (BlockManager P B)
  | .writeAndBind p bs level => .ok (s.writeAndBind cfg p bs level)
  | .removePartition p => .ok (s.removePartition p)
  | .readChunk p i env => (s.readChunk cfg p i env).map (·.1)
  | .evict env => (s.memstore.wayOfFreeChunk env).map fun m => { s with memstore := m }

def StorageStep (cfg : StorageConfig) (s s' : BlockManager P B) : Prop :=
  ∃ op : StorageOp P B, op.run cfg s = .ok s'

end Storage
