/-
Where in its file a chunk is read from: `LoadFromDisk` and the reader for chunks on disk compute
the position in 32 bits, `LoadFromHdfs` in 64.  A read delivers all bytes that are there.
-/
import ClaimsDB.Bytes

namespace ChunkLoading

open List

def chunkSize : ℕ := 2 ^ 26

/-- `ChunkOffset`, an `int` that is not negative. -/
abbrev ChunkOffset := Fin (2 ^ 31)

/-- `CHUNK_SIZE * chunk_off` as an `unsigned`, also in the reader. -/
def start (k : ChunkOffset) : UInt32 := UInt32.ofNat chunkSize * UInt32.ofNat k

/-- What a load leaves in the buffer, what it returns, and how often it acquires and releases the
lock of the block manager. -/
structure Loaded where
  buffer : List UInt8
  ret : ℤ
  acquired : ℕ
  released : ℕ
  deriving DecidableEq, Repr

/-- `length` bytes of the file from a position on, if there are so many. -/
def bytesAt (file : List UInt8) (pos : ℕ) : List UInt8 := (file.drop pos).take chunkSize

/-- `LoadFromDisk` for the length of a chunk; `none` is a file that cannot be opened. -/
def loadFromDisk (k : ChunkOffset) : Option (List UInt8) → Loaded
  | none => ⟨[], -1, 0, 0⟩
  | some file =>
    if (start k).toNat < file.length then
      ⟨bytesAt file (start k).toNat, (bytesAt file (start k).toNat).length, 0, 0⟩
    else ⟨[], 0, 0, 0⟩

def loadFromHdfs (k : ChunkOffset) : Option (List UInt8) → Loaded
  | none => ⟨[], -1, 1, 1⟩
  | some file =>
    let startPos := chunkSize * k.val % 2 ^ 64
    if startPos < file.length then
      ⟨bytesAt file startPos, (bytesAt file startPos).length, 1, 1⟩
    -- released here and again at the end
    else ⟨[], -1, 1, 2⟩

/-- `number_of_blocks_` of a `DiskChunkReaderIteraror` for a file of this length and a block size
that is not 0. -/
def numberOfBlocks (k : ChunkOffset) (blockSize : UInt32) (length : ℕ) : ℕ :=
  if length ≤ (start k).toNat then 0
  else if (start k + UInt32.ofNat chunkSize).toNat < length then chunkSize / blockSize.toNat
  else (length - (start k).toNat) / blockSize.toNat

/-- The bytes of chunk `k`, and no data exactly when the file ends before it. -/
structure Right (k : ChunkOffset) (file : List UInt8) (l : Loaded) : Prop where
  buffer : l.buffer = bytesAt file (chunkSize * k.val)
  ret : chunkSize * k.val < file.length → l.ret = l.buffer.length
  none : l.ret ≤ 0 ↔ file.length ≤ chunkSize * k.val
  lock : l.released = l.acquired

def Agree (k : ChunkOffset) (blockSize : UInt32) (file : List UInt8) : Prop :=
  Right k file (loadFromDisk k (some file)) ∧ Right k file (loadFromHdfs k (some file)) ∧
    numberOfBlocks k blockSize file.length =
      (bytesAt file (chunkSize * k.val)).length / blockSize.toNat

variable {k : ChunkOffset} {file : List UInt8}

theorem start_toNat (k : ChunkOffset) : (start k).toNat = chunkSize * k.val % 2 ^ 32 := by
  have hk := k.isLt
  rw [start, UInt32.toNat_mul, UInt32.toNat_ofNat', UInt32.toNat_ofNat',
    Nat.mod_eq_of_lt (show chunkSize < 2 ^ 32 by decide),
    Nat.mod_eq_of_lt (show (k : ℕ) < 2 ^ 32 by omega)]

theorem start_eq (h : k.val < 64) : (start k).toNat = chunkSize * k.val := by
  rw [start_toNat, chunkSize]
  omega

theorem length_bytesAt (file : List UInt8) (pos : ℕ) :
    (bytesAt file pos).length = min chunkSize (file.length - pos) := by
  rw [bytesAt, length_take, length_drop]

theorem hdfs_start (k : ChunkOffset) : chunkSize * k.val % 2 ^ 64 = chunkSize * k.val := by
  have := k.isLt
  rw [chunkSize]
  omega

theorem right_hdfs_iff (k : ChunkOffset) (file : List UInt8) :
    Right k file (loadFromHdfs k (some file)) ↔ chunkSize * k.val < file.length := by
  rw [loadFromHdfs, hdfs_start]
  split_ifs with hlt
  · refine ⟨fun _ => hlt, fun _ => ⟨rfl, fun _ => rfl, ?_, rfl⟩⟩
    simp only [length_bytesAt, chunkSize] at hlt ⊢
    omega
  · exact ⟨fun h => absurd h.lock (by simp), fun h => absurd h hlt⟩

theorem right_disk (hk : k.val < 64) (hlt : chunkSize * k.val < file.length) :
    Right k file (loadFromDisk k (some file)) := by
  rw [loadFromDisk, start_eq hk, if_pos hlt]
  refine ⟨rfl, fun _ => rfl, ?_, rfl⟩
  simp only [length_bytesAt, chunkSize] at hlt ⊢
  omega

theorem not_right_disk (hk : 64 ≤ k.val) {length : ℕ} (hlt : chunkSize * k.val < length) :
    ∃ file : List UInt8, file.length = length ∧ ¬ Right k file (loadFromDisk k (some file)) := by
  set p := chunkSize * k.val with hp
  set file : List UInt8 := List.replicate p 0 ++ 1 :: List.replicate (length - p - 1) 0 with hfile
  have hlen : file.length = length := by
    rw [hfile, length_append, length_cons, length_replicate, length_replicate]
    omega
  refine ⟨file, hlen, fun h => ?_⟩
  have hw : (start k).toNat < p := by
    rw [start_toNat, hp, chunkSize]
    omega
  have hbuffer := h.buffer
  rw [loadFromDisk, if_pos (by omega)] at hbuffer
  have hhead := congrArg List.head? hbuffer
  rw [bytesAt, bytesAt, head?_take, head?_take, if_neg (by decide), if_neg (by decide),
    head?_drop, head?_drop, ← hp, hfile,
    getElem?_append_left (by rw [length_replicate]; exact hw),
    getElem?_append_right (by rw [length_replicate]), length_replicate,
    Nat.sub_self, getElem?_cons_zero, getElem?_replicate, if_pos hw] at hhead
  cases hhead

theorem numberOfBlocks_eq (hk : k.val < 63) (blockSize : UInt32) {length : ℕ}
    (hlt : chunkSize * k.val < length) :
    numberOfBlocks k blockSize length =
      min chunkSize (length - chunkSize * k.val) / blockSize.toNat := by
  have hsum : (start k + UInt32.ofNat chunkSize).toNat = chunkSize * k.val + chunkSize := by
    rw [UInt32.toNat_add, start_eq (by omega), UInt32.toNat_ofNat', chunkSize]
    omega
  rw [numberOfBlocks, hsum, start_eq (by omega), if_neg (not_le.2 hlt)]
  split_ifs with hmore
  · rw [min_eq_left (by omega)]
  · rw [min_eq_right (by omega)]

theorem numberOfBlocks_last (hk : k.val = 63) (blockSize : UInt32) {length : ℕ}
    (hlt : chunkSize * k.val < length) :
    numberOfBlocks k blockSize length = chunkSize / blockSize.toNat := by
  have hsum : (start k + UInt32.ofNat chunkSize).toNat = 0 := by
    rw [UInt32.toNat_add, start_eq (by omega), UInt32.toNat_ofNat', hk, chunkSize]
    omega
  rw [numberOfBlocks, hsum, start_eq (by omega), if_neg (not_le.2 hlt), if_pos (by omega)]

/-- **Chunks** are loaded right below offset 63, and at 63 when the chunk is a whole one. -/
theorem chunk_loaded_iff (length : ℕ) (k : ChunkOffset) (blockSize : UInt32) :
    (∀ file : List UInt8, file.length = length → Agree k blockSize file) ↔
      chunkSize * k.val < length ∧ (k.val < 63 ∨ k.val = 63 ∧
        chunkSize / blockSize.toNat =
          min chunkSize (length - chunkSize * k.val) / blockSize.toNat) := by
  constructor
  · intro h
    obtain ⟨-, hhdfs, hblocks⟩ := h (List.replicate length 0) length_replicate
    have hlt := (right_hdfs_iff k _).1 hhdfs
    rw [length_replicate] at hlt
    refine ⟨hlt, ?_⟩
    rcases Nat.lt_or_ge k.val 64 with hk | hk
    · rcases Nat.lt_succ_iff_lt_or_eq.1 hk with hk | hk
      · exact .inl hk
      · rw [length_replicate, numberOfBlocks_last hk blockSize hlt, length_bytesAt,
          length_replicate] at hblocks
        exact .inr ⟨hk, hblocks⟩
    · obtain ⟨file, hlen, hnot⟩ := not_right_disk hk hlt
      exact absurd (h file hlen).1 hnot
  · rintro ⟨hlt, hk⟩ file rfl
    refine ⟨right_disk (by omega) hlt, (right_hdfs_iff k file).2 hlt, ?_⟩
    rw [length_bytesAt]
    rcases hk with hk | ⟨hk, hblocks⟩
    · exact numberOfBlocks_eq hk blockSize hlt
    · rw [numberOfBlocks_last hk blockSize hlt, hblocks]

/-- For an empty file the lock is released twice, and chunk 64 of a file of more than 4 GB is
loaded from the beginning of the file. -/
theorem chunk_loads_fail :
    (loadFromHdfs 0 (some [])).released = 2 ∧ ¬ Agree 0 65536 [] ∧ start 64 = 0 ∧
      ∀ file : List UInt8, file ≠ [] → loadFromDisk 64 (some file) = loadFromDisk 0 (some file) := by
  have h64 : start 64 = 0 := by decide +kernel
  refine ⟨rfl, fun h => absurd h.2.1.lock (by decide), h64, fun file _ => ?_⟩
  rw [loadFromDisk, loadFromDisk, h64, show start 0 = 0 by decide +kernel]

end ChunkLoading
