/-
Blocks of tuples of one size, and the tail that tells how many there are.

The last four bytes of a block are kept for the number of tuples.  `serialize` writes it at the
end of another block, `Serialize` into the block itself; the readers multiply it by their tuple
size in 32 bits.  A block is the list of its bytes, and `free_` its distance from `start`.
-/
import ClaimsDB.Bytes

namespace BlockFormat

open List Option

/-- The memory of a block, `BlockSize` bytes at `start`. -/
structure Block where
  bytes : List UInt8
  size_lt : bytes.length < 2 ^ 32

def Block.size (b : Block) : ℕ := b.bytes.length

def Block.store (b : Block) (off : ℕ) (data : List UInt8) : Run Block :=
  if h : off + data.length ≤ b.bytes.length then
    .ok ⟨b.bytes.take off ++ data ++ b.bytes.drop (off + data.length), by
      have := b.size_lt
      simp only [length_append, length_take, length_drop]
      omega⟩
  else .error .outOfBounds

/-- `((tail_info*)(start + size - sizeof(tail_info)))->tuple_count` -/
def Block.tail (b : Block) : Run UInt32 :=
  if 4 ≤ b.size then .ok (Codec.uint32.load (b.size - 4) b.bytes) else .error .outOfBounds

structure BlockStreamFix extends Block where
  tupleSize : UInt32
  free : ℕ

namespace BlockStreamFix

def allocateTuple (b : BlockStreamFix) (bytes : UInt32) : Option (ℕ × BlockStreamFix) :=
  if b.free + bytes.toNat + 4 ≤ b.size then
    some (b.free, { b with free := b.free + bytes.toNat })
  else none

/-- `start + offset * tuple_size_`, with a product of 32 bits. -/
def getTuple (b : BlockStreamFix) (offset : UInt32) : Option ℕ :=
  if b.free ≤ (offset * b.tupleSize).toNat then none else some (offset * b.tupleSize).toNat

def empty (b : BlockStreamFix) : Bool := b.free = 0

def full (b : BlockStreamFix) : Bool := b.size < b.free + b.tupleSize.toNat + 4

def getTuplesInBlock (b : BlockStreamFix) : Run UInt32 :=
  if b.tupleSize = 0 then .error .indeterminate
  else .ok (UInt32.ofNat (b.free / b.tupleSize.toNat))

def serialize (b : BlockStreamFix) (block : Block) : Run Block :=
  if block.size < b.size then .error .assertFailed
  else do
    let copied ← block.store 0 b.bytes
    let count ← b.getTuplesInBlock
    let written ← copied.store (block.size - 4) (Codec.uint32.encode count)
    if b.size < (count * b.tupleSize).toNat then .error .assertFailed else .ok written

/-- `Serialize()`: just add the tail to the block. -/
def serializeInPlace (b : BlockStreamFix) : Run BlockStreamFix := do
  let count ← b.getTuplesInBlock
  let written ← b.store (b.size - 4) (Codec.uint32.encode count)
  return { b with toBlock := written }

def setCount (b : BlockStreamFix) (content : Block) (count : UInt32) : Run BlockStreamFix :=
  if b.size < (count * b.tupleSize).toNat then .error .assertFailed
  else .ok ⟨content, b.tupleSize, (count * b.tupleSize).toNat⟩

def copied (n : ℕ) (block : Block) : Block :=
  ⟨block.bytes.take n, (length_take_le' n _).trans_lt block.size_lt⟩

def deserialize (b : BlockStreamFix) (block : Block) : Run BlockStreamFix :=
  if block.size < b.size then .error .assertFailed
  else do
    let count ← block.tail
    b.setCount (copied b.size block) count

/-- `DeSerialize(block)`, which exchanges the contents and returns also the other block.  Both blocks
own their memory (`isReference_` is not set), as `SwitchBlock` asserts. -/
def deSerialize (b : BlockStreamFix) (block : Block) : Run (BlockStreamFix × Block) :=
  if block.size ≠ b.size then .error .assertFailed
  else do
    let count ← block.tail
    let read ← b.setCount block count
    return (read, b.toBlock)

def constructFromBlock (b : BlockStreamFix) (block : Block) : Run BlockStreamFix :=
  if b.size ≠ block.size then .error .assertFailed
  else do
    let count ← block.tail
    b.setCount (copied b.size block) count

/-! ### Appending tuples -/

def append (b : BlockStreamFix) (tuple : List UInt8) : Option BlockStreamFix := do
  let (off, b') ← b.allocateTuple b.tupleSize
  let written ← (b'.store off tuple).toOption
  return { b' with toBlock := written }

/-- The bytes of the tuple that the iterator finds at `i`. -/
def tupleAt (b : BlockStreamFix) (i : UInt32) : Option (List UInt8) :=
  (b.getTuple i).map fun off => (b.bytes.drop off).take b.tupleSize.toNat

structure Filled (b : BlockStreamFix) (tuples : List (List UInt8)) : Prop where
  width : ∀ t ∈ tuples, t.length = b.tupleSize.toNat
  free_eq : b.free = tuples.length * b.tupleSize.toNat
  room : b.free + 4 ≤ b.size
  content : b.bytes.take b.free = tuples.flatten

end BlockStreamFix

open BlockStreamFix

variable {b r : BlockStreamFix} {block content : Block} {tuples : List (List UInt8)}
  {count : UInt32}

theorem Block.store_eq (block : Block) (off : ℕ) {data : List UInt8}
    (h : off + data.length ≤ block.size) :
    ∃ written, block.store off data = .ok written ∧ written.size = block.size ∧
      written.bytes = block.bytes.take off ++ data ++ block.bytes.drop (off + data.length) := by
  rw [Block.size] at h
  refine ⟨_, dif_pos h, ?_, rfl⟩
  simp only [Block.size, length_append, length_take, length_drop]
  omega

theorem tail_of_store (h4 : 4 ≤ block.size)
    (h : block.bytes = content.bytes.take (block.size - 4) ++ Codec.uint32.encode count) :
    block.tail = .ok count := by
  have hlen : (content.bytes.take (block.size - 4)).length = block.size - 4 := by
    have hs := congrArg List.length h
    rw [length_append, Codec.length_encode] at hs
    change block.size = _ + 4 at hs
    omega
  have hdrop : block.bytes.drop (block.size - 4) = Codec.uint32.encode count := by
    rw [h, drop_append_of_le_length hlen.ge, drop_of_length_le hlen.le, nil_append]
  rw [Block.tail, if_pos h4, Codec.load, hdrop,
    take_of_length_le (Codec.length_encode _ _).le, Codec.decode_encode]

theorem store_tail (block : Block) (h4 : 4 ≤ block.size) (count : UInt32) :
    ∃ written, block.store (block.size - 4) (Codec.uint32.encode count) = .ok written ∧
      written.size = block.size ∧ written.tail = .ok count ∧
      ∀ n, n + 4 ≤ block.size → written.bytes.take n = block.bytes.take n := by
  have hwidth : (Codec.uint32.encode count).length = 4 := Codec.length_encode _ _
  obtain ⟨written, hw, hsize, hbytes⟩ :=
    block.store_eq (block.size - 4) (by rw [hwidth]; omega)
  have hrest : block.bytes.drop (block.size - 4 + (Codec.uint32.encode count).length) = [] :=
    drop_of_length_le (by rw [hwidth, Block.size]; omega)
  rw [hrest, append_nil] at hbytes
  refine ⟨written, hw, hsize, tail_of_store (hsize ▸ h4) (hsize ▸ hbytes), fun n hn => ?_⟩
  have hle : n ≤ (block.bytes.take (block.size - 4)).length := by
    rw [length_take, ← Block.size]
    omega
  rw [hbytes, take_append_of_le_length hle, take_take, min_eq_left (by omega)]

namespace BlockStreamFix

theorem Filled.append (h : b.Filled tuples) {tuple : List UInt8}
    (hlen : tuple.length = b.tupleSize.toNat) {b' : BlockStreamFix}
    (hb : b.append tuple = some b') :
    b'.Filled (tuples ++ [tuple]) ∧ b'.size = b.size ∧ b'.tupleSize = b.tupleSize := by
  by_cases hroom : b.free + b.tupleSize.toNat + 4 ≤ b.size
  · obtain ⟨written, hw, hsize, hbytes⟩ :=
      b.toBlock.store_eq b.free (by rw [hlen]; omega)
    rw [BlockStreamFix.append, allocateTuple, if_pos hroom] at hb
    simp only [bind_eq_bind, bind_some, hw] at hb
    obtain rfl := some.inj hb
    refine ⟨⟨?_, ?_, by simpa [hsize] using hroom, ?_⟩, hsize, rfl⟩
    · exact List.forall_mem_append.2 ⟨h.width, by simpa using hlen⟩
    · simp only [length_append, length_singleton, h.free_eq]
      ring
    · have hle : b.free ≤ b.bytes.length := (Nat.le_add_right _ _).trans h.room
      have hfirst : (b.bytes.take b.free).length = b.free := length_take_of_le hle
      have hwhole : (b.bytes.take b.free ++ tuple).length = b.free + b.tupleSize.toNat := by
        rw [length_append, hfirst, hlen]
      change written.bytes.take (b.free + b.tupleSize.toNat) = _
      rw [hbytes, ← hwhole, take_left, flatten_append, h.content]
      simp
  · rw [BlockStreamFix.append, allocateTuple, if_neg hroom] at hb
    cases hb

theorem Filled.appendAll (h : b.Filled []) (hwidth : ∀ t ∈ tuples, t.length = b.tupleSize.toNat)
    {b' : BlockStreamFix} (hb : tuples.foldlM BlockStreamFix.append b = some b') :
    b'.Filled tuples ∧ b'.size = b.size ∧ b'.tupleSize = b.tupleSize := by
  -- the tuples that are there already are generalised
  suffices hgen : ∀ (todo done : List (List UInt8)) (c : BlockStreamFix), c.Filled done →
      (∀ t ∈ todo, t.length = c.tupleSize.toNat) → todo.foldlM BlockStreamFix.append c = some b' →
      b'.Filled (done ++ todo) ∧ b'.size = c.size ∧ b'.tupleSize = c.tupleSize from
    hgen tuples [] b h hwidth hb
  intro todo
  induction todo with
  | nil =>
    intro done c hc _ hrun
    obtain rfl := some.inj hrun
    exact ⟨(append_nil done).symm ▸ hc, rfl, rfl⟩
  | cons t todo ih =>
    intro done c hc hw hrun
    rw [foldlM_cons, bind_eq_bind, bind_eq_some_iff] at hrun
    obtain ⟨d, hd, hrun⟩ := hrun
    obtain ⟨hfilled, hsize, hts⟩ := hc.append (hw t mem_cons_self) hd
    obtain ⟨hf, hs, htu⟩ := ih _ d hfilled
      (fun u hu => hts ▸ hw u (mem_cons_of_mem _ hu)) hrun
    exact ⟨by simpa using hf, hs.trans hsize, htu.trans hts⟩

theorem Filled.lt (h : b.Filled tuples) : tuples.length * b.tupleSize.toNat < 2 ^ 32 := by
  have hs : b.size < 2 ^ 32 := b.size_lt
  have hr := h.room
  rw [h.free_eq] at hr
  omega

theorem tupleSize_pos (hts : b.tupleSize ≠ 0) : 0 < b.tupleSize.toNat :=
  Nat.pos_of_ne_zero fun hz => hts (UInt32.toNat_inj.1 hz)

theorem Filled.getTuplesInBlock (h : b.Filled tuples) (hts : b.tupleSize ≠ 0) :
    ∃ count, b.getTuplesInBlock = .ok count ∧ count.toNat = tuples.length := by
  have hpos := tupleSize_pos hts
  refine ⟨_, if_neg hts, ?_⟩
  have hle : tuples.length ≤ tuples.length * b.tupleSize.toNat := Nat.le_mul_of_pos_right _ hpos
  rw [h.free_eq, Nat.mul_div_cancel _ hpos, UInt32.toNat_ofNat',
    Nat.mod_eq_of_lt (hle.trans_lt h.lt)]

theorem mul_toNat {i s : UInt32} (h : i.toNat * s.toNat < 2 ^ 32) :
    (i * s).toNat = i.toNat * s.toNat := by
  rw [UInt32.toNat_mul, Nat.mod_eq_of_lt h]

theorem Filled.setCount (h : b.Filled tuples) (hcount : count.toNat = tuples.length)
    (hsize : r.size = b.size) (hts : r.tupleSize = b.tupleSize) (hc : content.size = b.size)
    (hbytes : content.bytes.take b.free = b.bytes.take b.free) :
    ∃ r', r.setCount content count = .ok r' ∧ r'.Filled tuples ∧ r'.size = b.size ∧
      r'.tupleSize = b.tupleSize := by
  have hmul : (count * r.tupleSize).toNat = b.free := by
    rw [mul_toNat (by rw [hcount, hts]; exact h.lt), hcount, hts, h.free_eq]
  have hr := h.room
  refine ⟨_, if_neg (by omega), ⟨by rw [hts]; exact h.width, ?_, ?_, ?_⟩, hc, hts⟩
  · rw [hmul, hts, h.free_eq]
  · change (count * r.tupleSize).toNat + 4 ≤ content.size
    rw [hmul, hc]
    exact hr
  · rw [hmul, hbytes, h.content]

theorem flatten_slice {w : ℕ} : ∀ {ts : List (List UInt8)}, (∀ t ∈ ts, t.length = w) →
    ∀ {i : ℕ}, i < ts.length → some ((ts.flatten.drop (i * w)).take w) = ts[i]?
  | t :: ts, hw, 0, _ => by
    have ht : t.length = w := hw t mem_cons_self
    rw [flatten_cons, Nat.zero_mul, drop_zero, ← ht, take_left,
      getElem?_cons_zero]
  | t :: ts, hw, i + 1, hi => by
    have ht : t.length = w := hw t mem_cons_self
    have hdrop : (t ++ ts.flatten).drop ((i + 1) * w) = ts.flatten.drop (i * w) := by
      rw [Nat.add_mul, Nat.one_mul, Nat.add_comm, ← drop_drop, ← ht, drop_left]
    rw [flatten_cons, hdrop, getElem?_cons_succ]
    exact flatten_slice (fun u hu => hw u (mem_cons_of_mem _ hu)) (Nat.lt_of_succ_lt_succ hi)

theorem Filled.tupleAt (h : b.Filled tuples) (hts : b.tupleSize ≠ 0) {i : UInt32}
    (hi : i.toNat ≤ tuples.length) : b.tupleAt i = tuples[i.toNat]? := by
  have hpos := tupleSize_pos hts
  have hmul : (i * b.tupleSize).toNat = i.toNat * b.tupleSize.toNat :=
    mul_toNat ((Nat.mul_le_mul_right _ hi).trans_lt h.lt)
  rw [BlockStreamFix.tupleAt, getTuple, hmul, h.free_eq]
  rcases hi.lt_or_eq with hlt | heq
  · have hle : i.toNat * b.tupleSize.toNat + b.tupleSize.toNat ≤ b.free := by
      rw [h.free_eq, ← Nat.succ_mul]
      exact Nat.mul_le_mul_right _ hlt
    rw [if_neg (not_le.2 (Nat.mul_lt_mul_of_pos_right hlt hpos)), map_some,
      ← flatten_slice h.width hlt, ← h.content, drop_take, take_take,
      min_eq_left (by omega)]
  · rw [heq, if_pos le_rfl, map_none, getElem?_eq_none le_rfl]

end BlockStreamFix

/-! ### The round trip -/

/-- The same tuples in the same order, and as empty and as full as the block they come from. -/
structure SameTuples (tuples : List (List UInt8)) (b r : BlockStreamFix) : Prop where
  tuples : ∀ i : UInt32, i.toNat ≤ tuples.length →
    r.tupleAt i = tuples[i.toNat]? ∧ b.tupleAt i = tuples[i.toNat]?
  empty : r.empty = b.empty
  full : r.full = b.full

theorem BlockStreamFix.Filled.same (h : b.Filled tuples) (hr : r.Filled tuples)
    (hts : b.tupleSize ≠ 0) (hsize : r.size = b.size) (htu : r.tupleSize = b.tupleSize) :
    SameTuples tuples b r := by
  have hfree : r.free = b.free := by rw [hr.free_eq, h.free_eq, htu]
  refine ⟨fun i hi => ⟨hr.tupleAt (htu ▸ hts) hi, h.tupleAt hts hi⟩, ?_, ?_⟩
  · rw [BlockStreamFix.empty, BlockStreamFix.empty, hfree]
  · rw [BlockStreamFix.full, BlockStreamFix.full, hfree, hsize, htu]

/-- All readers of the sizes of `b` that take the block get its tuples. -/
def ReadBack (tuples : List (List UInt8)) (b : BlockStreamFix) (block : Block) : Prop :=
  ∀ r : BlockStreamFix, r.size = b.size → r.tupleSize = b.tupleSize →
    (∃ r', r.deserialize block = .ok r' ∧ SameTuples tuples b r') ∧
    (block.size = b.size → (∃ r' old, r.deSerialize block = .ok (r', old) ∧
        SameTuples tuples b r') ∧
      ∃ r', r.constructFromBlock block = .ok r' ∧ SameTuples tuples b r')

theorem BlockStreamFix.Filled.readBack (h : b.Filled tuples) (hts : b.tupleSize ≠ 0)
    (hle : b.size ≤ block.size) (htail : block.tail = .ok count)
    (hcount : count.toNat = tuples.length)
    (hbytes : block.bytes.take b.free = b.bytes.take b.free) : ReadBack tuples b block := by
  intro r hsize htu
  have hfree : b.free ≤ b.size := (Nat.le_add_right _ _).trans h.room
  have hcopy : (copied r.size block).size = b.size := by
    rw [Block.size, copied, length_take, ← Block.size, hsize, min_eq_left hle]
  have hfirst : (copied r.size block).bytes.take b.free = b.bytes.take b.free := by
    rw [copied, take_take, hsize, min_eq_left hfree, hbytes]
  obtain ⟨r₁, hr₁, hf₁, hs₁, ht₁⟩ := h.setCount hcount hsize htu hcopy hfirst
  refine ⟨⟨r₁, ?_, h.same hf₁ hts hs₁ ht₁⟩, fun heq => ⟨?_, r₁, ?_, h.same hf₁ hts hs₁ ht₁⟩⟩
  · rw [deserialize, if_neg (by omega), htail, Run.bind_ok, hr₁]
  · obtain ⟨r₂, hr₂, hf₂, hs₂, ht₂⟩ := h.setCount hcount hsize htu heq hbytes
    refine ⟨r₂, r.toBlock, ?_, h.same hf₂ hts hs₂ ht₂⟩
    rw [deSerialize, if_neg (by omega), htail, Run.bind_ok, hr₂]
    rfl
  · rw [constructFromBlock, if_neg (by omega), htail, Run.bind_ok, hr₁]

/-- **The block format.**  However a block is written, every reader finds the tuples appended to it.
-/
theorem block_format_round_trip {b b' : BlockStreamFix} (hts : b.tupleSize ≠ 0)
    (hsize : 4 ≤ b.size) (hfree : b.free = 0) {tuples : List (List UInt8)}
    (hwidth : ∀ t ∈ tuples, t.length = b.tupleSize.toNat)
    (happend : tuples.foldlM BlockStreamFix.append b = some b') :
    b'.free + 4 ≤ b'.size ∧
    (∀ block : Block, b'.size ≤ block.size → ∃ written, b'.serialize block = .ok written ∧
      written.size = block.size ∧ written.bytes.take b'.free = b'.bytes.take b'.free ∧
      ReadBack tuples b' written) ∧
    ∃ written, b'.serializeInPlace = .ok written ∧
      written.bytes.take b'.free = b'.bytes.take b'.free ∧
      ReadBack tuples b' written.toBlock := by
  have hnil : b.Filled [] := ⟨by simp, by simp [hfree], by omega, by simp [hfree]⟩
  obtain ⟨h, hs', hts'⟩ := hnil.appendAll hwidth happend
  rw [← hts'] at hts
  obtain ⟨count, hget, hcount⟩ := h.getTuplesInBlock hts
  have hroom := h.room
  refine ⟨hroom, fun block hle => ?_, ?_⟩
  · obtain ⟨c, hc, hcsize, hcbytes⟩ := block.store_eq 0 (show 0 + b'.bytes.length ≤ _ by simpa)
    obtain ⟨written, hw, hwsize, htail, hkeep⟩ := store_tail c (by omega) count
    have hmul : (count * b'.tupleSize).toNat = b'.free := by
      rw [mul_toNat (by rw [hcount]; exact h.lt), hcount, h.free_eq]
    have hbytes : written.bytes.take b'.free = b'.bytes.take b'.free := by
      rw [hkeep _ (by omega), hcbytes, take_zero, nil_append,
        take_append_of_le_length ((Nat.le_add_right _ _).trans hroom)]
    refine ⟨written, ?_, hwsize.trans hcsize, hbytes,
      h.readBack hts (by omega) htail hcount hbytes⟩
    rw [serialize, if_neg (by omega), hc, Run.bind_ok, hget, Run.bind_ok, ← hcsize, hw,
      Run.bind_ok, if_neg (by omega)]
  · obtain ⟨written, hw, hwsize, htail, hkeep⟩ := store_tail b'.toBlock (by omega) count
    refine ⟨{ b' with toBlock := written }, ?_, hkeep _ hroom,
      h.readBack hts hwsize.ge htail hcount (hkeep _ hroom)⟩
    rw [serializeInPlace, hget, Run.bind_ok, hw, Run.bind_ok]
    rfl

def emptyBlock (size : Fin 64) (tupleSize : UInt32) : BlockStreamFix :=
  ⟨⟨List.replicate size 0, by rw [length_replicate]; omega⟩, tupleSize, 0⟩

theorem two_tuples_read_back :
    ∃ b', [[1, 2], [3, 4]].foldlM BlockStreamFix.append (emptyBlock 9 2) = some b' ∧
      ∃ written, b'.serializeInPlace = .ok written ∧
        ReadBack [[1, 2], [3, 4]] b' written.toBlock := by
  obtain ⟨b', hb⟩ := isSome_iff_exists.1
    (show ([[1, 2], [3, 4]].foldlM BlockStreamFix.append (emptyBlock 9 2)).isSome by decide)
  obtain ⟨-, -, written, hw, -, hread⟩ :=
    block_format_round_trip (by decide) (by decide) rfl (by decide) hb
  exact ⟨b', hb, written, hw, hread⟩

/-- Tuples of no bytes cannot be counted, and a block of three bytes has no tail. -/
theorem degenerate_blocks_not_written :
    (emptyBlock 9 0).serializeInPlace = .error .indeterminate ∧
      (emptyBlock 3 1).serializeInPlace = .error .outOfBounds :=
  ⟨rfl, rfl⟩

/-! ### Reading arbitrary bytes -/

inductive Reader
  | deserialize
  | deSerialize
  | constructFromBlock
  deriving DecidableEq, Repr

def read : Reader → BlockStreamFix → Block → Run BlockStreamFix
  | .deserialize, b, block => b.deserialize block
  | .deSerialize, b, block => (b.deSerialize block).map (·.1)
  | .constructFromBlock, b, block => b.constructFromBlock block

def Reader.accepts : Reader → BlockStreamFix → Block → Prop
  | .deserialize, b, block => b.size ≤ block.size
  | _, b, block => block.size = b.size

/-- The place of the tuple that the iterator returns at `i`, all before it being there. -/
def Returns (b : BlockStreamFix) (i : UInt32) (off : ℕ) : Prop :=
  b.getTuple i = some off ∧ ∀ j : UInt32, j ≤ i → (b.getTuple j).isSome

def KeepsInvariant (how : Reader) (b : BlockStreamFix) (block : Block) : Prop :=
  read how b block = .error .assertFailed ∨
    ∃ b' count, read how b block = .ok b' ∧ block.tail = .ok count ∧
      b'.free = count.toNat * b.tupleSize.toNat ∧ b'.free + 4 ≤ b.size ∧
      ∀ i off, Returns b' i off → off + b.tupleSize.toNat + 4 ≤ b.size

theorem read_refused (how : Reader) (h : ¬ how.accepts b block) :
    read how b block = .error .assertFailed := by
  cases how with
  | deserialize => exact if_pos (not_le.1 h)
  | deSerialize =>
    rw [read, deSerialize, if_pos (show block.size ≠ b.size from h)]
    rfl
  | constructFromBlock => exact if_pos fun heq => h heq.symm

theorem read_eq (how : Reader) (h : how.accepts b block) :
    ∃ content, read how b block = block.tail >>= fun count => b.setCount content count := by
  cases how with
  | deserialize => exact ⟨copied b.size block, if_neg (not_lt.2 h)⟩
  | deSerialize =>
    refine ⟨block, ?_⟩
    rw [read, deSerialize, if_neg (not_not.2 (show block.size = b.size from h))]
    cases block.tail with
    | error e => rfl
    | ok count =>
      simp only [Run.bind_ok]
      cases b.setCount block count <;> rfl
  | constructFromBlock => exact ⟨copied b.size block, if_neg (not_not.2 h.symm)⟩

theorem off_le_of_returns {i : UInt32} {off : ℕ} (hlt : b.free < 2 ^ 32)
    (hfree : b.free = count.toNat * b.tupleSize.toNat) (h : Returns b i off) :
    off + b.tupleSize.toNat ≤ b.free := by
  obtain ⟨hget, hall⟩ := h
  -- at the number of the tuples there is none
  have hi : i.toNat < count.toNat := by
    by_contra hge
    have hsome := hall count (UInt32.le_iff_toNat_le.2 (not_lt.1 hge))
    rw [getTuple, mul_toNat (hfree ▸ hlt), ← hfree, if_pos le_rfl] at hsome
    cases hsome
  have hle : i.toNat * b.tupleSize.toNat + b.tupleSize.toNat ≤ b.free := by
    rw [hfree, ← Nat.succ_mul]
    exact Nat.mul_le_mul_right _ hi
  rw [getTuple, mul_toNat (by omega)] at hget
  split_ifs at hget
  obtain rfl := some.inj hget
  exact hle

/-- **Arbitrary bytes**: which blocks a reader refuses or takes with the tail behind the tuples. -/
theorem reader_keeps_invariant_iff (how : Reader) (b : BlockStreamFix) (block : Block) :
    KeepsInvariant how b block ↔ (how.accepts b block → ∃ count, block.tail = .ok count ∧
      (b.size < count.toNat * b.tupleSize.toNat % 2 ^ 32 ∨
        count.toNat * b.tupleSize.toNat + 4 ≤ b.size)) := by
  by_cases hacc : how.accepts b block
  swap
  · exact ⟨fun _ h => absurd h hacc, fun _ => .inl (read_refused how hacc)⟩
  obtain ⟨content, hread⟩ := read_eq how hacc
  rw [KeepsInvariant, hread, forall_prop_of_true hacc]
  have hs : b.size < 2 ^ 32 := b.size_lt
  cases htail : block.tail with
  | error e =>
    refine ⟨?_, fun ⟨_, h, _⟩ => by cases h⟩
    rintro (h | ⟨_, _, h, -⟩)
    · obtain rfl : e = .assertFailed := Except.error.inj h
      rw [Block.tail] at htail
      split_ifs at htail
      cases htail
    · cases h
  | ok count =>
    rw [Run.bind_ok, setCount, UInt32.toNat_mul]
    constructor
    · rintro (h | ⟨b', c, hb, hc, hfree, hroom, -⟩)
      · refine ⟨count, rfl, .inl (lt_of_not_ge fun hle => ?_)⟩
        rw [if_neg (not_lt.2 hle)] at h
        cases h
      · exact ⟨c, hc, .inr (hfree ▸ hroom)⟩
    · rintro ⟨c, hc, h⟩
      obtain rfl := Except.ok.inj hc
      rcases h with hbig | hroom
      · exact .inl (if_pos hbig)
      · have hmod : count.toNat * b.tupleSize.toNat % 2 ^ 32 = count.toNat * b.tupleSize.toNat :=
          Nat.mod_eq_of_lt (by omega)
        rw [hmod, if_neg (by omega)]
        refine .inr ⟨_, count, rfl, rfl, rfl, hroom, fun i off hret => ?_⟩
        have hoff := off_le_of_returns (by simp only; omega) rfl hret
        simp only at hoff
        omega

/-- The tail is in the only tuple; and `2 ^ 31` tuples of two bytes are taken for none. -/
theorem tail_inside_tuple :
    let block : Block := ⟨[0, 0, 0, 0, 1, 0, 0, 0], by decide⟩
    let many : Block := ⟨[0, 0, 0, 0, 0, 0, 0, 128], by decide⟩
    ∀ how, ¬ KeepsInvariant how (emptyBlock 8 8) block ∧
      ¬ KeepsInvariant how (emptyBlock 8 2) many := by
  intro block many how
  have hblock : ∃ b', read how (emptyBlock 8 8) block = .ok b' ∧ b'.free = 8 := by
    cases how <;> exact ⟨_, rfl, rfl⟩
  have hmany : (read how (emptyBlock 8 2) many).toOption.map (·.free) = some 0 := by
    cases how <;> decide +kernel
  constructor
  · obtain ⟨b', hb', hfree⟩ := hblock
    rintro (h | ⟨c, _, hc, -, -, hroom, -⟩)
    · cases hb'.symm.trans h
    · obtain rfl := Except.ok.inj (hb'.symm.trans hc)
      rw [hfree] at hroom
      exact absurd hroom (by decide)
  · rintro (h | ⟨c, count, hc, hcount, heq, -⟩)
    · rw [h] at hmany
      cases hmany
    · have hfree : c.free = 0 := by
        rw [hc] at hmany
        exact some.inj hmany
      have htwo : count = 2147483648 :=
        Except.ok.inj (hcount.symm.trans (show many.tail = .ok 2147483648 by decide +kernel))
      rw [hfree, htwo] at heq
      exact absurd heq (by decide)

end BlockFormat
