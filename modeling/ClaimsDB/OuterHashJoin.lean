/-
The outer hash join: for a right tuple without a match `Next` writes one tuple whose left part it
makes out of `NULL`s, column by column, in fresh memory.  Left and right joins run the same code.
-/
import ClaimsDB.HashTable
import ClaimsDB.Probing
import ClaimsDB.NullValues

namespace OuterHashJoin

open List
open HashTable Probing Columns
open Loader (Memory byteAlign)

variable {R : Type}

/-- The left columns, hashes, conditions, the numbers of buckets and of tuples per page.  Every key is
taken to have a hash, which a `NULL` DATE has not. -/
structure Join (R : Type) where
  columns : List Column
  hashLeft : Memory → ℕ
  hashRight : R → ℕ
  joinCondi : List (Memory → R → Bool)
  bucketNum : ℕ
  pageCapacity : ℕ

def joinCondiProcess (j : Join R) (l : Memory) (r : R) : Bool := j.joinCondi.all fun c => c l r

def bucketLeft (j : Join R) (l : Memory) : ℕ := j.hashLeft l % j.bucketNum

def bucketRight (j : Join R) (r : R) : ℕ := j.hashRight r % j.bucketNum

def tupleMaxSize (cs : List Column) : ℕ := (cs.map fun c => c.type.getLength).sum

def openJoin (j : Join R) (left : List Memory) : Run (Table Memory) :=
  (Table.new j.bucketNum j.pageCapacity).insertAll (bucketLeft j) left

section NullTuple

variable (L : Library) (malloc : ℕ → ℕ → UInt8)

/-- The `k`-th block of fresh memory of a call, with the bytes that it happens to have. -/
def fresh (k size : ℕ) : Memory := (List.range size).map (malloc k)

/-- The bytes of `temp_record` for a column that can be `NULL`. -/
def tempRecord (k : ℕ) (c : Column) : Memory :=
  (setNull L c.type (fresh malloc k c.type.getLength)).take c.type.getLength

/-- The loop over the columns; nothing is written for one that cannot be `NULL`. -/
def nullTupleFrom : List Column → ℕ → ℕ → Memory → Memory
  | [], _, _, t => t
  | c :: cs, k, nullTupleSize, t =>
    if c.nullable then
      nullTupleFrom cs (k + 1) (nullTupleSize + c.type.getLength)
        (overwrite t nullTupleSize (tempRecord L malloc k c))
    else nullTupleFrom cs (k + 1) nullTupleSize t

def nullTuple (cs : List Column) : Memory :=
  nullTupleFrom L malloc cs 1 0 (fresh malloc 0 (tupleMaxSize cs))

end NullTuple

/-! ### `Next` -/

structure Operator (R : Type) extends Join R where
  table : Table Memory
  library : Library
  malloc : ℕ → ℕ → UInt8

variable (o : Operator R)

def bucket (r : R) : List Memory :=
  (o.table.placeIterator createIterator (bucketRight o.toJoin r)).left

def nullLeft : Memory := nullTuple o.library o.malloc o.columns

/-- The loop over a bucket: what is written, `nothing_join`, and the rest of the bucket when the
output block is full. -/
def visitBucket (r : R) : List Memory → Bool → ℕ → List (Memory × R) × Bool × Option (List Memory)
  | [], nothingJoin, _ => ([], nothingJoin, none)
  | l :: ls, nothingJoin, room =>
    if joinCondiProcess o.toJoin l r then
      match room with
      | 0 => ([], false, some (l :: ls))
      | room + 1 =>
        let more := visitBucket r ls false room
        ((l, r) :: more.1, more.2)
    else visitBucket r ls nothingJoin room

/-- One turn of the loop over the right tuples, in which `nothing_join` is new. -/
def visitTuple (r : R) (left : List Memory) (room : ℕ) :
    List (Memory × R) × Option (List Memory) :=
  match visitBucket o r left true room with
  | (os, _, some left) => (os, some left)
  | (os, false, none) => (os, none)
  | (os, true, none) =>
    match room - os.length with
    | 0 => (os, some [])
    | _ + 1 => (os ++ [(nullLeft o, r)], none)

def place : List R → List Memory
  | [] => []
  | r :: _ => bucket o r

def visitBlock :
    List R → List Memory → ℕ → List (Memory × R) × Option (List R × List Memory)
  | [], _, _ => ([], none)
  | r :: rs, left, room =>
    match visitTuple o r left room with
    | (os, some left) => (os, some (r :: rs, left))
    | (os, none) =>
      let more := visitBlock rs (place o rs) (room - os.length)
      (os ++ more.1, more.2)

/-- `Next` with `room` left in the output block: what is written, whether the block was filled, and
the state. -/
def fill : List (List R) → List R → List Memory → ℕ →
    List (Memory × R) × Bool × Probing.State Memory R
  | blocks, right, left, room =>
    match visitBlock o right left room with
    | (os, some (right, left)) => (os, true, ⟨blocks, right, left⟩)
    | (os, none) =>
      match blocks with
      | [] => (os, false, ⟨[], [], []⟩)
      | block :: blocks =>
        let more := fill blocks block (place o block) (room - os.length)
        (os ++ more.1, more.2)

def next (capacity : ℕ) (s : Probing.State Memory R) :
    Run (Bool × List (Memory × R) × Probing.State Memory R) :=
  let (os, full, s) := fill o s.blocks s.right s.left capacity
  .ok (full || !os.isEmpty, os, s)

/-! ### Only the matches of a bucket -/

def probe : Probe Memory R (Memory × R) where
  chain r := (bucket o r).filter fun l => joinCondiProcess o.toJoin l r
  onPair l r := some (l, r)
  onEmpty r := some (nullLeft o, r)

def matchesLeft : List R → List Memory → List Memory
  | [], _ => []
  | r :: _, left => left.filter fun l => joinCondiProcess o.toJoin l r

def probing (s : Probing.State Memory R) : Probing.State Memory R :=
  ⟨s.blocks, s.right, matchesLeft o s.right s.left⟩

variable {o}

theorem visitBucket_eq (r : R) (left : List Memory) (nothingJoin : Bool) (room : ℕ) :
    let v := visitBucket o r left nothingJoin room
    let hits := left.filter fun l => joinCondiProcess o.toJoin l r
    visitChain (probe o) r hits room =
        (v.1, v.2.2.map (List.filter fun l => joinCondiProcess o.toJoin l r)) ∧
      (v.2.2 = none → v.2.1 = (nothingJoin && hits.isEmpty)) := by
  induction left generalizing nothingJoin room with
  | nil => exact ⟨rfl, fun _ => (Bool.and_true _).symm⟩
  | cons l ls ih =>
    simp only [visitBucket]
    by_cases hl : joinCondiProcess o.toJoin l r = true
    · rw [filter_cons_of_pos (by simpa using hl), if_pos hl]
      cases room with
      | zero =>
        refine ⟨?_, fun h => by cases h⟩
        rw [Option.map_some, filter_cons_of_pos (by simpa using hl)]
        rfl
      | succ room =>
        obtain ⟨hchain, hnothing⟩ := ih false room
        refine ⟨?_, fun h => ?_⟩
        · show (_ :: (visitChain (probe o) r _ room).1, (visitChain (probe o) r _ room).2) = _
          rw [hchain]
        · rw [hnothing h]
          simp
    · rw [filter_cons_of_neg (by simpa using hl), if_neg hl]
      exact ih nothingJoin room

theorem visitTuple_probes (r : R) (left : List Memory) (room : ℕ) :
    Probing.visitTuple (probe o) r (left.filter fun l => joinCondiProcess o.toJoin l r) room =
      ((visitTuple o r left room).1, (visitTuple o r left room).2.map
        (List.filter fun l => joinCondiProcess o.toJoin l r)) := by
  obtain ⟨hchain, hnothing⟩ := visitBucket_eq (o := o) r left true room
  unfold Probing.visitTuple visitTuple
  rcases hbucket : visitBucket o r left true room with ⟨os, nothingJoin, rest⟩
  rw [hbucket] at hchain hnothing
  by_cases hhits : (left.filter fun l => joinCondiProcess o.toJoin l r) = []
  · -- nothing is written in the bucket, and the loop ends with `nothing_join`
    rw [hhits] at hchain hnothing
    obtain ⟨rfl, hrest⟩ := Prod.mk.inj hchain
    obtain rfl := Option.map_eq_none_iff.1 hrest.symm
    obtain rfl : nothingJoin = true := hnothing rfl
    rw [if_pos hhits]
    cases room <;> rfl
  · rw [if_neg hhits, hchain]
    cases rest with
    | some rest => rfl
    | none =>
      have hfalse := hnothing rfl
      rw [List.isEmpty_eq_false_iff.2 hhits] at hfalse
      obtain rfl : nothingJoin = false := hfalse
      rfl

theorem place_probes (right : List R) :
    Probing.place (probe o) right = matchesLeft o right (place o right) := by
  cases right <;> rfl

theorem visitBlock_probes (right : List R) (left : List Memory) (room : ℕ) :
    Probing.visitBlock (probe o) right (matchesLeft o right left) room =
      ((visitBlock o right left room).1, (visitBlock o right left room).2.map fun rest =>
        (rest.1, matchesLeft o rest.1 rest.2)) := by
  induction right generalizing left room with
  | nil => rfl
  | cons r rs ih =>
    rw [Probing.visitBlock, visitBlock, matchesLeft, visitTuple_probes]
    cases hv : visitTuple o r left room with
    | mk os rest =>
      cases rest with
      | some rest => rfl
      | none => simp only [Option.map_none, place_probes, ih]

theorem fill_probes (blocks : List (List R)) (right : List R) (left : List Memory) (room : ℕ) :
    Probing.fill (probe o) blocks right (matchesLeft o right left) room =
      ((fill o blocks right left room).1, (fill o blocks right left room).2.1,
        probing o (fill o blocks right left room).2.2) := by
  induction blocks generalizing right left room with
  | nil =>
    rw [Probing.fill, fill, visitBlock_probes]
    cases hv : visitBlock o right left room with
    | mk os rest => cases rest <;> rfl
  | cons block blocks ih =>
    rw [Probing.fill, fill, visitBlock_probes]
    cases hv : visitBlock o right left room with
    | mk os rest =>
      cases rest with
      | some rest => rfl
      | none => simp only [Option.map_none, place_probes, ih]

/-- **One call** does what it would do with the matches alone. -/
theorem next_probes (capacity : ℕ) (s : Probing.State Memory R) :
    ∃ b os s', next o capacity s = .ok (b, os, s') ∧
      Probing.next (probe o) capacity (probing o s) = (b, os, probing o s') := by
  refine ⟨_, _, _, rfl, ?_⟩
  unfold Probing.next probing
  simp only
  rw [fill_probes]
  rfl

theorem calls_iff_returns {capacity : ℕ} {s : Probing.State Memory R}
    {blocks : List (List (Memory × R))} :
    Calls (next o capacity) s blocks ↔ Returns (probe o) capacity (probing o s) blocks := by
  have hcall : ∀ s, True → ∃ b os s', next o capacity s = .ok (b, os, s') ∧
      Probing.next (probe o) capacity (probing o s) = (b, os, probing o s') ∧ True := by
    intro s _
    obtain ⟨b, os, s', hok, hnext⟩ := next_probes (o := o) capacity s
    exact ⟨b, os, s', hok, hnext, trivial⟩
  exact calls_iff hcall trivial blocks

/-! ### The columns of the new left part -/

section Columns

variable {L : Library} {malloc : ℕ → ℕ → UInt8}

variable (L) in
/-- Every column is `NULL` at its own offset. -/
def ReadsNull : List Column → Memory → Prop
  | [], _ => True
  | c :: cs, t =>
    c.isNull L (t.take c.type.getLength) = true ∧ ReadsNull cs (t.drop c.type.getLength)

variable (L) in
/-- The types for which `isNull` sees what `setNull` has written. -/
def SeesNull : ColumnType → Prop
  | .boolean => False
  | .float => L.floatMaxToInt = 0x7F7FFFFF
  | .double => L.doubleMaxToInt = 0xFFFFFFFF
  | .string size => 0 < byteAlign size
  | _ => True

variable (L malloc) in
/-- What is written when all columns can be `NULL`. -/
def records : List Column → ℕ → Memory
  | [], _ => []
  | c :: cs, k => tempRecord L malloc k c ++ records cs (k + 1)

variable (malloc) in
theorem length_fresh (k size : ℕ) : (fresh malloc k size).length = size := by simp [fresh]

theorem length_le_overwrite (v : Memory) (off : ℕ) (b : Memory) :
    v.length ≤ (overwrite v off b).length := by
  simp only [overwrite, length_append, length_take, length_drop]
  omega

theorem length_le_setNull (type : ColumnType) (v : Memory) :
    v.length ≤ (setNull L type v).length := by
  cases type with
  | decimal p s => exact (length_le_overwrite _ _ _).trans (length_le_overwrite _ _ _)
  | _ => exact length_le_overwrite _ _ _

variable (L malloc) in
theorem length_tempRecord (k : ℕ) (c : Column) :
    (tempRecord L malloc k c).length = c.type.getLength := by
  have hlength := length_le_setNull (L := L) c.type (fresh malloc k c.type.getLength)
  rw [length_fresh] at hlength
  rw [tempRecord, length_take, min_eq_left hlength]

variable {cs : List Column} {t : Memory} {type : ColumnType}

theorem nullTupleFrom_eq (h : ∀ c ∈ cs, c.nullable = true) (k size : ℕ)
    (ht : t.length = size + tupleMaxSize cs) :
    nullTupleFrom L malloc cs k size t = t.take size ++ records L malloc cs k := by
  induction cs generalizing k size t with
  | nil =>
    have htake : t.take size = t := take_of_length_le ht.le
    rw [nullTupleFrom, records, htake, append_nil]
  | cons c cs ih =>
    have hc : c.nullable = true := h c mem_cons_self
    have hsize : tupleMaxSize (c :: cs) = c.type.getLength + tupleMaxSize cs := sum_cons
    have hrecord := length_tempRecord L malloc k c
    have htake : (t.take size).length = size := by
      rw [length_take]
      omega
    rw [nullTupleFrom, if_pos hc, ih fun c hc => h c (mem_cons_of_mem _ hc), overwrite,
      take_left' (by rw [length_append, htake, hrecord]), records, append_assoc]
    simp only [overwrite, length_append, length_drop, htake, hrecord]
    omega

theorem setNull_eq_overwrite (h : isDecimal type = false) (v : Memory) :
    setNull L type v = overwrite v 0 (nullBytes L type) := by
  cases type with
  | decimal p s => cases h
  | _ => rfl

theorem isDecimal_of_isNumber (h : isNumber type = true) : isDecimal type = false := by
  cases type with
  | decimal p s => cases h
  | _ => rfl

theorem tempRecord_number {c : Column} (h : isNumber c.type = true) (k : ℕ) :
    tempRecord L malloc k c = nullBytes L c.type := by
  obtain ⟨type, nullable⟩ := c
  have hlength : (nullBytes L type).length = type.getLength := by
    cases type with
    | string size => cases h
    | decimal p s => cases h
    | _ => exact Codec.length_leBytes _ _
  rw [tempRecord, setNull_eq_overwrite (isDecimal_of_isNumber h), overwrite, take_zero, nil_append,
    take_left' hlength]

theorem testedAsNull_tempRecord (k : ℕ) (c : Column) :
    testedAsNull L c.type (tempRecord L malloc k c) = true ↔ SeesNull L c.type := by
  -- where the two tests are the same one, `NULL` is shown as `NULL`
  have hnumber : isNumber c.type = true →
      shownAsNull L c.type (tempRecord L malloc k c) = true := fun h => by
    have hlength := length_tempRecord L malloc k c
    rw [shownAsNull_number L h hlength, ← setNull_number L h hlength, tempRecord_number h,
      setNull_eq_overwrite (isDecimal_of_isNumber h), overwrite_zero_eq_iff, take_length]
  obtain ⟨type, nullable⟩ := c
  cases type with
  | boolean =>
    rw [tempRecord_number rfl]
    have hread : Partitioning.intAt (Codec.leBytes 4 2) = 2 := by decide
    refine iff_of_false ?_ id
    simp [testedAsNull, nullBytes, hread]
  | float =>
    rw [tempRecord_number rfl]
    show decide (bits32At (Codec.leBytes 4 floatMax) = L.floatMaxToInt) = true ↔ _
    rw [decide_eq_true_eq, eq_comm, show bits32At (Codec.leBytes 4 floatMax) = 0x7F7FFFFF by decide]
    exact Iff.rfl
  | double =>
    rw [tempRecord_number rfl]
    show decide (bits32At (Codec.leBytes 8 doubleMax) = L.doubleMaxToInt) = true ↔ _
    rw [decide_eq_true_eq, eq_comm, show bits32At (Codec.leBytes 8 doubleMax) = 0xFFFFFFFF by decide]
    exact Iff.rfl
  | string size =>
    show decide (List.head? _ = some 1) = true ↔ 0 < byteAlign size
    rw [decide_eq_true_eq]
    show ((overwrite _ 0 [1]).take (byteAlign size)).head? = some 1 ↔ _
    rw [head?_take, overwrite]
    split <;> simp <;> omega
  | decimal p s =>
    refine iff_of_true ?_ trivial
    have hfresh := length_fresh malloc k 48
    simp only [testedAsNull, shownAsNull, decide_eq_true_eq, signAt, tempRecord, setNull,
      ColumnType.getLength, headD_eq_head?_getD, head?_drop]
    simp [overwrite, hfresh, getElem?_append]
  | _ => exact iff_of_true (hnumber rfl) trivial

theorem readsNull_records (cs : List Column) (k : ℕ) :
    ReadsNull L cs (records L malloc cs k) ↔
      ∀ c ∈ cs, c.nullable = true ∧ SeesNull L c.type := by
  induction cs generalizing k with
  | nil => simp [ReadsNull]
  | cons c cs ih =>
    have hlength := length_tempRecord L malloc k c
    rw [ReadsNull, records, take_left' hlength, drop_left' hlength, ih,
      forall_mem_cons, Column.isNull, Bool.and_eq_true, testedAsNull_tempRecord]

theorem ReadsNull.nullable (h : ReadsNull L cs t) : ∀ c ∈ cs, c.nullable = true := by
  induction cs generalizing t with
  | nil => simp
  | cons c cs ih =>
    obtain ⟨hc, hrest⟩ := h
    rw [Column.isNull, Bool.and_eq_true] at hc
    exact List.forall_mem_cons.2 ⟨hc.1, ih hrest⟩

variable (malloc) in
theorem readsNull_nullTuple_iff (cs : List Column) :
    ReadsNull L cs (nullTuple L malloc cs) ↔ ∀ c ∈ cs, c.nullable = true ∧ SeesNull L c.type := by
  have hrecords : (∀ c ∈ cs, c.nullable = true) → nullTuple L malloc cs = records L malloc cs 1 :=
    fun h => nullTupleFrom_eq h 1 0 (by rw [length_fresh, Nat.zero_add])
  constructor
  · intro h
    rw [hrecords h.nullable, readsNull_records] at h
    exact h
  · intro h
    rw [hrecords fun c hc => (h c hc).1, readsNull_records]
    exact h

end Columns

/-! ### The outer join -/

def pairs (j : Join R) (left : List Memory) (right : List R) : List (Memory × R) :=
  right.flatMap fun r => (left.filter fun l => joinCondiProcess j l r).map fun l => (l, r)

def unmatched (j : Join R) (left : List Memory) (right : List R) : List R :=
  right.filter fun r => (left.filter fun l => joinCondiProcess j l r).isEmpty

/-- The pairs once each, and each right tuple without a match once, with a left part in which every
column is `NULL`. -/
def IsOuterJoin (L : Library) (j : Join R) (left : List Memory) (right : List R)
    (os : List (Memory × R)) : Prop :=
  ∃ nulls : R → Memory, (∀ r ∈ unmatched j left right, ReadsNull L j.columns (nulls r)) ∧
    os.Perm (pairs j left right ++ (unmatched j left right).map fun r => (nulls r, r))

def start (right : List (List R)) : Probing.State Memory R := ⟨right, [], []⟩

/-- On all inputs `Open` succeeds, the calls of `Next` come to an end, and they return the outer
join. -/
def Correct (L : Library) (malloc : ℕ → ℕ → UInt8) (j : Join R) (capacity : ℕ) : Prop :=
  ∀ left right, (∀ l ∈ left, l.length = tupleMaxSize j.columns) →
    ∃ table, openJoin j left = .ok table ∧
      (∃ blocks, Calls (next ⟨j, table, L, malloc⟩ capacity) (start right) blocks) ∧
      ∀ blocks, Calls (next ⟨j, table, L, malloc⟩ capacity) (start right) blocks →
        IsOuterJoin L j left right.flatten blocks.flatten

def SameBuckets (j : Join R) : Prop :=
  ∀ l r, l.length = tupleMaxSize j.columns → joinCondiProcess j l r = true →
    bucketLeft j l = bucketRight j r

variable {left : List Memory} {r : R} {L : Library} {malloc : ℕ → ℕ → UInt8} {j : Join R}
  {capacity : ℕ} {blocks : List (List (Memory × R))}

theorem bucket_perm (hopen : openJoin o.toJoin left = .ok o.table) (hn : 0 < o.bucketNum) (r : R) :
    (bucket o r).Perm (left.filter fun l => bucketLeft o.toJoin l = bucketRight o.toJoin r) := by
  have hlt : bucketRight o.toJoin r < o.table.nbuckets := by
    rw [nbuckets_insertAll hopen]
    exact Nat.mod_lt _ hn
  unfold bucket
  rw [(left_placeIterator o.table createIterator hlt).1]
  exact chain_insertAll hopen _

theorem chain_perm {left : List Memory} (hopen : openJoin o.toJoin left = .ok o.table)
    (hn : 0 < o.bucketNum) {r : R}
    (hsame : ∀ l ∈ left, joinCondiProcess o.toJoin l r = true →
      bucketLeft o.toJoin l = bucketRight o.toJoin r) :
    ((probe o).chain r).Perm (left.filter fun l => joinCondiProcess o.toJoin l r) := by
  refine ((bucket_perm hopen hn r).filter _).trans (.of_eq ?_)
  rw [filter_filter]
  refine filter_congr fun l hl => ?_
  rw [Bool.eq_iff_iff, Bool.and_eq_true, decide_eq_true_eq]
  exact and_iff_left_of_imp (hsame l hl)

theorem output_perm {hits : List Memory} (h : ((probe o).chain r).Perm hits) :
    (output (probe o) r).Perm
      ((hits.map fun l => (l, r)) ++ if hits.isEmpty then [(nullLeft o, r)] else []) := by
  have hmap : ∀ ls : List Memory, ls.filterMap ((probe o).onPair · r) = ls.map fun l => (l, r) :=
    fun ls => congrFun filterMap_eq_map' ls
  unfold output tupleOutput
  cases hits with
  | nil =>
    rw [if_pos h.eq_nil]
    rfl
  | cons l ls =>
    have hne : (probe o).chain r ≠ [] := fun hnil => by
      rw [hnil] at h
      exact cons_ne_nil _ _ h.nil_eq.symm
    rw [if_neg hne, hmap]
    simpa using h.map fun l => (l, r)

theorem flatMap_unmatched (j : Join R) (left : List Memory) (right : List R)
    (f : R → Memory × R) :
    (right.flatMap fun r =>
      if (left.filter fun l => joinCondiProcess j l r).isEmpty then [f r] else []) =
      (unmatched j left right).map f := by
  induction right with
  | nil => rfl
  | cons r right ih =>
    rw [flatMap_cons, ih, unmatched, unmatched, filter_cons]
    split <;> rfl

theorem pending_start (right : List (List R)) :
    pending (probe o) (probing o (start right)) = right.flatten.flatMap (output (probe o)) := rfl

theorem isOuterJoin_of_returns {table : Table Memory} {right : List (List R)}
    (hopen : openJoin j left = .ok table) (hn : 0 < j.bucketNum) (hcapacity : 0 < capacity)
    (hleft : ∀ l ∈ left, l.length = tupleMaxSize j.columns) (hsame : SameBuckets j)
    (hcolumns : ∀ c ∈ j.columns, c.nullable = true ∧ SeesNull L c.type)
    (h : Calls (next ⟨j, table, L, malloc⟩ capacity) (start right) blocks) :
    IsOuterJoin L j left right.flatten blocks.flatten := by
  have hflatten := flatten_of_returns hcapacity (calls_iff_returns.1 h)
  refine ⟨fun _ => nullTuple L malloc j.columns,
    fun _ _ => (readsNull_nullTuple_iff malloc j.columns).2 hcolumns, ?_⟩
  rw [hflatten, pending_start, ← flatMap_unmatched]
  refine .trans (List.Perm.flatMap_left _ fun r _ => ?_) (flatMap_append_perm _ _ _).symm
  exact output_perm (chain_perm hopen hn fun l hl => hsame l r (hleft l hl))

/-! ### Inputs on which a join fails -/

theorem openJoin_without_buckets (h : j.bucketNum = 0) (l : Memory) :
    openJoin j [l] = .error .outOfBounds := by
  unfold openJoin
  rw [h]
  rfl

theorem bucket_of_empty (r : R) :
    bucket ⟨j, Table.new j.bucketNum j.pageCapacity, L, malloc⟩ r = [] := by
  unfold bucket Table.placeIterator
  split <;> rfl

theorem capacity_pos_of_correct (r : R) (h : Correct L malloc j capacity) : 0 < capacity := by
  obtain ⟨table, hopen, ⟨blocks, hblocks⟩, -⟩ := h [] [[r]] (by simp)
  obtain rfl := Except.ok.inj hopen
  rcases Nat.eq_zero_or_pos capacity with rfl | hpos
  · have hnext : next ⟨j, Table.new j.bucketNum j.pageCapacity, L, malloc⟩ 0 (start [[r]]) =
        .ok (true, [], ⟨[], [r], []⟩) := by
      unfold next start
      simp only
      rw [fill, visitBlock]
      simp only
      rw [fill, place, bucket_of_empty]
      rfl
    cases hblocks with
    | done h =>
      rw [hnext] at h
      cases h
    | block h hrest =>
      rw [hnext] at h
      cases h
      exact absurd hrest (not_calls_of_loop rfl)
  · exact hpos

theorem output_of_empty_bucket (h : bucket o r = []) : output (probe o) r = [(nullLeft o, r)] := by
  have hchain : (probe o).chain r = [] := by
    show (bucket o r).filter _ = []
    rw [h, filter_nil]
  unfold output tupleOutput
  rw [if_pos hchain]
  rfl

theorem output_of_correct (r : R) (h : Correct L malloc j capacity) (left : List Memory)
    (hleft : ∀ l ∈ left, l.length = tupleMaxSize j.columns) :
    ∃ table, openJoin j left = .ok table ∧
      IsOuterJoin L j left [r] (output (probe ⟨j, table, L, malloc⟩) r) := by
  obtain ⟨table, hopen, ⟨blocks, hblocks⟩, hjoin⟩ := h left [[r]] hleft
  have hflatten := flatten_of_returns (capacity_pos_of_correct r h) (calls_iff_returns.1 hblocks)
  have houtput := hjoin blocks hblocks
  rw [hflatten, pending_start] at houtput
  refine ⟨table, hopen, ?_⟩
  simpa using houtput

theorem bucketNum_pos_of_correct (r : R) (h : Correct L malloc j capacity) : 0 < j.bucketNum := by
  rcases Nat.eq_zero_or_pos j.bucketNum with hzero | hpos
  · obtain ⟨table, hopen, -⟩ := output_of_correct r h
      [List.replicate (tupleMaxSize j.columns) 0] (by simp)
    rw [openJoin_without_buckets hzero] at hopen
    cases hopen
  · exact hpos

theorem sameBuckets_of_correct (h : Correct L malloc j capacity) : SameBuckets j := by
  intro l r hlength hl
  by_contra hne
  obtain ⟨table, hopen, nulls, -, hperm⟩ := output_of_correct r h [l, l]
    (by simp [hlength])
  have hbucket := bucket_perm (o := ⟨j, table, L, malloc⟩) hopen (bucketNum_pos_of_correct r h) r
  rw [filter_cons_of_neg (by simpa using hne), filter_cons_of_neg (by simpa using hne)]
    at hbucket
  have hcount := hperm.length_eq
  rw [output_of_empty_bucket hbucket.eq_nil] at hcount
  simp [pairs, hl] at hcount

theorem columns_of_correct (r : R) (h : Correct L malloc j capacity) :
    ∀ c ∈ j.columns, c.nullable = true ∧ SeesNull L c.type := by
  obtain ⟨table, hopen, nulls, hnulls, hperm⟩ := output_of_correct r h [] (by simp)
  obtain rfl := Except.ok.inj hopen
  rw [output_of_empty_bucket (bucket_of_empty r)] at hperm
  have hpair : (nullTuple L malloc j.columns, r) = (nulls r, r) :=
    List.singleton_perm_singleton.1 hperm
  rw [← readsNull_nullTuple_iff malloc, (Prod.mk.inj hpair).1]
  exact hnulls r mem_cons_self

/-- **When the operator returns the outer join of all inputs.** -/
theorem outer_join_iff (L : Library) (malloc : ℕ → ℕ → UInt8) (j : Join R) (capacity : ℕ) (r : R) :
    Correct L malloc j capacity ↔
      0 < j.bucketNum ∧ 0 < capacity ∧ SameBuckets j ∧
        ∀ c ∈ j.columns, c.nullable = true ∧ SeesNull L c.type := by
  constructor
  · intro h
    exact ⟨bucketNum_pos_of_correct r h, capacity_pos_of_correct r h, sameBuckets_of_correct h,
      columns_of_correct r h⟩
  · rintro ⟨hn, hcapacity, hsame, hcolumns⟩ left right hleft
    obtain ⟨table, hopen⟩ : ∃ table, openJoin j left = .ok table :=
      insertAll_ok fun l _ => Nat.mod_lt _ hn
    refine ⟨table, hopen, ?_, fun blocks hblocks =>
      isOuterJoin_of_returns hopen hn hcapacity hleft hsame hcolumns hblocks⟩
    obtain ⟨blocks, hblocks⟩ := exists_returns (p := probe ⟨j, table, L, malloc⟩) hcapacity
      (probing _ (start right))
    exact ⟨blocks, calls_iff_returns.2 hblocks⟩

/-- A left table with a column that cannot be `NULL` before one that can, and no match at all. -/
def mixedColumns : Join ℕ := ⟨[⟨.int, false⟩, ⟨.int, true⟩], fun _ => 0, id, [fun _ _ => false], 2, 3⟩

/-- The `NULL` of the second column is written over the first one, and the second keeps what was in
the memory. -/
theorem null_in_wrong_column :
    nullTuple sampleLibrary (fun _ _ => 0) mixedColumns.columns = [255, 255, 255, 127, 0, 0, 0, 0] ∧
      ¬ Correct sampleLibrary (fun _ _ => 0) mixedColumns 1 := by
  refine ⟨by decide, fun h => ?_⟩
  have hnullable := (columns_of_correct 0 h ⟨.int, false⟩ mem_cons_self).1
  cases hnullable

end OuterHashJoin
