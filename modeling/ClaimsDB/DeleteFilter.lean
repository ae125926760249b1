/-
The delete filter.

`Open` puts the deleted tuples into a hash table.  `Next` writes a base tuple once if its bucket is
empty, and otherwise once for every deleted tuple of the bucket whose key is not its own.
-/
import ClaimsDB.HashTable
import ClaimsDB.Probing

namespace DeleteFilter

open List
open HashTable Probing

variable {D R : Type}

/-- Hashes of the key columns, their comparisons, the numbers of buckets and of tuples per page. -/
structure Filter (D R : Type) where
  hashDeleted : D → ℕ
  hashBase : R → ℕ
  filterKeys : List (D → R → Bool)
  bucketNum : UInt32
  pageCapacity : ℕ

namespace Filter

def isMatch (f : Filter D R) (d : D) (r : R) : Bool := f.filterKeys.all fun equal => equal d r

/-- `getPartitionValue` with the number of buckets. -/
def bucketDeleted (f : Filter D R) (d : D) : ℕ := f.hashDeleted d % f.bucketNum.toNat

def bucketBase (f : Filter D R) (r : R) : ℕ := f.hashBase r % f.bucketNum.toNat

/-- `Open`: the deleted tuples in the order in which places are allocated for them. -/
def openFilter (f : Filter D R) (deleted : List D) : Run (Table D) :=
  (Table.new f.bucketNum.toNat f.pageCapacity).insertAll f.bucketDeleted deleted

/-- `Next` writes a base tuple if its bucket is empty, and for every tuple of its bucket that does
not match. -/
def probe (f : Filter D R) (table : Table D) : Probe D R R where
  chain r := (table.placeIterator createIterator (f.bucketBase r)).left
  onPair d r := if f.isMatch d r then none else some r
  onEmpty r := some r

def inBucket (f : Filter D R) (deleted : List D) (r : R) : List D :=
  deleted.filter fun d => f.bucketDeleted d = f.bucketBase r

def isDeleted (f : Filter D R) (deleted : List D) (r : R) : Bool := deleted.any (f.isMatch · r)

def copies (f : Filter D R) (deleted : List D) (r : R) : ℕ :=
  if f.inBucket deleted r = [] then 1
  else ((f.inBucket deleted r).filter fun d => !f.isMatch d r).length

end Filter

def start (base : List (List R)) : State D R := ⟨base, [], []⟩

variable {f : Filter D R}

theorem bucket_lt (hn : f.bucketNum ≠ 0) (hash : ℕ) : hash % f.bucketNum.toNat < f.bucketNum.toNat := by
  refine Nat.mod_lt _ (Nat.pos_of_ne_zero fun hzero => hn ?_)
  exact UInt32.toNat_inj.mp hzero

variable {deleted : List D} {table : Table D} {r : R}

theorem chain_perm (hn : f.bucketNum ≠ 0) (hopen : f.openFilter deleted = .ok table) (r : R) :
    ((f.probe table).chain r).Perm (f.inBucket deleted r) := by
  have hlt : f.bucketBase r < table.nbuckets := by
    rw [nbuckets_insertAll hopen]
    exact bucket_lt hn (f.hashBase r)
  have hchain : (f.probe table).chain r = table.chain (f.bucketBase r) :=
    (left_placeIterator table createIterator hlt).1
  rw [hchain]
  exact chain_insertAll hopen _

theorem filterMap_onPair (table : Table D) (r : R) (left : List D) :
    left.filterMap ((f.probe table).onPair · r) =
      List.replicate (left.filter fun d => !f.isMatch d r).length r := by
  induction left with
  | nil => rfl
  | cons d left ih =>
    by_cases hd : f.isMatch d r = true
    · have hrest : (d :: left).filterMap ((f.probe table).onPair · r) =
          left.filterMap ((f.probe table).onPair · r) := filterMap_cons_none (if_pos hd)
      rw [hrest, ih, filter_cons_of_neg (by simpa using hd)]
    · have hrest : (d :: left).filterMap ((f.probe table).onPair · r) =
          r :: left.filterMap ((f.probe table).onPair · r) := filterMap_cons_some (if_neg hd)
      rw [hrest, ih, filter_cons_of_pos (by simpa using hd)]
      rfl

/-- **A base tuple is written `copies` times.** -/
theorem output_eq (hn : f.bucketNum ≠ 0) (hopen : f.openFilter deleted = .ok table) (r : R) :
    output (f.probe table) r = List.replicate (f.copies deleted r) r := by
  have hperm := chain_perm hn hopen r
  rw [output, tupleOutput, Filter.copies]
  by_cases hnil : (f.probe table).chain r = []
  · have hbucket : f.inBucket deleted r = [] := by
      rw [hnil] at hperm
      exact List.nil_perm.mp hperm
    rw [if_pos hnil, if_pos hbucket]
    rfl
  · have hbucket : f.inBucket deleted r ≠ [] := by
      intro hempty
      rw [hempty] at hperm
      exact hnil (List.perm_nil.mp hperm)
    rw [if_neg hnil, if_neg hbucket, filterMap_onPair, (hperm.filter _).length_eq]

/-! ### The anti-join -/

theorem count_flatMap_replicate [DecidableEq R] (c : R → ℕ) (a : R) (rs : List R) :
    (rs.flatMap fun r => List.replicate (c r) r).count a = rs.count a * c a := by
  induction rs with
  | nil => simp
  | cons r rs ih =>
    rw [flatMap_cons, count_append, ih, count_replicate, count_cons]
    by_cases h : r = a
    · subst h
      simp [Nat.add_mul, Nat.add_comm]
    · simp [h]

theorem filter_eq_flatMap (p : R → Bool) (rs : List R) :
    rs.filter p = rs.flatMap fun r => List.replicate (if p r then 1 else 0) r := by
  induction rs with
  | nil => rfl
  | cons r rs ih =>
    rw [flatMap_cons, ← ih]
    by_cases hp : p r = true
    · rw [filter_cons_of_pos hp, if_pos hp]
      rfl
    · rw [filter_cons_of_neg hp, if_neg hp]
      rfl

theorem perm_flatMap_replicate_iff {c c' : R → ℕ} {rs : List R} :
    (rs.flatMap fun r => List.replicate (c r) r).Perm (rs.flatMap fun r => List.replicate (c' r) r) ↔
      ∀ r ∈ rs, c r = c' r := by
  classical
  constructor
  · intro h r hr
    have hcount := h.count_eq r
    rw [count_flatMap_replicate, count_flatMap_replicate] at hcount
    exact Nat.eq_of_mul_eq_mul_left (List.count_pos_iff.mpr hr) hcount
  · intro h
    refine .of_eq (flatMap_congr fun r hr => ?_)
    rw [h r hr]

/-- `Open` succeeds, `Next` ends, and the base tuples that are not deleted are returned once. -/
def AntiJoin (f : Filter D R) (deleted : List D) (base : List (List R)) (capacity : ℕ) : Prop :=
  ∃ table, f.openFilter deleted = .ok table ∧
    (∃ blocks, Returns (f.probe table) capacity (start base) blocks) ∧
    ∀ blocks, Returns (f.probe table) capacity (start base) blocks →
      blocks.flatten.Perm (base.flatten.filter fun r => !f.isDeleted deleted r)

/-- A deleted tuple meets only its own key; another one meets at most one deleted tuple. -/
def Decides (f : Filter D R) (deleted : List D) (r : R) : Prop :=
  (f.isDeleted deleted r = true →
    f.inBucket deleted r ≠ [] ∧ ∀ d ∈ f.inBucket deleted r, f.isMatch d r = true) ∧
  (f.isDeleted deleted r = false → (f.inBucket deleted r).length ≤ 1)

instance (f : Filter D R) (deleted : List D) (r : R) : Decidable (Decides f deleted r) :=
  inferInstanceAs (Decidable (_ ∧ _))

theorem copies_eq_iff :
    f.copies deleted r = (if !f.isDeleted deleted r then 1 else 0) ↔ Decides f deleted r := by
  rw [Filter.copies, Decides]
  cases hdel : f.isDeleted deleted r with
  | true =>
    by_cases hnil : f.inBucket deleted r = []
    · simp [hnil]
    · simp [hnil]
  | false =>
    by_cases hnil : f.inBucket deleted r = []
    · simp [hnil]
    · have hall : (f.inBucket deleted r).filter (fun d => !f.isMatch d r) =
          f.inBucket deleted r :=
        List.filter_eq_self.mpr fun d hd => by simp [List.any_eq_false.mp hdel d (mem_of_mem_filter hd)]
      have hpos := List.length_pos_iff.mpr hnil
      rw [if_neg hnil, hall]
      simp only [Bool.not_false, if_true, Bool.false_eq_true, false_imp_iff, true_and,
        true_imp_iff]
      omega

/-- **The delete filter** is an anti-join if and only if the bucket of every base tuple decides
about it. -/
theorem anti_join_iff (f : Filter D R) (deleted : List D) (base : List (List R)) (capacity : ℕ)
    (hn : f.bucketNum ≠ 0) (hcapacity : 0 < capacity) :
    AntiJoin f deleted base capacity ↔ ∀ r ∈ base.flatten, Decides f deleted r := by
  obtain ⟨table, hopen⟩ : ∃ table, f.openFilter deleted = .ok table :=
    insertAll_ok fun d _ => bucket_lt hn (f.hashDeleted d)
  have hpending : pending (f.probe table) (start base) =
      base.flatten.flatMap fun r => List.replicate (f.copies deleted r) r := by
    have hout : output (f.probe table) = fun r => List.replicate (f.copies deleted r) r :=
      funext (output_eq hn hopen)
    rw [pending, hout]
    rfl
  have hperm : (base.flatten.flatMap fun r => List.replicate (f.copies deleted r) r).Perm
      (base.flatten.filter fun r => !f.isDeleted deleted r) ↔
        ∀ r ∈ base.flatten, Decides f deleted r := by
    rw [filter_eq_flatMap, perm_flatMap_replicate_iff]
    exact forall₂_congr fun r _ => copies_eq_iff
  rw [← hperm]
  constructor
  · rintro ⟨table', hopen', ⟨blocks, hblocks⟩, hall⟩
    obtain rfl : table = table' := Except.ok.inj (hopen.symm.trans hopen')
    have hflatten := flatten_of_returns hcapacity hblocks
    rw [← hpending, ← hflatten]
    exact hall blocks hblocks
  · intro h
    refine ⟨table, hopen, exists_returns hcapacity _, fun blocks hblocks => ?_⟩
    rw [flatten_of_returns hcapacity hblocks, hpending]
    exact h

def equalNumbers (bucketNum : UInt32) : Filter ℕ ℕ := ⟨id, id, [fun d r => d = r], bucketNum, 3⟩

theorem anti_join_of_numbers : AntiJoin (equalNumbers 4) [1, 2, 1] [[1, 4], [], [2, 3]] 1 :=
  (anti_join_iff (equalNumbers 4) [1, 2, 1] [[1, 4], [], [2, 3]] 1 (by decide) (by decide)).mpr
    (by decide)

/-- A base tuple is returned because of the other one in its bucket, and one twice. -/
theorem collisions :
    (∃ table, (equalNumbers 4).openFilter [1, 5] = .ok table ∧
      Returns ((equalNumbers 4).probe table) 2 (start [[1, 9], [2]]) [[1, 9], [9, 2]]) ∧
      ([1, 9, 2].filter fun r => !(equalNumbers 4).isDeleted [1, 5] r) = [9, 2] :=
  ⟨⟨_, rfl, .block rfl (.block rfl (.done rfl))⟩, rfl⟩

end DeleteFilter
