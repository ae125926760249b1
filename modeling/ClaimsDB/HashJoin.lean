/-
The hash join: `Open` puts the left tuples into a hash table, and `Next` compares each right tuple
with its bucket.
-/
import ClaimsDB.HashTable
import ClaimsDB.Probing

namespace HashJoin

open HashTable Probing

variable {L R : Type}

/-- Hashes of the join keys, the conditions, the numbers of buckets and of tuples per page.  Every key
is taken to have a hash; a DATE that is `NULL` has none. -/
structure Join (L R : Type) where
  hashLeft : L → ℕ
  hashRight : R → ℕ
  joinCondi : List (L → R → Bool)
  bucketNum : UInt32
  pageCapacity : ℕ

def isPowerOfTwo (n : UInt32) : Bool := n &&& (n - 1) = 0

def bucketNumMod (n : UInt32) : UInt32 := if isPowerOfTwo n then n - 1 else n

/-- The function of `partition_value_` for the number of buckets. -/
def gpv (n : UInt32) (hash : ℕ) : ℕ :=
  if isPowerOfTwo n then (hash &&& (bucketNumMod n).toNat) % 2 ^ 32
  else hash % (bucketNumMod n).toNat % 2 ^ 32

def joinCondiProcess (j : Join L R) (l : L) (r : R) : Bool := j.joinCondi.all fun c => c l r

/-- `Open`: the tuples of the left child in the order in which places are allocated for them. -/
def openJoin (j : Join L R) (left : List L) : Run (Table L) :=
  (Table.new j.bucketNum.toNat j.pageCapacity).insertAll (fun l => gpv j.bucketNum (j.hashLeft l)) left

/-- `Next` compares a right tuple with the tuples of its bucket. -/
def probe (j : Join L R) (table : Table L) : Probe L R (L × R) where
  chain r := (table.placeIterator createIterator (gpv j.bucketNum (j.hashRight r))).left
  onPair l r := if joinCondiProcess j l r then some (l, r) else none
  onEmpty _ := none

def start (right : List (List R)) : State L R := ⟨right, [], []⟩

def pairs (j : Join L R) (left : List L) (right : List R) : List (L × R) :=
  right.flatMap fun r => (left.filter fun l => joinCondiProcess j l r).map fun l => (l, r)

theorem gpv_lt {n : UInt32} (hn : n ≠ 0) (hash : ℕ) : gpv n hash < n.toNat := by
  have hpos : 0 < n.toNat := by
    rw [Nat.pos_iff_ne_zero]
    exact fun h => hn (UInt32.toNat_inj.1 h)
  unfold gpv bucketNumMod
  split
  · have hsub : (n - 1).toNat = n.toNat - 1 := by
      have hle : (1 : UInt32) ≤ n := UInt32.le_iff_toNat_le.2 hpos
      rw [UInt32.toNat_sub_of_le _ _ hle]
      rfl
    have hand : hash &&& (n - 1).toNat ≤ (n - 1).toNat := Nat.and_le_right
    have hmod := Nat.mod_le (hash &&& (n - 1).toNat) (2 ^ 32)
    omega
  · exact lt_of_le_of_lt (Nat.mod_le _ _) (Nat.mod_lt _ hpos)

theorem chain_perm {j : Join L R} {left : List L} {table : Table L}
    (hopen : openJoin j left = .ok table) {hash : ℕ} (hn : j.bucketNum ≠ 0) :
    ((table.placeIterator createIterator (gpv j.bucketNum hash)).left).Perm
      (left.filter fun l => gpv j.bucketNum (j.hashLeft l) = gpv j.bucketNum hash) := by
  have hlt : gpv j.bucketNum hash < table.nbuckets := by
    rw [nbuckets_insertAll hopen]
    exact gpv_lt hn hash
  rw [(left_placeIterator table createIterator hlt).1]
  exact chain_insertAll hopen _

theorem output_perm {j : Join L R} {left : List L} {table : Table L} (hn : j.bucketNum ≠ 0)
    (hopen : openJoin j left = .ok table) {r : R}
    (hsame : ∀ l ∈ left, joinCondiProcess j l r = true →
      gpv j.bucketNum (j.hashLeft l) = gpv j.bucketNum (j.hashRight r)) :
    (output (probe j table) r).Perm
      ((left.filter fun l => joinCondiProcess j l r).map fun l => (l, r)) := by
  have houtput : output (probe j table) r =
      ((probe j table).chain r).filterMap ((probe j table).onPair · r) := by
    unfold output tupleOutput
    split
    · rename_i hnil
      rw [hnil]
      rfl
    · rfl
  rw [houtput]
  refine ((chain_perm hopen hn).filterMap _).trans (.of_eq ?_)
  clear hopen houtput
  -- a tuple that satisfies the conditions is in the bucket
  induction left with
  | nil => rfl
  | cons l left ih =>
    have hrest := ih fun l hl => hsame l (List.mem_cons_of_mem _ hl)
    by_cases hl : joinCondiProcess j l r = true
    · have hbucket := hsame l List.mem_cons_self hl
      rw [List.filter_cons_of_pos (by simpa using hbucket),
        List.filter_cons_of_pos (by simpa using hl), List.map_cons, ← hrest]
      exact List.filterMap_cons_some (if_pos hl)
    · have hfilter : (l :: left).filter (fun l => joinCondiProcess j l r) =
          left.filter fun l => joinCondiProcess j l r := List.filter_cons_of_neg hl
      rw [hfilter, ← hrest, List.filter_cons]
      split
      · exact List.filterMap_cons_none (if_neg hl)
      · rfl

/-- **The hash join is the join**, with buckets and room for a tuple. -/
theorem hash_join_is_join (j : Join L R) (left : List L) (right : List (List R)) (capacity : ℕ)
    (hn : j.bucketNum ≠ 0) (hcapacity : 0 < capacity)
    (hsame : ∀ l ∈ left, ∀ r ∈ right.flatten, joinCondiProcess j l r = true →
      gpv j.bucketNum (j.hashLeft l) = gpv j.bucketNum (j.hashRight r)) :
    ∃ table, openJoin j left = .ok table ∧
      (∃ blocks, Returns (probe j table) capacity (start right) blocks) ∧
      ∀ blocks, Returns (probe j table) capacity (start right) blocks →
        blocks.flatten.Perm (pairs j left right.flatten) := by
  obtain ⟨table, hopen⟩ : ∃ table, openJoin j left = .ok table :=
    insertAll_ok fun l _ => gpv_lt hn (j.hashLeft l)
  refine ⟨table, hopen, exists_returns hcapacity _, fun blocks hblocks => ?_⟩
  rw [flatten_of_returns hcapacity hblocks]
  exact List.Perm.flatMap_left _ fun r hr => output_perm hn hopen fun l hl => hsame l hl r hr

def equalNumbers (bucketNum : UInt32) : Join ℕ ℕ := ⟨id, id, [fun l r => l = r], bucketNum, 3⟩

theorem hash_join_of_numbers :
    ∃ table, openJoin (equalNumbers 2) [1, 2, 3, 1] = .ok table ∧
      (∃ blocks, Returns (probe (equalNumbers 2) table) 1 (start [[1], [], [3, 1]]) blocks) ∧
      ∀ blocks, Returns (probe (equalNumbers 2) table) 1 (start [[1], [], [3, 1]]) blocks →
        blocks.flatten.Perm [(1, 1), (1, 1), (3, 3), (1, 1), (1, 1)] :=
  hash_join_is_join (equalNumbers 2) [1, 2, 3, 1] [[1], [], [3, 1]] 1 (by decide) (by decide)
    (by decide)

/-- Without buckets a tuple has no place, and without room a call changes nothing. -/
theorem hash_join_without_room :
    openJoin (equalNumbers 0) [1] = .error .outOfBounds ∧
      ∃ table, openJoin (equalNumbers 2) [1] = .ok table ∧
        next (probe (equalNumbers 2) table) 0 (start [[1]]) = (true, [], ⟨[], [1], [1]⟩) ∧
        next (probe (equalNumbers 2) table) 0 ⟨[], [1], [1]⟩ = (true, [], ⟨[], [1], [1]⟩) :=
  ⟨rfl, _, rfl, rfl, rfl⟩

end HashJoin
