/-
From tuples to the blocks of the partition files.  A job collects its sub-tuples in one block for
each partition; full blocks are appended to the files and counted, and at the end the others.
-/
import ClaimsDB.Faults

namespace Loader

variable {α β : Type}

/-- A projection of a table whose tuples are of type `α`. -/
structure Projection (α : Type) where
  getSubTuple : α → α
  /-- `getPartitionValue` of the partition key of a sub-tuple; a `NULL` DATE, which has none, is left
  out -/
  partitionOf : α → ℕ
  numberOfPartitions : ℕ
  capacity : ℕ
  partitionOf_lt : ∀ t, partitionOf t < numberOfPartitions

abbrev PerPartition (β : Type) := ℕ → ℕ → β

def put (f : PerPartition β) (i j : ℕ) (v : β) : PerPartition β :=
  fun i' j' => if i' = i ∧ j' = j then v else f i' j'

@[simp] theorem put_same (f : PerPartition β) (i j : ℕ) (v : β) : put f i j v i j = v :=
  if_pos ⟨rfl, rfl⟩

theorem put_of_ne (f : PerPartition β) {i j i' j' : ℕ} (v : β) (h : ¬(i' = i ∧ j' = j)) :
    put f i j v i' j' = f i' j' := if_neg h

structure Job (α : Type) where
  files : PerPartition (List (List α))
  counted : PerPartition ℕ
  /-- `pj_buffer`: the tuples of the block that is being filled -/
  buffer : PerPartition (List α)

namespace Job

/-- `connector_.AtomicFlush` of the block of a partition; a write can fail. -/
def atomicFlush (written : Bool) (i j : ℕ) (s : Job α) : Job α :=
  if written then { s with files := put s.files i j (s.files i j ++ [s.buffer i j]) } else s

def countAndEmpty (i j : ℕ) (s : Job α) : Job α :=
  { s with counted := put s.counted i j (s.counted i j + 1), buffer := put s.buffer i j [] }

/-- A full block is appended to its file.  Writing to a file is taken to succeed. -/
def flush (i j : ℕ) (s : Job α) : Job α := countAndEmpty i j (atomicFlush true i j s)

def copyTuple (p : Projection α) (i j : ℕ) (sub : α) (s : Job α) : Run (Job α) :=
  if (s.buffer i j).length < p.capacity then
    .ok { s with buffer := put s.buffer i j (s.buffer i j ++ [sub]) }
  else .error .nullDeref

/-- `DataInjector::InsertTupleIntoProjection`: a full block is written out first. -/
def insertTupleIntoProjection (i : ℕ) (p : Projection α) (t : α) (s : Job α) : Run (Job α) :=
  let sub := p.getSubTuple t
  let part := p.partitionOf sub
  copyTuple p i part sub (if (s.buffer i part).length < p.capacity then s else flush i part s)

/-- `DataInjector::InsertSingleTuple`, from projection `i` on. -/
def insertSingleTuple : ℕ → List (Projection α) → α → Job α → Run (Job α)
  | _, [], _, s => .ok s
  | i, p :: ps, t, s => do
    let s ← insertTupleIntoProjection i p t s
    insertSingleTuple (i + 1) ps t s

/-- The loop of `FlushNotFullBlock` over the partitions of one projection. -/
def flushPartitions (i : ℕ) : ℕ → Job α → Job α
  | 0, s => s
  | j + 1, s =>
    let s := flushPartitions i j s
    if s.buffer i j = [] then s else flush i j s

/-- `DataInjector::FlushNotFullBlock`, from projection `i` on. -/
def flushNotFullBlock : ℕ → List (Projection α) → Job α → Job α
  | _, [], s => s
  | i, p :: ps, s => flushNotFullBlock (i + 1) ps (flushPartitions i p.numberOfPartitions s)

def insertAll (ps : List (Projection α)) (ts : List α) (s : Job α) : Run (Job α) := do
  let s ← ts.foldlM (fun s t => insertSingleTuple 0 ps t s) s
  return flushNotFullBlock 0 ps s

/-! ### What a partition contains -/

def contents (s : Job α) (i j : ℕ) : List α := (s.files i j).flatten ++ s.buffer i j

def Counts (n : PerPartition ℕ) (s : Job α) : Prop :=
  ∀ i j, s.counted i j = n i j + (s.files i j).length

theorem contents_flush (i j : ℕ) (s : Job α) : contents (flush i j s) = contents s := by
  funext i' j'
  simp only [contents, flush, countAndEmpty, atomicFlush, if_true]
  by_cases h : i' = i ∧ j' = j
  · obtain ⟨rfl, rfl⟩ := h
    simp
  · rw [put_of_ne _ _ h, put_of_ne _ _ h]

variable {n : PerPartition ℕ} {s : Job α} {p : Projection α} {i : ℕ} {t : α}

theorem counts_flush (i j : ℕ) (h : Counts n s) : Counts n (flush i j s) := by
  intro i' j'
  have hij := h i' j'
  simp only [flush, countAndEmpty, atomicFlush, if_true]
  by_cases hp : i' = i ∧ j' = j
  · obtain ⟨rfl, rfl⟩ := hp
    rw [put_same, put_same, List.length_append, hij]
    rfl
  · rw [put_of_ne _ _ hp, put_of_ne _ _ hp, hij]

def share (p : Projection α) (j : ℕ) (ts : List α) : List α :=
  (ts.map p.getSubTuple).filter fun sub => p.partitionOf sub = j

theorem share_append (p : Projection α) (j : ℕ) (ts us : List α) :
    share p j (ts ++ us) = share p j ts ++ share p j us := by
  rw [share, List.map_append, List.filter_append]
  rfl

theorem insertTupleIntoProjection_ok (i : ℕ) (hp : 0 < p.capacity) (t : α) (s : Job α) :
    ∃ s', insertTupleIntoProjection i p t s = .ok s' := by
  rw [insertTupleIntoProjection, copyTuple]
  by_cases h : (s.buffer i (p.partitionOf (p.getSubTuple t))).length < p.capacity
  · simp only [if_pos h]
    exact ⟨_, rfl⟩
  · simp only [if_neg h]
    rw [if_pos (by simpa [flush, countAndEmpty] using hp)]
    exact ⟨_, rfl⟩

theorem contents_insertTupleIntoProjection {s' : Job α}
    (h : insertTupleIntoProjection i p t s = .ok s') :
    (∀ j, contents s' i j = contents s i j ++ share p j [t]) ∧
    (∀ i' j, i' ≠ i → contents s' i' j = contents s i' j) ∧
    (∀ n, Counts n s → Counts n s') := by
  set part := p.partitionOf (p.getSubTuple t) with hpart
  -- after the flush, if any, a job with the same contents and the same counts
  obtain ⟨s₁, hs₁, hc, hn⟩ : ∃ s₁, copyTuple p i part (p.getSubTuple t) s₁ = .ok s' ∧
      contents s₁ = contents s ∧ ∀ n, Counts n s → Counts n s₁ := by
    refine ⟨_, h, ?_, ?_⟩
    · split
      · rfl
      · exact contents_flush _ _ _
    · intro n hn
      split
      · exact hn
      · exact counts_flush _ _ hn
  rw [copyTuple] at hs₁
  split at hs₁
  · cases hs₁
    refine ⟨?_, ?_, fun n h => hn n h⟩
    · intro j
      rw [← hc]
      simp only [contents, share, List.map_cons, List.map_nil]
      by_cases hj : j = part
      · subst hj
        simp [hpart]
      · rw [put_of_ne _ _ (by simp [hj]), List.filter_cons_of_neg (by simpa [hpart] using Ne.symm hj)]
        simp
    · intro i' j hi
      rw [← hc]
      simp only [contents]
      rw [put_of_ne _ _ (by simp [hi])]
  · cases hs₁

theorem insertSingleTuple_spec :
    ∀ {ps : List (Projection α)} {i : ℕ} {s : Job α}, (∀ p ∈ ps, 0 < p.capacity) →
      ∃ s', insertSingleTuple i ps t s = .ok s' ∧
        (∀ k p, ps[k]? = some p → ∀ j, contents s' (i + k) j = contents s (i + k) j ++ share p j [t]) ∧
        (∀ i' j, i' < i → contents s' i' j = contents s i' j) ∧ (Counts n s → Counts n s') := by
  intro ps
  induction ps with
  | nil =>
    intro i s _
    exact ⟨s, rfl, by simp, fun _ _ _ => rfl, id⟩
  | cons p ps ih =>
    intro i s hcap
    obtain ⟨s₁, hs₁⟩ := insertTupleIntoProjection_ok i (hcap p List.mem_cons_self) t s
    obtain ⟨hself, hother, hn⟩ := contents_insertTupleIntoProjection hs₁
    obtain ⟨s', hs', hps, hbefore, hn'⟩ := ih (i := i + 1) (s := s₁)
      fun q hq => hcap q (List.mem_cons_of_mem _ hq)
    refine ⟨s', ?_, ?_, ?_, fun h => hn' (hn n h)⟩
    · rw [insertSingleTuple, hs₁, Run.bind_ok, hs']
    · intro k q hk j
      cases k with
      | zero =>
        obtain rfl : p = q := by simpa using hk
        rw [Nat.add_zero, hbefore i j (Nat.lt_succ_self i), hself j]
      | succ k =>
        have hq : ps[k]? = some q := by simpa using hk
        have hk' := hps k q hq j
        rw [Nat.add_right_comm, Nat.add_assoc] at hk'
        rw [hk', hother _ j (by omega)]
    · intro i' j hi
      rw [hbefore i' j (by omega), hother i' j (by omega)]

theorem flushPartitions_spec (s : Job α) : ∀ k,
    contents (flushPartitions i k s) = contents s ∧
      (∀ j, j < k → (flushPartitions i k s).buffer i j = []) ∧
      (∀ i' j, i' ≠ i → (flushPartitions i k s).buffer i' j = s.buffer i' j) ∧
      (Counts n s → Counts n (flushPartitions i k s)) := by
  intro k
  induction k with
  | zero => exact ⟨rfl, fun j hj => absurd hj (Nat.not_lt_zero j), fun _ _ _ => rfl, id⟩
  | succ k ih =>
    obtain ⟨hc, he, ho, hn⟩ := ih
    rw [flushPartitions]
    by_cases hk : (flushPartitions i k s).buffer i k = []
    · rw [if_pos hk]
      refine ⟨hc, fun j hj => ?_, ho, hn⟩
      rcases Nat.lt_succ_iff_lt_or_eq.mp hj with hj | rfl
      · exact he j hj
      · exact hk
    · rw [if_neg hk]
      refine ⟨(contents_flush _ _ _).trans hc, fun j hj => ?_, fun i' j hi => ?_,
        fun h => counts_flush _ _ (hn h)⟩
      · simp only [flush, countAndEmpty, atomicFlush, if_true]
        rcases Nat.lt_succ_iff_lt_or_eq.mp hj with hj | rfl
        · rw [put_of_ne _ _ (by omega), he j hj]
        · rw [put_same]
      · simp only [flush, countAndEmpty, atomicFlush, if_true]
        rw [put_of_ne _ _ (by simp [hi]), ho i' j hi]

theorem flushNotFullBlock_spec :
    ∀ (ps : List (Projection α)) (i : ℕ) (s : Job α),
      contents (flushNotFullBlock i ps s) = contents s ∧
      (∀ k p, ps[k]? = some p → ∀ j, j < p.numberOfPartitions →
        (flushNotFullBlock i ps s).buffer (i + k) j = []) ∧
      (∀ i' j, i' < i → (flushNotFullBlock i ps s).buffer i' j = s.buffer i' j) ∧
      (Counts n s → Counts n (flushNotFullBlock i ps s)) := by
  intro ps
  induction ps with
  | nil =>
    intro i s
    exact ⟨rfl, by simp, fun _ _ _ => rfl, id⟩
  | cons p ps ih =>
    intro i s
    obtain ⟨hc, he, ho, hn⟩ := flushPartitions_spec (i := i) (n := n) s p.numberOfPartitions
    obtain ⟨hc', he', ho', hn'⟩ := ih (i + 1) (flushPartitions i p.numberOfPartitions s)
    rw [flushNotFullBlock]
    refine ⟨hc'.trans hc, ?_, ?_, fun h => hn' (hn h)⟩
    · intro k q hk j hj
      cases k with
      | zero =>
        obtain rfl : p = q := by simpa using hk
        exact (ho' i j (Nat.lt_succ_self i)).trans (he j hj)
      | succ k =>
        have hk' := he' k q (by simpa using hk) j hj
        rwa [Nat.add_right_comm, Nat.add_assoc] at hk'
    · intro i' j hi
      rw [ho' i' j (by omega), ho i' j (by omega)]

/-- **The files after a job** have the sub-tuples of their partitions, in order. -/
theorem insertAll_spec {ps : List (Projection α)} (hcap : ∀ p ∈ ps, 0 < p.capacity) (ts : List α)
    (hempty : ∀ i j, s.buffer i j = []) :
    ∃ s', insertAll ps ts s = .ok s' ∧ (Counts n s → Counts n s') ∧ ∀ i p, ps[i]? = some p →
      ∀ j, j < p.numberOfPartitions →
        (s'.files i j).flatten = (s.files i j).flatten ++ share p j ts := by
  obtain ⟨s₁, hs₁, hn₁, hts⟩ := Run.foldlM_inv (f := fun s t => insertSingleTuple 0 ps t s)
    (I := fun done s₁ => (Counts n s → Counts n s₁) ∧ ∀ i p, ps[i]? = some p → ∀ j,
      contents s₁ i j = contents s i j ++ share p j done) ts
    (s := s) ⟨id, fun i p _ j => by simp [share]⟩ (by
      rintro done t rest s₁ - ⟨hn₁, hdone⟩
      obtain ⟨s₂, hs₂, hself, -, hn₂⟩ := insertSingleTuple_spec (t := t) (n := n) (i := 0)
        (s := s₁) hcap
      refine ⟨s₂, hs₂, fun h => hn₂ (hn₁ h), fun i p hi j => ?_⟩
      have hk := hself i p hi j
      rw [Nat.zero_add] at hk
      rw [hk, hdone i p hi j, share_append, List.append_assoc])
  obtain ⟨hc, he, -, hn₂⟩ := flushNotFullBlock_spec (n := n) ps 0 s₁
  refine ⟨flushNotFullBlock 0 ps s₁, ?_, fun h => hn₂ (hn₁ h), fun i p hi j hj => ?_⟩
  · rw [insertAll, hs₁, Run.bind_ok, Run.pure_eq_ok]
  · have hcontents := (congrFun (congrFun hc i) j).trans (hts i p hi j)
    have hbuf := he i p hi j hj
    rw [Nat.zero_add] at hbuf
    rw [contents, contents, hbuf, hempty, List.append_nil, List.append_nil] at hcontents
    exact hcontents

end Job

end Loader
