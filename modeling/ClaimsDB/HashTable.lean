/-
The hash table of the operators.  A bucket is a chain of pages, the newest first; an iterator
stands on a tuple of a page and knows the pages behind it.
-/
import ClaimsDB.Faults

namespace HashTable

open List

variable {T : Type}

/-- `BasicHashTable`; `capacity` is the number of tuples that a page has room for. -/
structure Table (T : Type) where
  nbuckets : ℕ
  capacity : ℕ
  bucket : ℕ → List (List T)
  page_ne_nil : ∀ b, ∀ page ∈ bucket b, page ≠ []

def Table.new (nbuckets capacity : ℕ) : Table T := ⟨nbuckets, capacity, fun _ => [], by simp⟩

/-- The pages of a bucket once `allocate` has found a place for a tuple. -/
def allocate (capacity : ℕ) (tuple : T) : List (List T) → List (List T)
  | [] => [[tuple]]
  | page :: pages =>
    if page.length < capacity then (page ++ [tuple]) :: pages else [tuple] :: page :: pages

theorem allocate_ne_nil (capacity : ℕ) (tuple : T) {pages : List (List T)}
    (h : ∀ page ∈ pages, page ≠ []) : ∀ page ∈ allocate capacity tuple pages, page ≠ [] := by
  cases pages with
  | nil => simp [allocate]
  | cons page pages =>
    rw [allocate]
    split
    · intro p hp
      rcases List.mem_cons.1 hp with rfl | hp
      · simp
      · exact h p (mem_cons_of_mem _ hp)
    · intro p hp
      rcases List.mem_cons.1 hp with rfl | hp
      · simp
      · exact h p hp

/-- `atomicAllocate`, with the tuple copied to the place. -/
def Table.atomicAllocate (table : Table T) (offset : ℕ) (tuple : T) : Run (Table T) :=
  if offset < table.nbuckets then
    .ok { table with
      bucket := Function.update table.bucket offset
        (allocate table.capacity tuple (table.bucket offset))
      page_ne_nil := by
        intro b
        by_cases hb : b = offset
        · subst hb
          rw [Function.update_self]
          exact allocate_ne_nil _ _ (table.page_ne_nil b)
        · rw [Function.update_of_ne hb]
          exact table.page_ne_nil b }
  else .error .outOfBounds

def Table.chain (table : Table T) (b : ℕ) : List T := (table.bucket b).flatten

theorem flatten_allocate_perm (capacity : ℕ) (tuple : T) (pages : List (List T)) :
    (allocate capacity tuple pages).flatten.Perm (tuple :: pages.flatten) := by
  cases pages with
  | nil => exact .refl _
  | cons page pages =>
    rw [allocate]
    split
    · rw [flatten_cons, flatten_cons, append_assoc]
      exact perm_middle
    · exact .refl _

variable {table table' : Table T} {offset : T → ℕ} {tuples : List T}

/-- **A tuple is added to its bucket.** -/
theorem chain_atomicAllocate {offset : ℕ} {tuple : T}
    (h : table.atomicAllocate offset tuple = .ok table') :
    table'.nbuckets = table.nbuckets ∧
      ∀ b, (table'.chain b).Perm (if b = offset then tuple :: table.chain b else table.chain b) := by
  unfold Table.atomicAllocate at h
  split at h
  · cases h
    refine ⟨rfl, fun b => ?_⟩
    simp only [Table.chain]
    split_ifs with hb
    · subst hb
      rw [Function.update_self]
      exact flatten_allocate_perm _ _ _
    · rw [Function.update_of_ne hb]
  · cases h

/-- The tuples are put into the buckets that `offset` gives, one after the other. -/
def Table.insertAll (offset : T → ℕ) (tuples : List T) (table : Table T) : Run (Table T) :=
  tuples.foldlM (fun table tuple => table.atomicAllocate (offset tuple) tuple) table

/-- **Every bucket receives its tuples.** -/
theorem chain_insertAll (h : table.insertAll offset tuples = .ok table') (b : ℕ) :
    (table'.chain b).Perm (table.chain b ++ tuples.filter fun tuple => offset tuple = b) := by
  induction tuples generalizing table with
  | nil =>
    cases h
    simp
  | cons tuple tuples ih =>
    rw [Table.insertAll, foldlM_cons] at h
    obtain ⟨next, hnext, h⟩ := Run.bind_eq_ok h
    obtain ⟨-, hchain⟩ := chain_atomicAllocate hnext
    refine (ih h).trans (((hchain b).append_right _).trans ?_)
    by_cases hb : offset tuple = b
    · rw [if_pos hb.symm, filter_cons_of_pos (by simpa using hb)]
      exact List.perm_middle.symm
    · rw [if_neg (Ne.symm hb), filter_cons_of_neg (by simpa using hb)]

theorem nbuckets_insertAll (h : table.insertAll offset tuples = .ok table') :
    table'.nbuckets = table.nbuckets := by
  induction tuples generalizing table with
  | nil =>
    cases h
    rfl
  | cons tuple tuples ih =>
    rw [Table.insertAll, foldlM_cons] at h
    obtain ⟨next, hnext, h⟩ := Run.bind_eq_ok h
    exact (ih h).trans (chain_atomicAllocate hnext).1

theorem insertAll_ok (h : ∀ tuple ∈ tuples, offset tuple < table.nbuckets) :
    ∃ table', table.insertAll offset tuples = .ok table' := by
  induction tuples generalizing table with
  | nil => exact ⟨table, rfl⟩
  | cons tuple tuples ih =>
    have hlt := h tuple mem_cons_self
    obtain ⟨next, hnext⟩ : ∃ next, table.atomicAllocate (offset tuple) tuple = .ok next :=
      ⟨_, if_pos hlt⟩
    obtain ⟨hsame, -⟩ := chain_atomicAllocate hnext
    have hrest : ∀ t ∈ tuples, offset t < next.nbuckets := by
      intro t ht
      rw [hsame]
      exact h t (mem_cons_of_mem _ ht)
    obtain ⟨table', htable'⟩ := ih hrest
    refine ⟨table', ?_⟩
    rw [Table.insertAll, foldlM_cons, hnext]
    exact htable'

/-! ### Iterators -/

/-- `BasicHashTable::Iterator`: the tuples from `cur` to `free`, and the pages from `next` on. -/
structure Iterator (T : Type) where
  page : List T
  next : List (List T)

def createIterator : Iterator T := ⟨[], []⟩

def Table.placeIterator (table : Table T) (it : Iterator T) (offset : ℕ) : Iterator T :=
  if table.nbuckets ≤ offset then it
  else
    match table.bucket offset with
    | [] => ⟨[], []⟩
    | page :: pages => ⟨page, pages⟩

namespace Iterator

def readCurrent (it : Iterator T) : Option T := it.page.head?

def increaseCur (it : Iterator T) : Iterator T :=
  match it.page with
  | _ :: tuple :: page => { it with page := tuple :: page }
  | _ =>
    match it.next with
    | page :: pages => ⟨page, pages⟩
    | [] => ⟨[], []⟩

def left (it : Iterator T) : List T := it.page ++ it.next.flatten

/-- An iterator that is at its end has no pages behind it. -/
structure Valid (it : Iterator T) : Prop where
  page : it.page = [] → it.next = []
  next : ∀ page ∈ it.next, page ≠ []

variable {it : Iterator T}

theorem readCurrent_eq (h : it.Valid) : it.readCurrent = it.left.head? := by
  obtain ⟨page, next⟩ := it
  cases page with
  | nil =>
    have hnext : next = [] := h.page rfl
    subst hnext
    rfl
  | cons tuple page => rfl

/-- **An iterator goes on to the next tuple.** -/
theorem left_increaseCur (h : it.Valid) :
    it.increaseCur.left = it.left.tail ∧ it.increaseCur.Valid := by
  obtain ⟨page, next⟩ := it
  -- the current page has more tuples, or the next one, if there is one, is begun
  match page, next with
  | [], [] => exact ⟨rfl, fun _ => rfl, by simp [increaseCur]⟩
  | [], _ :: _ => cases h.page rfl
  | [_], [] => exact ⟨rfl, fun _ => rfl, by simp [increaseCur]⟩
  | [_], page :: pages =>
    refine ⟨rfl, fun hnil => ?_, fun p hp => h.next p (mem_cons_of_mem _ hp)⟩
    exact absurd hnil (h.next page mem_cons_self)
  | _ :: tuple :: page, next => exact ⟨rfl, fun hnil => absurd hnil (cons_ne_nil _ _), h.next⟩

end Iterator

/-- **An iterator that is placed on a bucket has its tuples before it.** -/
theorem left_placeIterator (table : Table T) (it : Iterator T) {offset : ℕ}
    (h : offset < table.nbuckets) :
    (table.placeIterator it offset).left = table.chain offset ∧
      (table.placeIterator it offset).Valid := by
  have hpages := table.page_ne_nil offset
  unfold Table.placeIterator Table.chain
  rw [if_neg (Nat.not_le.2 h)]
  cases hbucket : table.bucket offset with
  | nil => exact ⟨rfl, fun _ => rfl, by simp⟩
  | cons page pages =>
    rw [hbucket] at hpages
    refine ⟨rfl, fun hnil => ?_, fun p hp => hpages p (mem_cons_of_mem _ hp)⟩
    exact absurd hnil (hpages page mem_cons_self)

/-- **A bucket is read tuple by tuple**, and after the last one nothing is read. -/
theorem bucket_read (table : Table T) (it : Iterator T) (b : Fin table.nbuckets) (i : ℕ) :
    (Iterator.increaseCur^[i] (table.placeIterator it b)).readCurrent = (table.chain b)[i]? := by
  obtain ⟨hleft, hvalid⟩ := left_placeIterator table it b.isLt
  rw [← hleft]
  generalize table.placeIterator it b = it at hvalid ⊢
  induction i generalizing it with
  | zero => rw [Function.iterate_zero_apply, Iterator.readCurrent_eq hvalid, head?_eq_getElem?]
  | succ i ih =>
    obtain ⟨hnext, hvalid⟩ := Iterator.left_increaseCur hvalid
    rw [Function.iterate_succ_apply, ih _ hvalid, hnext, getElem?_tail]

end HashTable
