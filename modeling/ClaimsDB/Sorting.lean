/-
The sort operator.

The threads collect the tuples of the child; when all have arrived at the second barrier one of
them sorts, by one key after the other, the least important one first, with a stable sort.  The
first thread that calls `Next` gets all blocks.  Barriers release threads when all have arrived.

* **`sort_correct`** — a finished run has handed out the sorted tuples, to one thread;
* **`sorted_so_far`** — at all times a beginning of them.
-/
import ClaimsDB.Faults
import ClaimsDB.Runs

namespace Sorting

open List
open Function (update update_of_ne update_self)
open Option (mem_unique some)

variable {T : Type}

/-! ### Sorting key by key -/

/-- An attribute of `order_by_attrs_` with the comparisons of its type. -/
structure Key (T : Type) where
  less : T → T → Bool
  great : T → T → Bool
  desc : Bool
  great_eq : ∀ a b, great a b = less b a
  asymm : ∀ a b, less a b = true → less b a = false
  weak : ∀ a b c, less a c = true → less a b = true ∨ less b c = true

def Key.compare (k : Key T) (a b : T) : Bool := if k.desc then k.great a b else k.less a b

/-- A sort by `Compare` may leave `a` before `b`. -/
def Key.le (k : Key T) (a b : T) : Prop := k.compare b a = false

instance (k : Key T) : DecidableRel k.le := fun a b =>
  inferInstanceAs (Decidable (k.compare b a = false))

/-- `Order`, with the keys reversed before.  The result of `stable_sort` is that of any stable
sort. -/
def order (keys : List (Key T)) (tuples : List T) : List T :=
  keys.reverse.foldl (fun ts k => ts.insertionSort k.le) tuples

/-- In the order of the keys `a` may stand before `b`. -/
def before : List (Key T) → T → T → Bool
  | [], _, _ => true
  | k :: keys, a, b => k.compare a b || (!k.compare b a && before keys a b)

def Key.same (k : Key T) (a b : T) : Bool := !k.compare a b && !k.compare b a

def sameKeys (keys : List (Key T)) (a b : T) : Bool := keys.all fun k => k.same a b

/-- The tuples in the order of the keys, and where these are equal in the order they had. -/
structure IsSorted (keys : List (Key T)) (tuples sorted : List T) : Prop where
  perm : sorted.Perm tuples
  ordered : sorted.Pairwise fun a b => before keys a b = true
  stable : ∀ a, sorted.filter (sameKeys keys a) = tuples.filter (sameKeys keys a)

namespace Key

variable (k : Key T)

theorem compare_eq (a b : T) : k.compare a b = if k.desc then k.less b a else k.less a b := by
  rw [compare, k.great_eq]

theorem compare_asymm {a b : T} (h : k.compare a b = true) : k.compare b a = false := by
  rw [compare_eq] at h ⊢
  cases hdesc : k.desc with
  | true => exact k.asymm b a (by simpa [hdesc] using h)
  | false => exact k.asymm a b (by simpa [hdesc] using h)

theorem compare_weak {a c : T} (b : T) (h : k.compare a c = true) :
    k.compare a b = true ∨ k.compare b c = true := by
  simp only [compare_eq] at h ⊢
  cases hdesc : k.desc with
  | true => exact (k.weak c b a (by simpa [hdesc] using h)).symm
  | false => exact k.weak a b c (by simpa [hdesc] using h)

instance : IsTrans T k.le where
  trans a b c hab hbc := by
    rw [le, ← Bool.not_eq_true]
    intro hca
    rcases k.compare_weak b hca with h | h
    · exact absurd (h.symm.trans hbc) (by decide)
    · exact absurd (h.symm.trans hab) (by decide)

instance : Std.Total k.le where
  total a b := by
    cases h : k.compare b a with
    | false => exact .inl h
    | true => exact .inr (k.compare_asymm h)

theorem same_iff (a b : T) : k.same a b = true ↔ k.le b a ∧ k.le a b := by
  rw [same, Bool.and_eq_true, Bool.not_eq_true', Bool.not_eq_true']
  exact Iff.rfl

theorem same_refl (a : T) : k.same a a = true := by
  have hle : k.le a a := by
    rw [le, ← Bool.not_eq_true]
    exact fun h => absurd (h.symm.trans (k.compare_asymm h)) (by decide)
  exact (k.same_iff a a).2 ⟨hle, hle⟩

theorem filter_insertionSort (ts : List T) (a : T) :
    (ts.insertionSort k.le).filter (k.same a) = ts.filter (k.same a) := by
  have hperm := (perm_insertionSort k.le ts).filter (k.same a)
  refine (Sublist.eq_of_length ?_ hperm.length_eq.symm).symm
  have hsorted : (ts.filter (k.same a)).Pairwise k.le := by
    refine pairwise_of_forall_mem_list fun b hb c hc => ?_
    obtain ⟨hba, -⟩ := (k.same_iff a b).1 (mem_filter.1 hb).2
    obtain ⟨-, hac⟩ := (k.same_iff a c).1 (mem_filter.1 hc).2
    exact IsTrans.trans _ _ _ hba hac
  have hsub := (sublist_insertionSort hsorted filter_sublist).filter (k.same a)
  rwa [filter_filter, filter_congr fun b _ => Bool.and_self _] at hsub

end Key

theorem isSorted_insertionSort {k : Key T} {keys : List (Key T)} {tuples sorted : List T}
    (h : IsSorted keys tuples sorted) :
    IsSorted (k :: keys) tuples (sorted.insertionSort k.le) where
  perm := (perm_insertionSort _ _).trans h.perm
  ordered := by
    have hsorted := pairwise_insertionSort k.le sorted
    rw [pairwise_iff_forall_sublist] at hsorted ⊢
    intro a b hab
    have hle : k.compare b a = false := hsorted hab
    rw [before, hle]
    by_cases hlt : k.compare a b = true
    · rw [hlt, Bool.true_or]
    · -- two tuples with the same key stand as they stood before
      have hsame := (k.same_iff a b).2 ⟨Bool.eq_false_iff.2 hlt, hle⟩
      have hclass := hab.filter (k.same a)
      rw [k.filter_insertionSort, filter_cons_of_pos (k.same_refl a), filter_cons_of_pos hsame]
        at hclass
      rw [pairwise_iff_forall_sublist.1 h.ordered (hclass.trans filter_sublist)]
      simp
  stable a := by
    have hsplit : ∀ ts : List T, ts.filter (sameKeys (k :: keys) a) =
        (ts.filter (k.same a)).filter (sameKeys keys a) := fun ts => by
      rw [filter_filter]
      exact filter_congr fun b _ => by rw [sameKeys, all_cons, Bool.and_comm]; rfl
    rw [hsplit, hsplit, k.filter_insertionSort, filter_comm, h.stable, filter_comm]

/-- **Sorting key by key**, the last one first, gives the lexicographic order. -/
theorem order_isSorted (keys : List (Key T)) (tuples : List T) :
    IsSorted keys tuples (order keys tuples) := by
  induction keys with
  | nil => exact ⟨.refl _, pairwise_of_forall fun _ _ => rfl, fun _ => rfl⟩
  | cons k keys ih =>
    have horder : order (k :: keys) tuples =
        (order keys tuples).insertionSort k.le := by
      rw [order, reverse_cons, foldl_append]
      rfl
    rw [horder]
    exact isSorted_insertionSort ih

/-! ### The threads -/

/-- Where a thread is in `Open`, with its `thread_tuple`. -/
inductive Phase (T : Type)
  | loading (threadTuple : List T)
  | arrived

def Phase.tuples : Phase T → List T
  | .loading ts => ts
  | .arrived => []

@[simp] theorem Phase.tuples_loading (ts : List T) : (loading ts).tuples = ts := rfl

@[simp] theorem Phase.tuples_arrived : (arrived : Phase T).tuples = [] := rfl

def Phase.isLoading : Phase T → Bool
  | .loading _ => true
  | .arrived => false

structure State (T : Type) where
  blocks : List (List T)
  phase : ℕ → Phase T
  allTuples : List T
  /-- `all_tuples_` before it was sorted -/
  collected : Option (List T)
  allCur : ℕ
  threadId : Option ℕ
  /-- the blocks returned, with the thread that called `Next` -/
  out : List (ℕ × List T)
  /-- `Next` has returned `false` to the thread that may fetch -/
  done : Bool

def init (blocks : List (List T)) : State T :=
  ⟨blocks, fun _ => .loading [], [], none, 0, none, [], false⟩

inductive Event
  | load (t : ℕ)
  | insert (t : ℕ)
  | order
  | next (t capacity : ℕ)

/-- The loop of `Next`, with its position in the `int` `tmp_tuple`. -/
def fetch (allTuples : List T) : ℕ → ℕ → Run (List T × Bool)
  | 0, cur => .ok ([], cur < allTuples.length)
  | room + 1, cur =>
    match allTuples[cur]? with
    | none => .ok ([], false)
    | some tuple =>
      if cur < 2 ^ 31 then
        (fetch allTuples room (cur + 1)).map fun r => (tuple :: r.1, r.2)
      else .error .outOfBounds

/-- `Next` returns `true` for a full block and for one that is not empty. -/
def answer (s : State T) (t : ℕ) (tuples : List T) (full : Bool) : State T :=
  if full || !tuples.isEmpty then
    { s with threadId := some t, allCur := s.allCur + tuples.length, out := s.out ++ [(t, tuples)] }
  else { s with threadId := some t, done := true }

def emit (s : State T) (t capacity : ℕ) : Run (State T) :=
  (fetch s.allTuples capacity s.allCur).map fun r => answer s t r.1 r.2

/-- A step of one of `n` threads; there is none where it cannot take it. -/
def step (keys : List (Key T)) (n : ℕ) (s : State T) : Event → Option (Run (State T))
  | .load t =>
    match s.phase t, s.blocks with
    | .loading ts, block :: blocks =>
      if t < n then
        some (.ok { s with blocks := blocks, phase := update s.phase t (.loading (ts ++ block)) })
      else none
    | _, _ => none
  | .insert t =>
    match s.phase t, s.blocks with
    | .loading ts, [] =>
      if t < n then
        some (.ok { s with allTuples := s.allTuples ++ ts, phase := update s.phase t .arrived })
      else none
    | _, _ => none
  | .order =>
    match s.collected with
    | none =>
      -- the second barrier is passed, and one thread gets the key of the section
      if 0 < n && (range n).all fun t => !(s.phase t).isLoading then
        some (.ok { s with collected := some s.allTuples, allTuples := order keys s.allTuples })
      else none
    | some _ => none
  | .next t capacity =>
    match s.collected with
    | none => none
    | some _ =>
      match s.threadId with
      | none => some (emit s t capacity)
      | some owner => if owner = t then some (emit s t capacity) else some (.ok s)

def Step (keys : List (Key T)) (n : ℕ) (s s' : State T) : Prop :=
  ∃ e, step keys n s e = some (.ok s')

theorem fetch_eq {allTuples : List T} (h : allTuples.length ≤ 2 ^ 31) (room cur : ℕ) :
    fetch allTuples room cur =
      .ok ((allTuples.drop cur).take room, decide (cur + room < allTuples.length)) := by
  induction room generalizing cur with
  | zero => rfl
  | succ room ih =>
    rw [fetch]
    cases hcur : allTuples[cur]? with
    | none =>
      have hle := getElem?_eq_none_iff.1 hcur
      rw [drop_eq_nil_of_le hle, take_nil, decide_eq_false (by omega)]
    | some tuple =>
      obtain ⟨hlt, rfl⟩ := List.getElem?_eq_some_iff.1 hcur
      simp only
      rw [if_pos (by omega), ih, drop_eq_getElem_cons hlt, take_succ_cons,
        show cur + 1 + room = cur + (room + 1) by omega]
      rfl

/-! ### Every run -/

structure Invariant (keys : List (Key T)) (n : ℕ) (input : List T) (s : State T) : Prop where
  kept : s.collected = none → (s.allTuples : Multiset T) +
    ∑ t ∈ Finset.range n, ((s.phase t).tuples : Multiset T) + s.blocks.flatten = input
  exhausted : ∀ t < n, (s.phase t).isLoading = false → s.blocks = []
  sorted : ∀ c, s.collected = some c → c.Perm input ∧ s.allTuples = order keys c ∧
    ∀ t < n, (s.phase t).isLoading = false
  waiting : s.collected = none → s.allCur = 0 ∧ s.out = [] ∧ s.done = false
  out : (s.out.map Prod.snd).flatten = s.allTuples.take s.allCur
  owner : ∀ b ∈ s.out, s.threadId = some b.1
  done : s.done = true → s.allTuples.length ≤ s.allCur

variable {keys : List (Key T)} {n : ℕ} {input : List T} {s s' : State T}

theorem Invariant.init (blocks : List (List T)) :
    Invariant keys n blocks.flatten (init blocks) where
  kept _ := by simp [Sorting.init]
  exhausted t _ h := by cases h
  sorted c h := by cases h
  waiting _ := ⟨rfl, rfl, rfl⟩
  out := rfl
  owner b h := by cases h
  done h := by cases h

theorem Phase.tuples_of_not_loading {p : Phase T} (h : p.isLoading = false) : p.tuples = [] := by
  cases p with
  | loading ts => cases h
  | arrived => rfl

theorem sum_tuples_update {t : ℕ} (ht : t < n) (phase : ℕ → Phase T) (p : Phase T) :
    ∑ u ∈ Finset.range n, ((update phase t p u).tuples : Multiset T) + (phase t).tuples =
      ∑ u ∈ Finset.range n, ((phase u).tuples : Multiset T) + p.tuples :=
  Runs.sum_update (fun p : Phase T => (p.tuples : Multiset T)) phase ht p

section

variable (h : Invariant keys n input s)

include h

theorem Invariant.not_sorted {t : ℕ} {ts : List T} (ht : t < n)
    (hphase : s.phase t = .loading ts) : s.collected = none := by
  cases hc : s.collected with
  | none => rfl
  | some c =>
    have hloading := (h.sorted c hc).2.2 t ht
    rw [hphase] at hloading
    cases hloading

theorem Invariant.load {t : ℕ} {ts block : List T}
    {blocks : List (List T)} (ht : t < n) (hphase : s.phase t = .loading ts)
    (hblocks : s.blocks = block :: blocks) :
    Invariant keys n input
      { s with blocks := blocks, phase := update s.phase t (.loading (ts ++ block)) } := by
  have hc := h.not_sorted ht hphase
  refine ⟨fun _ => ?_, fun u hu hphase' => ?_, fun c hc' => ?_, h.waiting, h.out, h.owner, h.done⟩
  · have hsum := sum_tuples_update ht s.phase (.loading (ts ++ block))
    have hkept := h.kept hc
    rw [hphase, Phase.tuples_loading, Phase.tuples_loading, ← Multiset.coe_add] at hsum
    rw [hblocks, flatten_cons, ← Multiset.coe_add] at hkept
    have hsum' : ∑ u ∈ Finset.range n,
        ((update s.phase t (.loading (ts ++ block)) u).tuples : Multiset T) =
        ∑ u ∈ Finset.range n, ((s.phase u).tuples : Multiset T) + block := by
      refine add_right_cancel (b := (ts : Multiset T)) (hsum.trans ?_)
      abel
    refine Eq.trans ?_ hkept
    show _ + ∑ u ∈ Finset.range n, ((update s.phase t _ u).tuples : Multiset T) + _ = _
    rw [hsum']
    abel
  · -- a thread that has arrived has found the child exhausted
    change (update s.phase t _ u).isLoading = false at hphase'
    by_cases hut : u = t
    · rw [hut, update_self] at hphase'
      cases hphase'
    · rw [update_of_ne hut] at hphase'
      exact absurd ((h.exhausted u hu hphase').symm.trans hblocks) (by simp)
  · rw [hc] at hc'
    cases hc'

theorem Invariant.insert {t : ℕ} {ts : List T} (ht : t < n)
    (hphase : s.phase t = .loading ts) (hblocks : s.blocks = []) :
    Invariant keys n input
      { s with allTuples := s.allTuples ++ ts, phase := update s.phase t .arrived } := by
  have hc := h.not_sorted ht hphase
  obtain ⟨hcur, hout, hdone⟩ := h.waiting hc
  refine ⟨fun _ => ?_, fun _ _ _ => hblocks, fun c hc' => ?_, h.waiting, ?_, h.owner,
    fun hd => ?_⟩
  · have hsum := sum_tuples_update ht s.phase .arrived
    have hkept := h.kept hc
    rw [hphase, Phase.tuples_loading, Phase.tuples_arrived, Multiset.coe_nil, add_zero] at hsum
    rw [← hkept, ← hsum]
    simp only [← Multiset.coe_add]
    abel
  · rw [hc] at hc'
    cases hc'
  · rw [hcur, hout]
    rfl
  · rw [hdone] at hd
    cases hd

theorem Invariant.order (hn : 0 < n)
    (harrived : ∀ t < n, (s.phase t).isLoading = false) (hc : s.collected = none) :
    Invariant keys n input
      { s with collected := some s.allTuples, allTuples := order keys s.allTuples } := by
  obtain ⟨hcur, hout, hdone⟩ := h.waiting hc
  have hperm : s.allTuples.Perm input := by
    have hkept := h.kept hc
    have hsum : ∑ t ∈ Finset.range n, ((s.phase t).tuples : Multiset T) = 0 :=
      Finset.sum_eq_zero fun t ht => by
        rw [Phase.tuples_of_not_loading (harrived t (Finset.mem_range.1 ht)), Multiset.coe_nil]
    rw [hsum, h.exhausted 0 hn (harrived 0 hn), flatten_nil, Multiset.coe_nil, add_zero,
      add_zero] at hkept
    exact Multiset.coe_eq_coe.1 hkept
  refine ⟨fun hn => (by cases hn), h.exhausted, ?_, fun hn => (by cases hn), ?_, h.owner,
    fun hd => absurd hd (by rw [hdone]; decide)⟩
  · rintro c hc
    obtain rfl := some.inj hc
    exact ⟨hperm, rfl, harrived⟩
  · rw [hcur, hout]
    rfl

theorem Invariant.emit {t : ℕ} {c : List T}
    (hc : s.collected = some c) (hsize : s.allTuples.length ≤ 2 ^ 31) (capacity : ℕ)
    (howner : s.threadId = none ∨ s.threadId = some t) :
    ∃ s', emit s t capacity = .ok s' ∧ Invariant keys n input s' ∧
      (0 < capacity → s'.done = true ∨ s.allCur < s'.allCur) := by
  have howned : ∀ b ∈ s.out, t = b.1 := fun b hb => by
    have hb' := h.owner b hb
    rcases howner with hnone | hsome
    · rw [hnone] at hb'
      cases hb'
    · exact mem_unique hsome hb'
  have hwaiting : ∀ {P : Prop}, s.collected = none → P := fun hn => by
    rw [hc] at hn
    cases hn
  have hfetch : Sorting.emit s t capacity = .ok (answer s t
      ((s.allTuples.drop s.allCur).take capacity) (s.allCur + capacity < s.allTuples.length)) := by
    rw [Sorting.emit, fetch_eq hsize]
    rfl
  generalize hos : (s.allTuples.drop s.allCur).take capacity = os at hfetch
  have hlength : os.length = min capacity (s.allTuples.length - s.allCur) := by
    rw [← hos, length_take, length_drop]
  by_cases hmore : (decide (s.allCur + capacity < s.allTuples.length) || !os.isEmpty) = true
  · refine ⟨_, hfetch.trans (congrArg _ (if_pos hmore)), ⟨hwaiting, h.exhausted, h.sorted,
      hwaiting, ?_, fun b hb => ?_, fun hd => (h.done hd).trans (Nat.le_add_right _ _)⟩,
      fun hpos => .inr ?_⟩
    · have hprefix : os = (s.allTuples.drop s.allCur).take os.length :=
        prefix_iff_eq_take.1 (hos ▸ take_prefix _ _)
      rw [map_append, flatten_append, h.out, take_add, ← hprefix]
      simp
    · rcases mem_append.1 hb with hb | hb
      · exact congrArg some (howned b hb)
      · rw [mem_singleton.1 hb]
    · rw [Bool.or_eq_true, decide_eq_true_eq, Bool.not_eq_true', isEmpty_eq_false_iff] at hmore
      have hne : os.length ≠ 0 := by
        rcases hmore with hlt | hne
        · omega
        · exact fun hzero => hne (length_eq_zero_iff.1 hzero)
      exact Nat.lt_add_of_pos_right (Nat.pos_of_ne_zero hne)
  · refine ⟨_, hfetch.trans (congrArg _ (if_neg hmore)), ⟨hwaiting, h.exhausted, h.sorted,
      hwaiting, h.out, fun b hb => congrArg some (howned b hb), fun _ => ?_⟩, fun _ => .inl rfl⟩
    rw [Bool.or_eq_true, decide_eq_true_eq, Bool.not_eq_true', isEmpty_eq_false_iff, not_or,
      not_not] at hmore
    obtain ⟨hall, rfl⟩ := hmore
    rw [length_nil] at hlength
    show s.allTuples.length ≤ s.allCur
    omega

theorem Invariant.length_le (hsize : input.length ≤ 2 ^ 31)
    {c : List T} (hc : s.collected = some c) : s.allTuples.length ≤ 2 ^ 31 := by
  obtain ⟨hperm, hall, -⟩ := h.sorted c hc
  rw [hall, (order_isSorted keys c).perm.length_eq, hperm.length_eq]
  exact hsize

theorem Invariant.step (hsize : input.length ≤ 2 ^ 31) {e : Event}
    {r : Run (State T)} (he : step keys n s e = some r) :
    ∃ s', r = .ok s' ∧ Invariant keys n input s' := by
  cases e with
  | load t =>
    rw [Sorting.step] at he
    split at he
    · rename_i hphase hblocks
      split at he
      · rename_i ht
        exact ⟨_, (some.inj he).symm, h.load ht hphase hblocks⟩
      · cases he
    · cases he
  | insert t =>
    rw [Sorting.step] at he
    split at he
    · rename_i hphase hblocks
      split at he
      · rename_i ht
        exact ⟨_, (some.inj he).symm, h.insert ht hphase hblocks⟩
      · cases he
    · cases he
  | order =>
    rw [Sorting.step] at he
    split at he
    · rename_i hc
      split at he
      · rename_i hall
        simp only [Bool.and_eq_true, decide_eq_true_eq, all_eq_true, mem_range,
          Bool.not_eq_true'] at hall
        exact ⟨_, (some.inj he).symm, h.order hall.1 hall.2 hc⟩
      · cases he
    · cases he
  | next t capacity =>
    rw [Sorting.step] at he
    split at he
    · cases he
    · rename_i c hc
      split at he
      · rename_i hnone
        obtain ⟨s', hemit, hinv, -⟩ := h.emit hc (h.length_le hsize hc) capacity (.inl hnone)
        exact ⟨s', (some.inj he).symm.trans hemit, hinv⟩
      · rename_i owner howner
        split at he
        · rename_i heq
          obtain ⟨s', hemit, hinv, -⟩ :=
            h.emit hc (h.length_le hsize hc) capacity (.inr (heq ▸ howner))
          exact ⟨s', (some.inj he).symm.trans hemit, hinv⟩
        · exact ⟨s, (some.inj he).symm, h⟩

end

theorem invariant_of_reaches {blocks : List (List T)} (hsize : blocks.flatten.length ≤ 2 ^ 31)
    (h : Runs.Reaches (Step keys n) (init blocks) s) : Invariant keys n blocks.flatten s := by
  refine Runs.invariant (fun s s' hs hstep => ?_) h (.init blocks)
  obtain ⟨e, he⟩ := hstep
  obtain ⟨s'', hok, hinv⟩ := hs.step hsize he
  obtain rfl := Except.ok.inj hok
  exact hinv

/-- **The sort**, in every run with at most `2 ^ 31` tuples. -/
theorem sort_correct (keys : List (Key T)) (n : ℕ) (blocks : List (List T)) (s : State T)
    (hsize : blocks.flatten.length ≤ 2 ^ 31) (h : Runs.Reaches (Step keys n) (init blocks) s) :
    (∀ e fault, step keys n s e ≠ some (.error fault)) ∧
      (∀ b ∈ s.out, ∀ b' ∈ s.out, b.1 = b'.1) ∧
      (s.done = true → ∃ collected, s.collected = some collected ∧ collected.Perm blocks.flatten ∧
        IsSorted keys collected (s.out.map Prod.snd).flatten) ∧
      ∀ t capacity s', s.threadId = some t → 0 < capacity →
        step keys n s (.next t capacity) = some (.ok s') → s'.done = true ∨ s.allCur < s'.allCur := by
  have hinv := invariant_of_reaches hsize h
  refine ⟨fun e fault he => ?_, fun b hb b' hb' => ?_, fun hdone => ?_,
    fun t capacity s' ht hpos he => ?_⟩
  · obtain ⟨s', hok, -⟩ := hinv.step hsize he
    cases hok
  · exact mem_unique (hinv.owner b hb) (hinv.owner b' hb')
  · cases hc : s.collected with
    | none => exact absurd hdone (by rw [(hinv.waiting hc).2.2]; decide)
    | some c =>
      obtain ⟨hperm, hall, -⟩ := hinv.sorted c hc
      refine ⟨c, rfl, hperm, ?_⟩
      rw [hinv.out, take_of_length_le (hinv.done hdone), hall]
      exact order_isSorted keys c
  · rw [step] at he
    split at he
    · cases he
    · rename_i hc
      obtain ⟨s'', hemit, -, hprogress⟩ := hinv.emit hc (hinv.length_le hsize hc) capacity (.inr ht)
      simp only [ht, if_true, hemit, some.injEq, Except.ok.injEq] at he
      exact he ▸ hprogress hpos

def numberKey (desc : Bool) (f : ℕ → ℕ) : Key ℕ where
  less a b := f a < f b
  great a b := f b < f a
  desc := desc
  great_eq _ _ := rfl
  asymm a b h := by simp at h ⊢; omega
  weak a b c h := by simp at h ⊢; omega

def act (keys : List (Key T)) (n : ℕ) (s : State T) (e : Event) : Option (State T) :=
  (step keys n s e).bind Except.toOption

theorem step_of_act {e : Event} (h : act keys n s e = some s') : Step keys n s s' := by
  obtain ⟨r, hr, hok⟩ := Option.bind_eq_some_iff.1 h
  cases r with
  | error fault => cases hok
  | ok s'' => exact ⟨e, hr.trans (congrArg (some ∘ Except.ok) (some.inj hok))⟩

def twoLoaders : List Event :=
  [.load 1, .load 0, .insert 0, .insert 1, .order, .next 0 2, .next 1 2, .next 0 2, .next 0 2]

def tensAndDigits : List (Key ℕ) := [numberKey true (· / 10), numberKey false (· % 10)]

theorem two_loaders_run :
    ((twoLoaders.foldlM (act tensAndDigits 2) (init [[12, 31], [11, 22]])).map fun s =>
      (s.done, s.out)) = some (true, [(0, [31, 22]), (0, [11, 12])]) := by
  decide +kernel

theorem two_loaders_sorted :
    ∃ s : State ℕ, s.done = true ∧ s.out = [(0, [31, 22]), (0, [11, 12])] ∧
      ∃ collected, s.collected = some collected ∧ collected.Perm [12, 31, 11, 22] ∧
        IsSorted tensAndDigits collected (s.out.map Prod.snd).flatten := by
  obtain ⟨s, hs, heq⟩ := Option.map_eq_some_iff.1 two_loaders_run
  obtain ⟨hdone, hout⟩ := Prod.mk.inj heq
  have hreaches := Runs.reaches_of_foldlM (fun _ _ _ => step_of_act) hs
  exact ⟨s, hdone, hout,
    (sort_correct tensAndDigits 2 [[12, 31], [11, 22]] s (by decide) hreaches).2.2.1 hdone⟩

theorem fetch_too_far {allTuples : List T} (h : 2 ^ 31 < allTuples.length) {room cur : ℕ}
    (hcur : cur ≤ 2 ^ 31) (hroom : 2 ^ 31 < cur + room) :
    fetch allTuples room cur = .error .outOfBounds := by
  induction room generalizing cur with
  | zero => omega
  | succ room ih =>
    rw [fetch, getElem?_eq_getElem (by omega)]
    simp only
    split
    · rw [ih (by omega) (by omega)]
      rfl
    · rfl

theorem sort_too_long :
    ∃ s, Runs.Reaches (Step [] 1) (init [replicate (2 ^ 31 + 1) 0]) s ∧
      step [] 1 s (.next 0 (2 ^ 31 + 1)) = some (.error .outOfBounds) := by
  have hlength : 2 ^ 31 < (replicate (2 ^ 31 + 1) 0).length := by
    rw [length_replicate]
    omega
  generalize replicate (2 ^ 31 + 1) 0 = tuples at hlength ⊢
  have hrun : ∃ s, [Event.load 0, .insert 0, .order].foldlM (act [] 1) (init [tuples]) = some s ∧
      s.allTuples = tuples ∧ s.allCur = 0 ∧ s.threadId = none ∧ s.collected = some tuples :=
    ⟨_, rfl, rfl, rfl, rfl, rfl⟩
  obtain ⟨s, hs, hall, hcur, hid, hc⟩ := hrun
  refine ⟨s, Runs.reaches_of_foldlM (fun _ _ _ => step_of_act) hs, ?_⟩
  simp only [step, hc, hid, emit, hall, hcur, fetch_too_far hlength (Nat.zero_le _)
    (show 2 ^ 31 < 0 + (2 ^ 31 + 1) by omega)]
  rfl

end Sorting
