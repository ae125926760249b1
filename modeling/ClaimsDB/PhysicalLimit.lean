/-
LIMIT with OFFSET.  When the output block is full the call returns; the rest of the child's block
is not kept, and the next call begins with the next block.  The block that the child is given is
never emptied, so that over a child that adds to it the loop does not end.

* **`fill_spec`** — one call over the blocks of a child that fills the block anew;
* **`outputs_iff_returns`** — all calls over such a child;
* **`limit_exact_iff`** — when the output is exact, for both kinds of children;
* **`tuple_lost`** — a tuple that is skipped, and a call that does not return.
-/
import ClaimsDB.Faults
import Mathlib.Tactic

namespace PhysicalLimit

open List

variable {T : Type}

/-- What a `PhysicalLimit` is given. -/
structure Limit where
  limitTuples : ℕ
  startPosition : ℕ

/-- The counters that a call leaves to the next one; the first one is an `unsigned`. -/
structure State where
  received : UInt32
  tupleCur : ℕ

def State.new : State := ⟨0, 0⟩

variable (l : Limit)

def limitExhausted (s : State) : Bool := l.limitTuples ≤ s.received.toNat

def shouldSkip (s : State) : Bool := s.tupleCur < l.startPosition

/-- The loop over a block: what is copied, whether there was no room, and the counters. -/
def visitBlock : List T → State → ℕ → List T × Bool × State
  | [], s, _ => ([], false, s)
  | tuple :: tuples, s, room =>
    if limitExhausted l s then ([], false, s)
    else if shouldSkip l s then visitBlock tuples { s with tupleCur := s.tupleCur + 1 } room
    else
      match room with
      | 0 => ([], true, s)
      | room + 1 =>
        let rest := visitBlock tuples ⟨s.received + 1, s.tupleCur + 1⟩ room
        (tuple :: rest.1, rest.2)

/-- The loop over the blocks of a child that fills the block it is given anew. -/
def fill : List (List T) → State → ℕ → List T × Bool × List (List T) × State
  | [], s, _ => ([], false, [], s)
  | block :: blocks, s, room =>
    match visitBlock l block s room with
    -- the iterator is deleted, and with it what is left of the block
    | (copied, true, s) => (copied, true, blocks, s)
    | (copied, false, s) =>
      let rest := fill blocks s (room - copied.length)
      (copied ++ rest.1, rest.2)

/-- `Next`: the return value, the block, the child's other blocks and the counters. -/
def next (capacity : UInt32) (blocks : List (List T)) (s : State) :
    Bool × List T × List (List T) × State :=
  let (copied, full, blocks, s) := fill l blocks s capacity.toNat
  (full || !copied.isEmpty, copied, blocks, s)

/-- The blocks that the calls return, until one returns `false`. -/
inductive Returns (capacity : UInt32) : List (List T) → State → List (List T) → Prop
  | done {blocks : List (List T)} {s : State} (h : (next l capacity blocks s).1 = false) :
      Returns capacity blocks s []
  | block {blocks : List (List T)} {s : State} {outs : List (List T)}
      (h : (next l capacity blocks s).1 = true)
      (hrest : Returns capacity (next l capacity blocks s).2.2.1 (next l capacity blocks s).2.2.2
        outs) :
      Returns capacity blocks s ((next l capacity blocks s).2.1 :: outs)

/-- A child, by what its `Next` does to the block that it is given. -/
inductive Child (T : Type)
  /-- the block is filled anew each time -/
  | overwriting (blocks : List (List T))
  /-- what fits is added, and the result is whether the block holds something -/
  | appending (tuples : List T)

def Child.next (size : ℕ) (asking : List T) : Child T → Bool × List T × Child T
  | .overwriting [] => (false, asking, .overwriting [])
  | .overwriting (block :: blocks) => (true, block, .overwriting blocks)
  | .appending tuples =>
    let added := asking ++ tuples.take (size - asking.length)
    (!added.isEmpty, added, .appending (tuples.drop (size - asking.length)))

/-- The loop of `Next`, for `n` calls of the child at most; `asking` is `block_for_asking_`, which
is as the last call has left it. -/
def fillWithin (size : ℕ) :
    ℕ → Child T → List T → State → ℕ → Run (List T × Bool × Child T × List T × State)
  | 0, _, _, _, _ => .error .endless
  | n + 1, child, asking, s, room =>
    match child.next size asking with
    | (false, asking, child) => .ok ([], false, child, asking, s)
    | (true, asking, child) =>
      match visitBlock l asking s room with
      | (copied, true, s) => .ok (copied, true, child, asking, s)
      | (copied, false, s) => do
        let rest ← fillWithin size n child asking s (room - copied.length)
        return (copied ++ rest.1, rest.2)

/-- The blocks that the calls of `Next` return, until one returns `false`. -/
inductive Outputs (size : ℕ) (capacity : UInt32) :
    Child T → List T → State → List (List T) → Prop
  | done {child child' : Child T} {asking asking' : List T} {s s' : State} {n : ℕ}
      (h : fillWithin l size n child asking s capacity.toNat =
        .ok ([], false, child', asking', s')) : Outputs size capacity child asking s []
  | block {child child' : Child T} {asking asking' : List T} {s s' : State} {n : ℕ}
      {out : List T} {full : Bool} {outs : List (List T)}
      (h : fillWithin l size n child asking s capacity.toNat =
        .ok (out, full, child', asking', s')) (hsome : (full || !out.isEmpty) = true)
      (hrest : Outputs size capacity child' asking' s' outs) :
      Outputs size capacity child asking s (out :: outs)

/-! ### What is wanted -/

def want (s : State) (tuples : List T) : List T :=
  (tuples.drop (l.startPosition - s.tupleCur)).take (l.limitTuples - s.received.toNat)

variable {l}

variable {s : State} {room : ℕ} {capacity : UInt32} {blocks : List (List T)}

theorem want_of_exhausted (h : limitExhausted l s = true) (tuples : List T) :
    want l s tuples = [] := by
  rw [want, Nat.sub_eq_zero_of_le (of_decide_eq_true h), take_zero]

theorem want_of_skip (h : shouldSkip l s = true) (tuple : T) (tuples : List T) :
    want l s (tuple :: tuples) = want l { s with tupleCur := s.tupleCur + 1 } tuples := by
  have hlt : s.tupleCur < l.startPosition := of_decide_eq_true h
  have hsub : l.startPosition - s.tupleCur = l.startPosition - (s.tupleCur + 1) + 1 := by omega
  rw [want, want, hsub, drop_succ_cons]

theorem want_of_copy (hmore : limitExhausted l s = false) (hskip : shouldSkip l s = false)
    (hroom : s.received.toNat + 1 < 2 ^ 32) (tuple : T) (tuples : List T) :
    want l s (tuple :: tuples) =
      tuple :: want l ⟨s.received + 1, s.tupleCur + 1⟩ tuples := by
  have hlt : s.received.toNat < l.limitTuples := Nat.lt_of_not_le (of_decide_eq_false hmore)
  have hle : l.startPosition ≤ s.tupleCur := Nat.le_of_not_lt (of_decide_eq_false hskip)
  have hsucc : (s.received + 1).toNat = s.received.toNat + 1 := by
    rw [UInt32.toNat_add]
    exact Nat.mod_eq_of_lt hroom
  have hsub : l.limitTuples - s.received.toNat =
      l.limitTuples - (s.received.toNat + 1) + 1 := by omega
  have hzero : l.startPosition - s.tupleCur = 0 := Nat.sub_eq_zero_of_le hle
  have hzero' : l.startPosition - (s.tupleCur + 1) = 0 :=
    Nat.sub_eq_zero_of_le (Nat.le_succ_of_le hle)
  simp only [want, hsucc, hzero, hzero', hsub, drop_zero, take_succ_cons]

theorem exists_want_append (s : State) (tuples others : List T) :
    ∃ later, want l s (tuples ++ others) = want l s tuples ++ later := by
  rw [want, want, drop_append, take_append]
  exact ⟨_, rfl⟩

/-- What a loop does that has room for `room` tuples and does not let the counter overflow. -/
structure Visits (l : Limit) (s : State) (tuples : List T) (room : ℕ)
    (result : List T × Bool × State) : Prop where
  copied : result.1 = (want l s tuples).take room
  full : result.2.1 = decide (room < (want l s tuples).length)
  received : result.2.2.received.toNat = s.received.toNat + result.1.length
  rest : result.2.1 = false → ∀ others : List T,
    want l s (tuples ++ others) = want l s tuples ++ want l result.2.2 others

theorem want_nil (s : State) : want l s ([] : List T) = [] := by
  rw [want, drop_nil, take_nil]

theorem visitBlock_spec (tuples : List T) (h : s.received.toNat + room < 2 ^ 32) :
    Visits l s tuples room (visitBlock l tuples s room) := by
  induction tuples generalizing s room with
  | nil =>
    refine ⟨?_, ?_, rfl, fun _ others => ?_⟩
    · rw [want_nil, take_nil, visitBlock]
    · rw [want_nil]
      exact (decide_eq_false (Nat.not_lt_zero room)).symm
    · rw [want_nil]
      rfl
  | cons tuple tuples ih =>
    unfold visitBlock
    by_cases hexhausted : limitExhausted l s = true
    · rw [if_pos hexhausted]
      refine ⟨?_, ?_, rfl, fun _ others => ?_⟩
      · rw [want_of_exhausted hexhausted, take_nil]
      · rw [want_of_exhausted hexhausted]
        exact (decide_eq_false (Nat.not_lt_zero room)).symm
      · simp only [want_of_exhausted hexhausted, nil_append]
    rw [if_neg hexhausted]
    have hmore : limitExhausted l s = false := eq_false_of_ne_true hexhausted
    by_cases hskip : shouldSkip l s = true
    · rw [if_pos hskip]
      obtain ⟨hcopied, hfull, hreceived, hrest⟩ :=
        ih (s := { s with tupleCur := s.tupleCur + 1 }) h
      refine ⟨?_, ?_, hreceived, fun hfalse others => ?_⟩
      · rw [want_of_skip hskip]
        exact hcopied
      · rw [want_of_skip hskip]
        exact hfull
      · rw [cons_append, want_of_skip hskip, want_of_skip hskip]
        exact hrest hfalse others
    rw [if_neg hskip]
    have hcopy : shouldSkip l s = false := eq_false_of_ne_true hskip
    cases room with
    | zero =>
      have hlt : s.received.toNat < l.limitTuples := Nat.lt_of_not_le (of_decide_eq_false hmore)
      have hle : l.startPosition ≤ s.tupleCur := Nat.le_of_not_lt (of_decide_eq_false hcopy)
      have hlength : 0 < (want l s (tuple :: tuples)).length := by
        rw [want, Nat.sub_eq_zero_of_le hle, drop_zero, length_take, length_cons]
        omega
      exact ⟨List.take_zero.symm, (decide_eq_true hlength).symm, rfl, fun hfalse => by cases hfalse⟩
    | succ room =>
      have hsucc : (s.received + 1).toNat = s.received.toNat + 1 := by
        rw [UInt32.toNat_add]
        exact Nat.mod_eq_of_lt (by simp only [UInt32.toNat_ofNat]; omega)
      have hwant := want_of_copy hmore hcopy (by omega : s.received.toNat + 1 < 2 ^ 32) tuple
      obtain ⟨hcopied, hfull, hreceived, hrest⟩ :=
        @ih ⟨s.received + 1, s.tupleCur + 1⟩ room
          (by simp only [hsucc]; omega)
      refine ⟨?_, ?_, ?_, fun hfalse others => ?_⟩
      · rw [hwant, take_succ_cons, ← hcopied]
      · rw [hwant, length_cons]
        simpa only [Nat.add_lt_add_iff_right] using hfull
      · simp only [hsucc] at hreceived
        simp only [length_cons, hreceived]
        omega
      · rw [cons_append, hwant, hwant, hrest hfalse others, cons_append]

theorem fill_spec (blocks : List (List T)) (h : s.received.toNat + room < 2 ^ 32) :
    (fill l blocks s room).1 = (want l s blocks.flatten).take room ∧
      (fill l blocks s room).2.1 = decide (room < (want l s blocks.flatten).length) ∧
      ((fill l blocks s room).2.1 = true → ∃ consumed tuple, tuple ∈ consumed ∧
        blocks.flatten = consumed ++ (fill l blocks s room).2.2.1.flatten ∧
        (want l s blocks.flatten)[room]? = some tuple) := by
  induction blocks generalizing s room with
  | nil =>
    refine ⟨?_, ?_, fun hfull => by cases hfull⟩
    · rw [flatten_nil, want_nil, take_nil, fill]
    · rw [flatten_nil, want_nil]
      exact (decide_eq_false (Nat.not_lt_zero room)).symm
  | cons block blocks ih =>
    have hvisit := visitBlock_spec (l := l) block h
    rw [fill, flatten_cons]
    cases hv : visitBlock l block s room with
    | mk copied result =>
      obtain ⟨full, s'⟩ := result
      rw [hv] at hvisit
      obtain ⟨hcopied, hfull, hreceived, hrest⟩ := hvisit
      simp only at hcopied hfull hreceived hrest
      cases full with
      | true =>
        have hmore : room < (want l s block).length := of_decide_eq_true hfull.symm
        obtain ⟨later, hlater⟩ := exists_want_append (l := l) s block blocks.flatten
        have hlength : room < (want l s block ++ later).length := by
          rw [length_append]
          omega
        refine ⟨?_, ?_, fun _ => ⟨block, (want l s block)[room], ?_, rfl, ?_⟩⟩
        · rw [hlater, take_append_of_le_length hmore.le]
          exact hcopied
        · rw [hlater]
          exact (decide_eq_true hlength).symm
        · exact mem_of_mem_drop (mem_of_mem_take (getElem_mem hmore))
        · rw [hlater, getElem?_append_left hmore, getElem?_eq_getElem hmore]
      | false =>
        have hfits : (want l s block).length ≤ room := by simpa using hfull
        rw [take_of_length_le hfits] at hcopied
        have hlength : copied.length ≤ room := hcopied ▸ hfits
        obtain ⟨hcopied', hfull', hconsumed⟩ :=
          @ih s' (room - copied.length) (by omega)
        have hwant := hrest rfl blocks.flatten
        rw [← hcopied] at hwant
        refine ⟨?_, ?_, fun htrue => ?_⟩
        · simp only [hwant, hcopied', take_append, take_of_length_le hlength]
        · simp only [hwant, hfull', length_append]
          exact decide_eq_decide.mpr (by omega)
        · obtain ⟨consumed, tuple, hmem, hflatten, htuple⟩ := hconsumed htrue
          refine ⟨block ++ consumed, tuple, mem_append_right _ hmem, ?_, ?_⟩
          · rw [append_assoc, ← hflatten]
          · rw [hwant, getElem?_append_right hlength]
            exact htuple

/-! ### All calls -/

theorem visitBlock_subset (tuples : List T) (s : State) (room : ℕ) :
    (visitBlock l tuples s room).1 ⊆ tuples := by
  induction tuples generalizing s room with
  | nil => exact List.Subset.refl _
  | cons tuple tuples ih =>
    unfold visitBlock
    split_ifs
    · exact nil_subset _
    · exact List.Subset.trans (ih _ _) (subset_cons_self _ _)
    · cases room with
      | zero => exact nil_subset _
      | succ room => exact cons_subset_cons _ (ih _ _)

theorem fill_blocks (blocks : List (List T)) (s : State) (room : ℕ) :
    (fill l blocks s room).1 ⊆ blocks.flatten ∧
      (fill l blocks s room).2.2.1.flatten ⊆ blocks.flatten ∧
      ((fill l blocks s room).2.1 = true → (fill l blocks s room).2.2.1.length < blocks.length) ∧
      ((fill l blocks s room).2.1 = false → (fill l blocks s room).2.2.1 = []) := by
  induction blocks generalizing s room with
  | nil =>
    exact ⟨nil_subset _, nil_subset _, fun h => absurd h Bool.false_ne_true,
      fun _ => rfl⟩
  | cons block blocks ih =>
    have hvisit := visitBlock_subset (l := l) block s room
    rw [fill, flatten_cons]
    cases hv : visitBlock l block s room with
    | mk copied result =>
      obtain ⟨full, s'⟩ := result
      rw [hv] at hvisit
      cases full with
      | true =>
        exact ⟨List.Subset.trans hvisit (subset_append_left _ _),
          subset_append_right _ _, fun _ => Nat.lt_succ_self _, fun h => by cases h⟩
      | false =>
        obtain ⟨hcopied, hrest, hfull, hend⟩ := ih s' (room - copied.length)
        refine ⟨List.append_subset.mpr ⟨?_, ?_⟩, ?_, fun h => ?_, hend⟩
        · exact List.Subset.trans hvisit (subset_append_left _ _)
        · exact List.Subset.trans hcopied (subset_append_right _ _)
        · exact List.Subset.trans hrest (subset_append_right _ _)
        · exact (hfull h).trans (Nat.lt_succ_self _)

/-- **The calls come to an end.** -/
theorem exists_returns (capacity : UInt32) (blocks : List (List T)) (s : State) :
    ∃ outs, Returns l capacity blocks s outs := by
  induction hn : blocks.length using Nat.strong_induction_on generalizing blocks s with
  | _ n ih =>
    cases hnext : (next l capacity blocks s).1 with
    | false => exact ⟨[], .done hnext⟩
    | true =>
      obtain ⟨-, -, hfull, hend⟩ := fill_blocks (l := l) blocks s capacity.toNat
      cases hf : (fill l blocks s capacity.toNat).2.1 with
      | true =>
        obtain ⟨outs, houts⟩ := ih _ (hn ▸ hfull hf) (next l capacity blocks s).2.2.1
          (next l capacity blocks s).2.2.2 rfl
        exact ⟨_, .block hnext houts⟩
      | false =>
        have hnil : (next l capacity blocks s).2.2.1 = [] := hend hf
        refine ⟨_, .block hnext (.done ?_)⟩
        rw [hnil]
        rfl

theorem subset_of_returns {outs : List (List T)} (h : Returns l capacity blocks s outs) :
    outs.flatten ⊆ blocks.flatten := by
  induction h with
  | done _ => exact nil_subset _
  | @block blocks s outs _ _ ih =>
    obtain ⟨hcopied, hrest, -, -⟩ := fill_blocks (l := l) blocks s capacity.toNat
    exact List.append_subset.mpr ⟨hcopied, List.Subset.trans ih hrest⟩

/-! ### Both kinds of children -/

variable {size : ℕ} {child : Child T} {asking : List T}

theorem fillWithin_mono {n m : ℕ} {r : List T × Bool × Child T × List T × State}
    (h : fillWithin l size n child asking s room = .ok r) (hnm : n ≤ m) :
    fillWithin l size m child asking s room = .ok r := by
  induction n generalizing child asking s room m r with
  | zero => cases h
  | succ n ih =>
    obtain ⟨m, rfl⟩ := Nat.exists_eq_add_of_lt (Nat.lt_of_succ_le hnm)
    unfold fillWithin at h ⊢
    split
    · rename_i hnext
      simpa only [hnext] using h
    · rename_i hnext
      simp only [hnext] at h
      split
      · rename_i hvisit
        simpa only [hvisit] using h
      · rename_i hvisit
        simp only [hvisit] at h
        obtain ⟨rest, hrest, hr⟩ := Run.bind_eq_ok h
        rw [ih hrest (by omega : n ≤ n + m)]
        exact hr

/-- A child that fills the block anew is a list of blocks. -/
theorem fillWithin_overwriting (size : ℕ) {n : ℕ} (blocks : List (List T)) (asking : List T)
    (s : State) (room : ℕ) (hn : blocks.length < n) :
    ∃ asking', fillWithin l size n (.overwriting blocks) asking s room =
      .ok ((fill l blocks s room).1, (fill l blocks s room).2.1,
        .overwriting (fill l blocks s room).2.2.1, asking', (fill l blocks s room).2.2.2) := by
  induction blocks generalizing n asking s room with
  | nil =>
    obtain ⟨n, rfl⟩ := Nat.exists_eq_add_of_lt hn
    exact ⟨asking, rfl⟩
  | cons block blocks ih =>
    obtain ⟨n, rfl⟩ := Nat.exists_eq_add_of_lt hn
    simp only [fillWithin, Child.next, fill]
    split
    · exact ⟨block, rfl⟩
    · rename_i copied s' _
      obtain ⟨asking', hrest⟩ := ih (n := (block :: blocks).length + n) block s'
        (room - copied.length) (by simp only [length_cons]; omega)
      exact ⟨asking', by rw [hrest]; rfl⟩

theorem fillWithin_eq {n : ℕ} {r : List T × Bool × Child T × List T × State}
    (h : fillWithin l size n (.overwriting blocks) asking s room = .ok r) :
    r.1 = (fill l blocks s room).1 ∧ r.2.1 = (fill l blocks s room).2.1 ∧
      r.2.2.1 = .overwriting (fill l blocks s room).2.2.1 ∧
      r.2.2.2.2 = (fill l blocks s room).2.2.2 := by
  obtain ⟨asking', hfill⟩ := fillWithin_overwriting (l := l) size (n := n + blocks.length + 1)
    blocks asking s room (by omega)
  rw [fillWithin_mono h (by omega)] at hfill
  obtain rfl := Except.ok.inj hfill
  exact ⟨rfl, rfl, rfl, rfl⟩

/-- **All calls** over a child that fills the block anew. -/
theorem outputs_iff_returns {outs : List (List T)} :
    Outputs l size capacity (.overwriting blocks) asking s outs ↔
      Returns l capacity blocks s outs := by
  constructor
  · intro h
    generalize hchild : Child.overwriting blocks = child at h
    induction h generalizing blocks with
    | done h =>
      subst hchild
      obtain ⟨hcopied, hfull, -, -⟩ := fillWithin_eq h
      exact .done (by simp [next, ← hcopied, ← hfull])
    | block h hsome _ ih =>
      subst hchild
      obtain ⟨hcopied, hfull, hchild, hs⟩ := fillWithin_eq h
      simp only at hcopied hfull hchild hs
      subst hcopied hfull hs
      exact .block hsome (ih hchild.symm)
  · intro h
    induction h generalizing asking with
    | @done blocks s h =>
      obtain ⟨asking', hfill⟩ := fillWithin_overwriting (l := l) size blocks asking s
        capacity.toNat (Nat.lt_succ_self _)
      rw [next, Bool.or_eq_false_iff, Bool.not_eq_false', List.isEmpty_iff] at h
      rw [h.1, h.2] at hfill
      exact .done hfill
    | @block blocks s outs h _ ih =>
      obtain ⟨asking', hfill⟩ := fillWithin_overwriting (l := l) size blocks asking s
        capacity.toNat (Nat.lt_succ_self _)
      exact .block hfill h ih

theorem next_appending (hsize : 0 < size) {tuples : List T} (h : asking ++ tuples ≠ []) :
    ∃ asking' rest, asking' ≠ [] ∧
      Child.next size asking (.appending tuples) = (true, asking', .appending rest) := by
  have hadded : asking ++ tuples.take (size - asking.length) ≠ [] := by
    cases asking with
    | nil => simpa [Nat.pos_iff_ne_zero.1 hsize] using h
    | cons => simp
  refine ⟨_, tuples.drop (size - asking.length), hadded, ?_⟩
  simp only [Child.next, isEmpty_eq_false_iff.2 hadded, Bool.not_false]

/-- The loop is left only with a full output block. -/
theorem fillWithin_appending (hsize : 0 < size) {tuples : List T} (h : asking ++ tuples ≠ [])
    {n : ℕ} {r : List T × Bool × Child T × List T × State}
    (hr : fillWithin l size n (.appending tuples) asking s room = .ok r) :
    r.2.1 = true ∧ r.2.2.2.1 ≠ [] ∧ ∃ rest, r.2.2.1 = .appending rest := by
  induction n generalizing tuples asking s room r with
  | zero => cases hr
  | succ n ih =>
    obtain ⟨asking', rest, hne, hnext⟩ := next_appending hsize h
    rw [fillWithin, hnext] at hr
    simp only at hr
    split at hr
    · cases hr
      exact ⟨rfl, hne, rest, rfl⟩
    · obtain ⟨r', hr', hr⟩ := Run.bind_eq_ok hr
      obtain rfl := Except.ok.inj hr
      obtain ⟨hfull, hasking, hchild⟩ := ih (append_ne_nil_of_left_ne_nil hne rest) hr'
      exact ⟨hfull, hasking, hchild⟩

/-- **A child that adds to the block**: no call returns `false`. -/
theorem not_outputs_appending (hsize : 0 < size) {tuples : List T} (h : asking ++ tuples ≠ [])
    {outs : List (List T)} : ¬ Outputs l size capacity (.appending tuples) asking s outs := by
  intro hout
  generalize hchild : Child.appending tuples = child at hout
  induction hout generalizing tuples with
  | done hr =>
    subst hchild
    cases (fillWithin_appending hsize h hr).1
  | block hr _ _ ih =>
    subst hchild
    obtain ⟨-, hne, rest, hrest⟩ := fillWithin_appending hsize h hr
    exact ih (append_ne_nil_of_left_ne_nil hne rest) hrest.symm

theorem fillWithin_exhausted (hex : limitExhausted l s = true) (h : asking ≠ []) (n : ℕ) :
    fillWithin l size n (.appending []) asking s room = .error .endless := by
  induction n with
  | zero => rfl
  | succ n ih =>
    have hvisit : visitBlock l asking s room = ([], false, s) := by
      cases asking with
      | nil => rfl
      | cons => simp [visitBlock, hex]
    simp [fillWithin, Child.next, isEmpty_eq_false_iff.2 h, hvisit, ih, Bind.bind, Except.bind]

def Child.tuples : Child T → List T
  | .overwriting blocks => blocks.flatten
  | .appending tuples => tuples

def wanted (l : Limit) (tuples : List T) : List T :=
  (tuples.drop l.startPosition).take l.limitTuples

/-- The calls of `Next` come to an end, and what they return is what is wanted. -/
def Exact (l : Limit) (size : ℕ) (capacity : UInt32) (child : Child T) : Prop :=
  (∃ outs, Outputs l size capacity child [] .new outs) ∧
    ∀ outs, Outputs l size capacity child [] .new outs → outs.flatten = wanted l child.tuples

theorem exact_appending_iff (hsize : 0 < size) (tuples : List T) :
    Exact l size capacity (.appending tuples) ↔ tuples = [] := by
  constructor
  · rintro ⟨⟨outs, houts⟩, -⟩
    by_contra hne
    exact not_outputs_appending hsize ((nil_append _).trans_ne hne) houts
  · rintro rfl
    have hdone : ∀ n, fillWithin l size (n + 1) (.appending ([] : List T)) [] .new
        capacity.toNat = .ok ([], false, .appending [], [], .new) := by
      intro n
      simp [fillWithin, Child.next]
    refine ⟨⟨[], .done (hdone 0)⟩, fun outs houts => ?_⟩
    have hnil : wanted l ([] : List T) = [] := by rw [wanted, drop_nil, take_nil]
    rw [Child.tuples, hnil]
    cases houts with
    | done => rfl
    | @block _ _ _ _ _ _ n _ _ _ h hsome _ =>
      cases (fillWithin_mono h (Nat.le_succ n)).symm.trans (hdone n)
      cases hsome

theorem room_of_new (capacity : UInt32) : State.new.received.toNat + capacity.toNat < 2 ^ 32 := by
  have hlt := capacity.toNat_lt
  simp only [State.new, UInt32.toNat_ofNat, Nat.zero_mod]
  omega

theorem exact_of_fits (h : (wanted l blocks.flatten).length ≤ capacity.toNat) :
    Exact l size capacity (.overwriting blocks) := by
  obtain ⟨hcopied, hfull, -⟩ := fill_spec (l := l) blocks (room_of_new capacity)
  obtain ⟨-, -, -, hend⟩ := fill_blocks (l := l) blocks .new capacity.toNat
  have hwant : want l .new blocks.flatten = wanted l blocks.flatten := rfl
  rw [hwant, decide_eq_false (Nat.not_lt.mpr h)] at hfull
  rw [hwant, take_of_length_le h] at hcopied
  obtain ⟨outs, houts⟩ := exists_returns (l := l) capacity blocks .new
  refine ⟨⟨outs, outputs_iff_returns.2 houts⟩, fun outs houts => ?_⟩
  rw [outputs_iff_returns] at houts
  rw [Child.tuples]
  cases houts with
  | done hfalse =>
    have hnil : (fill l blocks .new capacity.toNat).1 = [] := by
      simpa [next, hfull] using hfalse
    rw [← hcopied, hnil, flatten_nil]
  | block htrue hrest =>
    have hnil : (next l capacity blocks .new).2.2.1 = [] := hend hfull
    rw [hnil] at hrest
    have hlast := List.subset_nil.mp (subset_of_returns hrest)
    rw [flatten_cons, hlast, append_nil]
    exact hcopied

theorem not_exact_of_nodup (hnodup : blocks.flatten.Nodup)
    (h : capacity.toNat < (wanted l blocks.flatten).length) :
    ¬ Exact l size capacity (.overwriting blocks) := by
  rintro ⟨⟨outs, houts⟩, hexact⟩
  have heq : outs.flatten = wanted l blocks.flatten := hexact outs houts
  rw [outputs_iff_returns] at houts
  obtain ⟨hcopied, hfull, hconsumed⟩ := fill_spec (l := l) blocks (room_of_new capacity)
  have hwant : want l .new blocks.flatten = wanted l blocks.flatten := rfl
  rw [hwant] at hcopied hfull hconsumed
  rw [decide_eq_true h] at hfull
  obtain ⟨consumed, tuple, hmem, hflatten, htuple⟩ := hconsumed hfull
  have hlength : (fill l blocks .new capacity.toNat).1.length = capacity.toNat := by
    rw [hcopied, length_take, min_eq_left h.le]
  cases houts with
  | done hfalse =>
    rw [← heq] at h
    exact absurd h (Nat.not_lt_zero _)
  | @block _ _ outs _ hrest =>
    -- the tuple would have to come from the blocks that are left
    have hlater : tuple ∈ outs.flatten := by
      rw [← heq, flatten_cons] at htuple
      have hle : (next l capacity blocks .new).2.1.length ≤ capacity.toNat := hlength.le
      rw [getElem?_append_right hle] at htuple
      exact mem_of_getElem? htuple
    rw [hflatten] at hnodup
    exact disjoint_of_nodup_append hnodup hmem (subset_of_returns hrest hlater)

/-- **LIMIT with OFFSET** is exact when what is wanted fits into one output block, over a child that
fills the block anew; over one that adds to it, only if there are no tuples. -/
theorem limit_exact_iff (l : Limit) {size : ℕ} (hsize : 0 < size) (capacity : UInt32) :
    (∀ blocks : List (List T),
      ((wanted l blocks.flatten).length ≤ capacity.toNat →
        Exact l size capacity (.overwriting blocks)) ∧
      (blocks.flatten.Nodup → (Exact l size capacity (.overwriting blocks) ↔
        (wanted l blocks.flatten).length ≤ capacity.toNat))) ∧
      ∀ tuples : List T, Exact l size capacity (.appending tuples) ↔ tuples = [] := by
  refine ⟨fun blocks => ⟨exact_of_fits, fun hnodup => ⟨fun hexact => ?_, exact_of_fits⟩⟩,
    exact_appending_iff hsize⟩
  by_contra hlt
  exact not_exact_of_nodup hnodup (Nat.lt_of_not_le hlt) hexact

theorem second_and_third : Exact ⟨2, 1⟩ 4 2 (.overwriting [[10, 20], [30, 40, 50]]) ∧
    ¬ Exact ⟨2, 1⟩ 4 2 (.appending [10, 20]) := by
  obtain ⟨hover, happ⟩ := limit_exact_iff (T := ℕ) ⟨2, 1⟩ (show 0 < 4 by decide) 2
  exact ⟨(hover [[10, 20], [30, 40, 50]]).1 (by decide), fun h => nomatch (happ [10, 20]).1 h⟩

/-- Three tuples are wanted, with room for two: the fifth one is returned instead.  Over a child that
adds to the block the call does not return. -/
theorem tuple_lost :
    Outputs ⟨3, 0⟩ 4 2 (.overwriting [[10, 20, 30, 40], [50]]) [] .new [[10, 20], [50]] ∧
      wanted ⟨3, 0⟩ [10, 20, 30, 40, 50] = [10, 20, 30] ∧
      ∀ n, fillWithin ⟨3, 0⟩ 8 n (.appending [1, 2, 3, 4, 5]) [] .new 8 = .error .endless := by
  refine ⟨outputs_iff_returns.2 (.block rfl (.block rfl (.done rfl))), rfl, fun n => ?_⟩
  cases n with
  | zero => rfl
  | succ n =>
    change (fillWithin ⟨3, 0⟩ 8 n (.appending []) [1, 2, 3, 4, 5] ⟨3, 3⟩ 5 >>= _) = _
    rw [fillWithin_exhausted (by decide) (by decide)]
    rfl

end PhysicalLimit
