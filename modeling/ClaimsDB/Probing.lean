/-
Probing a hash table block by block: the operators walk the bucket of each right tuple, write what
a pair gives, and go on at the same pair when the output block was full.
-/
import ClaimsDB.Faults

namespace Probing

open List

variable {L R O : Type}

/-- The bucket for a right tuple, and what is written for a pair and for no bucket. -/
structure Probe (L R O : Type) where
  chain : R → List L
  onPair : L → R → Option O
  onEmpty : R → Option O

structure State (L R : Type) where
  blocks : List (List R)
  /-- `r_block_stream_iterator_`: the tuples of the block, from the current one on -/
  right : List R
  /-- `hashtable_iterator_`: the tuples of the bucket, from the current one on -/
  left : List L

variable (p : Probe L R O)

/-- The loop over a bucket with room for `room` tuples: what is written, and the rest of the bucket
when the block is full. -/
def visitChain (r : R) : List L → ℕ → List O × Option (List L)
  | [], _ => ([], none)
  | l :: ls, room =>
    match p.onPair l r with
    | none => visitChain r ls room
    | some o =>
      match room with
      | 0 => ([], some (l :: ls))
      | room + 1 => (o :: (visitChain r ls room).1, (visitChain r ls room).2)

def visitTuple (r : R) (left : List L) (room : ℕ) : List O × Option (List L) :=
  if left = [] then
    match p.onEmpty r, room with
    | none, _ => ([], none)
    | some _, 0 => ([], some [])
    | some o, _ + 1 => ([o], none)
  else visitChain p r left room

def place (right : List R) : List L := (right.head?.map p.chain).getD []

def visitBlock : List R → List L → ℕ → List O × Option (List R × List L)
  | [], _, _ => ([], none)
  | r :: rs, left, room =>
    match visitTuple p r left room with
    | (os, some left) => (os, some (r :: rs, left))
    | (os, none) =>
      let rest := visitBlock rs (place p rs) (room - os.length)
      (os ++ rest.1, rest.2)

/-- `Next` from the block `right` on: what is written, whether it is full, and the state. -/
def fill : List (List R) → List R → List L → ℕ → List O × Bool × State L R
  | blocks, right, left, room =>
    match visitBlock p right left room with
    | (os, some (right, left)) => (os, true, ⟨blocks, right, left⟩)
    | (os, none) =>
      match blocks with
      | [] => (os, false, ⟨[], [], []⟩)
      | block :: blocks =>
        let rest := fill blocks block (place p block) (room - os.length)
        (os ++ rest.1, rest.2)

/-- `Next` with an output block for `capacity` tuples: the return value, the block and the state. -/
def next (capacity : ℕ) (s : State L R) : Bool × List O × State L R :=
  let (os, full, s) := fill p s.blocks s.right s.left capacity
  (full || !os.isEmpty, os, s)

/-! ### What is still to be written -/

def tupleOutput (r : R) (left : List L) : List O :=
  if left = [] then (p.onEmpty r).toList else left.filterMap (p.onPair · r)

def output (r : R) : List O := tupleOutput p r (p.chain r)

def blockOutput (right : List R) (left : List L) : List O :=
  match right with
  | [] => []
  | r :: rs => tupleOutput p r left ++ rs.flatMap (output p)

def pending (s : State L R) : List O :=
  blockOutput p s.right s.left ++ s.blocks.flatten.flatMap (output p)

variable {p}

theorem blockOutput_place (right : List R) :
    blockOutput p right (place p right) = right.flatMap (output p) := by
  cases right <;> rfl

theorem visitTuple_eq_visitChain {r : R} {left : List L} {room : ℕ} (h : p.onEmpty r = none) :
    visitTuple p r left room = visitChain p r left room := by
  unfold visitTuple
  rw [h]
  split
  · rename_i hnil
    rw [hnil]
    rfl
  · rfl

theorem visitChain_append (r : R) (ls ls' : List L) (room : ℕ) :
    visitChain p r (ls ++ ls') room =
      match visitChain p r ls room with
      | (os, some left) => (os, some (left ++ ls'))
      | (os, none) =>
        (os ++ (visitChain p r ls' (room - os.length)).1,
          (visitChain p r ls' (room - os.length)).2) := by
  induction ls generalizing room with
  | nil => rfl
  | cons l ls ih =>
    rw [cons_append, visitChain, visitChain]
    cases ho : p.onPair l r with
    | none => exact ih room
    | some o =>
      cases room with
      | zero => rfl
      | succ room =>
        simp only
        rw [ih room]
        cases hv : visitChain p r ls room with
        | mk os rest => cases rest <;> simp

/-- A loop has written `total`, or as much as there is room for. -/
structure Writes {X : Type} (rest : X → List O) (total : List O) (room : ℕ)
    (result : List O × Option X) : Prop where
  eq : result.1 ++ (result.2.map rest).getD [] = total
  le : result.1.length ≤ room
  full : result.2.isSome = true → result.1.length = room

variable {X : Type} {rest : X → List O} {os : List O} {room capacity : ℕ}

theorem Writes.all (h : os.length ≤ room) : Writes rest os room (os, none) :=
  ⟨append_nil _, h, fun hsome => by cases hsome⟩

theorem Writes.append {total : List O} {result : List O × Option X} (hos : os.length ≤ room)
    (h : Writes rest total (room - os.length) result) :
    Writes rest (os ++ total) room (os ++ result.1, result.2) where
  eq := by rw [append_assoc, h.eq]
  le := by
    have := h.le
    rw [length_append]
    omega
  full hsome := by
    have := h.full hsome
    rw [length_append]
    omega

theorem visitChain_writes (r : R) (left : List L) (room : ℕ) :
    Writes (fun rest => rest.filterMap (p.onPair · r)) (left.filterMap (p.onPair · r)) room
      (visitChain p r left room) ∧ (visitChain p r left room).2 ≠ some [] := by
  induction left generalizing room with
  | nil => exact ⟨.all (Nat.zero_le _), by simp [visitChain]⟩
  | cons l ls ih =>
    rw [visitChain]
    cases ho : p.onPair l r with
    | none =>
      have hrest : (l :: ls).filterMap (p.onPair · r) = ls.filterMap (p.onPair · r) :=
        filterMap_cons_none ho
      rw [hrest]
      exact ih room
    | some o =>
      have hrest : (l :: ls).filterMap (p.onPair · r) = [o] ++ ls.filterMap (p.onPair · r) :=
        filterMap_cons_some ho
      cases room with
      | zero => exact ⟨⟨rfl, le_rfl, fun _ => rfl⟩, by simp⟩
      | succ room =>
        obtain ⟨hwrites, hne⟩ := ih room
        have hroom : [o].length ≤ room + 1 := Nat.succ_le_succ (Nat.zero_le _)
        rw [hrest]
        exact ⟨.append hroom hwrites, hne⟩

theorem visitTuple_writes (r : R) (left : List L) (room : ℕ) :
    Writes (tupleOutput p r) (tupleOutput p r left) room (visitTuple p r left room) := by
  unfold visitTuple
  by_cases hleft : left = []
  · have hempty : ∀ left, left = [] → tupleOutput p r left = (p.onEmpty r).toList :=
      fun left h => if_pos h
    rw [if_pos hleft, hempty left hleft]
    cases ho : p.onEmpty r with
    | none => exact .all (Nat.zero_le _)
    | some o =>
      cases room with
      | zero => exact ⟨by simp [tupleOutput, ho], le_rfl, fun _ => rfl⟩
      | succ room => exact .all (Nat.succ_le_succ (Nat.zero_le _))
  · have hchain : ∀ left, left ≠ [] → tupleOutput p r left = left.filterMap (p.onPair · r) :=
      fun left h => if_neg h
    obtain ⟨hwrites, hne⟩ := visitChain_writes (p := p) r left room
    rw [if_neg hleft, hchain left hleft]
    refine ⟨?_, hwrites.le, hwrites.full⟩
    rw [← hwrites.eq]
    congr 1
    cases hrest : (visitChain p r left room).2 with
    | none => rfl
    | some rest => exact hchain rest fun hnil => hne (by rw [hrest, hnil])

theorem visitBlock_writes (right : List R) (left : List L) (room : ℕ) :
    Writes (fun rest => blockOutput p rest.1 rest.2) (blockOutput p right left) room
      (visitBlock p right left room) := by
  induction right generalizing left room with
  | nil => exact .all (Nat.zero_le _)
  | cons r rs ih =>
    have htuple := visitTuple_writes (p := p) r left room
    rw [visitBlock, blockOutput]
    cases hv : visitTuple p r left room with
    | mk os rest =>
      rw [hv] at htuple
      cases rest with
      | some rest =>
        refine ⟨?_, htuple.le, htuple.full⟩
        rw [← htuple.eq, append_assoc]
        rfl
      | none =>
        have hos : tupleOutput p r left = os := htuple.eq.symm.trans (append_nil os)
        have hrest := ih (place p rs) (room - os.length)
        rw [blockOutput_place] at hrest
        rw [hos]
        exact .append htuple.le hrest

theorem fill_writes (blocks : List (List R)) (right : List R) (left : List L) (room : ℕ) :
    (fill p blocks right left room).1 ++ pending p (fill p blocks right left room).2.2 =
        blockOutput p right left ++ blocks.flatten.flatMap (output p) ∧
      ((fill p blocks right left room).2.1 = true →
        (fill p blocks right left room).1.length = room) ∧
      ((fill p blocks right left room).2.1 = false →
        pending p (fill p blocks right left room).2.2 = []) := by
  induction blocks generalizing right left room with
  | nil =>
    have hblock := visitBlock_writes (p := p) right left room
    rw [fill]
    cases hv : visitBlock p right left room with
    | mk os rest =>
      rw [hv] at hblock
      cases rest with
      | none => exact ⟨by simpa [pending, blockOutput] using hblock.eq, by simp, fun _ => rfl⟩
      | some rest =>
        refine ⟨?_, fun _ => hblock.full rfl, by simp⟩
        simpa [pending] using hblock.eq
  | cons block blocks ih =>
    have hblock := visitBlock_writes (p := p) right left room
    rw [fill]
    cases hv : visitBlock p right left room with
    | mk os rest =>
      rw [hv] at hblock
      cases rest with
      | none =>
        have hos : blockOutput p right left = os := hblock.eq.symm.trans (append_nil os)
        obtain ⟨hpending, hfull, hend⟩ := ih block (place p block) (room - os.length)
        rw [blockOutput_place] at hpending
        refine ⟨?_, fun h => ?_, hend⟩
        · simp only
          rw [append_assoc, hpending, hos, flatten_cons, flatMap_append]
        · have hlength := hfull h
          have hle := hblock.le
          simp only at hle ⊢
          rw [length_append]
          omega
      | some rest =>
        refine ⟨?_, fun _ => hblock.full rfl, by simp⟩
        simp only [pending]
        rw [← append_assoc, ← hblock.eq]
        rfl

/-- **One call** returns a part of what is left; it is empty only when nothing is. -/
theorem next_spec (hcapacity : 0 < capacity) (s : State L R) :
    (next p capacity s).2.1 ++ pending p (next p capacity s).2.2 = pending p s ∧
      ((next p capacity s).1 = true → (next p capacity s).2.1 ≠ []) ∧
      ((next p capacity s).1 = false → pending p s = []) := by
  have h := fill_writes (p := p) s.blocks s.right s.left capacity
  unfold next
  cases hf : fill p s.blocks s.right s.left capacity with
  | mk os rest =>
    obtain ⟨full, s'⟩ := rest
    rw [hf] at h
    obtain ⟨hpending, hfull, hend⟩ := h
    refine ⟨hpending, fun htrue hnil => ?_, fun hfalse => ?_⟩
    · cases full with
      | true =>
        have := hfull rfl
        rw [show os = [] from hnil] at this
        exact absurd this (by simpa using hcapacity.ne)
      | false =>
        simp only [Bool.false_or, Bool.not_eq_true', isEmpty_eq_false_iff] at htrue
        exact htrue hnil
    · simp only [Bool.or_eq_false_iff, Bool.not_eq_false', List.isEmpty_iff] at hfalse
      obtain ⟨rfl, rfl⟩ := hfalse
      rw [hend rfl] at hpending
      exact hpending.symm

/-! ### All calls -/

/-- The blocks that are returned by the calls from a state on, until one returns `false`. -/
inductive Returns (p : Probe L R O) (capacity : ℕ) : State L R → List (List O) → Prop
  | done {s : State L R} (h : (next p capacity s).1 = false) : Returns p capacity s []
  | block {s : State L R} {blocks : List (List O)} (h : (next p capacity s).1 = true)
      (hrest : Returns p capacity (next p capacity s).2.2 blocks) :
      Returns p capacity s ((next p capacity s).2.1 :: blocks)

/-- **The blocks hold everything once.** -/
theorem flatten_of_returns (hcapacity : 0 < capacity) {s : State L R} {blocks : List (List O)}
    (h : Returns p capacity s blocks) : blocks.flatten = pending p s := by
  induction h with
  | done hfalse => exact ((next_spec hcapacity _).2.2 hfalse).symm
  | block _ _ ih => rw [flatten_cons, ih, (next_spec hcapacity _).1]

/-- **The calls come to an end**: every block takes something from what is left. -/
theorem exists_returns (hcapacity : 0 < capacity) (s : State L R) :
    ∃ blocks, Returns p capacity s blocks := by
  induction hn : (pending p s).length using Nat.strong_induction_on generalizing s with
  | _ n ih =>
    obtain ⟨hpending, htrue, -⟩ := next_spec (p := p) hcapacity s
    cases hnext : (next p capacity s).1 with
    | false => exact ⟨[], .done hnext⟩
    | true =>
      have hpos : 0 < (next p capacity s).2.1.length := List.length_pos_iff.2 (htrue hnext)
      have hlength := congrArg List.length hpending
      rw [length_append] at hlength
      obtain ⟨blocks, hblocks⟩ := ih _ (by omega) (next p capacity s).2.2 rfl
      exact ⟨_, .block hnext hblocks⟩

/-! ### Operators that probe -/

section Operators

variable {S : Type} {call : S → Run (Bool × List O × S)} {s : S} {blocks : List (List O)}

/-- The blocks that the calls of an operator return from a state on, until one returns `false`. -/
inductive Calls (call : S → Run (Bool × List O × S)) : S → List (List O) → Prop
  | done {s s' : S} {os : List O} (h : call s = .ok (false, os, s')) : Calls call s []
  | block {s s' : S} {os : List O} {blocks : List (List O)} (h : call s = .ok (true, os, s'))
      (hrest : Calls call s' blocks) : Calls call s (os :: blocks)

theorem calls_iff {valid : S → Prop} {probing : S → State L R}
    (hcall : ∀ s, valid s → ∃ b os s', call s = .ok (b, os, s') ∧
      next p capacity (probing s) = (b, os, probing s') ∧ valid s') (hs : valid s)
    (blocks : List (List O)) : Calls call s blocks ↔ Returns p capacity (probing s) blocks := by
  constructor
  · intro h
    induction h with
    | done h =>
      obtain ⟨b, os, s', hok, hnext, -⟩ := hcall _ hs
      rw [h] at hok
      cases hok
      exact .done (by rw [hnext])
    | block h _ ih =>
      obtain ⟨b, os, s', hok, hnext, hs'⟩ := hcall _ hs
      rw [h] at hok
      cases hok
      have hreturns := Returns.block (p := p) (by rw [hnext]) (by rw [hnext]; exact ih hs')
      rwa [hnext] at hreturns
  · intro h
    generalize ht : probing s = t at h
    induction h generalizing s with
    | done h =>
      obtain ⟨b, os, s', hok, hnext, -⟩ := hcall s hs
      rw [← ht, hnext] at h
      obtain rfl : b = false := h
      exact .done hok
    | block h _ ih =>
      obtain ⟨b, os, s', hok, hnext, hs'⟩ := hcall s hs
      rw [← ht, hnext] at h ih ⊢
      obtain rfl : b = true := h
      exact .block hok (ih hs' rfl)

theorem not_calls_of_loop {os : List O} (h : call s = .ok (true, os, s)) :
    ¬ Calls call s blocks := by
  intro hcalls
  induction hcalls with
  | done hdone =>
    rw [h] at hdone
    cases hdone
  | block hblock _ ih =>
    rw [h] at hblock
    cases hblock
    exact ih h

end Operators

end Probing
