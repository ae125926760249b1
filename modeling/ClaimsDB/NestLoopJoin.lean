/-
The nested-loop join.  `Next` goes through the buffered left blocks for each right tuple; three
cursors survive a call.
-/
import ClaimsDB.Probing

namespace NestLoopJoin

open List
open Probing

variable {L R : Type}

def withJoinCondi (joinCondi : List (L → R → Bool)) (l : L) (r : R) : Bool :=
  joinCondi.all fun c => c l r

def withoutJoinCondi (_ : L) (_ : R) : Bool := true

/-- `join_condi_process_`, as `Open` chooses it. -/
def joinCondiProcess (joinCondi : List (L → R → Bool)) : L → R → Bool :=
  if joinCondi.length = 0 then withoutJoinCondi else withJoinCondi joinCondi

/-- `buffer_stream_iterator_` from the current tuple on, and the blocks still to come. -/
structure Cursor (L : Type) where
  stream : List L
  rest : List (List L)

def Cursor.tuples (c : Cursor L) : List L := c.stream ++ c.rest.flatten

/-- The variables that a call leaves to the next one.  There is no cursor while
`buffer_stream_iterator_` is `NULL`. -/
structure State (L R : Type) where
  blocks : List (List R)
  right : List R
  cursor : Option (Cursor L)

def start (right : List (List R)) : State L R := ⟨right, [], none⟩

/-- `Next` as a probe of the whole buffer. -/
def probe (joinCondi : List (L → R → Bool)) (buffer : List (List L)) : Probe L R (L × R) where
  chain _ := buffer.flatten
  onPair l r := if joinCondiProcess joinCondi l r then some (l, r) else none
  onEmpty _ := none

variable (joinCondi : List (L → R → Bool)) (buffer : List (List L))

/-- The loops over the buffer for one right tuple: what is written, and the place in the buffer when
the output block is full. -/
def visitBuffer (r : R) : List L → List (List L) → ℕ → List (L × R) × Option (Cursor L)
  | stream, rest, room =>
    match visitChain (probe joinCondi buffer) r stream room with
    | (os, some stream) => (os, some ⟨stream, rest⟩)
    | (os, none) =>
      match rest with
      | [] => (os, none)
      | block :: rest =>
        let more := visitBuffer r block rest (room - os.length)
        (os ++ more.1, more.2)

/-- `ResetCur`, and an iterator for the first block. -/
def firstBlock : List (List L) → Option (Cursor L)
  | [] => none
  | block :: rest => some ⟨block, rest⟩

def visitRight :
    List R → Option (Cursor L) → ℕ → Run (List (L × R) × Option (List R × Cursor L))
  | [], _, _ => .ok ([], none)
  | _ :: _, none, _ => .error .nullDeref
  | r :: rs, some c, room =>
    match visitBuffer joinCondi buffer r c.stream c.rest room with
    | (os, some c) => .ok (os, some (r :: rs, c))
    | (os, none) =>
      match firstBlock buffer with
      | none => .error .assertFailed
      | some c => do
        let more ← visitRight rs (some c) (room - os.length)
        return (os ++ more.1, more.2)

inductive Stop
  | blockFull
  | bufferEmpty
  | rightExhausted
  deriving DecidableEq

/-- `Next` with `room` left; with an empty buffer all right blocks are dropped. -/
def fill : List (List R) → List R → Option (Cursor L) → ℕ → Run (List (L × R) × Stop × State L R)
  | blocks, right, cursor, room => do
    match ← visitRight joinCondi buffer right cursor room with
    | (os, some (right, c)) => return (os, .blockFull, ⟨blocks, right, some c⟩)
    | (os, none) =>
      match firstBlock buffer with
      | none => return (os, .bufferEmpty, ⟨[], [], cursor⟩)
      | some c =>
        match blocks with
        | [] => return (os, .rightExhausted, ⟨[], [], some c⟩)
        | block :: blocks =>
          let more ← fill blocks block (some c) (room - os.length)
          return (os ++ more.1, more.2)
termination_by structural blocks => blocks

def next (capacity : ℕ) (s : State L R) : Run (Bool × List (L × R) × State L R) := do
  let (os, stop, s) ← fill joinCondi buffer s.blocks s.right s.cursor capacity
  match stop with
  | .blockFull => return (true, os, s)
  | .bufferEmpty => return (false, os, s)
  | .rightExhausted => return (!os.isEmpty, os, s)

/-! ### The buffer as one list -/

def Valid (s : State L R) : Prop := s.right ≠ [] → buffer ≠ [] ∧ s.cursor.isSome

def left (right : List R) (cursor : Option (Cursor L)) : List L :=
  match right, cursor with
  | _ :: _, some c => c.tuples
  | _, _ => []

def State.probing (s : State L R) : Probing.State L R := ⟨s.blocks, s.right, left s.right s.cursor⟩

variable {joinCondi buffer}

variable (joinCondi buffer) in
theorem visitBuffer_eq (r : R) (stream : List L) (rest : List (List L)) (room : ℕ) :
    visitTuple (probe joinCondi buffer) r (stream ++ rest.flatten) room =
      ((visitBuffer joinCondi buffer r stream rest room).1,
        (visitBuffer joinCondi buffer r stream rest room).2.map Cursor.tuples) := by
  rw [visitTuple_eq_visitChain rfl]
  induction rest generalizing stream room with
  | nil =>
    rw [visitBuffer, flatten_nil, append_nil]
    cases hv : visitChain (probe joinCondi buffer) r stream room with
    | mk os rest => cases rest <;> simp [Cursor.tuples]
  | cons block rest ih =>
    rw [visitBuffer, flatten_cons, visitChain_append]
    cases hv : visitChain (probe joinCondi buffer) r stream room with
    | mk os left =>
      cases left with
      | some left => simp [Cursor.tuples]
      | none => simp only [ih]

theorem tuples_of_firstBlock {c : Cursor L} (h : firstBlock buffer = some c) :
    c.tuples = buffer.flatten := by
  cases buffer with
  | nil => cases h
  | cons block rest =>
    obtain rfl := Option.some.inj h
    rfl

theorem place_eq_left {c : Cursor L} (h : firstBlock buffer = some c) (right : List R) :
    place (probe joinCondi buffer) right = left right (some c) := by
  cases right with
  | nil => rfl
  | cons r rs => exact (tuples_of_firstBlock h).symm

variable (joinCondi) in
theorem visitRight_probes {first : Cursor L} (hfirst : firstBlock buffer = some first)
    (right : List R) (c : Cursor L) (room : ℕ) :
    ∃ v, visitRight joinCondi buffer right (some c) room = .ok v ∧
      visitBlock (probe joinCondi buffer) right (left right (some c)) room =
        (v.1, v.2.map fun rest => (rest.1, rest.2.tuples)) ∧
      ∀ rest ∈ v.2, rest.1 ≠ [] := by
  induction right generalizing c room with
  | nil => exact ⟨_, rfl, rfl, by simp⟩
  | cons r rs ih =>
    have htuple := visitBuffer_eq joinCondi buffer r c.stream c.rest room
    rw [visitRight, visitBlock, left, Cursor.tuples, htuple]
    cases hv : visitBuffer joinCondi buffer r c.stream c.rest room with
    | mk os rest =>
      cases rest with
      | some rest => exact ⟨_, rfl, rfl, by simp⟩
      | none =>
        obtain ⟨v, hv, hblock, hne⟩ := ih first (room - os.length)
        refine ⟨(os ++ v.1, v.2), ?_, ?_, hne⟩
        · simp only [hfirst, hv]
          rfl
        · simp only [Option.map_none, place_eq_left hfirst, hblock]

theorem visitBlock_of_empty (right : List R) (room : ℕ) :
    visitBlock (probe joinCondi []) right (place (probe joinCondi []) right) room = ([], none) := by
  induction right generalizing room with
  | nil => rfl
  | cons r rs ih =>
    rw [visitBlock]
    show (([] : List (L × R)) ++ _, _) = _
    rw [ih]
    rfl

theorem fill_of_empty (blocks : List (List R)) (right : List R) (room : ℕ) :
    Probing.fill (probe joinCondi []) blocks right (place (probe joinCondi []) right) room =
      ([], false, ⟨[], [], []⟩) := by
  induction blocks generalizing right room with
  | nil => rw [Probing.fill, visitBlock_of_empty]
  | cons block blocks ih =>
    rw [Probing.fill, visitBlock_of_empty]
    simp only
    rw [ih]
    rfl

/-- What `fill` returns is what `Probing.fill` returns for the buffer as one list. -/
def FillProbes (joinCondi : List (L → R → Bool)) (buffer : List (List L)) (blocks : List (List R))
    (right : List R) (cursor : Option (Cursor L)) (room : ℕ) : Prop :=
  ∃ os stop s, fill joinCondi buffer blocks right cursor room = .ok (os, stop, s) ∧
    Probing.fill (probe joinCondi buffer) blocks right (left right cursor) room =
      (os, decide (stop = .blockFull), s.probing) ∧
    (stop = .bufferEmpty → buffer = [] ∧ os = []) ∧ Valid buffer s

variable (joinCondi) in
theorem fill_probes_of_block {first : Cursor L} (hfirst : firstBlock buffer = some first)
    (blocks : List (List R)) (right : List R) (c : Cursor L) (room : ℕ) :
    FillProbes joinCondi buffer blocks right (some c) room := by
  have hne : buffer ≠ [] := by
    rintro rfl
    cases hfirst
  induction blocks generalizing right c room with
  | nil =>
    obtain ⟨⟨os, rest⟩, hright, hblock, hrest⟩ :=
      visitRight_probes joinCondi hfirst right c room
    unfold FillProbes
    rw [fill, Probing.fill, hright, hblock]
    cases rest with
    | none =>
      refine ⟨os, .rightExhausted, ⟨[], [], some first⟩, ?_, rfl, by simp, by simp [Valid]⟩
      simp only [Run.bind_ok, hfirst]
      rfl
    | some rest =>
      refine ⟨os, .blockFull, ⟨[], rest.1, some rest.2⟩, rfl, ?_, by simp, fun _ => ⟨hne, rfl⟩⟩
      obtain ⟨r, rs, hcons⟩ := exists_cons_of_ne_nil (hrest rest rfl)
      simp [State.probing, left, hcons]
  | cons block blocks ih =>
    obtain ⟨⟨os, rest⟩, hright, hblock, hrest⟩ :=
      visitRight_probes joinCondi hfirst right c room
    unfold FillProbes
    rw [fill, Probing.fill, hright, hblock]
    cases rest with
    | none =>
      obtain ⟨more, stop, s, hfill, hprobe, hempty, hvalid⟩ := ih block first (room - os.length)
      refine ⟨os ++ more, stop, s, ?_, ?_, fun h => absurd (hempty h).1 hne, hvalid⟩
      · simp only [Run.bind_ok, hfirst, hfill]
        rfl
      · simp only [Option.map_none]
        rw [place_eq_left hfirst, hprobe]
    | some rest =>
      refine ⟨os, .blockFull, ⟨block :: blocks, rest.1, some rest.2⟩, rfl, ?_, by simp,
        fun _ => ⟨hne, rfl⟩⟩
      obtain ⟨r, rs, hcons⟩ := exists_cons_of_ne_nil (hrest rest rfl)
      simp [State.probing, left, hcons]

variable (joinCondi) in
theorem fill_probes {s : State L R} (h : Valid buffer s) (room : ℕ) :
    FillProbes joinCondi buffer s.blocks s.right s.cursor room := by
  obtain ⟨blocks, right, cursor⟩ := s
  cases right with
  | cons r rs =>
    obtain ⟨hne, hsome⟩ := h (cons_ne_nil r rs)
    obtain ⟨c, rfl⟩ := Option.isSome_iff_exists.1 hsome
    obtain ⟨block, rest, rfl⟩ := exists_cons_of_ne_nil hne
    exact fill_probes_of_block joinCondi rfl _ _ _ _
  | nil =>
    cases buffer with
    | nil =>
      refine ⟨[], .bufferEmpty, ⟨[], [], cursor⟩, ?_, fill_of_empty blocks [] room,
        fun _ => ⟨rfl, rfl⟩, fun h => absurd rfl h⟩
      rw [fill, visitRight]
      rfl
    | cons block rest =>
      -- the cursor is not used before the first right block has come
      obtain ⟨os, stop, s, hfill, hrest⟩ :=
        fill_probes_of_block joinCondi (show firstBlock (block :: rest) = _ from rfl) blocks []
          ⟨[], []⟩ room
      refine ⟨os, stop, s, ?_, hrest⟩
      rw [← hfill, fill, fill, visitRight, visitRight]
      rfl

variable (joinCondi) in
/-- **One call** succeeds, and does what it would do with the buffer as one list. -/
theorem next_probes {s : State L R} (h : Valid buffer s) (capacity : ℕ) :
    ∃ b os s', next joinCondi buffer capacity s = .ok (b, os, s') ∧
      Probing.next (probe joinCondi buffer) capacity s.probing = (b, os, s'.probing) ∧
      Valid buffer s' := by
  obtain ⟨os, stop, s', hfill, hprobe, hempty, hvalid⟩ :=
    fill_probes joinCondi h capacity
  have hnext : Probing.next (probe joinCondi buffer) capacity s.probing =
      (decide (stop = .blockFull) || !os.isEmpty, os, s'.probing) := by
    unfold Probing.next
    simp only [State.probing] at hprobe ⊢
    rw [hprobe]
  unfold next
  rw [hfill, hnext]
  cases stop with
  | blockFull | rightExhausted => exact ⟨_, _, _, rfl, rfl, hvalid⟩
  | bufferEmpty =>
    obtain ⟨-, rfl⟩ := hempty rfl
    exact ⟨_, _, _, rfl, rfl, hvalid⟩

/-! ### All calls -/

inductive Called (joinCondi : List (L → R → Bool)) (buffer : List (List L)) (s₀ : State L R) :
    State L R → Prop
  | refl : Called joinCondi buffer s₀ s₀
  | call {s s' : State L R} {capacity : ℕ} {b : Bool} {os : List (L × R)}
      (h : Called joinCondi buffer s₀ s) (hnext : next joinCondi buffer capacity s = .ok (b, os, s')) :
      Called joinCondi buffer s₀ s'

theorem valid_of_called {s₀ s : State L R} (h₀ : Valid buffer s₀)
    (h : Called joinCondi buffer s₀ s) : Valid buffer s := by
  induction h with
  | refl => exact h₀
  | call _ hnext ih =>
    obtain ⟨_, _, _, hok, -, hvalid⟩ := next_probes joinCondi ih _
    rw [hnext] at hok
    cases hok
    exact hvalid

def pairs (joinCondi : List (L → R → Bool)) (left : List L) (right : List R) : List (L × R) :=
  (right.flatMap fun r => left.map fun l => (l, r)).filter fun p => joinCondi.all fun c => c p.1 p.2

theorem joinCondiProcess_eq (l : L) (r : R) :
    joinCondiProcess joinCondi l r = joinCondi.all fun c => c l r := by
  cases joinCondi <;> rfl

theorem output_eq (r : R) :
    output (probe joinCondi buffer) r =
      (buffer.flatten.map fun l => (l, r)).filter fun p => joinCondi.all fun c => c p.1 p.2 := by
  have houtput : output (probe joinCondi buffer) r =
      buffer.flatten.filterMap ((probe joinCondi buffer).onPair · r) := by
    unfold output tupleOutput
    split
    · rename_i hnil
      rw [show buffer.flatten = [] from hnil]
      rfl
    · rfl
  rw [houtput, ← filterMap_eq_filter, filterMap_map]
  refine filterMap_congr fun l _ => ?_
  show (if joinCondiProcess joinCondi l r then some (l, r) else none) = _
  rw [joinCondiProcess_eq]
  rfl

theorem pending_start (right : List (List R)) :
    pending (probe joinCondi buffer) (start right : State L R).probing =
      pairs joinCondi buffer.flatten right.flatten := by
  unfold pairs
  rw [filter_flatMap]
  exact flatMap_congr fun r _ => output_eq r

/-- **The nested-loop join is the filtered cross product**, with room for a tuple. -/
theorem nest_loop_join_is_join (joinCondi : List (L → R → Bool)) (left : List (List L))
    (right : List (List R)) (capacity : ℕ) (hcapacity : 0 < capacity) :
    (∃ blocks, Calls (next joinCondi left capacity) (start right) blocks) ∧
      (∀ blocks, Calls (next joinCondi left capacity) (start right) blocks →
        blocks.flatten.Perm (pairs joinCondi left.flatten right.flatten)) ∧
      ∀ s, Called joinCondi left (start right) s →
        ∀ room, next joinCondi left room s ≠ .error .assertFailed := by
  have hvalid : Valid left (start right : State L R) := fun h => absurd rfl h
  have hcalls := calls_iff (fun s hs => next_probes joinCondi hs capacity) hvalid
  refine ⟨?_, fun blocks hblocks => ?_, fun s hs room => ?_⟩
  · obtain ⟨blocks, hblocks⟩ := exists_returns (p := probe joinCondi left) hcapacity
      (start right : State L R).probing
    exact ⟨blocks, (hcalls blocks).2 hblocks⟩
  · have hflatten := flatten_of_returns hcapacity ((hcalls blocks).1 hblocks)
    rw [hflatten, pending_start]
  · obtain ⟨_, _, _, hok, -⟩ := next_probes joinCondi (valid_of_called hvalid hs) room
    rw [hok]
    exact fun h => by cases h

theorem join_of_split_blocks :
    let below := [fun l r => decide (l ≤ r)]
    (∃ blocks, Calls (next below [[3], [], [1, 2]] 1) (start [[], [2, 0]]) blocks) ∧
      (∀ blocks, Calls (next below [[3], [], [1, 2]] 1) (start [[], [2, 0]]) blocks →
        blocks.flatten.Perm [(1, 2), (2, 2)]) ∧
      ∀ s, Called below [[3], [], [1, 2]] (start [[], [2, 0]]) s →
        ∀ room, next below [[3], [], [1, 2]] room s ≠ .error .assertFailed :=
  nest_loop_join_is_join [fun l r => decide (l ≤ r)] [[3], [], [1, 2]] [[], [2, 0]] 1 (by decide)

/-- Without room for a pair a call returns an empty block and changes nothing. -/
theorem join_endless :
    pairs ([] : List (ℕ → ℕ → Bool)) [1] [2] = [(1, 2)] ∧
      ∀ blocks, ¬ Calls (next [] [[1]] 0) (start [[2]] : State ℕ ℕ) blocks := by
  have hloop : next [] [[1]] 0 (⟨[], [2], some ⟨[1], []⟩⟩ : State ℕ ℕ) =
      .ok (true, [], ⟨[], [2], some ⟨[1], []⟩⟩) := by
    rw [next, fill]
    rfl
  have hnext : next [] [[1]] 0 (start [[2]] : State ℕ ℕ) =
      .ok (true, [], ⟨[], [2], some ⟨[1], []⟩⟩) := by
    simp only [next, start, fill, visitRight, firstBlock, Run.bind_ok]
    rfl
  refine ⟨rfl, fun blocks h => ?_⟩
  cases h with
  | done h =>
    rw [hnext] at h
    cases h
  | block h hrest =>
    rw [hnext] at h
    cases h
    exact not_calls_of_loop hloop hrest

end NestLoopJoin
