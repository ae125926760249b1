/-
Filter and project, block by block.

`Next` fills the caller's block from the blocks of the child.  It may stop in the middle of one,
and the iterator of the thread's context keeps the place.  A block is the list of its tuples, with
`free_` at a distance from `start`: tuples of no bytes leave a block empty.
-/
import Mathlib.Tactic

namespace StreamedBlocks

open List

variable {T U V : Type}

/-- A `BlockStreamFix`, whose last four bytes are kept for the number of tuples. -/
structure BlockStream where
  size : ℕ
  tupleSize : ℕ

namespace BlockStream

variable (b : BlockStream) (tuples : List U)

def free : ℕ := tuples.length * b.tupleSize

def allocateTuple : Bool := b.free tuples + b.tupleSize + 4 ≤ b.size

def full : Bool := b.size < b.free tuples + b.tupleSize + 4

def empty : Bool := b.free tuples = 0

/-- The tuples that a new iterator finds: `getTuple` compares with `free_`. -/
def createIterator : List U := if b.tupleSize = 0 then [] else tuples

end BlockStream

section

variable (f : T → Option U) (b : BlockStream)

/-- What is left behind the iterator, and the tuples in the block. -/
def processInLogic : List T → List U → List T × List U
  | [], block => ([], block)
  | tuple :: rest, block =>
    match f tuple with
    | none => processInLogic rest block
    | some u =>
      if b.allocateTuple block then processInLogic rest (block ++ [u]) else (tuple :: rest, block)

/-- The loop of `Next`, with what its iterators are going to find. -/
def ask : List (List T) → List U → Bool × List U × List (List T)
  | [], block => (!b.empty block, block, [])
  | asked :: blocks, block =>
    let (pending, block) := processInLogic f b asked block
    -- a block that is not full had room for all, and nothing is pending
    if b.full block then (true, block, pending :: blocks) else ask blocks block

/-- `Next`, with an empty block of the caller. -/
def next : List (List T) → Bool × List U × List (List T)
  | [] :: blocks => ask f b blocks []
  | blocks => ask f b blocks []

/-- The blocks that the calls return, until one returns `false`. -/
inductive Returns : List (List T) → List (List U) → Prop
  | done {blocks : List (List T)} (h : (next f b blocks).1 = false) : Returns blocks []
  | block {blocks : List (List T)} {outs : List (List U)} (h : (next f b blocks).1 = true)
      (hrest : Returns (next f b blocks).2.2 outs) :
      Returns blocks ((next f b blocks).2.1 :: outs)

/-- The calls come to an end, and return `wanted` in blocks that are not empty. -/
def Streams (child : BlockStream) (blocks : List (List T)) (wanted : List U) : Prop :=
  (∃ outs, Returns f b (blocks.map child.createIterator) outs) ∧
    ∀ outs, Returns f b (blocks.map child.createIterator) outs →
      outs.flatten = wanted ∧ ∀ out ∈ outs, out ≠ []

end

/-- `MoreExprEvaluate` -/
def moreExprEvaluate (condi : List (T → Bool)) (tuple : T) : Bool := condi.all (· tuple)

/-- `PhysicalFilter` -/
def filterTuple (condi : List (T → Bool)) (tuple : T) : Option T :=
  if moreExprEvaluate condi tuple then some tuple else none

/-- The values of the expressions, each with the length of its column. -/
def image (exprs : List (ℕ × (T → V))) (tuple : T) : List V := exprs.map (·.2 tuple)

/-- `PhysicalProject` -/
def projectTuple (exprs : List (ℕ × (T → V))) (tuple : T) : Option (List V) :=
  some (image exprs tuple)

def tupleMaxSize (exprs : List (ℕ × (T → V))) : ℕ := (exprs.map (·.1)).sum

variable {f : T → Option U} {b : BlockStream}

theorem processInLogic_spec (tuples : List T) (block : List U) :
    block ++ tuples.filterMap f = (processInLogic f b tuples block).2 ++
        (processInLogic f b tuples block).1.filterMap f ∧
      (¬ b.full (processInLogic f b tuples block).2 = true →
        (processInLogic f b tuples block).1 = []) := by
  induction tuples generalizing block with
  | nil => exact ⟨rfl, fun _ => rfl⟩
  | cons tuple rest ih =>
    rw [processInLogic]
    cases hemit : f tuple with
    | none =>
      rw [filterMap_cons_none hemit]
      exact ih block
    | some u =>
      by_cases hroom : b.allocateTuple block = true
      · simp only [if_pos hroom]
        rw [filterMap_cons_some hemit, append_cons]
        exact ih (block ++ [u])
      · simp only [if_neg hroom]
        refine ⟨trivial, fun hfull => absurd ?_ hroom⟩
        simpa [BlockStream.full, BlockStream.allocateTuple] using hfull

/-- What a call does that finds `block` in the block and `wanted` to come. -/
structure Serves (f : T → Option U) (block wanted : List U)
    (result : Bool × List U × List (List T)) : Prop where
  same : block ++ wanted = result.2.1 ++ result.2.2.flatten.filterMap f
  block : result.1 = true → result.2.1 ≠ []
  done : result.1 = false → result.2.1 = [] ∧ result.2.2 = []

section

variable (htuple : 0 < b.tupleSize) (hroom : b.tupleSize + 4 ≤ b.size)

include htuple hroom

theorem ask_serves (blocks : List (List T)) (block : List U) :
    Serves f block (blocks.flatten.filterMap f) (ask f b blocks block) := by
  induction blocks generalizing block with
  | nil =>
    have hempty : b.empty block = true ↔ block = [] := by
      simp [BlockStream.empty, BlockStream.free, htuple.ne']
    refine ⟨rfl, fun h hnil => ?_, fun h => ⟨hempty.mp ?_, rfl⟩⟩
    · rw [ask, hempty.mpr hnil] at h
      cases h
    · simpa [ask] using h
  | cons asked blocks ih =>
    obtain ⟨hsame, hpending⟩ := processInLogic_spec (f := f) (b := b) asked block
    rw [flatten_cons, filterMap_append, ask]
    by_cases hfull : b.full (processInLogic f b asked block).2 = true
    · simp only [if_pos hfull]
      refine ⟨?_, fun _ hnil => ?_, fun h => by cases h⟩
      · rw [← append_assoc, hsame, append_assoc, ← filterMap_append, ← flatten_cons]
      · -- an empty block has room for a tuple
        simp only at hnil
        rw [hnil, BlockStream.full, BlockStream.free, length_nil, decide_eq_true_eq] at hfull
        omega
    · simp only [if_neg hfull]
      obtain ⟨hrest, hblock, hdone⟩ := ih (processInLogic f b asked block).2
      rw [hpending hfull, filterMap_nil, append_nil] at hsame
      exact ⟨by rw [← append_assoc, hsame, hrest], hblock, hdone⟩

theorem next_serves (blocks : List (List T)) :
    Serves f [] (blocks.flatten.filterMap f) (next f b blocks) := by
  unfold next
  split
  · rw [flatten_cons, nil_append]
    exact ask_serves htuple hroom _ []
  · exact ask_serves htuple hroom blocks []

theorem exists_returns (blocks : List (List T)) : ∃ outs, Returns f b blocks outs := by
  induction hn : (blocks.flatten.filterMap f).length using Nat.strong_induction_on
    generalizing blocks with
  | _ n ih =>
    obtain ⟨hsame, hblock, -⟩ := next_serves (f := f) htuple hroom blocks
    cases hnext : (next f b blocks).1 with
    | false => exact ⟨[], .done hnext⟩
    | true =>
      have hlength := congrArg length hsame
      rw [nil_append, length_append, hn] at hlength
      have hpos := length_pos_iff.mpr (hblock hnext)
      obtain ⟨outs, houts⟩ := ih _ (by omega) (next f b blocks).2.2 rfl
      exact ⟨_, .block hnext houts⟩

theorem wanted_of_returns {blocks : List (List T)} {outs : List (List U)}
    (h : Returns f b blocks outs) :
    outs.flatten = blocks.flatten.filterMap f ∧ ∀ out ∈ outs, out ≠ [] := by
  induction h with
  | @done blocks h =>
    obtain ⟨hsame, -, hdone⟩ := next_serves (f := f) htuple hroom blocks
    rw [(hdone h).1, (hdone h).2] at hsame
    exact ⟨hsame.symm, fun _ hout => absurd hout not_mem_nil⟩
  | @block blocks outs h _ ih =>
    obtain ⟨hsame, hblock, -⟩ := next_serves (f := f) htuple hroom blocks
    exact ⟨by rw [flatten_cons, ih.1]; exact hsame.symm, forall_mem_cons.mpr ⟨hblock h, ih.2⟩⟩

theorem streams {child : BlockStream} (hchild : 0 < child.tupleSize) (blocks : List (List T)) :
    Streams f b child blocks (blocks.flatten.filterMap f) := by
  have hall : blocks.map child.createIterator = blocks :=
    map_id'' (fun _ => if_neg hchild.ne') blocks
  rw [Streams, hall]
  exact ⟨exists_returns htuple hroom blocks, fun _ => wanted_of_returns htuple hroom⟩

end

/-- **Filter and project stream exactly** where tuples have at least one byte. -/
theorem filter_and_project_stream (child : BlockStream) (blocks : List (List T))
    (condi : List (T → Bool)) (exprs : List (ℕ × (T → V))) (size : ℕ)
    (hchild : 0 < child.tupleSize) :
    (child.tupleSize + 4 ≤ size → Streams (filterTuple condi) ⟨size, child.tupleSize⟩ child blocks
      (blocks.flatten.filter (moreExprEvaluate condi))) ∧
    (0 < tupleMaxSize exprs → tupleMaxSize exprs + 4 ≤ size →
      Streams (projectTuple exprs) ⟨size, tupleMaxSize exprs⟩ child blocks
        (blocks.flatten.map (image exprs))) := by
  refine ⟨fun hroom => ?_, fun htuple hroom => ?_⟩
  · rw [← filterMap_eq_filter, show Option.guard (moreExprEvaluate condi) = filterTuple condi from
      funext fun _ => by simp [filterTuple, Option.guard]]
    exact streams (b := ⟨size, _⟩) hchild hroom hchild blocks
  · rw [← filterMap_eq_map]
    exact streams htuple hroom hchild blocks

theorem two_blocks_streamed :
    Streams (filterTuple [(· < 9)]) ⟨12, 4⟩ ⟨64, 4⟩ [[1, 9], [], [2, 3]] [1, 2, 3] ∧
      Streams (projectTuple [(4, (· + 1))]) ⟨12, 4⟩ ⟨64, 4⟩ [[1, 9], [], [2, 3]]
        [[2], [10], [3], [4]] :=
  have h := filter_and_project_stream ⟨64, 4⟩ [[1, 9], [], [2, 3]] [(· < 9)] [(4, (· + 1))] 12
    (Nat.succ_pos 3)
  ⟨h.1 (by decide), h.2 (by decide) (by decide)⟩

/-- Without an expression the tuples have no bytes, and the block is taken for an empty one. -/
theorem no_expression :
    ¬ Streams (projectTuple ([] : List (ℕ × (ℕ → ℕ)))) ⟨12, 0⟩ ⟨64, 4⟩ [[7, 8]] [[], []] :=
  fun h => absurd (h.2 [] (.done rfl)).1 (by decide)

/-- **An operator above another one** streams what both of them leave. -/
theorem pipeline_streams (htuple : 0 < b.tupleSize) (hroom : b.tupleSize + 4 ≤ b.size)
    (g : U → Option V) {c : BlockStream} (hc : 0 < c.tupleSize) (hcroom : c.tupleSize + 4 ≤ c.size)
    (blocks : List (List T)) {outs : List (List U)} (h : Returns f b blocks outs) :
    Streams g c b outs (blocks.flatten.filterMap fun t => (f t).bind g) := by
  have hout := (wanted_of_returns htuple hroom h).1
  rw [← filterMap_filterMap, ← hout]
  exact streams hc hcroom htuple outs

theorem project_above_filter :
    Streams (projectTuple [(4, (· + 1))]) ⟨12, 4⟩ ⟨12, 4⟩ [[1, 2]] [[2], [3]] :=
  pipeline_streams (f := filterTuple [(· < 9)]) (by decide) (by decide) _ (by decide) (by decide)
    [[1, 9], [2]] (.block rfl (.done rfl))

end StreamedBlocks
