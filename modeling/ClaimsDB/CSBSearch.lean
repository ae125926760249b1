/-
`Search` and the two `rangeQuery` functions: `query` is their common skeleton (descend, find the
first entry, collect to the right) with three tests as parameters.  The answer maps block offsets
to tuple offsets; the search path that the source prints is left out.
-/
import ClaimsDB.CSBNode

namespace CSB

variable {T : Type} [IndexKey T]

abbrev SearchResult := UInt16 → Option (List UInt16)

namespace SearchResult

def empty : SearchResult := fun _ => none

def collect (ret : SearchResult) (d : DataOffset T) : SearchResult :=
  Function.update ret d.blockOff (some ((ret d.blockOff).getD [] ++ [d.tupleOff]))

def collectAll (ret : SearchResult) (ds : List (DataOffset T)) : SearchResult :=
  ds.foldl collect ret

end SearchResult

/-- `for (i = 0; right(getElement(i)._key) && i < used_keys; i++)`: note that the element is read
before the bound is checked. -/
def scanKeys (n : CCSBNode T) (right : T → Bool) : ℕ → ℕ → Run ℕ
  | 0, _ => .error .endless
  | fuel + 1, i => do
    let d ← n.getElement i
    if right d.key = true ∧ i < n.usedKeys then scanKeys n right fuel (i + 1) else .ok i

def descend (h : Heap T) (right : T → Bool) : ℕ → Option NodePtr → Run (Option NodePtr)
  | 0, p => .ok p
  | depth + 1, p => do
    let n ← h.readNode p
    let i ← scanKeys n right (n.usedKeys + 1) 0
    let c ← h.getNode n.getPointer i
    descend h right depth c

/-- `for (i = 0; i < used_keys; i++) if (start(getElement(i)._key)) break;` -/
def scanDatas (n : CCSBNode T) (start : T → Bool) : ℕ → ℕ → Run ℕ
  | 0, i => .ok i
  | fuel + 1, i => do
    let d ← n.getElement i
    if start d.key = true then .ok i else scanDatas n start fuel (i + 1)

/-- The loop over a leaf node; `true` tells that a key was not within the answer. -/
def collectNode (n : CCSBNode T) (within : T → Bool) :
    ℕ → ℕ → SearchResult → Run (SearchResult × Bool)
  | 0, _, ret => .ok (ret, false)
  | fuel + 1, i, ret => do
    let d ← n.getElement i
    if within d.key = true then collectNode n within fuel (i + 1) (ret.collect d)
    else .ok (ret, true)

/-- `for (; j < used_nodes; j++)` over the nodes of a leaf group, starting at entry `i`. -/
def collectGroup (h : Heap T) (g : GroupPtr) (within : T → Bool) :
    ℕ → ℕ → ℕ → SearchResult → Run (SearchResult × Bool)
  | 0, _, _, ret => .ok (ret, false)
  | fuel + 1, j, i, ret => do
    let node ← h.getNode (some g) j
    let n ← h.readNode node
    let (ret, stop) ← collectNode n within (n.usedKeys - i) i ret
    if stop then .ok (ret, true) else collectGroup h g within fuel (j + 1) 0 ret

/-- `while (search_node_group != NULL)` along the tailers. -/
def collectList (h : Heap T) (within : T → Bool) :
    ℕ → Option GroupPtr → ℕ → ℕ → SearchResult → Run SearchResult
  | _, none, _, _, ret => .ok ret
  | 0, some _, _, _, _ => .error .endless
  | fuel + 1, some g, j, i, ret => do
    let G ← h.readGroup (some g)
    let (ret, stop) ← collectGroup h g within (G.usedNodes - j) j i ret
    if stop then .ok ret
    else do
      let tl ← h.getTailerNG (some g)
      collectList h within fuel tl 0 0 ret

/-- `for (j = 0; j < used_nodes; j++) if (search_node == getNode(j)) break;` -/
def findNode (h : Heap T) (g : Option GroupPtr) (p : NodePtr) : ℕ → ℕ → Run ℕ
  | 0, j => .ok j
  | fuel + 1, j => do
    let c ← h.getNode g j
    if c = some p then .ok j else findNode h g p fuel (j + 1)

/-- The common skeleton; `fallsThrough`: from an exhausted root leaf on to its missing father. -/
def query (t : CSBPlusTree T) (right start within : T → Bool) (fallsThrough : Bool) :
    Run SearchResult := do
  match ← descend t.heap right (t.csbDepth - 1) t.csbRoot with
  | none => .ok .empty
  | some p => do
    let n ← t.heap.readNode (some p)
    let i ← scanDatas n start n.usedKeys 0
    match n.pFather with
    | none => do
      let (ret, stop) ← collectNode n within (n.usedKeys - i) i .empty
      if fallsThrough && !stop then .error .nullDeref else .ok ret
    | some f => do
      let father ← t.heap.readNode (some f)
      let G ← t.heap.readGroup father.getPointer
      let j ← findNode t.heap father.getPointer p G.usedNodes 0
      collectList t.heap within (t.heap.nextGroup + 1) father.getPointer j i .empty

def search (t : CSBPlusTree T) (key : T) : Run SearchResult :=
  query t (fun k => decide (k < key)) (fun k => decide (key = k)) (fun k => decide (key = k)) false

def rangeQuery (t : CSBPlusTree T) (lowerKey upperKey : T) : Run SearchResult :=
  if upperKey < lowerKey then .ok .empty
  else query t (fun k => decide (k < lowerKey)) (fun k => decide (lowerKey ≤ k))
    (fun k => decide (lowerKey ≤ k ∧ k ≤ upperKey)) false

inductive Comparison
  | eq | l | leq | g | geq
  deriving DecidableEq, Repr

def rangeQueryComp (t : CSBPlusTree T) (lowerKey : T) (compLower : Comparison) (upperKey : T)
    (compUpper : Comparison) : Run SearchResult :=
  match compLower, compUpper with
  | .eq, _ => search t lowerKey
  | .geq, .leq =>
    if upperKey < lowerKey then .ok .empty
    else query t (fun k => decide (k < lowerKey)) (fun k => decide (lowerKey ≤ k))
      (fun k => decide (lowerKey ≤ k ∧ k ≤ upperKey)) true
  | .geq, .l =>
    if upperKey < lowerKey then .ok .empty
    else query t (fun k => decide (k < lowerKey)) (fun k => decide (lowerKey ≤ k))
      (fun k => decide (lowerKey ≤ k ∧ k < upperKey)) true
  | .g, .leq =>
    if upperKey < lowerKey then .ok .empty
    else query t (fun k => decide (k ≤ lowerKey)) (fun k => decide (lowerKey < k))
      (fun k => decide (lowerKey < k ∧ k ≤ upperKey)) true
  | .g, .l =>
    if upperKey < lowerKey then .ok .empty
    else query t (fun k => decide (k ≤ lowerKey)) (fun k => decide (lowerKey < k))
      (fun k => decide (lowerKey < k ∧ k < upperKey)) true
  -- not a range
  | _, _ => .ok .empty

end CSB
