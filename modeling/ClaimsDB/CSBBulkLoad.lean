/-
`CSBPlusTree<T>::BulkLoad`, bottom up from a sorted array.

`makeLeafNodeGroup` deals the array out to leaf nodes, `makeInternalNodeGroup` builds one level
over the groups below, and `bulkLoad` repeats this until one node is left.  Arrays are written
front to back: each is the list of what has been written, checked against its length (`Run.push`).
-/
import ClaimsDB.BalancedPieces
import ClaimsDB.CSBNode

namespace CSB

open List

variable {T : Type} [IndexKey T]

/-- The state of the loops that deal out an array: the heap, the index of the
next array element, and the key array filled so far. -/
structure Deal (T : Type) where
  heap : Heap T
  i : ℕ
  keys : List T

def setUsed (h : Heap T) (node : Option NodePtr) (count : ℕ) : Run (Heap T) :=
  h.modifyNode node fun n => .ok (n.setUsedKeys count)

def setFather (h : Heap T) (node father : Option NodePtr) : Run (Heap T) :=
  h.modifyNode node fun n => .ok (n.setFather father)

def forGroup (groups : List GroupPtr) (body : Option NodePtr → Deal T → Run (Deal T))
    (s : Deal T) (counter : ℕ) : Run (Deal T) := do
  let g ← Run.index groups counter
  let G ← s.heap.readGroup (some g)
  (range G.usedNodes).foldlM (fun s j => do
    let node ← s.heap.getNode (some g) j
    body node s) s

/-- The loop over a leaf node: `aray[i]` goes to `slot k i`, and first keys are recorded. -/
def fillDatas (aray : List (DataOffset T)) (keyCap : ℕ) (slot : ℕ → ℕ → ℕ)
    (record : ℕ → Bool) (node : Option NodePtr) (count : ℕ) (s : Deal T) : Run (Deal T) :=
  (range count).foldlM (fun s k => do
    let d ← Run.index aray s.i
    let h ← s.heap.modifyNode node (·.setData (slot k s.i) d)
    let keys ← if record s.i = true ∧ k = 0 then Run.push keyCap s.keys d.key else pure s.keys
    pure ⟨h, s.i + 1, keys⟩) s

def fillAndSet (aray : List (DataOffset T)) (keyCap : ℕ) (slot : ℕ → ℕ → ℕ)
    (record : ℕ → Bool) (node : Option NodePtr) (count : ℕ) (s : Deal T) :
    Run (Deal T) := do
  let s ← fillDatas aray keyCap slot record node count s
  let h ← setUsed s.heap node count
  pure { s with heap := h }

def fillUsed (aray : List (DataOffset T)) (keyCap : ℕ) (record : ℕ → Bool)
    (node : Option NodePtr) (s : Deal T) : Run (Deal T) := do
  let n ← s.heap.readNode node
  fillDatas aray keyCap (fun k _ => k) record node n.usedKeys s

/-- `makeLeafNodeGroup`, the branch for a single group `leaf[0]`. -/
def fillOneLeafGroup (aray : List (DataOffset T)) (keyCap : ℕ) (leaf : GroupPtr)
    (leafNodeNum : ℕ) (s : Deal T) : Run (Deal T) := do
  let s ← (range (leafNodeNum - 2)).foldlM (fun s counter => do
    let node ← s.heap.getNode (some leaf) counter
    -- the inner loop stops at `max_datas` elements or at the end of the array
    fillAndSet aray keyCap (fun _ i => i % maxDatas T) (fun _ => decide (counter ≠ 0)) node
      (min (maxDatas T) (aray.length - s.i)) s) s
  if maxDatas T / 2 ≤ aray.length - (leafNodeNum - 1) * maxDatas T then
    (range' (leafNodeNum - 2) 2).foldlM (fun s counter => do
      let node ← s.heap.getNode (some leaf) counter
      fillAndSet aray keyCap (fun k _ => k) (fun _ => decide (counter ≠ 0)) node
        (min (maxDatas T) (aray.length - s.i)) s) s
  else do
    -- the last two nodes share the rest
    let rest := aray.length - maxDatas T * (leafNodeNum - 2)
    let node ← s.heap.getNode (some leaf) (leafNodeNum - 2)
    let h ← setUsed s.heap node (if rest % 2 = 1 then rest / 2 + 1 else rest / 2)
    let node ← h.getNode (some leaf) (leafNodeNum - 2 + 1)
    let h ← setUsed h node (rest / 2)
    (range' (leafNodeNum - 2) 2).foldlM (fun s counter => do
      let node ← s.heap.getNode (some leaf) counter
      fillUsed aray keyCap (fun _ => decide (counter ≠ 0)) node s) { s with heap := h }

/-- The sizes of `num ≥ 2` groups, the last two evened out when `rest` is too small. -/
def groupSizes (T : Type) [IndexKey T] (num rest : ℕ) : List ℕ :=
  replicate (num - 2) (maxKeys T + 1) ++
    Pieces.lastTwo (maxKeys T + 1) (maxKeys T / 2 + 1) rest

def allocGroups (newNodeGroup : Heap T → ℕ → Heap T) (cap : ℕ) (sizes : List ℕ)
    (h : Heap T) : Run (List GroupPtr × Heap T) :=
  sizes.foldlM (fun (gs, h) n => do
    let gs ← Run.push cap gs h.nextGroup
    pure (gs, newNodeGroup h n)) ([], h)

def fillLastGroup (aray : List (DataOffset T)) (keyCap : ℕ) (g : GroupPtr) (s : Deal T) :
    Run (Deal T) := do
  let restdata := if aray.length % maxDatas T = 0 then maxDatas T else aray.length % maxDatas T
  let G ← s.heap.readGroup (some g)
  -- the unsigned `used_nodes - 2` of a smaller group would leave the array
  if G.usedNodes < 2 then .error .outOfBounds
  else do
    let h ← (range (G.usedNodes - 2)).foldlM (fun h j => do
      let node ← h.getNode (some g) j
      setUsed h node (maxDatas T)) s.heap
    let counts := Pieces.lastTwo (maxDatas T) (maxDatas T / 2) restdata
    let node ← h.getNode (some g) (G.usedNodes - 2)
    let h ← setUsed h node (counts.getD 0 0)
    let node ← h.getNode (some g) (G.usedNodes - 2 + 1)
    let h ← setUsed h node (counts.getD 1 0)
    (range G.usedNodes).foldlM (fun s j => do
      let node ← s.heap.getNode (some g) j
      fillUsed aray keyCap (fun i => decide (i ≠ 0)) node s) { s with heap := h }

/-- `makeLeafNodeGroup`, the branch for at least two groups: the data of all
groups, once the groups are allocated. -/
def fillLeafGroups (aray : List (DataOffset T)) (keyCap : ℕ) (leaf : List GroupPtr)
    (num : ℕ) (s : Deal T) : Run (Deal T) := do
  -- the nodes of all groups but the last are filled to their capacity
  let s ← (range (num - 1)).foldlM (forGroup leaf
    (fillAndSet aray keyCap (fun k _ => k) (fun i => decide (i ≠ 0)) · (maxDatas T) ·)) s
  let g ← Run.index leaf (num - 1)
  fillLastGroup aray keyCap g s

def linkLeafGroups (h : Heap T) (leaf : List GroupPtr) (num : ℕ) : Run (Heap T) := do
  let first ← Run.index leaf 0
  let h ← h.setHeaderNG (some first) none
  let last ← Run.index leaf (num - 1)
  let h ← h.setTailerNG (some last) none
  let h ← (range (num - 1)).foldlM (fun h i => do
    let a ← Run.index leaf i
    let b ← Run.index leaf (i + 1)
    h.setTailerNG (some a) (some b)) h
  (range (num - 1)).foldlM (fun h i => do
    let a ← Run.index leaf i
    let b ← Run.index leaf (i + 1)
    h.setHeaderNG (some b) (some a)) h

def dealLeaves (h : Heap T) (aray : List (DataOffset T)) (groupCap keyCap num : ℕ) :
    Run (List GroupPtr × Deal T) :=
  if num = 1 then do
    let leafNodeNum := aray.length ⌈/⌉ maxDatas T
    let (leaf, h) ← allocGroups Heap.newLeafNodeGroup groupCap [leafNodeNum] h
    let g ← Run.index leaf 0
    let s ← fillOneLeafGroup aray keyCap g leafNodeNum ⟨h, 0, []⟩
    pure (leaf, s)
  else do
    let rest := (aray.length - (num - 1) * (maxKeys T + 1) * maxDatas T) ⌈/⌉ maxDatas T
    let (leaf, h) ← allocGroups Heap.newLeafNodeGroup groupCap (groupSizes T num rest) h
    let s ← fillLeafGroups aray keyCap leaf num ⟨h, 0, []⟩
    pure (leaf, s)

/-- The leaf level: the tree, its groups and the first keys of all leaves but the first. -/
def makeLeafNodeGroup (t : CSBPlusTree T) (aray : List (DataOffset T)) (groupCap keyCap : ℕ) :
    Run (CSBPlusTree T × List GroupPtr × List T) := do
  let num := (aray.length ⌈/⌉ maxDatas T) ⌈/⌉ (maxKeys T + 1)
  let (leaf, s) ← dealLeaves t.heap aray groupCap keyCap num
  let h ← linkLeafGroups s.heap leaf num
  let first ← Run.index leaf 0
  let last ← Run.index leaf (num - 1)
  pure ({ t with heap := h, leafHeader := some first, leafTailer := some last,
                 csbDepth := t.csbDepth + 1 }, leaf, s.keys)

/-- The loop `for (k = 0; k < count; k++) node->setElement(k, aray[i++])`. -/
def fillKeys (aray : List T) (node : Option NodePtr) (count : ℕ) (s : Deal T) :
    Run (Deal T) :=
  (range count).foldlM (fun s k => do
    let x ← Run.index aray s.i
    let h ← s.heap.modifyNode node (·.setKey k x)
    pure { s with heap := h, i := s.i + 1 }) s

/-- Fill an internal node with `count` keys and, when `more i` holds, give the
next key to the level above. -/
def fillInternalNode (aray : List T) (upperCap : ℕ) (more : ℕ → Bool)
    (node : Option NodePtr) (count : ℕ) (s : Deal T) : Run (Deal T) := do
  let s ← fillKeys aray node count s
  let h ← setUsed s.heap node count
  if more s.i = true then do
    let x ← Run.index aray s.i
    let keys ← Run.push upperCap s.keys x
    pure ⟨h, s.i + 1, keys⟩
  else pure { s with heap := h }

/-- The keys of a level; its last two nodes take as many keys as their children need. -/
def fillInternalGroups (aray : List T) (upperCap : ℕ) (internal leaf : List GroupPtr)
    (num leafNodeGroupNum : ℕ) (s : Deal T) : Run (Deal T) := do
  let s ← (range (num - 1)).foldlM (forGroup internal
    (fillInternalNode aray upperCap (fun _ => true) · (maxKeys T) ·)) s
  let g ← Run.index internal (num - 1)
  let G ← s.heap.readGroup (some g)
  if G.usedNodes < 2 then .error .outOfBounds
  else do
    let s ← (range (G.usedNodes - 2)).foldlM (fun s j => do
      let node ← s.heap.getNode (some g) j
      fillInternalNode aray upperCap (fun _ => true) node (maxKeys T) s) s
    let l ← Run.index leaf (leafNodeGroupNum - 2)
    let L ← s.heap.readGroup (some l)
    let node ← s.heap.getNode (some g) (G.usedNodes - 2)
    let h ← setUsed s.heap node (L.usedNodes - 1)
    let l ← Run.index leaf (leafNodeGroupNum - 1)
    let L ← h.readGroup (some l)
    let node ← h.getNode (some g) (G.usedNodes - 2 + 1)
    let h ← setUsed h node (L.usedNodes - 1)
    (range' (G.usedNodes - 2) 2).foldlM (fun s j => do
      let node ← s.heap.getNode (some g) j
      let n ← s.heap.readNode node
      fillInternalNode aray upperCap (fun i => decide (i < aray.length)) node n.usedKeys s)
      { s with heap := h }

def adopt (h : Heap T) (node : Option NodePtr) (l : GroupPtr) : Run (Heap T) := do
  let h ← h.modifyNode node (·.setPointer (some l))
  let L ← h.readGroup (some l)
  (range L.usedNodes).foldlM (fun h k => do
    let c ← h.getNode (some l) k
    setFather h c node) h

/-- `makeInternalNodeGroup`: set the parent-children relationship with the
level below, whose groups are taken one by one. -/
def adoptGroups (internal leaf : List GroupPtr) (num : ℕ) (h : Heap T) : Run (Deal T) :=
  (range num).foldlM (forGroup internal fun node s => do
    let l ← Run.index leaf s.i
    let h ← adopt s.heap node l
    pure { s with heap := h, i := s.i + 1 }) ⟨h, 0, []⟩

/-- `makeInternalNodeGroup`: one level of internal nodes, one node for each of
the `leafNodeGroupNum` groups below. -/
def makeInternalNodeGroup (t : CSBPlusTree T) (aray : List T) (groupCap leafNodeGroupNum : ℕ)
    (upperCap : ℕ) (leaf : List GroupPtr) : Run (CSBPlusTree T × List GroupPtr × List T) := do
  let num := leafNodeGroupNum ⌈/⌉ (maxKeys T + 1)
  let sizes :=
    if 2 ≤ num then groupSizes T num (leafNodeGroupNum - (num - 1) * (maxKeys T + 1))
    else [leafNodeGroupNum]
  let (internal, h) ← allocGroups Heap.newInternalNodeGroup groupCap sizes t.heap
  let s ← fillInternalGroups aray upperCap internal leaf num leafNodeGroupNum ⟨h, 0, []⟩
  let a ← adoptGroups internal leaf num s.heap
  pure ({ t with heap := a.heap, csbDepth := t.csbDepth + 1 }, internal, s.keys)

def makeLevels : ℕ → CSBPlusTree T → ℕ → List GroupPtr → List T →
    Run (CSBPlusTree T × List GroupPtr × List T)
  | 0, _, _, _, _ => .error .endless
  | fuel + 1, t, num, leaf, keys =>
    if maxKeys T < keys.length then do
      let upperNum := num ⌈/⌉ (maxKeys T + 1)
      let (t, internal, upper) ← makeInternalNodeGroup t keys upperNum num (num - 1) leaf
      makeLevels fuel t upperNum internal upper
    else .ok (t, leaf, keys)

def fillRoot (keys : List T) (root : Option NodePtr) (h : Heap T) : Run (Heap T) := do
  let s ← fillKeys keys root keys.length ⟨h, 0, []⟩
  let h ← setUsed s.heap root keys.length
  setFather h root none

def makeRoot (t : CSBPlusTree T) (keys : List T) (leaf : List GroupPtr) :
    Run (CSBPlusTree T) := do
  let g := t.heap.nextGroup
  let h := t.heap.newInternalNodeGroup 1
  let root ← h.getNode (some g) 0
  let h ← fillRoot keys root h
  let l ← Run.index leaf 0
  let h ← adopt h root l
  pure { t with heap := h, csbRoot := root, csbDepth := t.csbDepth + 1 }

def bulkLoad (t : CSBPlusTree T) (aray : List (DataOffset T)) : Run (CSBPlusTree T) :=
  if aray.length = 0 then .ok t
  else if aray.length ≤ maxDatas T then do
    -- just one node
    let leaf := t.heap.nextGroup
    let h := t.heap.newLeafNodeGroup 1
    let node ← h.getNode (some leaf) 0
    let s ← fillDatas aray 0 (fun k _ => k) (fun _ => false) node aray.length ⟨h, 0, []⟩
    let h ← setUsed s.heap node aray.length
    let h ← setFather h node none
    let h ← h.setHeaderNG (some leaf) none
    let h ← h.setTailerNG (some leaf) none
    pure ⟨h, some leaf, some leaf, node, 1⟩
  else do
    let num := (aray.length ⌈/⌉ maxDatas T) ⌈/⌉ (maxKeys T + 1)
    let keyCap := aray.length ⌈/⌉ maxDatas T - 1
    let (t, leaf, keys) ← makeLeafNodeGroup t aray num keyCap
    let (t, leaf, keys) ← makeLevels aray.length t num leaf keys
    makeRoot t keys leaf

end CSB
