/-
Nodes, node groups and the heap of the CSB+ tree index.

Objects live in a `Heap`, pointers are their allocation numbers, and `none` is `NULL`.  Virtual
functions that are not overridden end in `assert(false)`; an array index past the capacity is a
fault, also where the source only prints an error.
-/
import ClaimsDB.Faults

/-- The template argument `T`: its order, its `INVALID`, and the sizes that decide on capacities. -/
class IndexKey (T : Type) extends LinearOrder T where
  invalid : T
  sizeofKey : ℕ
  sizeofData : ℕ
  sizeofKey_pos : 0 < sizeofKey
  sizeofKey_le : sizeofKey ≤ 28
  sizeofData_pos : 0 < sizeofData
  sizeofData_le : sizeofData ≤ 32

abbrev CInt := { x : ℤ // -2 ^ 31 ≤ x ∧ x < 2 ^ 31 }

/-- The instantiation the index manager uses, `CSBPlusTree<int>`. -/
instance : IndexKey CInt where
  toLinearOrder := inferInstance
  invalid := ⟨-1, by norm_num, by norm_num⟩
  sizeofKey := 4
  sizeofData := 8
  sizeofKey_pos := by norm_num
  sizeofKey_le := by norm_num
  sizeofData_pos := by norm_num
  sizeofData_le := by norm_num

namespace CSB

def cachelineSize : ℕ := 64

def maxKeys (T : Type) [IndexKey T] : ℕ := (cachelineSize - 8) / IndexKey.sizeofKey T

def maxDatas (T : Type) [IndexKey T] : ℕ := cachelineSize / IndexKey.sizeofData T

theorem two_le_maxKeys (T : Type) [IndexKey T] : 2 ≤ maxKeys T := by
  rw [maxKeys, Nat.le_div_iff_mul_le IndexKey.sizeofKey_pos]
  have := IndexKey.sizeofKey_le (T := T)
  simp only [cachelineSize]
  omega

theorem two_le_maxDatas (T : Type) [IndexKey T] : 2 ≤ maxDatas T := by
  rw [maxDatas, Nat.le_div_iff_mul_le IndexKey.sizeofData_pos]
  have := IndexKey.sizeofData_le (T := T)
  simp only [cachelineSize]
  omega

/-- `data_offset<T>`: an entry of a leaf node. -/
structure DataOffset (T : Type) where
  key : T
  blockOff : UInt16
  tupleOff : UInt16
  deriving DecidableEq, Repr

def DataOffset.invalid (T : Type) [IndexKey T] : DataOffset T :=
  ⟨IndexKey.invalid, 65535, 65535⟩

abbrev NodePtr := ℕ

abbrev GroupPtr := ℕ

inductive NodeBody (T : Type)
  /-- `node_keys` and `p_child_node_group` -/
  | internal (nodeKeys : List T) (pChildNodeGroup : Option GroupPtr)
  /-- `node_datas` -/
  | leaf (nodeDatas : List (DataOffset T))
  deriving DecidableEq, Repr

structure CCSBNode (T : Type) where
  usedKeys : ℕ
  pFather : Option NodePtr
  body : NodeBody T
  deriving DecidableEq, Repr

inductive GroupBody
  | internal
  /-- `p_header` and `p_tailer` -/
  | leaf (pHeader pTailer : Option GroupPtr)
  deriving DecidableEq, Repr

/-- `CCSBNodeGroup<T>`; the length of `nodes` is the capacity of the array. -/
structure CCSBNodeGroup where
  usedNodes : ℕ
  nodes : List NodePtr
  body : GroupBody
  deriving DecidableEq, Repr

variable {T : Type} [IndexKey T]

namespace CCSBNode

def newLeaf (T : Type) [IndexKey T] : CCSBNode T :=
  ⟨0, none, .leaf (List.replicate (maxDatas T) (DataOffset.invalid T))⟩

def newInternal (T : Type) [IndexKey T] : CCSBNode T :=
  ⟨0, none, .internal (List.replicate (maxKeys T) IndexKey.invalid) none⟩

/-- `setUsedKeys`: a count beyond the capacity is ignored. -/
def setUsedKeys (count : ℕ) (n : CCSBNode T) : CCSBNode T :=
  match n.body with
  | .internal _ _ => if count ≤ maxKeys T then { n with usedKeys := count } else n
  | .leaf _ => if count ≤ maxDatas T then { n with usedKeys := count } else n

def setFather (father : Option NodePtr) (n : CCSBNode T) : CCSBNode T :=
  { n with pFather := father }

/-- `setElement(unsigned, data_offset<T>)`, overridden by leaf nodes only. -/
def setData (i : ℕ) (d : DataOffset T) (n : CCSBNode T) : Run (CCSBNode T) :=
  match n.body with
  | .internal _ _ => .error .assertFailed
  | .leaf ds =>
    if i < maxDatas T then .ok { n with body := .leaf (ds.set i d) } else .error .outOfBounds

/-- `setElement(unsigned, T)`, overridden by internal nodes only. -/
def setKey (i : ℕ) (k : T) (n : CCSBNode T) : Run (CCSBNode T) :=
  match n.body with
  | .internal ks c =>
    if i < maxKeys T then .ok { n with body := .internal (ks.set i k) c }
    else .error .outOfBounds
  | .leaf _ => .error .assertFailed

/-- `getElement`: an internal node answers `INVALID` past its capacity, a leaf
node dereferences `NULL` there. -/
def getElement (i : ℕ) (n : CCSBNode T) : Run (DataOffset T) :=
  match n.body with
  | .internal ks _ =>
    if i < maxKeys T then (Run.index ks i).map fun k => ⟨k, 65535, 65535⟩
    else .ok (DataOffset.invalid T)
  | .leaf ds => if i < maxDatas T then Run.index ds i else .error .nullDeref

/-- `getPointer`; a leaf node has no children. -/
def getPointer (n : CCSBNode T) : Option GroupPtr :=
  match n.body with
  | .internal _ c => c
  | .leaf _ => none

/-- `setPointer`, which leaf nodes do not override. -/
def setPointer (g : Option GroupPtr) (n : CCSBNode T) : Run (CCSBNode T) :=
  match n.body with
  | .internal ks _ => .ok { n with body := .internal ks g }
  | .leaf _ => .error .assertFailed

end CCSBNode

structure Heap (T : Type) where
  node : NodePtr → Option (CCSBNode T)
  group : GroupPtr → Option CCSBNodeGroup
  nextNode : ℕ
  nextGroup : ℕ

namespace Heap

def empty (T : Type) : Heap T := ⟨fun _ => none, fun _ => none, 0, 0⟩

def readNode (h : Heap T) : Option NodePtr → Run (CCSBNode T)
  | none => .error .nullDeref
  | some p =>
    match h.node p with
    | some n => .ok n
    | none => .error .nullDeref

def readGroup (h : Heap T) : Option GroupPtr → Run CCSBNodeGroup
  | none => .error .nullDeref
  | some g =>
    match h.group g with
    | some G => .ok G
    | none => .error .nullDeref

def setNode (h : Heap T) (p : NodePtr) (n : CCSBNode T) : Heap T :=
  { h with node := Function.update h.node p (some n) }

def setGroup (h : Heap T) (g : GroupPtr) (G : CCSBNodeGroup) : Heap T :=
  { h with group := Function.update h.group g (some G) }

def modifyNode (h : Heap T) (p : Option NodePtr) (f : CCSBNode T → Run (CCSBNode T)) :
    Run (Heap T) :=
  match p with
  | none => .error .nullDeref
  | some p =>
    match h.node p with
    | some n => (f n).map (h.setNode p)
    | none => .error .nullDeref

/-- `getNode(i)` of a group: `NULL` with an error message when `i > used_nodes`,
otherwise the `i`-th element of the array. -/
def getNode (h : Heap T) (g : Option GroupPtr) (i : ℕ) : Run (Option NodePtr) := do
  let G ← h.readGroup g
  if G.usedNodes < i then .ok none
  else (Run.index G.nodes i).map some

/-- `setHeaderNG`, which internal groups do not override. -/
def setHeaderNG (h : Heap T) (g : Option GroupPtr) (header : Option GroupPtr) :
    Run (Heap T) :=
  match g with
  | none => .error .nullDeref
  | some g =>
    match h.group g with
    | some ⟨u, ns, .leaf _ tl⟩ => .ok (h.setGroup g ⟨u, ns, .leaf header tl⟩)
    | some ⟨_, _, .internal⟩ => .error .assertFailed
    | none => .error .nullDeref

/-- `setTailerNG`, which internal groups do not override. -/
def setTailerNG (h : Heap T) (g : Option GroupPtr) (tailer : Option GroupPtr) :
    Run (Heap T) :=
  match g with
  | none => .error .nullDeref
  | some g =>
    match h.group g with
    | some ⟨u, ns, .leaf hd _⟩ => .ok (h.setGroup g ⟨u, ns, .leaf hd tailer⟩)
    | some ⟨_, _, .internal⟩ => .error .assertFailed
    | none => .error .nullDeref

def getTailerNG (h : Heap T) (g : Option GroupPtr) : Run (Option GroupPtr) := do
  match (← h.readGroup g).body with
  | .leaf _ tl => .ok tl
  | .internal => .error .assertFailed

def freshNodes (h : Heap T) (n : ℕ) : List ℕ := (List.range n).map (h.nextNode + ·)

/-- A group of `n` nodes; `setUsedNodes(n)` ignores a count beyond `max_keys + 1`. -/
def newGroup (h : Heap T) (fresh : CCSBNode T) (body : GroupBody) (n : ℕ) : Heap T where
  node := fun p =>
    if h.nextNode ≤ p ∧ p < h.nextNode + n then some fresh else h.node p
  group := Function.update h.group h.nextGroup
    (some ⟨if n ≤ maxKeys T + 1 then n else 0, h.freshNodes n, body⟩)
  nextNode := h.nextNode + n
  nextGroup := h.nextGroup + 1

/-- `new CCSBLeafNodeGroup<T>(n)`; the new group is number `h.nextGroup`. -/
def newLeafNodeGroup (h : Heap T) (n : ℕ) : Heap T :=
  h.newGroup (CCSBNode.newLeaf T) (.leaf none none) n

/-- `new CCSBInternalNodeGroup<T>(n)`; the new group is number `h.nextGroup`. -/
def newInternalNodeGroup (h : Heap T) (n : ℕ) : Heap T :=
  h.newGroup (CCSBNode.newInternal T) .internal n

end Heap

/-- `CSBPlusTree<T>`, with the heap its objects live in. -/
structure CSBPlusTree (T : Type) where
  heap : Heap T
  leafHeader : Option GroupPtr
  leafTailer : Option GroupPtr
  csbRoot : Option NodePtr
  csbDepth : ℕ

def CSBPlusTree.new (T : Type) : CSBPlusTree T := ⟨Heap.empty T, none, none, none, 0⟩

end CSB
