/-
Binding the partitions of a projection to nodes.

The size of every partition is charged to the budget of a node, looked for round robin; then the
nodes are told and the locations entered.  Unbinding gives the sizes back that the partitions have
by then.  Where a call blocks, reads beyond a vector or follows a dangling reference there is no
result.

* **`allocate_isSome`** — a node with room for the whole projection is enough;
* **`FairStep.invariant`** — what a call, the loss of a node or the growth of data preserves;
* **`binding_keeps_books`** — locations, budgets and the lock over every run;
* **`binding_refused_moved_or_grown`** — runs in which they are wrong.
-/
import ClaimsDB.ClusterMembership
import ClaimsDB.StorageLevels

namespace Binding

open List
open Function (update update_of_ne update_self)
open TableCatalog Storage

/-! ### Budgets -/

def wrap (x : ℤ) : ℤ := x.bmod (2 ^ 32)

theorem wrap_eq {x : ℤ} (h₀ : 0 ≤ x) (h : x < 2 ^ 31) : wrap x = x :=
  Int.bmod_eq_of_le_mul_two (by push_cast; omega) (by push_cast; omega)

/-- `memory_info` and `disk_info`, in megabytes. -/
structure ResourceInfo where
  allocatedCapacity : ℤ
  usedCapacity : ℤ
  deriving DecidableEq

def ResourceInfo.take (info : ResourceInfo) (buget : ℤ) : Option ResourceInfo :=
  if wrap (info.usedCapacity + buget) ≤ info.allocatedCapacity then
    some { info with usedCapacity := wrap (info.usedCapacity + buget) }
  else none

def ResourceInfo.put (info : ResourceInfo) (size : ℤ) : ResourceInfo :=
  { info with usedCapacity := wrap (info.usedCapacity - size) }

inductive Resource
  | memory
  | disk
  deriving DecidableEq

def resourceOf : StorageLevel → Option Resource
  | .memory => some .memory
  | .disk => some .disk
  | .hdfs => none

def desiriableStorageLevel : StorageLevel := .memory

abbrev Budgets : Type := Resource → ℕ → ResourceInfo

def Budgets.set (b : Budgets) (r : Resource) (node : ℕ) (info : ResourceInfo) : Budgets :=
  fun r' node' => if r' = r ∧ node' = node then info else b r' node'

/-- The request for a partition: `ApplyMemoryBuget`, `ApplyDiskBuget`, or none. -/
def Budgets.request (b : Budgets) (level : StorageLevel) (target : ℕ) (size : ℤ) :
    Option Budgets :=
  match resourceOf level with
  | none => some b
  | some r => ((b r target).take size).map (b.set r target)

/-- `ReturnMemoryBuget` and `ReturnDiskBuget`, which do nothing for a node that is not
registered. -/
def Budgets.giveBack (b : Budgets) (nodes : List ℕ) (level : StorageLevel) (target : Option ℕ)
    (size : ℤ) : Budgets :=
  match resourceOf level, target with
  | some r, some node => if node ∈ nodes then b.set r node ((b r node).put size) else b
  | _, _ => b

/-! ### Partitions -/

def dataSize (p : PartitionInfo) : ℤ := wrap (p.numberOfBlocks * 64 / 1024 : ℕ)

/-- A partition, the node that was last sent a binding message for it, and what has been charged
for it since it was bound. -/
structure Part where
  info : PartitionInfo
  sent : Option ℕ
  charged : Resource → ℤ

def Part.bindTo (level : StorageLevel) (p : Part) (node : ℕ) : Part where
  info := (p.info.bindAllBlocks node).2
  sent := some node
  charged r := p.charged r + if resourceOf level = some r then dataSize p.info else 0

def Part.unbind (p : Part) : Part := ⟨p.info.unbindAllBlocks, p.sent, fun _ => 0⟩

def search (nodes : List ℕ) (level : StorageLevel) (size : ℤ) :
    ℕ → ℕ → Budgets → Option (ℕ × Budgets)
  | 0, _, _ => none
  | k + 1, cur, b =>
    match b.request level (nodes.getD cur 0) size with
    | some b' => some (cur, b')
    | none => search nodes level size k ((cur + 1) % nodes.length) b

/-- The loop over the partitions: the nodes, or none; what was charged stays charged. -/
def allocate (nodes : List ℕ) (level : StorageLevel) :
    List ℤ → ℕ → Budgets → Option (List ℕ) × Budgets
  | [], _, b => (some [], b)
  | size :: sizes, cur, b =>
    match search nodes level size nodes.length cur b with
    | none => (none, b)
    | some (cur', b') =>
      let rest := allocate nodes level sizes ((cur' + 1) % nodes.length) b'
      (rest.1.map (nodes.getD cur' 0 :: ·), rest.2)

/-- The loop of `UnbindingEntireProjection`.  For `SendUnbindingMessage`, `GetNodeActorFromId`
returns a reference to a local variable if the node is not registered. -/
def unbindParts (nodes : List ℕ) : List Part → Budgets → Option (Budgets × List Part)
  | [], b => some (b, [])
  | p :: parts, b =>
    let b' := b.giveBack nodes desiriableStorageLevel p.info.bindingNodeId (dataSize p.info)
    if p.info.bindingNodeId.any (· ∈ nodes) then
      (unbindParts nodes parts b').map fun rest => (rest.1, p.unbind :: rest.2)
    else none

/-! ### Calls -/

/-- The nodes that `getSlaveIDList` lists with their budgets, the partitions of the projections,
and `lock_`. -/
structure State where
  nodes : List ℕ
  budgets : Budgets
  count : ℕ
  projections : ℕ → List Part
  locked : Bool

def allPartitionBound (parts : List Part) : Bool := parts.all (·.info.bindingNodeId.isSome)

namespace State

def bindingEntireProjection (s : State) (q : ℕ) (level : StorageLevel) : Option (Bool × State) :=
  if s.locked then none
  else if allPartitionBound (s.projections q) then some (true, s)
  else if s.nodes = [] then none
  else
    match allocate s.nodes level ((s.projections q).map (dataSize ·.info)) 0 s.budgets with
    -- the lock is not released
    | (none, b) => some (false, { s with budgets := b, locked := true })
    | (some targets, b) => some (true, { s with
        budgets := b
        projections := update s.projections q
          (List.zipWith (Part.bindTo level) (s.projections q) targets) })

def unbindingEntireProjection (s : State) (q : ℕ) : Option State :=
  (unbindParts s.nodes (s.projections q) s.budgets).map fun r =>
    { s with budgets := r.1, projections := update s.projections q r.2 }

/-- `UnRegisterSlave` and `RemoveOneNode`, which visits only some of the projections. -/
def removeNode (s : State) (node : ℕ) (visited : ℕ → Bool) : State :=
  { s with
    nodes := s.nodes.filter (· ≠ node)
    projections := fun q => if visited q then (s.projections q).map fun p =>
      if p.info.bindingNodeId = some node then p.unbind else p else s.projections q }

/-- The number of blocks of partition `i` is changed. -/
def grow (s : State) (q i blocks : ℕ) : State :=
  { s with projections := update s.projections q ((s.projections q).modify i fun p =>
      { p with info := { p.info with numberOfBlocks := blocks } }) }

end State

inductive Event
  | bind (q : ℕ) (level : StorageLevel)
  | unbind (q : ℕ)
  | removeNode (node : ℕ) (visited : ℕ → Bool)
  | grow (q i blocks : ℕ)

def State.act (s : State) : Event → Option State
  | .bind q level => if q < s.count then (s.bindingEntireProjection q level).map (·.2) else none
  | .unbind q => if q < s.count then s.unbindingEntireProjection q else none
  | .removeNode node visited => some (s.removeNode node visited)
  | .grow q i blocks => if q < s.count then some (s.grow q i blocks) else none

/-! ### Fair calls -/

/-- No sum of the size and a capacity is more than an `int` can hold. -/
def Fits (nodes : List ℕ) (b : Budgets) (level : StorageLevel) (p : PartitionInfo) : Prop :=
  p.numberOfBlocks * 64 / 1024 < 2 ^ 31 ∧
    ∀ r, resourceOf level = some r → ∀ node ∈ nodes,
      (b r node).allocatedCapacity + (p.numberOfBlocks * 64 / 1024 : ℕ) < 2 ^ 31

/-- All partitions are bound, or none is and there are nodes for them. -/
def State.FairBind (s : State) (q : ℕ) (level : StorageLevel) : Prop :=
  (∀ p ∈ s.projections q, p.info.bindingNodeId.isSome) ∨
    s.nodes ≠ [] ∧ (∀ p ∈ s.projections q, p.info.bindingNodeId = none) ∧
      ∀ p ∈ s.projections q, Fits s.nodes s.budgets level p.info

/-- One node has room for the whole projection. -/
def State.HasRoom (s : State) (q : ℕ) (level : StorageLevel) : Prop :=
  ∀ r, resourceOf level = some r → ∃ node ∈ s.nodes, (s.budgets r node).usedCapacity +
    ((s.projections q).map (dataSize ·.info)).sum ≤ (s.budgets r node).allocatedCapacity

/-- Every partition is bound to a registered node, and was charged what is given back. -/
def State.FairUnbind (s : State) (q : ℕ) : Prop :=
  ∀ p ∈ s.projections q, (∃ node ∈ s.nodes, p.info.bindingNodeId = some node) ∧
    ∀ r, p.charged r = if resourceOf desiriableStorageLevel = some r then dataSize p.info else 0

/-- Which events keep the books; a binding must not be refused. -/
def State.Fair (s : State) : Event → Prop
  | .bind q level =>
    s.FairBind q level ∧ (s.bindingEntireProjection q level).map (·.1) = some true
  | .unbind q => s.FairUnbind q
  | .removeNode .. => True
  | .grow .. => True

inductive FairStep : State → State → Prop
  | mk {s s' : State} (e : Event) (hfair : s.Fair e) (h : s.act e = some s') : FairStep s s'

/-! ### The books -/

structure Books (nodes : List ℕ) (b : Budgets) (total : Resource → ℕ → ℤ) : Prop where
  used : ∀ r, ∀ node ∈ nodes, (b r node).usedCapacity = total r node
  nonneg : ∀ r, ∀ node ∈ nodes, 0 ≤ total r node
  le : ∀ r, ∀ node ∈ nodes, total r node ≤ (b r node).allocatedCapacity
  small : ∀ r, ∀ node ∈ nodes, (b r node).allocatedCapacity < 2 ^ 31

def partsCharge (r : Resource) (node : ℕ) (parts : List Part) : ℤ :=
  (parts.map fun p => if p.info.bindingNodeId = some node then p.charged r else 0).sum

def granted (node : ℕ) (targets : List ℕ) (sizes : List ℤ) : ℤ :=
  (List.zipWith (fun target size => if target = node then size else 0) targets sizes).sum

variable {nodes : List ℕ} {b b' : Budgets} {total : Resource → ℕ → ℤ} {level : StorageLevel}
  {size : ℤ}

/-- Every sum of the size and a capacity is one that an `int` can hold. -/
def Bounded (nodes : List ℕ) (b : Budgets) (level : StorageLevel) (size : ℤ) : Prop :=
  0 ≤ size ∧ ∀ r, resourceOf level = some r → ∀ node ∈ nodes,
    (b r node).allocatedCapacity + size < 2 ^ 31

theorem Fits.bounded {p : PartitionInfo} (h : Fits nodes b level p) :
    Bounded nodes b level (dataSize p) := by
  have hsize : dataSize p = (p.numberOfBlocks * 64 / 1024 : ℕ) :=
    wrap_eq (Int.natCast_nonneg _) (by exact_mod_cast h.1)
  rw [Bounded, hsize]
  exact ⟨Int.natCast_nonneg _, h.2⟩

theorem bounded_of_fits {parts : List Part} (h : ∀ p ∈ parts, Fits nodes b level p.info)
    (hsize : size ∈ parts.map (dataSize ·.info)) : Bounded nodes b level size := by
  obtain ⟨p, hp, rfl⟩ := List.mem_map.mp hsize
  exact (h p hp).bounded

variable {target cur k : ℕ} {sizes : List ℤ} {targets : List ℕ} {parts : List Part} {p : Part}
  {q : ℕ}

theorem Books.take (h : Books nodes b total) (hsize : Bounded nodes b level size) {r : Resource}
    (hr : resourceOf level = some r) (ht : target ∈ nodes) :
    (b r target).take size =
      if total r target + size ≤ (b r target).allocatedCapacity then
        some ⟨(b r target).allocatedCapacity, total r target + size⟩ else none := by
  have hwrap : wrap ((b r target).usedCapacity + size) = total r target + size := by
    have hnonneg := h.nonneg r target ht
    have hle := h.le r target ht
    have hfit := hsize.2 r hr target ht
    have h0 := hsize.1
    rw [h.used r target ht]
    exact wrap_eq (by omega) (by omega)
  rw [ResourceInfo.take, hwrap]

theorem Books.request (h : Books nodes b total) (hsize : Bounded nodes b level size)
    (ht : target ∈ nodes) (hreq : b.request level target size = some b') :
    Books nodes b' (fun r node => total r node +
        if resourceOf level = some r then if target = node then size else 0 else 0) ∧
      ∀ r node, (b' r node).allocatedCapacity = (b r node).allocatedCapacity := by
  unfold Budgets.request at hreq
  split at hreq
  · rename_i hr
    cases hreq
    refine ⟨?_, fun _ _ => rfl⟩
    simpa only [hr, reduceCtorEq, if_false, add_zero] using h
  · rename_i r hr
    rw [h.take hsize hr ht] at hreq
    split at hreq
    · rename_i hroom
      cases hreq
      -- the entry of the target is the only one that changes
      have hset : ∀ r' node,
          (b.set r target ⟨(b r target).allocatedCapacity, total r target + size⟩ r' node) =
            if r' = r ∧ node = target then
              ⟨(b r target).allocatedCapacity, total r target + size⟩ else b r' node :=
        fun _ _ => rfl
      have halloc : ∀ r' node,
          (b.set r target ⟨(b r target).allocatedCapacity, total r target + size⟩ r'
            node).allocatedCapacity = (b r' node).allocatedCapacity := by
        intro r' node
        rw [hset]
        split
        · rename_i heq
          rw [heq.1, heq.2]
        · rfl
      have htotal : ∀ r' node, (if resourceOf level = some r' then
          if target = node then size else 0 else 0) =
            if r' = r ∧ node = target then size else 0 := by
        intro r' node
        rw [hr]
        by_cases hr' : r' = r
        · by_cases hn : node = target
          · simp [hr', hn]
          · simp [hr', hn, Ne.symm hn]
        · simp [hr', Ne.symm hr']
      refine ⟨⟨?_, ?_, ?_, ?_⟩, halloc⟩
      · intro r' node hnode
        rw [hset, htotal]
        split
        · rename_i heq
          rw [heq.1, heq.2]
        · rw [add_zero, h.used r' node hnode]
      · intro r' node hnode
        rw [htotal]
        have h0 := h.nonneg r' node hnode
        have hs := hsize.1
        split <;> omega
      · intro r' node hnode
        rw [halloc, htotal]
        split
        · rename_i heq
          rw [heq.1, heq.2]
          exact hroom
        · rw [add_zero]
          exact h.le r' node hnode
      · intro r' node hnode
        rw [halloc]
        exact h.small r' node hnode
    · cases hreq

/-! ### The search for a node -/

theorem getD_eq (h : cur < nodes.length) : nodes.getD cur 0 = nodes[cur] := by
  rw [getD_eq_getElem?_getD, getElem?_eq_getElem h, Option.getD_some]

theorem getD_mem (h : cur < nodes.length) : nodes.getD cur 0 ∈ nodes := by
  rw [getD_eq h]
  exact getElem_mem h

theorem search_some {cur' : ℕ} (hcur : cur < nodes.length)
    (h : search nodes level size k cur b = some (cur', b')) :
    cur' < nodes.length ∧ b.request level (nodes.getD cur' 0) size = some b' := by
  induction k generalizing cur with
  | zero => cases h
  | succ k ih =>
    unfold search at h
    split at h
    · rename_i b₁ hreq
      cases h
      exact ⟨hcur, hreq⟩
    · exact ih (Nat.mod_lt _ (by omega)) h

theorem search_none (h : search nodes level size k cur b = none) {j : ℕ} (hj : j < k)
    (hcur : cur < nodes.length) :
    b.request level (nodes.getD ((cur + j) % nodes.length) 0) size = none := by
  induction k generalizing cur j with
  | zero => omega
  | succ k ih =>
    unfold search at h
    split at h
    · cases h
    · rename_i hreq
      cases j with
      | zero => rwa [Nat.add_zero, Nat.mod_eq_of_lt hcur]
      | succ j =>
        have hrest := ih h (j := j) (by omega) (Nat.mod_lt _ (by omega))
        rwa [Nat.mod_add_mod, Nat.add_assoc, Nat.add_comm 1] at hrest

theorem search_none_request (hcur : cur < nodes.length)
    (h : search nodes level size nodes.length cur b = none) {node : ℕ} (hnode : node ∈ nodes) :
    b.request level node size = none := by
  obtain ⟨i, hi, rfl⟩ := getElem_of_mem hnode
  have hj : (i + (nodes.length - cur)) % nodes.length < nodes.length := Nat.mod_lt _ (by omega)
  have hasked := search_none h hj hcur
  have hpos : (cur + (i + (nodes.length - cur)) % nodes.length) % nodes.length = i := by
    rw [Nat.add_mod_mod, show cur + (i + (nodes.length - cur)) = i + nodes.length by omega,
      Nat.add_mod_right, Nat.mod_eq_of_lt hi]
  rwa [hpos, getD_eq hi] at hasked

section

variable (h : Books nodes b total) (hsizes : ∀ size ∈ sizes, Bounded nodes b level size)
  (hcur : cur < nodes.length)

include h hsizes hcur

theorem Books.allocate (hall : Binding.allocate nodes level sizes cur b = (some targets, b')) :
    targets.length = sizes.length ∧
      Books nodes b' (fun r node => total r node +
        if resourceOf level = some r then granted node targets sizes else 0) := by
  induction sizes generalizing b cur total targets with
  | nil =>
    cases hall
    simpa [granted] using h
  | cons size sizes ih =>
    unfold Binding.allocate at hall
    split at hall
    · cases hall
    · rename_i cur' b₁ hsearch
      obtain ⟨hmap, rfl⟩ := Prod.mk.inj hall
      obtain ⟨targets', htargets', rfl⟩ := Option.map_eq_some_iff.mp hmap
      obtain ⟨hcur', hreq⟩ := search_some hcur hsearch
      obtain ⟨hb₁, halloc⟩ := h.request (hsizes size mem_cons_self) (getD_mem hcur') hreq
      have hsizes₁ : ∀ size ∈ sizes, Bounded nodes b₁ level size := by
        intro size' hmem
        obtain ⟨h0, hfit⟩ := hsizes size' (mem_cons_of_mem _ hmem)
        refine ⟨h0, fun r hr node hnode => ?_⟩
        rw [halloc]
        exact hfit r hr node hnode
      obtain ⟨hlen, hbooks⟩ := ih hb₁ hsizes₁ (Nat.mod_lt _ (by omega))
        (Prod.ext htargets' rfl)
      refine ⟨by rw [length_cons, length_cons, hlen], ?_⟩
      have htotal : (fun r node => total r node + (if resourceOf level = some r then
            granted node (nodes.getD cur' 0 :: targets') (size :: sizes) else 0)) =
          fun r node => total r node + (if resourceOf level = some r then
            if nodes.getD cur' 0 = node then size else 0 else 0) +
              if resourceOf level = some r then granted node targets' sizes else 0 := by
        funext r node
        rw [add_assoc]
        congr 1
        split
        · rw [granted, zipWith_cons_cons, sum_cons, granted]
        · rw [add_zero]
      rw [htotal]
      exact hbooks

/-- One node with room for everything is enough, whichever nodes are chosen. -/
theorem allocate_isSome (hroom : ∀ r, resourceOf level = some r → ∃ node ∈ nodes,
      total r node + sizes.sum ≤ (b r node).allocatedCapacity) :
    (allocate nodes level sizes cur b).1.isSome := by
  induction sizes generalizing b cur total with
  | nil => rfl
  | cons size sizes ih =>
    have hsize := hsizes size mem_cons_self
    have hrest : 0 ≤ sizes.sum :=
      sum_nonneg fun size' hmem => (hsizes size' (mem_cons_of_mem _ hmem)).1
    unfold allocate
    split
    · rename_i hsearch
      -- every node has refused, but one has room
      cases hr : resourceOf level with
      | none =>
        have hreq := search_none_request hcur hsearch (getD_mem hcur)
        simp [Budgets.request, hr] at hreq
      | some r =>
        obtain ⟨node, hnode, hle⟩ := hroom r hr
        have hreq := search_none_request hcur hsearch hnode
        rw [sum_cons] at hle
        have hfits : total r node + size ≤ (b r node).allocatedCapacity := by omega
        simp [Budgets.request, hr, h.take hsize hr hnode, hfits] at hreq
    · rename_i cur' b₁ hsearch
      obtain ⟨hcur', hreq⟩ := search_some hcur hsearch
      obtain ⟨hb₁, halloc⟩ := h.request hsize (getD_mem hcur') hreq
      have hsizes₁ : ∀ size ∈ sizes, Bounded nodes b₁ level size := by
        intro size' hmem
        obtain ⟨h0, hfit⟩ := hsizes size' (mem_cons_of_mem _ hmem)
        refine ⟨h0, fun r hr node hnode => ?_⟩
        rw [halloc]
        exact hfit r hr node hnode
      rw [Option.isSome_map]
      refine ih hb₁ hsizes₁ (Nat.mod_lt _ (by omega)) fun r hr => ?_
      obtain ⟨node, hnode, hle⟩ := hroom r hr
      refine ⟨node, hnode, ?_⟩
      have h0 := hsize.1
      rw [sum_cons] at hle
      rw [halloc, if_pos hr]
      split <;> omega

end

/-! ### The partitions -/

/-- A bound partition is where the last binding message went; one that is not bound has been
charged nothing. -/
structure Kept (p : Part) : Prop where
  sent : ∀ node, p.info.bindingNodeId = some node → p.sent = some node
  free : p.info.bindingNodeId = none → ∀ r, p.charged r = 0
  nonneg : ∀ r, 0 ≤ p.charged r

theorem Part.unbind_kept (p : Part) : Kept p.unbind where
  sent _ h := by cases h
  free _ _ := rfl
  nonneg _ := le_rfl

theorem partsCharge_nil (r : Resource) (node : ℕ) : partsCharge r node [] = 0 := rfl

theorem partsCharge_cons (r : Resource) (node : ℕ) (p : Part) (parts : List Part) :
    partsCharge r node (p :: parts) =
      (if p.info.bindingNodeId = some node then p.charged r else 0) + partsCharge r node parts :=
  sum_cons

theorem partsCharge_nonneg (h : ∀ p ∈ parts, Kept p) (r : Resource) (node : ℕ) :
    0 ≤ partsCharge r node parts := by
  refine sum_nonneg fun x hx => ?_
  obtain ⟨p, hp, rfl⟩ := List.mem_map.mp hx
  split
  · exact (h p hp).nonneg r
  · exact le_rfl

theorem partsCharge_of_unbound (h : ∀ p ∈ parts, p.info.bindingNodeId = none) (r : Resource)
    (node : ℕ) : partsCharge r node parts = 0 := by
  refine sum_eq_zero fun x hx => ?_
  obtain ⟨p, hp, rfl⟩ := List.mem_map.mp hx
  rw [h p hp, if_neg nofun]

theorem Part.bindTo_of_unbound (level : StorageLevel) (h : Kept p)
    (hun : p.info.bindingNodeId = none) (target : ℕ) :
    (p.bindTo level target).info.bindingNodeId = some target ∧
      ∀ r, (p.bindTo level target).charged r =
        if resourceOf level = some r then dataSize p.info else 0 := by
  constructor
  · simp [Part.bindTo, PartitionInfo.bindAllBlocks, hun]
  · intro r
    simp only [Part.bindTo, h.free hun r, zero_add]

theorem partsCharge_bindTo (hlen : targets.length = parts.length) (hkept : ∀ p ∈ parts, Kept p)
    (hun : ∀ p ∈ parts, p.info.bindingNodeId = none) (r : Resource) (node : ℕ) :
    partsCharge r node (List.zipWith (Part.bindTo level) parts targets) =
      if resourceOf level = some r then granted node targets (parts.map (dataSize ·.info))
      else 0 := by
  induction parts generalizing targets with
  | nil => simp [partsCharge, granted]
  | cons p parts ih =>
    cases targets with
    | nil => cases hlen
    | cons target targets =>
      obtain ⟨hloc, hcharged⟩ := Part.bindTo_of_unbound level
        (hkept p mem_cons_self) (hun p mem_cons_self) target
      rw [zipWith_cons_cons, partsCharge_cons, hloc, hcharged,
        ih (Nat.succ.inj hlen) (fun p' hp' => hkept p' (mem_cons_of_mem _ hp'))
          fun p' hp' => hun p' (mem_cons_of_mem _ hp')]
      simp only [Option.some.injEq, map_cons, granted, zipWith_cons_cons, sum_cons]
      split <;> split <;> simp

theorem Part.bindTo_kept (h : Kept p) (hun : p.info.bindingNodeId = none)
    (hsize : 0 ≤ dataSize p.info) (target : ℕ) : Kept (p.bindTo level target) := by
  obtain ⟨hloc, hcharged⟩ := Part.bindTo_of_unbound level h hun target
  refine ⟨fun node hnode => ?_, fun hnone => ?_, fun r => ?_⟩
  · rw [hloc] at hnode
    exact hnode
  · rw [hloc] at hnone
    cases hnone
  · rw [hcharged]
    split
    · exact hsize
    · exact le_rfl

theorem Books.giveBack {p : Part}
    (h : Books nodes b (fun r node =>
      (if p.info.bindingNodeId = some node then p.charged r else 0) + total r node))
    (hnonneg : ∀ r node, 0 ≤ total r node) (hp : Kept p)
    (hfair : ∀ node ∈ nodes, p.info.bindingNodeId = some node → ∀ r, p.charged r =
      if resourceOf desiriableStorageLevel = some r then dataSize p.info else 0) :
    Books nodes (b.giveBack nodes desiriableStorageLevel p.info.bindingNodeId (dataSize p.info))
      total := by
  -- where nothing is given back nothing was charged
  have hsame : (∀ node ∈ nodes, p.info.bindingNodeId ≠ some node) → Books nodes b total := by
    intro hne
    refine ⟨fun r node hnode => ?_, fun r node _ => hnonneg r node, fun r node hnode => ?_,
      h.small⟩
    · rw [h.used r node hnode, if_neg (hne node hnode), zero_add]
    · have hle := h.le r node hnode
      rwa [if_neg (hne node hnode), zero_add] at hle
  unfold Budgets.giveBack
  split
  · rename_i r₀ node₀ hr hloc
    split
    · rename_i hmem
      have hcharged := hfair node₀ hmem hloc
      have hsize : 0 ≤ dataSize p.info := by
        have h0 := hp.nonneg r₀
        rwa [hcharged, if_pos hr] at h0
      have hused : ∀ r node, node ∈ nodes → (b r node).usedCapacity =
          (if r = r₀ ∧ node = node₀ then dataSize p.info else 0) + total r node := by
        intro r node hnode
        rw [h.used r node hnode, hloc, hcharged, hr]
        congr 1
        by_cases hn : node₀ = node
        · by_cases hr₀ : r₀ = r
          · simp [hn, hr₀]
          · simp [hn, hr₀, Ne.symm hr₀]
        · simp [hn, Ne.symm hn]
      have hle : ∀ r node, node ∈ nodes →
          (if r = r₀ ∧ node = node₀ then dataSize p.info else 0) + total r node ≤
            (b r node).allocatedCapacity := by
        intro r node hnode
        rw [← hused r node hnode, h.used r node hnode]
        exact h.le r node hnode
      refine ⟨fun r node hnode => ?_, fun r node _ => hnonneg r node, fun r node hnode => ?_,
        fun r node hnode => ?_⟩
      · have hu := hused r node hnode
        unfold Budgets.set
        split_ifs with heq
        · obtain ⟨rfl, rfl⟩ := heq
          have hl := hle r node hnode
          have hs := h.small r node hnode
          have h0 := hnonneg r node
          rw [if_pos ⟨rfl, rfl⟩] at hu hl
          rw [ResourceInfo.put, hu, add_sub_cancel_left]
          exact wrap_eq h0 (by omega)
        · rwa [if_neg heq, zero_add] at hu
      · have hl := hle r node hnode
        unfold Budgets.set
        split_ifs with heq
        · obtain ⟨rfl, rfl⟩ := heq
          rw [if_pos ⟨rfl, rfl⟩] at hl
          show total r node ≤ (b r node).allocatedCapacity
          omega
        · rwa [if_neg heq, zero_add] at hl
      · unfold Budgets.set
        split
        · rename_i heq
          obtain ⟨rfl, rfl⟩ := heq
          exact h.small r node hnode
        · exact h.small r node hnode
    · rename_i hmem
      refine hsame fun node hnode heq => hmem ?_
      rw [hloc] at heq
      exact Option.some.inj heq ▸ hnode
  · rename_i hother
    exact hsame fun node _ heq => hother .memory node rfl heq

theorem Books.unbindParts {parts : List Part}
    (h : Books nodes b (fun r node => partsCharge r node parts + total r node))
    (hnonneg : ∀ r node, 0 ≤ total r node) (hkept : ∀ p ∈ parts, Kept p)
    (hfair : ∀ p ∈ parts, (∃ node ∈ nodes, p.info.bindingNodeId = some node) ∧ ∀ r, p.charged r =
      if resourceOf desiriableStorageLevel = some r then dataSize p.info else 0) :
    ∃ b', Binding.unbindParts nodes parts b = some (b', parts.map Part.unbind) ∧
      Books nodes b' total := by
  induction parts generalizing b with
  | nil =>
    simp only [partsCharge_nil, zero_add] at h
    exact ⟨b, rfl, h⟩
  | cons p parts ih =>
    have hrest : ∀ p' ∈ parts, Kept p' := fun p' hp' => hkept p' (mem_cons_of_mem _ hp')
    have hsplit : Books nodes b (fun r node =>
        (if p.info.bindingNodeId = some node then p.charged r else 0) +
          (partsCharge r node parts + total r node)) := by
      simpa only [partsCharge_cons, add_assoc] using h
    have hback := hsplit.giveBack
      (fun r node => add_nonneg (partsCharge_nonneg hrest r node) (hnonneg r node))
      (hkept p mem_cons_self) fun _ _ _ => (hfair p mem_cons_self).2
    obtain ⟨b', hparts, hbooks⟩ := ih hback hrest fun p' hp' =>
      hfair p' (mem_cons_of_mem _ hp')
    obtain ⟨node, hnode, hloc⟩ := (hfair p mem_cons_self).1
    refine ⟨b', ?_, hbooks⟩
    simp only [Binding.unbindParts, hparts]
    rw [hloc, if_pos (by simpa using hnode)]
    rfl

/-! ### Runs -/

open Finset in
def State.charge (s : State) (r : Resource) (node : ℕ) : ℤ :=
  ∑ q ∈ range s.count, partsCharge r node (s.projections q)

structure Invariant (s : State) : Prop where
  unlocked : s.locked = false
  books : Books s.nodes s.budgets s.charge
  kept : ∀ q, ∀ p ∈ s.projections q, Kept p

/-- Nothing is bound or charged, and the nodes have reported their capacities. -/
structure Initial (s : State) : Prop where
  unlocked : s.locked = false
  unbound : ∀ q, ∀ p ∈ s.projections q, p.info.bindingNodeId = none ∧ ∀ r, p.charged r = 0
  budgets : ∀ r, ∀ node ∈ s.nodes, (s.budgets r node).usedCapacity = 0 ∧
    0 ≤ (s.budgets r node).allocatedCapacity ∧ (s.budgets r node).allocatedCapacity < 2 ^ 31

theorem Initial.invariant {s : State} (h : Initial s) : Invariant s := by
  have hcharge : ∀ r node, s.charge r node = 0 := fun r node =>
    Finset.sum_eq_zero fun q _ =>
      partsCharge_of_unbound (fun p hp => (h.unbound q p hp).1) r node
  refine ⟨h.unlocked, ⟨fun r node hnode => ?_, fun r node hnode => ?_, fun r node hnode => ?_,
    fun r node hnode => (h.budgets r node hnode).2.2⟩, fun q p hp => ⟨fun node hnode => ?_,
    fun _ => (h.unbound q p hp).2, fun r => ((h.unbound q p hp).2 r).ge⟩⟩
  · rw [hcharge, (h.budgets r node hnode).1]
  · rw [hcharge]
  · rw [hcharge]
    exact (h.budgets r node hnode).2.1
  · rw [(h.unbound q p hp).1] at hnode
    cases hnode

variable {s s' : State}

/-- A call returns; after `false` the lock is held, and one node with enough room rules that
out. -/
theorem Invariant.bind_returns (h : Invariant s) (hfair : s.FairBind q level) :
    ∃ result s', s.bindingEntireProjection q level = some (result, s') ∧
      (result = false → s'.locked = true) ∧ (s.HasRoom q level → result = true) := by
  simp only [State.bindingEntireProjection, h.unlocked, Bool.false_eq_true, if_false]
  split
  · exact ⟨true, s, rfl, nofun, fun _ => rfl⟩
  · rename_i hall
    obtain ⟨hne, -, hfits⟩ := hfair.resolve_left fun hbound => hall (List.all_eq_true.mpr hbound)
    rw [if_neg hne]
    split
    · rename_i b hnone
      refine ⟨false, _, rfl, fun _ => rfl, fun hroom => ?_⟩
      have hsome := allocate_isSome h.books (fun _ => bounded_of_fits hfits)
        (length_pos_of_ne_nil hne) fun r hr => ?_
      · rw [hnone] at hsome
        cases hsome
      · obtain ⟨node, hnode, hle⟩ := hroom r hr
        exact ⟨node, hnode, h.books.used r node hnode ▸ hle⟩
    · exact ⟨true, _, rfl, nofun, fun _ => rfl⟩

theorem Invariant.bind (h : Invariant s) (hq : q < s.count) (hfair : s.FairBind q level)
    (hs : s.bindingEntireProjection q level = some (true, s')) :
    Invariant s' ∧
      ∀ p ∈ s'.projections q, ∃ node, p.info.bindingNodeId = some node ∧ p.sent = some node := by
  simp only [State.bindingEntireProjection, h.unlocked, Bool.false_eq_true, if_false] at hs
  split at hs
  · rename_i hall
    cases hs
    refine ⟨h, fun p hp => ?_⟩
    obtain ⟨node, hnode⟩ := Option.isSome_iff_exists.mp (List.all_eq_true.mp hall p hp)
    exact ⟨node, hnode, (h.kept q p hp).sent node hnode⟩
  · rename_i hall
    obtain ⟨hne, hs⟩ := Option.ite_none_left_eq_some.mp hs
    have hlen : 0 < s.nodes.length := length_pos_of_ne_nil hne
    obtain ⟨-, hun, hfits⟩ := hfair.resolve_left fun hbound =>
      hall (List.all_eq_true.mpr hbound)
    split at hs
    · cases hs
    · rename_i targets b hall
      cases hs
      obtain ⟨htargets, hbooks⟩ := h.books.allocate (fun _ => bounded_of_fits hfits)
        hlen hall
      rw [length_map] at htargets
      -- the projection had no part in what was charged before
      have hcharge : ∀ r node, ∑ k ∈ Finset.range s.count, partsCharge r node
            (update s.projections q
              (List.zipWith (Part.bindTo level) (s.projections q) targets) k) =
          s.charge r node + if resourceOf level = some r then
            granted node targets ((s.projections q).map (dataSize ·.info)) else 0 := by
        intro r node
        have hsum := Runs.sum_update (partsCharge r node) s.projections hq
          (List.zipWith (Part.bindTo level) (s.projections q) targets)
        rw [partsCharge_of_unbound hun, add_zero,
          partsCharge_bindTo htargets (h.kept q) hun] at hsum
        exact hsum
      -- every partition is bound now
      have hparts : ∀ p ∈ List.zipWith (Part.bindTo level) (s.projections q) targets,
          (∃ node, p.info.bindingNodeId = some node) ∧ Kept p := by
        intro p hp
        obtain ⟨i, hi⟩ := List.mem_iff_getElem?.mp hp
        obtain ⟨p₀, target, hp₀, -, rfl⟩ := List.getElem?_zipWith_eq_some.mp hi
        have hmem := mem_of_getElem? hp₀
        have hkept := h.kept q p₀ hmem
        exact ⟨⟨target, (Part.bindTo_of_unbound level hkept (hun p₀ hmem) target).1⟩,
          Part.bindTo_kept hkept (hun p₀ hmem) (hfits p₀ hmem).bounded.1 target⟩
      refine ⟨⟨rfl, ?_, ?_⟩, ?_⟩
      · simp only [← hcharge] at hbooks
        exact hbooks
      · intro q' p hp
        by_cases hqq : q' = q
        · subst hqq
          simp only [update_self] at hp
          exact (hparts p hp).2
        · simp only [update_of_ne hqq] at hp
          exact h.kept q' p hp
      · intro p hp
        simp only [update_self] at hp
        obtain ⟨⟨node, hnode⟩, hkept⟩ := hparts p hp
        exact ⟨node, hnode, hkept.sent node hnode⟩

theorem Invariant.unbind (h : Invariant s) (hq : q < s.count) (hfair : s.FairUnbind q) :
    ∃ s', s.unbindingEntireProjection q = some s' ∧ Invariant s' := by
  -- what is left when the projection is taken out of the sum
  have hsum : ∀ r node, partsCharge r node (s.projections q) + ∑ k ∈ Finset.range s.count,
      partsCharge r node (update s.projections q ((s.projections q).map Part.unbind) k) =
        s.charge r node := by
    intro r node
    have hupdate := Runs.sum_update (partsCharge r node) s.projections hq
      ((s.projections q).map Part.unbind)
    have hzero : partsCharge r node ((s.projections q).map Part.unbind) = 0 := by
      refine partsCharge_of_unbound (fun p hp => ?_) r node
      obtain ⟨p₀, -, rfl⟩ := List.mem_map.mp hp
      rfl
    rw [hzero, add_zero, add_comm] at hupdate
    exact hupdate
  have hkept : ∀ q', ∀ p ∈ update s.projections q ((s.projections q).map Part.unbind) q',
      Kept p := by
    intro q' p hp
    by_cases hqq : q' = q
    · subst hqq
      rw [update_self] at hp
      obtain ⟨p₀, -, rfl⟩ := List.mem_map.mp hp
      exact p₀.unbind_kept
    · rw [update_of_ne hqq] at hp
      exact h.kept q' p hp
  have hbooks : Books s.nodes s.budgets _ := h.books
  rw [show s.charge = _ from funext fun r => funext fun node => (hsum r node).symm] at hbooks
  obtain ⟨b', hparts, hbooks'⟩ := hbooks.unbindParts
    (fun r node => Finset.sum_nonneg fun k _ => partsCharge_nonneg (hkept k) r node)
    (h.kept q) hfair
  rw [State.unbindingEntireProjection, hparts]
  exact ⟨_, rfl, h.unlocked, hbooks', hkept⟩

theorem Invariant.removeNode (h : Invariant s) (node : ℕ) (visited : ℕ → Bool) :
    Invariant (s.removeNode node visited) := by
  have hmap : ∀ r node', node' ≠ node → ∀ parts : List Part, partsCharge r node'
      (parts.map fun p => if p.info.bindingNodeId = some node then p.unbind else p) =
        partsCharge r node' parts := by
    intro r node' hne parts
    rw [partsCharge, partsCharge, map_map]
    refine congrArg List.sum (map_congr_left fun p _ => ?_)
    by_cases hp : p.info.bindingNodeId = some node
    · simp [hp, Ne.symm hne, Part.unbind, PartitionInfo.unbindAllBlocks]
    · simp [hp]
  have hcharge : ∀ r, ∀ node' ∈ s.nodes.filter (· ≠ node),
      (s.removeNode node visited).charge r node' = s.charge r node' := by
    intro r node' hmem
    have hne : node' ≠ node := of_decide_eq_true (List.mem_filter.mp hmem).2
    refine Finset.sum_congr rfl fun q _ => ?_
    simp only [State.removeNode]
    split
    · exact hmap r node' hne _
    · rfl
  have hnodes : ∀ node' ∈ s.nodes.filter (· ≠ node), node' ∈ s.nodes := fun node' hmem =>
    (List.mem_filter.mp hmem).1
  refine ⟨h.unlocked, ⟨fun r node' hmem => ?_, fun r node' hmem => ?_, fun r node' hmem => ?_,
    fun r node' hmem => h.books.small r node' (hnodes node' hmem)⟩, fun q p hp => ?_⟩
  · rw [hcharge r node' hmem]
    exact h.books.used r node' (hnodes node' hmem)
  · rw [hcharge r node' hmem]
    exact h.books.nonneg r node' (hnodes node' hmem)
  · rw [hcharge r node' hmem]
    exact h.books.le r node' (hnodes node' hmem)
  · simp only [State.removeNode] at hp
    split at hp
    · obtain ⟨p₀, hp₀, rfl⟩ := List.mem_map.mp hp
      split
      · exact p₀.unbind_kept
      · exact h.kept q p₀ hp₀
    · exact h.kept q p hp

theorem Invariant.grow (h : Invariant s) (q i blocks : ℕ) : Invariant (s.grow q i blocks) := by
  have hmap : ∀ r node, partsCharge r node ((s.projections q).modify i fun p =>
      { p with info := { p.info with numberOfBlocks := blocks } }) =
        partsCharge r node (s.projections q) := by
    intro r node
    refine congrArg List.sum (ext_getElem? fun j => ?_)
    simp only [getElem?_map, getElem?_modify]
    cases (s.projections q)[j]? with
    | none => rfl
    | some p => by_cases hij : i = j <;> simp [hij]
  have hcharge : (s.grow q i blocks).charge = s.charge := by
    funext r node
    refine Finset.sum_congr rfl fun q' _ => ?_
    by_cases hqq : q' = q
    · subst hqq
      simp only [State.grow, update_self]
      exact hmap r node
    · simp only [State.grow, update_of_ne hqq]
  refine ⟨h.unlocked, hcharge ▸ h.books, fun q' p hp => ?_⟩
  by_cases hqq : q' = q
  · subst hqq
    simp only [State.grow, update_self] at hp
    obtain ⟨j, hj⟩ := List.mem_iff_getElem?.mp hp
    simp only [getElem?_modify, Option.map_eq_map, Option.map_eq_some_iff] at hj
    obtain ⟨p₀, hp₀, rfl⟩ := hj
    have hkept := h.kept q' p₀ (mem_of_getElem? hp₀)
    split
    · exact ⟨hkept.sent, hkept.free, hkept.nonneg⟩
    · exact hkept
  · simp only [State.grow, update_of_ne hqq] at hp
    exact h.kept q' p hp

theorem FairStep.invariant (hstep : FairStep s s') (h : Invariant s) : Invariant s' := by
  obtain ⟨e, hfair, hs⟩ := hstep
  cases e with
  | bind q level =>
    obtain ⟨hq, hs⟩ := Option.ite_none_right_eq_some.mp hs
    obtain ⟨⟨result, s₁⟩, hs₁, rfl⟩ := Option.map_eq_some_iff.mp hs
    obtain rfl : result = true := by simpa [hs₁] using hfair.2
    exact (h.bind hq hfair.1 hs₁).1
  | unbind q =>
    obtain ⟨hq, hs⟩ := Option.ite_none_right_eq_some.mp hs
    obtain ⟨s₁, hs₁, hinv⟩ := h.unbind hq hfair
    exact Option.some.inj (hs₁.symm.trans hs) ▸ hinv
  | removeNode node visited =>
    cases hs
    exact h.removeNode node visited
  | grow q i blocks =>
    obtain ⟨-, hs⟩ := Option.ite_none_right_eq_some.mp hs
    cases hs
    exact h.grow q i blocks

def freshPart (blocks : ℕ) : Part := ⟨⟨blocks, none⟩, none, fun _ => 0⟩

def cluster (nodes : List ℕ) (capacity : ℤ) (blocks : List ℕ) : State :=
  ⟨nodes, fun _ _ => ⟨capacity, 0⟩, 1, fun q => if q = 0 then blocks.map freshPart else [], false⟩

theorem cluster_initial (nodes blocks : List ℕ) {capacity : ℤ} (h₀ : 0 ≤ capacity)
    (h : capacity < 2 ^ 31) : Initial (cluster nodes capacity blocks) where
  unlocked := rfl
  unbound q p hp := by
    simp only [cluster] at hp
    split at hp
    · obtain ⟨n, -, rfl⟩ := List.mem_map.mp hp
      exact ⟨rfl, fun _ => rfl⟩
    · cases hp
  budgets _ _ _ := ⟨rfl, h₀, h⟩

def observed (s : State) : Bool × List (Option ℕ × Option ℕ) × List ℤ :=
  (s.locked, (s.projections 0).map fun p => (p.info.bindingNodeId, p.sent),
    s.nodes.map fun node => (s.budgets .memory node).usedCapacity)

end Binding
