/-
The nodes that are registered with the master.

Slaves register and send heartbeats, and once a second the silent nodes are removed.  Between
messages partitions are bound, and statements change the catalogue.

* **`unbindNode_spec`** — the tables from which `RemoveOneNode` takes a node;
* **`FairStep.invariant`** — what one message, binding or statement preserves;
* **`membership_invariant`** — the tables of the master over every run;
* **`delayed_heartbeat_and_hidden_table`** — runs that break it.
-/
import ClaimsDB.Catalog
import ClaimsDB.Runs

namespace TableCatalog

/-! ### Binding partitions -/

def PartitionInfo.bindAllBlocks (p : PartitionInfo) (target : ℕ) : Bool × PartitionInfo :=
  match p.bindingNodeId with
  | none => (true, { p with bindingNodeId := some target })
  | some node => (decide (target = node), p)

def PartitionInfo.unbindAllBlocks (p : PartitionInfo) : PartitionInfo :=
  { p with bindingNodeId := none }

def TableDescriptor.Bound (t : TableDescriptor) (node : ℕ) : Prop :=
  ∃ parts ∈ t.projections, ∃ p ∈ parts, p.bindingNodeId = some node

/-- The loops of `RemoveOneNode` over the projections of a table and their partitions. -/
def TableDescriptor.unbind (node : ℕ) (t : TableDescriptor) : TableDescriptor :=
  { t with projections := t.projections.map fun parts => parts.map fun p =>
      if p.bindingNodeId = some node then p.unbindAllBlocks else p }

theorem TableDescriptor.bound_unbind {t : TableDescriptor} {node k : ℕ} :
    (t.unbind node).Bound k ↔ t.Bound k ∧ k ≠ node := by
  constructor
  · rintro ⟨parts', hparts', p', hp', hk⟩
    obtain ⟨parts, hparts, rfl⟩ := List.mem_map.mp hparts'
    obtain ⟨p, hp, rfl⟩ := List.mem_map.mp hp'
    split at hk
    · cases hk
    · rename_i hne
      exact ⟨⟨parts, hparts, p, hp, hk⟩, fun heq => hne (heq ▸ hk)⟩
  · rintro ⟨⟨parts, hparts, p, hp, hk⟩, hne⟩
    refine ⟨_, List.mem_map_of_mem hparts, _, List.mem_map_of_mem hp, ?_⟩
    have hp' : ¬ p.bindingNodeId = some node := by
      rw [hk, Option.some.injEq]
      exact hne
    rw [if_neg hp', hk]

namespace Catalog

def Bound (c : Catalog) (node : ℕ) : Prop :=
  ∃ i l t, c.tableidToTable i = some (some l) ∧ c.heap[l]? = some t ∧ t.Bound node

/-- One round of the loop over the ids in `RemoveOneNode`. -/
def unbindTable (node : ℕ) (c : Catalog) (id : ℕ) : Catalog :=
  match c.getTableById id with
  | none => c
  | some l => { c with heap := c.heap.modify l (TableDescriptor.unbind node) }

/-- What `RemoveOneNode` does to the catalogue. -/
def unbindNode (c : Catalog) (node : ℕ) : Option Catalog :=
  c.getAllTablesID.map fun ids => ids.foldl (unbindTable node) c

/-- Every table with a partition on the node is one that `GetAllTablesID` lists. -/
def AllListed (c : Catalog) (node : ℕ) : Prop :=
  ∀ i l t, c.tableidToTable i = some (some l) → c.heap[l]? = some t → t.Bound node →
    ∃ ids, c.getAllTablesID = some ids ∧ i ∈ ids

structure Unbinds (c c' : Catalog) : Prop where
  tables : c'.tableidToTable = c.tableidToTable
  listing : c'.getAllTablesID = c.getAllTablesID
  desc : ∀ (l : ℕ) t', c'.heap[l]? = some t' →
    ∃ t, c.heap[l]? = some t ∧ ∀ node, t'.Bound node → t.Bound node

variable {c c' : Catalog}

theorem Unbinds.refl (c : Catalog) : c.Unbinds c where
  tables := rfl
  listing := rfl
  desc _ t ht := ⟨t, ht, fun _ h => h⟩

theorem Unbinds.trans {c'' : Catalog} (h : c.Unbinds c') (h' : c'.Unbinds c'') : c.Unbinds c'' where
  tables := h'.tables.trans h.tables
  listing := h'.listing.trans h.listing
  desc l t'' ht'' := by
    obtain ⟨t', ht', hsub'⟩ := h'.desc l t'' ht''
    obtain ⟨t, ht, hsub⟩ := h.desc l t' ht'
    exact ⟨t, ht, fun node hb => hsub node (hsub' node hb)⟩

variable {node : ℕ}

theorem Unbinds.bound (h : c.Unbinds c') (hb : c'.Bound node) : c.Bound node := by
  obtain ⟨i, l, t', hi, ht', hb⟩ := hb
  obtain ⟨t, ht, hsub⟩ := h.desc l t' ht'
  exact ⟨i, l, t, h.tables ▸ hi, ht, hsub node hb⟩

theorem Unbinds.allListed (h : c.Unbinds c') (hl : c.AllListed node) : c'.AllListed node := by
  intro i l t' hi ht' hb
  obtain ⟨t, ht, hsub⟩ := h.desc l t' ht'
  rw [h.listing]
  exact hl i l t (h.tables ▸ hi) ht (hsub node hb)

theorem getAllTablesID_modify (c : Catalog) (l node : ℕ) :
    getAllTablesID { c with heap := c.heap.modify l (TableDescriptor.unbind node) } =
      c.getAllTablesID := by
  have hname : nameAt { c with heap := c.heap.modify l (TableDescriptor.unbind node) } =
      c.nameAt := by
    funext p
    cases p with
    | none => rfl
    | some l' =>
      simp only [nameAt, Option.bind_some, List.getElem?_modify]
      cases c.heap[l']? with
      | none => rfl
      | some t =>
        by_cases hl : l = l'
        · simp [hl, TableDescriptor.unbind]
        · simp [hl]
  simp only [getAllTablesID, listed, hname]
  rfl

theorem unbindTable_unbinds (node : ℕ) (c : Catalog) (id : ℕ) :
    c.Unbinds (unbindTable node c id) := by
  unfold unbindTable
  split
  · exact .refl c
  · rename_i l hl
    refine ⟨rfl, getAllTablesID_modify c l node, fun l' t' ht' => ?_⟩
    simp only [List.getElem?_modify, Option.map_eq_map, Option.map_eq_some_iff] at ht'
    obtain ⟨t, ht, rfl⟩ := ht'
    refine ⟨t, ht, fun k hk => ?_⟩
    split at hk
    · exact (TableDescriptor.bound_unbind.mp hk).1
    · exact hk

theorem foldl_unbindTable_unbinds (node : ℕ) (ids : List ℕ) (c : Catalog) :
    c.Unbinds (ids.foldl (unbindTable node) c) := by
  induction ids generalizing c with
  | nil => exact .refl c
  | cons id ids ih => exact (unbindTable_unbinds node c id).trans (ih _)

theorem not_bound_foldl_unbindTable (node : ℕ) {ids : List ℕ} {c : Catalog} {i l : ℕ}
    {t' : TableDescriptor} (hmem : i ∈ ids) (hi : c.tableidToTable i = some (some l))
    (ht' : (ids.foldl (unbindTable node) c).heap[l]? = some t') : ¬ t'.Bound node := by
  induction ids generalizing c with
  | nil => cases hmem
  | cons id ids ih =>
    rcases List.mem_cons.mp hmem with rfl | hmem
    · -- what this round unbinds stays unbound
      have hget : c.getTableById i = some l := by rw [getTableById, hi, Option.join_some]
      obtain ⟨t, ht, hsub⟩ := (foldl_unbindTable_unbinds node ids _).desc l t' ht'
      simp only [unbindTable, hget, List.getElem?_modify_eq, Option.map_eq_map,
        Option.map_eq_some_iff] at ht
      obtain ⟨t₀, -, rfl⟩ := ht
      intro hb
      exact (TableDescriptor.bound_unbind.mp (hsub node hb)).2 rfl
    · have htables := (unbindTable_unbinds node c id).tables
      exact ih hmem (htables ▸ hi) ht'

theorem unbindNode_spec (h : c.unbindNode node = some c') :
    c.Unbinds c' ∧ (c.AllListed node → ¬ c'.Bound node) := by
  obtain ⟨ids, hids, rfl⟩ := Option.map_eq_some_iff.mp h
  have hun := foldl_unbindTable_unbinds node ids c
  refine ⟨hun, fun hlisted hb => ?_⟩
  obtain ⟨i, l, t', hi, ht', hb⟩ := hb
  rw [hun.tables] at hi
  obtain ⟨t, ht, hsub⟩ := hun.desc l t' ht'
  obtain ⟨ids', hids', hmem⟩ := hlisted i l t hi ht (hsub node hb)
  obtain rfl : ids = ids' := Option.mem_unique hids hids'
  exact not_bound_foldl_unbindTable node hmem hi ht' hb

end Catalog

end TableCatalog

namespace Membership

open TableCatalog Option Finset

/-! ### The master -/

structure NodeMap (α : Type) where
  keys : Finset ℕ
  get : ℕ → α

namespace NodeMap

variable {α : Type}

/-- `insert`, which leaves an entry that is there. -/
def insert (m : NodeMap α) (k : ℕ) (v : α) : NodeMap α :=
  if k ∈ m.keys then m else ⟨Insert.insert k m.keys, Function.update m.get k v⟩

def erase (m : NodeMap α) (k : ℕ) : NodeMap α := { m with keys := m.keys.erase k }

theorem keys_insert (m : NodeMap α) (k : ℕ) (v : α) :
    (m.insert k v).keys = Insert.insert k m.keys := by
  unfold insert
  split
  · rename_i hk
    exact (insert_eq_of_mem hk).symm
  · rfl

theorem get_insert {m : NodeMap α} {k j : ℕ} (v : α) (hj : j ∈ (m.insert k v).keys) :
    j = k ∧ k ∉ m.keys ∧ (m.insert k v).get j = v ∨
      j ∈ m.keys ∧ (m.insert k v).get j = m.get j := by
  unfold insert at hj ⊢
  split_ifs with hk
  · rw [if_pos hk] at hj
    exact .inr ⟨hj, rfl⟩
  · rw [if_neg hk] at hj
    rcases mem_insert.mp hj with rfl | hj
    · exact .inl ⟨rfl, hk, Function.update_self ..⟩
    · have hne : j ≠ k := fun heq => hk (heq ▸ hj)
      exact .inr ⟨hj, Function.update_of_ne hne ..⟩

end NodeMap

def kMaxTryTimes : ℕ := 5

structure Master (Ip : Type) where
  nodeIdGen : ℕ
  nodeIdToAddr : NodeMap (Ip × ℕ)
  nodeIdToActor : Finset ℕ
  nodeIdToHeartbeat : NodeMap ℕ
  nodeToResourceinfo : Finset ℕ
  catalog : Catalog

variable {Ip : Type} [DecidableEq Ip]

/-- The messages; `old` is the last id found under the address that registers. -/
inductive Message (Ip : Type)
  | register (ip : Ip) (port : ℕ) (old : Option ℕ)
  | heartBeat (nodeId : ℕ) (address : Ip) (port : ℕ)
  | updatelist

namespace Master

def start (c : Catalog) (anyAddr : Ip × ℕ) : Master Ip :=
  ⟨0, ⟨∅, fun _ => anyAddr⟩, ∅, ⟨∅, fun _ => 0⟩, ∅, c⟩

/-- The id that `AddOneNode` gives; a slave on the master's machine gets 0. -/
def nextId (masterIp : Ip) (m : Master Ip) (ip : Ip) : ℕ :=
  if ip = masterIp then 0 else (m.nodeIdGen + 1) % 2 ^ 32

/-- `AddOneNode`, and `RegisterNewSlave` for its result. -/
def addOneNode (masterIp : Ip) (m : Master Ip) (ip : Ip) (port : ℕ) : Master Ip :=
  let nodeId := m.nextId masterIp ip
  { m with
    nodeIdGen := if ip = masterIp then m.nodeIdGen else nodeId
    nodeIdToAddr := m.nodeIdToAddr.insert nodeId (ip, port)
    nodeIdToHeartbeat := m.nodeIdToHeartbeat.insert nodeId 0
    nodeIdToActor := insert nodeId m.nodeIdToActor
    nodeToResourceinfo := insert nodeId m.nodeToResourceinfo }

/-- `RemoveOneNode`, the removal of the heartbeat count, and `UnRegisterSlave`. -/
def removeOneNode (m : Master Ip) (nodeId : ℕ) : Option (Master Ip) :=
  (m.catalog.unbindNode nodeId).map fun c =>
    { m with
      nodeIdToAddr := m.nodeIdToAddr.erase nodeId
      nodeIdToActor := m.nodeIdToActor.erase nodeId
      nodeIdToHeartbeat := m.nodeIdToHeartbeat.erase nodeId
      nodeToResourceinfo := m.nodeToResourceinfo.erase nodeId
      catalog := c }

def found (m : Master Ip) (ip : Ip) (old : Option ℕ) : Bool :=
  match old with
  | some k => decide (k ∈ m.nodeIdToAddr.keys ∧ (m.nodeIdToAddr.get k).1 = ip)
  | none => decide (∀ k ∈ m.nodeIdToAddr.keys, (m.nodeIdToAddr.get k).1 ≠ ip)

def recognised (m : Master Ip) (nodeId : ℕ) (address : Ip) : Bool :=
  decide (nodeId ∈ m.nodeIdToHeartbeat.keys ∧ (m.nodeIdToAddr.get nodeId).1 = address)

def lost (m : Master Ip) : Finset ℕ :=
  m.nodeIdToHeartbeat.keys.filter fun k => kMaxTryTimes ≤ m.nodeIdToHeartbeat.get k + 1

def receive (masterIp : Ip) (m : Master Ip) : Message Ip → Option (Master Ip)
  | .register ip port old =>
    if m.found ip old then
      match old with
      | some k => (m.removeOneNode k).map fun m' => m'.addOneNode masterIp ip port
      | none => some (m.addOneNode masterIp ip port)
    else none
  | .heartBeat nodeId address port =>
    if nodeId ∈ m.nodeIdToHeartbeat.keys ∧ nodeId ∉ m.nodeIdToAddr.keys then none
    else if m.recognised nodeId address then
      some { m with nodeIdToHeartbeat :=
        { m.nodeIdToHeartbeat with get := Function.update m.nodeIdToHeartbeat.get nodeId 0 } }
    else some (m.addOneNode masterIp address port)
  | .updatelist =>
    let m₁ := { m with nodeIdToHeartbeat :=
      { m.nodeIdToHeartbeat with get := fun k => m.nodeIdToHeartbeat.get k + 1 } }
    (m.lost.sort (· ≤ ·)).foldlM removeOneNode m₁

/-- The last step of a binding, for the node that was chosen when the call began; nothing looks
whether the node is still registered. -/
def bind (m : Master Ip) (l projection part node : ℕ) : Master Ip :=
  { m with catalog := { m.catalog with heap := m.catalog.heap.modify l fun t =>
    { t with projections := t.projections.modify projection fun parts =>
      parts.modify part fun p => (p.bindAllBlocks node).2 } } }

end Master

inductive Event (Ip : Type)
  | message (msg : Message Ip)
  | bind (l projection part node : ℕ)

def Master.act (masterIp : Ip) (m : Master Ip) : Event Ip → Option (Master Ip)
  | .message msg => m.receive masterIp msg
  | .bind l projection part node => some (m.bind l projection part node)

/-- Which events are such that the invariants stay.  A node on the master's machine gets its id
again when it registers.  A partition is bound while its node is registered. -/
def Master.Fair (masterIp : Ip) (m : Master Ip) : Event Ip → Prop
  | .message (.register ip _ old) =>
    ip = masterIp ∨ ∀ k, old = some k → m.catalog.AllListed k
  | .message (.heartBeat nodeId address _) =>
    m.recognised nodeId address ∨ address = masterIp ∨
      ∀ k ∈ m.nodeIdToAddr.keys, (m.nodeIdToAddr.get k).1 ≠ address
  | .message .updatelist => ∀ k ∈ m.lost, m.catalog.AllListed k
  | .bind _ _ _ node => node ∈ m.nodeToResourceinfo

inductive FairStep (masterIp : Ip) : Master Ip → Master Ip → Prop
  | event {m m' : Master Ip} (e : Event Ip) (hfair : m.Fair masterIp e)
      (h : m.act masterIp e = some m') : FairStep masterIp m m'
  | statement {m : Master Ip} (c : Catalog) (h : ∀ node, c.Bound node → m.catalog.Bound node) :
      FairStep masterIp m { m with catalog := c }

/-! ### The four tables -/

/-- The four tables have the same nodes, no address has two of them, and a node on the master's
machine has the id 0. -/
structure Members (masterIp : Ip) (m : Master Ip) : Prop where
  actor : m.nodeIdToActor = m.nodeIdToAddr.keys
  heartbeat : m.nodeIdToHeartbeat.keys = m.nodeIdToAddr.keys
  resource : m.nodeToResourceinfo = m.nodeIdToAddr.keys
  unique : ∀ j ∈ m.nodeIdToAddr.keys, ∀ k ∈ m.nodeIdToAddr.keys,
    (m.nodeIdToAddr.get j).1 = (m.nodeIdToAddr.get k).1 → j = k
  onMaster : ∀ k ∈ m.nodeIdToAddr.keys, (m.nodeIdToAddr.get k).1 = masterIp → k = 0

def BoundToMembers (m : Master Ip) : Prop :=
  ∀ node, m.catalog.Bound node → node ∈ m.nodeIdToAddr.keys

variable {masterIp : Ip} {m m' : Master Ip}

omit [DecidableEq Ip] in
theorem members_start (c : Catalog) (anyAddr : Ip × ℕ) :
    Members masterIp (Master.start c anyAddr) where
  actor := rfl
  heartbeat := rfl
  resource := rfl
  unique j hj := absurd hj (notMem_empty j)
  onMaster k hk := absurd hk (notMem_empty k)

variable {ip : Ip} {nodeId port node : ℕ}

theorem Members.addOneNode (h : Members masterIp m) (port : ℕ)
    (hnew : ip = masterIp ∨ ∀ k ∈ m.nodeIdToAddr.keys, (m.nodeIdToAddr.get k).1 ≠ ip) :
    Members masterIp (m.addOneNode masterIp ip port) := by
  -- under the address of the new node there is no other one than itself
  have hself : ∀ k ∈ m.nodeIdToAddr.keys, (m.nodeIdToAddr.get k).1 = ip →
      k = m.nextId masterIp ip := by
    intro k hk hip
    rcases hnew with rfl | hnew
    · rw [Master.nextId, if_pos rfl]
      exact h.onMaster k hk hip
    · exact absurd hip (hnew k hk)
  constructor
  · rw [Master.addOneNode, NodeMap.keys_insert, h.actor]
  · rw [Master.addOneNode, NodeMap.keys_insert, NodeMap.keys_insert, h.heartbeat]
  · rw [Master.addOneNode, NodeMap.keys_insert, h.resource]
  · intro j hj k hk heq
    simp only [Master.addOneNode] at hj hk heq
    rcases NodeMap.get_insert _ hj with ⟨rfl, hj, hgj⟩ | ⟨hj, hgj⟩ <;>
      rcases NodeMap.get_insert _ hk with ⟨rfl, hk, hgk⟩ | ⟨hk, hgk⟩
    · rfl
    · rw [hgj, hgk] at heq
      exact (hself k hk heq.symm).symm
    · rw [hgj, hgk] at heq
      exact hself j hj heq
    · rw [hgj, hgk] at heq
      exact h.unique j hj k hk heq
  · intro k hk heq
    simp only [Master.addOneNode] at hk heq
    rcases NodeMap.get_insert _ hk with ⟨rfl, hk, hg⟩ | ⟨hk, hg⟩ <;> rw [hg] at heq
    · rw [Master.nextId, if_pos heq]
    · exact h.onMaster k hk heq

omit [DecidableEq Ip] in
theorem removeOneNode_spec (masterIp : Ip) (hm : m.removeOneNode nodeId = some m') :
    m.catalog.Unbinds m'.catalog ∧ m'.nodeIdToAddr = m.nodeIdToAddr.erase nodeId ∧
      (m.catalog.AllListed nodeId → ¬ m'.catalog.Bound nodeId) ∧
      (Members masterIp m → Members masterIp m') := by
  obtain ⟨c, hc, rfl⟩ := map_eq_some_iff.mp hm
  obtain ⟨hun, hnot⟩ := Catalog.unbindNode_spec hc
  refine ⟨hun, rfl, hnot, fun h => ⟨?_, ?_, ?_, ?_, ?_⟩⟩
  · exact congrArg (·.erase nodeId) h.actor
  · exact congrArg (·.erase nodeId) h.heartbeat
  · exact congrArg (·.erase nodeId) h.resource
  · intro j hj k hk
    exact h.unique j (mem_of_mem_erase hj) k (mem_of_mem_erase hk)
  · intro k hk
    exact h.onMaster k (mem_of_mem_erase hk)

omit [DecidableEq Ip] in
theorem BoundToMembers.removeOneNode (h : BoundToMembers m)
    (hm : m.removeOneNode nodeId = some m') (hlisted : m.catalog.AllListed nodeId) :
    BoundToMembers m' := by
  obtain ⟨c, hc, rfl⟩ := map_eq_some_iff.mp hm
  obtain ⟨hun, hnot⟩ := Catalog.unbindNode_spec hc
  intro node hb
  have hne : node ≠ nodeId := fun heq => hnot hlisted (heq ▸ hb)
  exact mem_erase.mpr ⟨hne, h node (hun.bound hb)⟩

omit [DecidableEq Ip] in
theorem foldlM_removeOneNode {ids : List ℕ} (hm : ids.foldlM Master.removeOneNode m = some m')
    (hmem : Members masterIp m) (hb : BoundToMembers m)
    (hlisted : ∀ k ∈ ids, m.catalog.AllListed k) : Members masterIp m' ∧ BoundToMembers m' := by
  induction ids generalizing m with
  | nil =>
    cases hm
    exact ⟨hmem, hb⟩
  | cons k ids ih =>
    obtain ⟨m₁, hm₁, hrest⟩ := bind_eq_some_iff.mp hm
    obtain ⟨hun, -, -, hmembers⟩ := removeOneNode_spec masterIp hm₁
    have hk := hlisted k List.mem_cons_self
    exact ih hrest (hmembers hmem) (hb.removeOneNode hm₁ hk) fun k' hk' =>
      hun.allListed (hlisted k' (List.mem_cons_of_mem _ hk'))

/-! ### The messages -/

theorem BoundToMembers.addOneNode (h : BoundToMembers m) (ip : Ip) (port : ℕ) :
    BoundToMembers (m.addOneNode masterIp ip port) := by
  intro node hb
  rw [Master.addOneNode, NodeMap.keys_insert]
  exact mem_insert_of_mem (h node hb)

section

variable (hmem : Members masterIp m) (hb : BoundToMembers m)

include hmem hb

theorem receive_register {old : Option ℕ}
    (hfair : m.Fair masterIp (.message (.register ip port old)))
    (hm : m.receive masterIp (.register ip port old) = some m') :
    Members masterIp m' ∧ BoundToMembers m' := by
  obtain ⟨hfound, hm⟩ := ite_none_right_eq_some.mp hm
  cases old with
  | none =>
    cases hm
    exact ⟨hmem.addOneNode port (.inr (of_decide_eq_true hfound)), hb.addOneNode ip port⟩
  | some k =>
    obtain ⟨m₁, hm₁, rfl⟩ := map_eq_some_iff.mp hm
    obtain ⟨hk, hip⟩ := of_decide_eq_true hfound
    obtain ⟨hun, haddr, -, hmembers⟩ := removeOneNode_spec masterIp hm₁
    -- the node that was removed was the only one with the address
    have hnew : ∀ j ∈ m₁.nodeIdToAddr.keys, (m₁.nodeIdToAddr.get j).1 ≠ ip := by
      rw [haddr]
      intro j hj heq
      obtain ⟨hne, hj⟩ := mem_erase.mp hj
      exact hne (hmem.unique j hj k hk (heq.trans hip.symm))
    refine ⟨(hmembers hmem).addOneNode port (.inr hnew), ?_⟩
    rcases hfair with rfl | hlisted
    · -- a slave on the master's machine had the id 0 and gets it again
      have hk0 := hmem.onMaster k hk hip
      intro node hnode
      rw [Master.addOneNode, NodeMap.keys_insert, haddr, Master.nextId, if_pos rfl]
      by_cases hne : node = 0
      · exact hne ▸ mem_insert_self ..
      · refine mem_insert_of_mem (mem_erase.mpr ⟨hk0 ▸ hne, ?_⟩)
        exact hb node (hun.bound hnode)
    · exact (hb.removeOneNode hm₁ (hlisted k rfl)).addOneNode ip port

theorem receive_heartBeat {address : Ip}
    (hfair : m.Fair masterIp (.message (.heartBeat nodeId address port)))
    (hm : m.receive masterIp (.heartBeat nodeId address port) = some m') :
    Members masterIp m' ∧ BoundToMembers m' := by
  obtain ⟨-, hm⟩ := ite_none_left_eq_some.mp hm
  split at hm
  · cases hm
    exact ⟨⟨hmem.actor, hmem.heartbeat, hmem.resource, hmem.unique, hmem.onMaster⟩, hb⟩
  · rename_i hrec
    cases hm
    have hnew := hfair.resolve_left hrec
    exact ⟨hmem.addOneNode port hnew, hb.addOneNode address port⟩

theorem receive_updatelist (hfair : m.Fair masterIp (.message .updatelist))
    (hm : m.receive masterIp .updatelist = some m') :
    Members masterIp m' ∧ BoundToMembers m' := by
  refine foldlM_removeOneNode hm ?_ hb fun k hk => hfair k ((mem_sort _).mp hk)
  exact ⟨hmem.actor, hmem.heartbeat, hmem.resource, hmem.unique, hmem.onMaster⟩

end

omit [DecidableEq Ip] in
theorem Master.bind_bound {l projection part k : ℕ}
    (hb : (m.bind l projection part node).catalog.Bound k) : m.catalog.Bound k ∨ k = node := by
  obtain ⟨i, l', t', hi, ht', parts', hparts', p', hp', hk⟩ := hb
  simp only [Master.bind, List.getElem?_modify, map_eq_map, map_eq_some_iff] at ht'
  obtain ⟨t, ht, rfl⟩ := ht'
  have hold : ∀ parts ∈ t.projections, ∀ p ∈ parts, p.bindingNodeId = some k →
      m.catalog.Bound k := fun parts hparts p hp hpk =>
    ⟨i, l', t, hi, ht, parts, hparts, p, hp, hpk⟩
  split at hparts'
  · obtain ⟨a, ha⟩ := List.mem_iff_getElem?.mp hparts'
    simp only [List.getElem?_modify, map_eq_map, map_eq_some_iff] at ha
    obtain ⟨parts, hparts, rfl⟩ := ha
    split at hp'
    · obtain ⟨b, hb⟩ := List.mem_iff_getElem?.mp hp'
      simp only [List.getElem?_modify, map_eq_map, map_eq_some_iff] at hb
      obtain ⟨p, hp, rfl⟩ := hb
      have hmem := hold parts (List.mem_of_getElem? hparts) p (List.mem_of_getElem? hp)
      split at hk
      · unfold PartitionInfo.bindAllBlocks at hk
        split at hk
        · exact .inr (some.inj hk).symm
        · exact .inl (hmem hk)
      · exact .inl (hmem hk)
    · exact .inl (hold parts (List.mem_of_getElem? hparts) p' hp' hk)
  · exact .inl (hold parts' hparts' p' hp' hk)

theorem FairStep.invariant (hstep : FairStep masterIp m m')
    (h : Members masterIp m ∧ BoundToMembers m) : Members masterIp m' ∧ BoundToMembers m' := by
  obtain ⟨hmem, hb⟩ := h
  cases hstep with
  | statement c hc =>
    exact ⟨⟨hmem.actor, hmem.heartbeat, hmem.resource, hmem.unique, hmem.onMaster⟩,
      fun node hnode => hb node (hc node hnode)⟩
  | event e hfair hm =>
    cases e with
    | message msg =>
      cases msg with
      | register ip port old => exact receive_register hmem hb hfair hm
      | heartBeat nodeId address port => exact receive_heartBeat hmem hb hfair hm
      | updatelist => exact receive_updatelist hmem hb hfair hm
    | bind l projection part node =>
      obtain rfl := some.inj hm
      refine ⟨⟨hmem.actor, hmem.heartbeat, hmem.resource, hmem.unique, hmem.onMaster⟩,
        fun k hk => ?_⟩
      rcases Master.bind_bound hk with hk | rfl
      · exact hb k hk
      · exact (Finset.ext_iff.1 hmem.resource _).1 hfair

/-- **Membership** in every run of fair steps. -/
theorem membership_invariant {c : Catalog} {anyAddr : Ip × ℕ} (hc : ∀ node, ¬ c.Bound node)
    (h : Runs.Reaches (FairStep masterIp) (Master.start c anyAddr) m) :
    (m.nodeIdToActor = m.nodeIdToAddr.keys ∧ m.nodeIdToHeartbeat.keys = m.nodeIdToAddr.keys ∧
      m.nodeToResourceinfo = m.nodeIdToAddr.keys) ∧
      (∀ j ∈ m.nodeIdToAddr.keys, ∀ k ∈ m.nodeIdToAddr.keys,
        (m.nodeIdToAddr.get j).1 = (m.nodeIdToAddr.get k).1 → j = k) ∧
      ∀ node, m.catalog.Bound node → node ∈ m.nodeIdToAddr.keys := by
  have hstart : Members masterIp (Master.start c anyAddr) ∧
      BoundToMembers (Master.start c anyAddr) :=
    ⟨members_start c anyAddr, fun node hb => absurd hb (hc node)⟩
  obtain ⟨hmem, hb⟩ := Runs.invariant (fun _ _ hI hs => hs.invariant hI) h hstart
  exact ⟨⟨hmem.actor, hmem.heartbeat, hmem.resource⟩, hmem.unique, hb⟩

/-! ### Runs -/

def twoTables : Catalog where
  tableIdCursor := 2
  nameToTable n :=
    if n = ['x'] then some (some 0)
    else if n = 'x' :: delSuffix then some (some 1) else none
  tableidToTable i := if i = 0 then some (some 0) else if i = 1 then some (some 1) else none
  heap := [⟨['x'], 0, [], [[⟨0, none⟩]]⟩, ⟨'x' :: delSuffix, 1, [], [[⟨0, none⟩]]⟩]

theorem twoTables_not_bound (node : ℕ) : ¬ twoTables.Bound node := by
  rintro ⟨i, l, t, -, ht, parts, hparts, p, hp, hnode⟩
  have hmem : t ∈ twoTables.heap := List.mem_of_getElem? ht
  have hnone : ∀ t ∈ twoTables.heap, ∀ parts ∈ t.projections, ∀ p ∈ parts,
      p.bindingNodeId = none := by decide
  rw [hnone t hmem parts hparts p hp] at hnode
  cases hnode

/-- The location of the only partition of the table at `l`, and the registered nodes with their
addresses. -/
def shown (l : ℕ) (m : Master ℕ) : Option ℕ × Finset (ℕ × ℕ) :=
  ((m.catalog.heap[l]?.bind fun t => t.projections.head?.bind List.head?).bind (·.bindingNodeId),
    m.nodeIdToAddr.keys.image fun k => (k, (m.nodeIdToAddr.get k).1))

theorem twoTables_allListed {c : Catalog} (hids : c.tableidToTable = twoTables.tableidToTable)
    (hlist : c.getAllTablesID = some [0]) (hdel : ∀ t, c.heap[1]? = some t → ¬ t.Bound node) :
    c.AllListed node := by
  intro i l t hi ht hb
  refine ⟨[0], hlist, List.mem_singleton.mpr ?_⟩
  rw [hids] at hi
  simp only [twoTables] at hi
  split at hi
  · assumption
  · split at hi
    · cases hi
      exact absurd hb (hdel t ht)
    · cases hi

theorem one_restart :
    ∃ m₁ m₂ m₃ : Master ℕ,
      (Master.start twoTables (0, 0)).act 5 (.message (.register 7 80 none)) = some m₁ ∧
      m₁.act 5 (.bind 0 0 0 1) = some m₂ ∧
      m₂.act 5 (.message (.register 7 80 (some 1))) = some m₃ ∧
      shown 0 m₂ = (some 1, {(1, 7)}) ∧ shown 0 m₃ = (none, {(2, 7)}) ∧
      ∀ node, m₃.catalog.Bound node → node ∈ m₃.nodeIdToAddr.keys := by
  have hrun : ∀ m₁ m₂ m₃ : Master ℕ,
      (Master.start twoTables (0, 0)).act 5 (.message (.register 7 80 none)) = some m₁ →
      m₁.act 5 (.bind 0 0 0 1) = some m₂ → 1 ∈ m₁.nodeToResourceinfo →
      m₂.act 5 (.message (.register 7 80 (some 1))) = some m₃ → m₂.catalog.AllListed 1 →
      ∀ node, m₃.catalog.Bound node → node ∈ m₃.nodeIdToAddr.keys := by
    intro m₁ m₂ m₃ h₁ h₂ hnode h₃ hlisted
    have s₁ : FairStep 5 (Master.start twoTables (0, 0)) m₁ :=
      .event (.message (.register 7 80 none)) (.inr nofun) h₁
    have s₂ : FairStep 5 m₁ m₂ := .event (.bind 0 0 0 1) hnode h₂
    have s₃ : FairStep 5 m₂ m₃ :=
      .event (.message (.register 7 80 (some 1)))
        (.inr fun k hk => some.inj hk ▸ hlisted) h₃
    exact (membership_invariant twoTables_not_bound (((Relation.ReflTransGen.single s₁).tail
      s₂).tail s₃)).2.2
  refine ⟨_, _, _, rfl, rfl, rfl, by decide, by decide, hrun _ _ _ rfl rfl (by decide) rfl ?_⟩
  apply twoTables_allListed
  · rfl
  · decide
  intro t ht
  cases ht
  rintro ⟨parts, hparts, p, hp, hnode⟩
  cases List.mem_singleton.mp hparts
  cases List.mem_singleton.mp hp
  cases hnode

def Master.run (masterIp : Ip) (m : Master Ip) (events : List (Event Ip)) : Option (Master Ip) :=
  events.foldlM (Master.act masterIp) m

/-- An address with two ids, a partition that stays bound to a node that is gone, and one that is
bound to a node after it is gone. -/
theorem delayed_heartbeat_and_hidden_table :
    ((Master.start twoTables (0, 0)).run 5 [.message (.register 7 80 none),
      .message (.register 7 80 (some 1)), .message (.heartBeat 1 7 80)]).map
        (fun m => (shown 1 m).2) = some {(2, 7), (3, 7)} ∧
    ((Master.start twoTables (0, 0)).run 5 [.message (.register 7 80 none), .bind 1 0 0 1,
      .message .updatelist, .message .updatelist, .message .updatelist, .message .updatelist,
      .message .updatelist]).map (shown 1) = some (some 1, ∅) ∧
    ((Master.start twoTables (0, 0)).run 5 [.message (.register 7 80 none),
      .message .updatelist, .message .updatelist, .message .updatelist, .message .updatelist,
      .message .updatelist, .bind 0 0 0 1]).map (shown 0) = some (some 1, ∅) := by
  decide +kernel

end Membership
