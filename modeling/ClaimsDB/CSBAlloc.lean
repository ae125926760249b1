/-
Allocating the groups of a level.

The lemmas at the beginning are the ones that the loops over arrays use: padded
arrays, lists cut into pieces, the last two elements of a list.
-/
import ClaimsDB.CSBBulkLoad
import ClaimsDB.CSBLevels

namespace CSB

open List

variable {T : Type} [IndexKey T]

/-! ### Lists -/

variable {α : Type} {xs : List α} {cap : ℕ} {x : α} {h : Heap T} {p : NodePtr} {n : CCSBNode T}
  {g u : ℕ} {ns : List ℕ} {hd tl : Option GroupPtr} {fresh : CCSBNode T} {body : GroupBody}

theorem set_pad (hx : xs.length < cap) (a x : α) :
    (xs ++ List.replicate (cap - xs.length) a).set xs.length x
      = (xs ++ [x]) ++ List.replicate (cap - (xs ++ [x]).length) a := by
  obtain ⟨m, hm⟩ : ∃ m, cap - xs.length = m + 1 := ⟨cap - xs.length - 1, by omega⟩
  rw [hm, set_append_right _ _ le_rfl, Nat.sub_self, replicate_succ,
    set_cons_zero, length_append, length_singleton,
    show cap - (xs.length + 1) = m by omega]
  simp

theorem take_drop_succ {i k : ℕ} (hx : xs[i + k]? = some x) :
    (xs.drop i).take (k + 1) = (xs.drop i).take k ++ [x] := by
  rw [take_add_one, getElem?_drop, hx]
  rfl

theorem splitLengths_append : ∀ (cs ds : List ℕ) (xs : List α),
    (cs ++ ds).splitLengths xs = cs.splitLengths xs ++ ds.splitLengths (xs.drop cs.sum)
  | [], _, _ => by simp
  | c :: cs, ds, xs => by simp [splitLengths_append cs ds, drop_drop]

theorem splitLengths_ne_nil {cs : List ℕ} (hpos : ∀ c ∈ cs, 1 ≤ c) (hle : cs.sum ≤ xs.length) :
    ∀ ds ∈ cs.splitLengths xs, ds ≠ [] := by
  intro ds hds h0
  have hmem : ds.length ∈ (cs.splitLengths xs).map List.length := mem_map_of_mem hds
  rw [map_splitLengths_length _ _ hle] at hmem
  have := hpos _ hmem
  rw [h0, length_nil] at this
  omega

theorem not_mem_take_of_nodup (hnd : xs.Nodup) {j : ℕ} (hx : xs[j]? = some x) : x ∉ xs.take j := by
  have hsucc : (xs.take (j + 1)).Nodup := hnd.sublist (take_sublist _ _)
  rw [take_add_one, hx, nodup_append'] at hsucc
  exact fun hmem => hsucc.2.2 hmem (by simp)

theorem exists_snoc_two {q : ℕ} (h : xs.length = q + 2) :
    ∃ ms x y, xs = ms ++ [x, y] ∧ ms.length = q := by
  obtain ⟨x, y, hxy⟩ := List.length_eq_two.mp (show (xs.drop q).length = 2 by simp [h])
  exact ⟨xs.take q, x, y, by rw [← hxy, take_append_drop], by simp [h]⟩

theorem foldlM_range'_two {σ : Type} (f : σ → ℕ → Run σ) (q : ℕ) (s : σ) :
    (List.range' q 2).foldlM f s = (f s q >>= fun s => f s (q + 1)) := by
  simp only [List.range', foldlM_cons, foldlM_nil, bind_pure]

/-! ### Single steps on the heap -/

omit [IndexKey T] in
theorem Heap.setNode_self (hp : h.node p = some n) : h.setNode p n = h := by
  rw [Heap.setNode, ← hp, Function.update_eq_self]

theorem setUsed_eq (hp : h.node p = some n) (c : ℕ) :
    setUsed h (some p) c = .ok (h.setNode p (n.setUsedKeys c)) :=
  Heap.modifyNode_eq hp rfl

omit [IndexKey T] in
theorem setFather_eq (hp : h.node p = some n) (f : Option NodePtr) :
    setFather h (some p) f = .ok (h.setNode p (n.setFather f)) :=
  Heap.modifyNode_eq hp rfl

omit [IndexKey T] in
theorem Heap.setHeaderNG_eq (hg : h.group g = some ⟨u, ns, .leaf hd tl⟩) (x : Option GroupPtr) :
    h.setHeaderNG (some g) x = .ok (h.setGroup g ⟨u, ns, .leaf x tl⟩) := by
  simp only [setHeaderNG, hg]

omit [IndexKey T] in
theorem Heap.setTailerNG_eq (hg : h.group g = some ⟨u, ns, .leaf hd tl⟩) (x : Option GroupPtr) :
    h.setTailerNG (some g) x = .ok (h.setGroup g ⟨u, ns, .leaf hd x⟩) := by
  simp only [setTailerNG, hg]

/-! ### Allocating the groups of a level -/

/-- The groups `V` have just been allocated between the heaps `h` and `h'`. -/
structure Allocated (fresh : CCSBNode T) (body : GroupBody) (h h' : Heap T)
    (V : List (ℕ × List ℕ)) : Prop where
  group : ∀ G ∈ V, h'.group G.1 = some ⟨G.2.length, G.2, body⟩
  node : ∀ p ∈ V.flatMap (·.2), h'.node p = some fresh
  nodup_groups : (V.map (·.1)).Nodup
  nodup_nodes : (V.flatMap (·.2)).Nodup
  groups_ge : ∀ G ∈ V, h.nextGroup ≤ G.1 ∧ G.1 < h'.nextGroup
  nodes_ge : ∀ p ∈ V.flatMap (·.2), h.nextNode ≤ p ∧ p < h'.nextNode
  old_group : ∀ g < h.nextGroup, h'.group g = h.group g
  old_node : ∀ p < h.nextNode, h'.node p = h.node p
  nextNode_le : h.nextNode ≤ h'.nextNode
  nextGroup_le : h.nextGroup ≤ h'.nextGroup

omit [IndexKey T] in
theorem Allocated.refl (fresh : CCSBNode T) (body : GroupBody) (h : Heap T) :
    Allocated fresh body h h [] := by
  constructor <;> simp

omit [IndexKey T] in
@[simp] theorem Heap.mem_freshNodes {n p : ℕ} :
    p ∈ h.freshNodes n ↔ h.nextNode ≤ p ∧ p < h.nextNode + n := by
  simp only [freshNodes, mem_map, mem_range]
  constructor
  · rintro ⟨k, hk, rfl⟩
    omega
  · rintro ⟨h1, h2⟩
    exact ⟨p - h.nextNode, by omega, by omega⟩

omit [IndexKey T] in
theorem Heap.length_freshNodes (h : Heap T) (n : ℕ) : (h.freshNodes n).length = n := by
  simp [freshNodes]

theorem Heap.newGroup_group_of_lt (h : Heap T) (fresh : CCSBNode T) (body : GroupBody) (n : ℕ)
    (hg : g < h.nextGroup) : (h.newGroup fresh body n).group g = h.group g := by
  have hne : g ≠ h.nextGroup := by omega
  simp [newGroup, hne]

theorem Heap.newGroup_node_of_lt (h : Heap T) (fresh : CCSBNode T) (body : GroupBody) (n : ℕ)
    {p : ℕ} (hp : p < h.nextNode) : (h.newGroup fresh body n).node p = h.node p := by
  simp only [newGroup]
  rw [if_neg (by omega)]

theorem Allocated.snoc {h' : Heap T} {V : List (ℕ × List ℕ)} (hV : Allocated fresh body h h' V)
    {n : ℕ} (hn : n ≤ maxKeys T + 1) :
    Allocated fresh body h (h'.newGroup fresh body n) (V ++ [(h'.nextGroup, h'.freshNodes n)]) := by
  have hflat : (V ++ [(h'.nextGroup, h'.freshNodes n)]).flatMap (·.2)
      = V.flatMap (·.2) ++ h'.freshNodes n := by simp
  constructor
  · intro G hG
    rcases List.mem_append.mp hG with hG | hG
    · rw [Heap.newGroup_group_of_lt _ _ _ _ (hV.groups_ge G hG).2, hV.group G hG]
    · simp [List.mem_singleton.mp hG, Heap.newGroup, hn, Heap.length_freshNodes]
  · intro p hp
    rw [hflat, mem_append] at hp
    rcases hp with hp | hp
    · rw [Heap.newGroup_node_of_lt _ _ _ _ (hV.nodes_ge p hp).2, hV.node p hp]
    · exact if_pos (Heap.mem_freshNodes.mp hp)
  · rw [map_append, nodup_append']
    refine ⟨hV.nodup_groups, by simp, ?_⟩
    intro g hg hg'
    obtain ⟨G, hG, rfl⟩ := List.mem_map.mp hg
    have := (hV.groups_ge G hG).2
    simp only [map_cons, map_nil, mem_singleton] at hg'
    omega
  · rw [hflat, nodup_append']
    refine ⟨hV.nodup_nodes, List.nodup_range.map fun _ _ => Nat.add_left_cancel, ?_⟩
    intro p hp hp'
    have := (hV.nodes_ge p hp).2
    have := Heap.mem_freshNodes.mp hp'
    omega
  · intro G hG
    have hle := hV.nextGroup_le
    simp only [Heap.newGroup]
    rcases List.mem_append.mp hG with hG | hG
    · have := hV.groups_ge G hG
      omega
    · rw [List.mem_singleton.mp hG]
      exact ⟨hle, Nat.lt_succ_self _⟩
  · intro p hp
    have hle := hV.nextNode_le
    simp only [Heap.newGroup]
    rw [hflat, mem_append] at hp
    rcases hp with hp | hp
    · have := hV.nodes_ge p hp
      omega
    · have := Heap.mem_freshNodes.mp hp
      omega
  · intro g hg
    rw [Heap.newGroup_group_of_lt _ _ _ _ (lt_of_lt_of_le hg hV.nextGroup_le),
      hV.old_group g hg]
  · intro p hp
    rw [Heap.newGroup_node_of_lt _ _ _ _ (lt_of_lt_of_le hp hV.nextNode_le), hV.old_node p hp]
  · have hle := hV.nextNode_le
    simp only [Heap.newGroup]
    omega
  · have hle := hV.nextGroup_le
    simp only [Heap.newGroup]
    omega

theorem allocGroups_spec {newNodeGroup : Heap T → ℕ → Heap T}
    (hnew : ∀ h n, newNodeGroup h n = h.newGroup fresh body n) {sizes : List ℕ}
    (hcap : sizes.length ≤ cap) (hsizes : ∀ n ∈ sizes, n ≤ maxKeys T + 1) (h : Heap T) :
    ∃ V h', allocGroups newNodeGroup cap sizes h = .ok (V.map (·.1), h') ∧
      Allocated fresh body h h' V ∧ V.map (·.2.length) = sizes := by
  have key := Run.foldlM_inv sizes (s := (([] : List GroupPtr), h))
    (f := fun (s : List GroupPtr × Heap T) n => do
      let gs ← Run.push cap s.1 s.2.nextGroup
      pure (gs, newNodeGroup s.2 n))
    (I := fun done s => ∃ V, s.1 = V.map (·.1) ∧ Allocated fresh body h s.2 V ∧
      V.map (·.2.length) = done)
    ⟨[], rfl, .refl _ _ _, rfl⟩ ?_
  · obtain ⟨s', hs', V, hgs, hV, hlen⟩ := key
    exact ⟨V, s'.2, by rw [← hgs]; exact hs', hV, hlen⟩
  · rintro pre n post ⟨gs, h'⟩ heq ⟨V, rfl, hV, hlen⟩
    have hlenV : V.length < cap := by
      have h1 : sizes.length = pre.length + (post.length + 1) := by
        simpa using congrArg List.length heq
      have h2 : V.length = pre.length := by simpa using congrArg List.length hlen
      omega
    have hn : n ≤ maxKeys T + 1 := hsizes n (by simp [heq])
    refine ⟨((V ++ [(h'.nextGroup, h'.freshNodes n)]).map (·.1), h'.newGroup fresh body n), ?_,
      _, rfl, hV.snoc hn, ?_⟩
    · simp only [hnew]
      rw [Run.push_eq_ok _ (by simpa using hlenV)]
      simp
    · simp [hlen, Heap.length_freshNodes]

/-! ### Loops over nodes and groups -/

section Loops

variable {P : List ℕ → Deal T → Prop} {group : GroupPtr → Option CCSBNodeGroup}
  (hP : ∀ ps s, P ps s → s.heap.group = group)
include hP

omit [IndexKey T] in
theorem forNodes {g m : ℕ} {ns ps : List ℕ} {b : GroupBody} {s : Deal T}
    (hg : group g = some ⟨ns.length, ns, b⟩) (hm : m ≤ ns.length) (h0 : P ps s)
    (body : ℕ → Option NodePtr → Deal T → Run (Deal T))
    (hbody : ∀ j p s, j < m → ns[j]? = some p → P (ps ++ ns.take j) s →
      ∃ s', body j (some p) s = .ok s' ∧ P (ps ++ ns.take j ++ [p]) s') :
    ∃ s', (List.range m).foldlM (fun s j => do
        let node ← s.heap.getNode (some g) j
        body j node s) s = .ok s' ∧ P (ps ++ ns.take m) s' := by
  refine Run.foldlM_range_inv (I := fun j s => P (ps ++ ns.take j) s) (by simpa using h0) ?_
  intro j s hj hI
  obtain ⟨p, hp⟩ : ∃ p, ns[j]? = some p := ⟨_, getElem?_eq_getElem (by omega)⟩
  obtain ⟨s', hs', h'⟩ := hbody j p s hj hp hI
  refine ⟨s', ?_, ?_⟩
  · rw [Heap.getNode_eq (by rw [hP _ _ hI, hg]) hp, Run.bind_ok, hs']
  · rw [take_add_one, hp]
    simpa using h'

omit [IndexKey T] in
theorem forGroups {W X : List (ℕ × List ℕ)} {b : GroupBody} {s : Deal T}
    (hW : ∀ G ∈ W, group G.1 = some ⟨G.2.length, G.2, b⟩) (h0 : P [] s)
    (body : Option NodePtr → Deal T → Run (Deal T))
    (hbody : ∀ pre p post s, W.flatMap (·.2) = pre ++ p :: post → P pre s →
      ∃ s', body (some p) s = .ok s' ∧ P (pre ++ [p]) s') :
    ∃ s', (List.range W.length).foldlM (forGroup ((W ++ X).map (·.1)) body) s = .ok s' ∧
      P (W.flatMap (·.2)) s' := by
  have key := Run.foldlM_range_inv (n := W.length) (s := s)
    (f := forGroup ((W ++ X).map (·.1)) body)
    (I := fun k s => P ((W.take k).flatMap (·.2)) s) h0 ?_
  · simpa using key
  intro k s hk hI
  obtain ⟨g, ns, hG⟩ : ∃ g ns, W[k]? = some (g, ns) := ⟨_, _, getElem?_eq_getElem hk⟩
  have hsplit : (W.take (k + 1)).flatMap (·.2) = (W.take k).flatMap (·.2) ++ ns := by
    rw [take_add_one, hG]
    simp
  have hall : W.flatMap (·.2) = (W.take k).flatMap (·.2) ++ ns ++ (W.drop (k + 1)).flatMap (·.2) := by
    rw [← hsplit, ← flatMap_append, take_append_drop]
  have hgrp := hW _ (mem_of_getElem? hG)
  obtain ⟨s', hs', h'⟩ := forNodes hP (m := ns.length) hgrp le_rfl hI (fun _ => body) (by
    intro j p s hj hp hI
    refine hbody _ p (ns.drop (j + 1) ++ (W.drop (k + 1)).flatMap (·.2)) s ?_ hI
    have hns : ns = ns.take j ++ p :: ns.drop (j + 1) := by
      obtain ⟨_, rfl⟩ := List.getElem?_eq_some_iff.mp hp
      rw [← drop_eq_getElem_cons hj, take_append_drop]
    rw [hall]
    conv_lhs => rw [hns]
    simp)
  refine ⟨s', ?_, ?_⟩
  · have hidx : ((W ++ X).map (·.1))[k]? = some g := by
      rw [getElem?_map, getElem?_append_left hk, hG]
      rfl
    rw [forGroup, Run.index_eq_ok hidx, Run.bind_ok,
      Heap.readGroup_eq (by rw [hP _ _ hI, hgrp]), Run.bind_ok, hs']
  · rw [hsplit]
    simpa using h'

end Loops

end CSB
