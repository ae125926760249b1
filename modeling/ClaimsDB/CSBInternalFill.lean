/-
The loops of `makeInternalNodeGroup`.  The source works on `F.tail`, with `F` the first keys of
the nodes below: every piece of `F` gives its tail to one node and its head to the level above.
-/
import ClaimsDB.CSBAlloc

namespace CSB

open Run (bind_ok index_eq_ok)
open List

variable {T : Type} [IndexKey T]

variable {aray : List T} {h : Heap T} {p : NodePtr} {u i c : ℕ} {keys : List T} {upperCap : ℕ}
  {α : Type} {F : List T} {base : Heap T} {ps us : List ℕ} {s : Deal T} {W : List (ℕ × List ℕ)}
  {g : ℕ} {b : GroupBody}

theorem fillKeys_eq {f : Option NodePtr} {child : Option GroupPtr}
    (hp : h.node p = some ⟨u, f, (internalNode f [] child).body⟩) (hi : i + c ≤ aray.length)
    (hc : c ≤ maxKeys T) :
    fillKeys aray (some p) c ⟨h, i, keys⟩
      = .ok ⟨h.setNode p ⟨u, f, (internalNode f ((aray.drop i).take c) child).body⟩, i + c, keys⟩ := by
  set st : ℕ → Deal T := fun k =>
    ⟨h.setNode p ⟨u, f, (internalNode f ((aray.drop i).take k) child).body⟩, i + k, keys⟩ with hst
  have h0 : st 0 = ⟨h, i, keys⟩ := by simp [hst, Heap.setNode_self hp]
  rw [← h0]
  refine Run.foldlM_range_eq st fun k hk => ?_
  have hlt : i + k < aray.length := by omega
  obtain ⟨x, hget⟩ : ∃ x, aray[i + k]? = some x := ⟨_, getElem?_eq_getElem hlt⟩
  set pre := (aray.drop i).take k with hpre
  have hlen : pre.length = k := by
    rw [hpre, length_take, length_drop]
    omega
  have hset : (⟨u, f, (internalNode f pre child).body⟩ : CCSBNode T).setKey k x
      = .ok ⟨u, f, (internalNode f (pre ++ [x]) child).body⟩ := by
    simp only [CCSBNode.setKey, internalNode]
    rw [if_pos (by omega), ← hlen, set_pad (by omega)]
  simp only [hst, index_eq_ok hget, bind_ok]
  rw [Heap.modifyNode_eq (n := ⟨u, f, (internalNode f pre child).body⟩) (by simp [hpre]) hset]
  simp only [bind_ok, Heap.setNode_setNode, take_drop_succ hget, Run.pure_eq_ok, ← hpre,
    ← Nat.add_assoc]

theorem fillInternalNode_eq {more : ℕ → Bool}
    (hp : h.node p = some ⟨u, none, (internalNode none [] none).body⟩) (hi : i + c ≤ aray.length)
    (hc : c ≤ maxKeys T) (hmore : more (i + c) = true ↔ i + c < aray.length)
    (hcap : i + c < aray.length → keys.length < upperCap) :
    fillInternalNode aray upperCap more (some p) c ⟨h, i, keys⟩
      = .ok ⟨h.setNode p (internalNode none ((aray.drop i).take c) none),
          min (i + c + 1) aray.length, keys ++ (aray[i + c]?).toList⟩ := by
  have hlen : ((aray.drop i).take c).length = c := by
    rw [length_take, length_drop]
    omega
  rw [fillInternalNode, fillKeys_eq hp hi hc, bind_ok]
  simp only [hmore]
  rw [setUsed_eq (n := ⟨u, none, (internalNode none ((aray.drop i).take c) none).body⟩) (by simp),
    bind_ok, Heap.setNode_setNode]
  have hused : (⟨u, none, (internalNode none ((aray.drop i).take c) none).body⟩ :
      CCSBNode T).setUsedKeys c = internalNode none ((aray.drop i).take c) none := by
    simp [CCSBNode.setUsedKeys, internalNode, hc, hlen]
  rw [hused]
  rcases Nat.lt_or_ge (i + c) aray.length with hlt | hge
  · obtain ⟨x, hget⟩ : ∃ x, aray[i + c]? = some x := ⟨_, getElem?_eq_getElem hlt⟩
    rw [if_pos hlt, index_eq_ok hget, bind_ok, Run.push_eq_ok _ (hcap hlt), bind_ok,
      hget, min_eq_left (by omega)]
    rfl
  · rw [if_neg (by omega), getElem?_eq_none hge, min_eq_right (by omega),
      show i + c = aray.length by omega]
    simp

def heads {α : Type} (pieces : List (List α)) : List α := pieces.flatMap (·.head?.toList)

theorem heads_splitLengths_snoc (us : List ℕ) {v : ℕ} (hv : 1 ≤ v) (F : List α) :
    heads ((us ++ [v]).splitLengths F)
      = heads (us.splitLengths F) ++ (F[us.sum]?).toList := by
  obtain ⟨w, rfl⟩ : ∃ w, v = w + 1 := ⟨v - 1, by omega⟩
  rw [splitLengths_append]
  simp only [heads, flatMap_append, List.splitLengths, flatMap_cons, flatMap_nil,
    append_nil, splitAt_eq]
  rw [head?_take, if_neg (by omega), head?_drop]

theorem length_heads : ∀ {pieces : List (List α)}, (∀ piece ∈ pieces, piece ≠ []) →
    (heads pieces).length = pieces.length
  | [], _ => rfl
  | [] :: _, hne => absurd rfl (hne [] (by simp))
  | (x :: piece) :: pieces, hne => by
    have ih := length_heads fun y (hy : y ∈ pieces) => hne y (by simp [hy])
    simp only [heads, flatMap_cons, length_append, length_cons] at ih ⊢
    rw [ih]
    simp [Nat.add_comm]

/-- The nodes `ps` have the tails of pieces of `F`, and the heads have gone to the level above. -/
structure Keyed (F : List T) (base : Heap T) (ps us : List ℕ) (s : Deal T) : Prop where
  filled : List.Forall₂ (fun p piece => s.heap.node p = some (internalNode none piece.tail none)) ps
    (us.splitLengths F)
  others : ∀ p, p ∉ ps → s.heap.node p = base.node p
  group : s.heap.group = base.group
  nextNode : s.heap.nextNode = base.nextNode
  nextGroup : s.heap.nextGroup = base.nextGroup
  i_eq : s.i = min us.sum F.tail.length
  keys_eq : s.keys = (heads ((us ++ [1]).splitLengths F)).tail
  pos : ∀ u ∈ us, 1 ≤ u
  sum_le : us.sum ≤ F.length

theorem Keyed.nil (F : List T) (h : Heap T) : Keyed F h [] [] ⟨h, 0, []⟩ := by
  constructor <;> simp [heads]
  cases F <;> rfl

structure NextKeyed (F : List T) (base : Heap T) (upperCap : ℕ) (ps us : List ℕ) (p u w : ℕ) :
    Prop where
  unused : p ∉ ps
  blank : base.node p = some ⟨w, none, (internalNode none [] none).body⟩
  pos : 1 ≤ u
  le : u ≤ maxKeys T + 1
  sum_le : us.sum + u ≤ F.length
  length_lt : us.sum + u < F.length → us.length < upperCap

theorem Keyed.fillInternalNode (hK : Keyed F base ps us s) {p w : ℕ} (more : ℕ → Bool)
    (hN : NextKeyed F base upperCap ps us p u w)
    (hmore : more (us.sum + (u - 1)) = true ↔ us.sum + u < F.length) :
    ∃ s', CSB.fillInternalNode F.tail upperCap more (some p) (u - 1) s = .ok s' ∧
      Keyed F base (ps ++ [p]) (us ++ [u]) s' := by
  obtain ⟨hp, hbl, hu, huK, hle, hcap⟩ := hN
  have hi : s.i = us.sum := by
    rw [hK.i_eq, length_tail]
    omega
  have hlenF : F.tail.length = F.length - 1 := length_tail
  have hkeys : s.keys.length = us.length := by
    have hpos : ∀ v ∈ us ++ [1], 1 ≤ v := List.forall_mem_append.2 ⟨hK.pos, by simp⟩
    have hsum : (us ++ [1]).sum ≤ F.length := by
      simp only [sum_append, sum_singleton]
      omega
    rw [hK.keys_eq, length_tail, length_heads (splitLengths_ne_nil hpos hsum)]
    simp
  have hstep : CSB.fillInternalNode F.tail upperCap more (some p) (u - 1) s = .ok _ :=
    fillInternalNode_eq (u := w) (by rw [hK.others p hp, hbl]) (by omega) (by omega)
      (by rw [hi, hmore]; omega) (by rw [hkeys]; intro; exact hcap (by omega))
  refine ⟨_, hstep, ?_⟩
  have hsplit : (us ++ [u]).splitLengths F = us.splitLengths F ++ [(F.drop us.sum).take u] := by
    rw [splitLengths_append]
    simp
  have hpiece : ((F.drop us.sum).take u).tail = (F.tail.drop s.i).take (u - 1) := by
    rw [hi, ← drop_one, drop_take, drop_drop, drop_tail]
  constructor
  · have hne : ∀ q ∈ ps, q ≠ p := fun q hq hqp => hp (hqp ▸ hq)
    have hold := (forall₂_and_left ps _).mpr ⟨hne, hK.filled⟩
    rw [hsplit]
    refine rel_append (hold.imp ?_) (.cons (by simp [hpiece]) .nil)
    rintro q piece ⟨hqp, hq⟩
    simp [hqp, hq]
  · intro q hq
    simp only [mem_append, mem_singleton, not_or] at hq
    simp [hq.2, hK.others q hq.1]
  · exact hK.group
  · exact hK.nextNode
  · exact hK.nextGroup
  · simp only [sum_append, sum_singleton]
    omega
  · -- the head of the piece after the new one is what has just been handed up
    have hne : heads (us.splitLengths F) ++ (F[us.sum]?).toList ≠ [] := by
      rw [getElem?_eq_getElem (by omega)]
      simp
    rw [heads_splitLengths_snoc (us ++ [u]) le_rfl, heads_splitLengths_snoc us hu, hK.keys_eq,
      heads_splitLengths_snoc us le_rfl, hi, sum_append, sum_singleton,
      getElem?_tail, show us.sum + (u - 1) + 1 = us.sum + u by omega,
      tail_append_of_ne_nil hne]
  · exact List.forall_mem_append.2 ⟨hK.pos, by simpa using hu⟩
  · simpa using hle

theorem Keyed.setNode (hK : Keyed F base ps us s) {p : ℕ} (hp : p ∉ ps) (n : CCSBNode T) :
    Keyed F (base.setNode p n) ps us { s with heap := s.heap.setNode p n } := by
  have hne : ∀ q ∈ ps, q ≠ p := fun q hq hqp => hp (hqp ▸ hq)
  have hold := (forall₂_and_left ps _).mpr ⟨hne, hK.filled⟩
  refine ⟨hold.imp ?_, ?_, hK.group, hK.nextNode, hK.nextGroup, hK.i_eq, hK.keys_eq, hK.pos,
    hK.sum_le⟩
  · rintro q piece ⟨hqp, hq⟩
    simp [hqp, hq]
  · intro q hq
    by_cases hqp : q = p
    · simp [hqp]
    · simp [hqp, hK.others q hq]

theorem fillFullInternal {m : ℕ} (ms rest : List ℕ)
    (hV : ∀ G ∈ W ++ [(g, ms ++ rest)], h.group G.1 = some ⟨G.2.length, G.2, b⟩)
    (hnew : ∀ p ∈ W.flatMap (·.2) ++ ms, h.node p = some (CCSBNode.newInternal T))
    (hnd : (W.flatMap (·.2) ++ ms).Nodup) (upperCap : ℕ)
    (hlen : (W.flatMap (·.2) ++ ms).length * (maxKeys T + 1) < F.length)
    (hcap : (W.flatMap (·.2) ++ ms).length ≤ upperCap) (hm : ms.length = m) :
    ∃ s₁ s, (List.range W.length).foldlM (forGroup ((W ++ [(g, ms ++ rest)]).map (·.1))
        (CSB.fillInternalNode F.tail upperCap (fun _ => true) · (maxKeys T) ·)) ⟨h, 0, []⟩
          = .ok s₁ ∧
      s₁.heap.group = h.group ∧
      (List.range m).foldlM (fun s j => do
        let node ← s.heap.getNode (some g) j
        CSB.fillInternalNode F.tail upperCap (fun _ => true) node (maxKeys T) s) s₁ = .ok s ∧
      Keyed F h (W.flatMap (·.2) ++ ms)
        (List.replicate (W.flatMap (·.2) ++ ms).length (maxKeys T + 1)) s := by
  -- one node, wherever it stands
  have hstep : ∀ pre p post s, W.flatMap (·.2) ++ ms = pre ++ p :: post →
      Keyed F h pre (List.replicate pre.length (maxKeys T + 1)) s →
      ∃ s', CSB.fillInternalNode F.tail upperCap (fun _ => true) (some p) (maxKeys T) s = .ok s' ∧
        Keyed F h (pre ++ [p]) (List.replicate (pre ++ [p]).length (maxKeys T + 1)) s' := by
    intro pre p post s hsplit hK
    rw [hsplit, nodup_append'] at hnd
    have hle : pre.length + 1 ≤ (W.flatMap (·.2) ++ ms).length := by
      rw [hsplit, length_append, length_cons]
      omega
    have hmul := Nat.mul_le_mul_right (maxKeys T + 1) hle
    rw [Nat.add_mul, Nat.one_mul] at hmul
    rw [length_append, length_singleton, replicate_succ']
    have hsum : (List.replicate pre.length (maxKeys T + 1)).sum
        = pre.length * (maxKeys T + 1) := by simp
    refine hK.fillInternalNode (u := maxKeys T + 1) (w := 0) _
      ⟨fun hp => hnd.2.2 hp (by simp), hnew p (by simp [hsplit]), by omega, le_rfl, by omega, ?_⟩ ?_
    · rw [length_replicate]
      omega
    · simp only [true_iff]
      omega
  have hP : ∀ ps s, Keyed F h ps (List.replicate ps.length (maxKeys T + 1)) s →
      s.heap.group = h.group := fun _ _ hK => hK.group
  obtain ⟨s₁, hs₁, hK₁⟩ := forGroups hP (W := W) (X := [(g, ms ++ rest)])
    (fun G hG => hV G (by simp [hG])) (Keyed.nil F h)
    (CSB.fillInternalNode F.tail upperCap (fun _ => true) · (maxKeys T) ·)
    fun pre p post s hsplit => hstep pre p (post ++ ms) s (by rw [hsplit]; simp)
  obtain ⟨s, hs, hK⟩ := forNodes hP (m := m) (hV (g, ms ++ rest) (by simp))
    (by simp only [length_append]; omega) hK₁
    (fun _ node s => CSB.fillInternalNode F.tail upperCap (fun _ => true) node (maxKeys T) s) (by
    intro j p s hj hp hI
    rw [take_append_of_le_length (by omega)] at hI ⊢
    rw [getElem?_append_left (by omega)] at hp
    obtain ⟨_, rfl⟩ := List.getElem?_eq_some_iff.mp hp
    refine hstep _ _ (ms.drop (j + 1)) s ?_ hI
    rw [append_assoc, ← drop_eq_getElem_cons, take_append_drop])
  refine ⟨s₁, s, hs₁, hK₁.group, hs, ?_⟩
  rwa [take_left' hm] at hK

/-- **The keys of a level**: the nodes get the tails of the pieces of `F`. -/
theorem fillInternalGroups_spec {ms : List ℕ} {x y : ℕ}
    (hV : ∀ G ∈ W ++ [(g, ms ++ [x, y])], h.group G.1 = some ⟨G.2.length, G.2, b⟩)
    (hnew : ∀ p ∈ W.flatMap (·.2) ++ ms ++ [x, y], h.node p = some (CCSBNode.newInternal T))
    (hnd : (W.flatMap (·.2) ++ ms ++ [x, y]).Nodup) {leaf : List GroupPtr} {N l₁ l₂ : ℕ}
    (hN : (W.flatMap (·.2) ++ ms).length = N) (hl₁ : leaf[N]? = some l₁)
    (hl₂ : leaf[N + 1]? = some l₂) {G₁ G₂ : CCSBNodeGroup} (hG₁ : h.group l₁ = some G₁)
    (hG₂ : h.group l₂ = some G₂) (h1 : 1 ≤ G₁.usedNodes) (h1' : G₁.usedNodes ≤ maxKeys T + 1)
    (h2 : 1 ≤ G₂.usedNodes) (h2' : G₂.usedNodes ≤ maxKeys T + 1)
    (hF : F.length = N * (maxKeys T + 1) + (G₁.usedNodes + G₂.usedNodes)) :
    ∃ s, fillInternalGroups F.tail (N + 1) ((W ++ [(g, ms ++ [x, y])]).map (·.1)) leaf
        (W.length + 1) (N + 2) ⟨h, 0, []⟩ = .ok s ∧
      Keyed F h (W.flatMap (·.2) ++ ms ++ [x, y])
        (List.replicate N (maxKeys T + 1) ++ [G₁.usedNodes, G₂.usedNodes]) s := by
  rw [nodup_append'] at hnd
  obtain ⟨hnd₁, hnd₂, hdisj⟩ := hnd
  obtain ⟨s₁, s, hs₁, hg₁, hs, hK⟩ := fillFullInternal (F := F) ms [x, y] hV
    (fun p hp => hnew p (by simp only [mem_append] at hp ⊢; tauto)) hnd₁ (N + 1)
    (by rw [hN]; omega) (by omega) rfl
  rw [hN] at hK
  set ps := W.flatMap (·.2) ++ ms with hps
  set a := G₁.usedNodes
  set c := G₂.usedNodes
  have hsum : (List.replicate N (maxKeys T + 1)).sum = N * (maxKeys T + 1) := by simp
  have hx : x ∉ ps := fun hx => hdisj hx (by simp)
  have hy : y ∉ ps := fun hy => hdisj hy (by simp)
  have hyx : y ≠ x := by
    simp only [nodup_cons, mem_singleton] at hnd₂
    exact fun h => hnd₂.1 h.symm
  have hgroup := hV (g, ms ++ [x, y]) (by simp)
  have hgx : (ms ++ [x, y])[ms.length]? = some x := by simp
  have hgy : (ms ++ [x, y])[ms.length + 1]? = some y := by simp
  -- the counts of the last two nodes
  have hnx := hnew x (by simp)
  have hny := hnew y (by simp)
  have hKx := hK.setNode hx ((CCSBNode.newInternal T).setUsedKeys (a - 1))
  have hKy := hKx.setNode hy ((CCSBNode.newInternal T).setUsedKeys (c - 1))
  set base := (h.setNode x ((CCSBNode.newInternal T).setUsedKeys (a - 1))).setNode y
    ((CCSBNode.newInternal T).setUsedKeys (c - 1)) with hbase
  have hbx : base.node x = some ⟨a - 1, none, (internalNode none [] none).body⟩ := by
    simp [hbase, hyx.symm, CCSBNode.newInternal, CCSBNode.setUsedKeys, internalNode]
    omega
  have hby : base.node y = some ⟨c - 1, none, (internalNode none [] none).body⟩ := by
    simp [hbase, CCSBNode.newInternal, CCSBNode.setUsedKeys, internalNode]
    omega
  -- their keys
  have hNx : NextKeyed F base (N + 1) ps (List.replicate N (maxKeys T + 1)) x a (a - 1) :=
    ⟨hx, hbx, h1, h1', by omega, by simp⟩
  obtain ⟨s₂, hs₂, hK₂⟩ := hKy.fillInternalNode (fun i => decide (i < F.tail.length)) hNx (by
    rw [decide_eq_true_iff, length_tail]
    omega)
  have hsum' : (List.replicate N (maxKeys T + 1) ++ [a]).sum = N * (maxKeys T + 1) + a := by
    simp
  have hNy : NextKeyed F base (N + 1) (ps ++ [x]) (List.replicate N (maxKeys T + 1) ++ [a]) y c
      (c - 1) :=
    ⟨by simp [hy, hyx], hby, h2, h2', by omega, by omega⟩
  obtain ⟨s₃, hs₃, hK₃⟩ := hK₂.fillInternalNode (fun i => decide (i < F.tail.length)) hNy (by
    rw [decide_eq_true_iff, length_tail]
    omega)
  refine ⟨s₃, ?_, ?_⟩
  · have hidx : ((W ++ [(g, ms ++ [x, y])]).map (·.1))[W.length]? = some g := by simp
    have hlen : (ms ++ [x, y]).length - 2 = ms.length := by simp
    rw [fillInternalGroups, Nat.add_sub_cancel, hs₁, bind_ok, index_eq_ok hidx,
      bind_ok, Heap.readGroup_eq (by rw [hg₁, hgroup]), bind_ok]
    simp only
    rw [if_neg (by simp), hlen, hs, bind_ok, show N + 2 - 2 = N by omega,
      index_eq_ok hl₁, bind_ok, Heap.readGroup_eq (by rw [hK.group, hG₁]), bind_ok,
      Heap.getNode_eq (by rw [hK.group, hgroup]) hgx, bind_ok,
      setUsed_eq (n := CCSBNode.newInternal T) (by rw [hK.others x hx, hnx]), bind_ok,
      show N + 2 - 1 = N + 1 by omega, index_eq_ok hl₂, bind_ok,
      Heap.readGroup_eq (by simpa [hK.group] using hG₂), bind_ok,
      Heap.getNode_eq (by simpa [hK.group] using hgroup) hgy, bind_ok,
      setUsed_eq (n := CCSBNode.newInternal T) (by simp [hyx, hK.others y hy, hny]), bind_ok,
      foldlM_range'_two, Heap.getNode_eq (by simpa [hK.group] using hgroup) hgx, bind_ok,
      Heap.readNode_eq (by rw [hKy.others x hx, hbx]), bind_ok, hs₂, bind_ok,
      Heap.getNode_eq (by simpa [hK₂.group, hbase] using hgroup) hgy, bind_ok,
      Heap.readNode_eq (by rw [hK₂.others y (by simp [hy, hyx]), hby]), bind_ok, hs₃]
  · have hps' : ps ++ [x, y] = ps ++ [x] ++ [y] := by simp
    have hus : List.replicate N (maxKeys T + 1) ++ [a, c]
        = List.replicate N (maxKeys T + 1) ++ [a] ++ [c] := by simp
    rw [hps', hus]
    refine ⟨hK₃.filled, fun p hp => ?_, hK₃.group, hK₃.nextNode, hK₃.nextGroup, hK₃.i_eq,
      hK₃.keys_eq, hK₃.pos, hK₃.sum_le⟩
    rw [hK₃.others p hp]
    simp only [mem_append, mem_singleton, not_or] at hp
    simp [hbase, hp.1.2, hp.2]

end CSB
