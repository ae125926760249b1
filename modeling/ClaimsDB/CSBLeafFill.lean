/-
The loops of `makeLeafNodeGroup` that deal the array out to leaf nodes.
-/
import ClaimsDB.CSBAlloc

namespace CSB

open Run (bind_ok)
open List

variable {T : Type} [IndexKey T]

theorem setData_snoc {pre : List (DataOffset T)} (hlt : pre.length < maxDatas T) (u : ℕ)
    (f : Option NodePtr) (d : DataOffset T) :
    (⟨u, f, (leafNode f pre).body⟩ : CCSBNode T).setData pre.length d
      = .ok ⟨u, f, (leafNode f (pre ++ [d])).body⟩ := by
  simp only [CCSBNode.setData, leafNode]
  rw [if_pos hlt, set_pad hlt]

variable {aray : List (DataOffset T)} {keyCap : ℕ} {record : ℕ → Bool} {h : Heap T} {u c : ℕ}
  {base : Heap T} {ps cs : List ℕ} {s : Deal T} {p : ℕ} {base' : Heap T} {g m : ℕ} {ns : List ℕ}
  {b : GroupBody} {r : ℕ} {W : List (ℕ × List ℕ)} {M : ℕ}

theorem fillDatas_eq {slot : ℕ → ℕ → ℕ} {p : NodePtr} {f : Option NodePtr} {i : ℕ} {keys : List T}
    (hp : h.node p = some ⟨u, f, (leafNode f []).body⟩) (hi : i + c ≤ aray.length)
    (hc : c ≤ maxDatas T) (hslot : ∀ k < c, slot k (i + k) = k)
    (hkeys : record i = true → 0 < c → keys.length < keyCap) :
    fillDatas aray keyCap slot record (some p) c ⟨h, i, keys⟩
      = .ok ⟨h.setNode p ⟨u, f, (leafNode f ((aray.drop i).take c)).body⟩, i + c,
          keys ++ if record i = true then
            (((aray.drop i).take c).head?.map (·.key)).toList else []⟩ := by
  set st : ℕ → Deal T := fun k =>
    ⟨h.setNode p ⟨u, f, (leafNode f ((aray.drop i).take k)).body⟩, i + k,
      keys ++ if record i = true then
        (((aray.drop i).take k).head?.map (·.key)).toList else []⟩ with hst
  have h0 : st 0 = ⟨h, i, keys⟩ := by simp [hst, Heap.setNode_self hp]
  rw [← h0]
  refine Run.foldlM_range_eq st fun k hk => ?_
  -- element `i + k` exists and goes to the first free slot
  have hlt : i + k < aray.length := by omega
  obtain ⟨d, hget⟩ : ∃ d, aray[i + k]? = some d := ⟨_, getElem?_eq_getElem hlt⟩
  set pre := (aray.drop i).take k with hpre
  have hlen : pre.length = k := by
    rw [hpre, length_take, length_drop]
    omega
  have hset : (⟨u, f, (leafNode f pre).body⟩ : CCSBNode T).setData (slot k (i + k)) d
      = .ok ⟨u, f, (leafNode f (pre ++ [d])).body⟩ := by
    rw [hslot k hk, ← hlen, setData_snoc (by omega)]
  simp only [hst, Run.index_eq_ok hget, bind_ok]
  rw [Heap.modifyNode_eq (n := ⟨u, f, (leafNode f pre).body⟩) (by simp [hpre]) hset]
  simp only [bind_ok, Heap.setNode_setNode, take_drop_succ hget, Run.pure_eq_ok,
    ← hpre, ← Nat.add_assoc]
  rcases Nat.eq_zero_or_pos k with rfl | hk0
  · have : pre = [] := eq_nil_of_length_eq_zero hlen
    simp only [Nat.add_zero, this, nil_append, head?_nil, head?_cons,
      Option.map_none, Option.map_some, Option.toList_none, Option.toList_some, and_true]
    cases hr : record i with
    | false => simp
    | true =>
      simp only [if_true, append_nil]
      rw [Run.push_eq_ok _ (hkeys hr (by omega)), bind_ok]
  · rw [if_neg (by omega)]
    have hne : pre ≠ [] := by
      intro h0
      rw [h0, length_nil] at hlen
      omega
    simp [head?_append_of_ne_nil _ hne]

/-! ### Dealing the array out to leaf nodes -/

def firsts (pieces : List (List (DataOffset T))) : List T :=
  pieces.flatMap fun ds => (ds.head?.map (·.key)).toList

omit [IndexKey T] in
theorem firsts_append (xs ys : List (List (DataOffset T))) :
    firsts (xs ++ ys) = firsts xs ++ firsts ys := by
  simp [firsts]

omit [IndexKey T] in
theorem map_some_firsts : ∀ {pieces : List (List (DataOffset T))}, (∀ ds ∈ pieces, ds ≠ []) →
    (firsts pieces).map some = pieces.map fun ds => ds.head?.map (·.key)
  | [], _ => rfl
  | [] :: _, hne => absurd rfl (hne [] (by simp))
  | (d :: ds) :: pieces, hne => by
    have ih := map_some_firsts fun x (hx : x ∈ pieces) => hne x (by simp [hx])
    simp only [firsts, flatMap_cons, head?_cons, Option.map_some, Option.toList_some,
      map_append, map_cons, map_nil] at ih ⊢
    rw [ih]
    rfl

/-- After dealing the first entries of `aray` to the nodes `ps`, `cs` at a time,
starting from the heap `base`. -/
structure Dealt (aray : List (DataOffset T)) (base : Heap T) (ps : List ℕ) (cs : List ℕ)
    (s : Deal T) : Prop where
  filled : List.Forall₂ (fun p ds => s.heap.node p = some (leafNode none ds)) ps
    (cs.splitLengths aray)
  others : ∀ p, p ∉ ps → s.heap.node p = base.node p
  group : s.heap.group = base.group
  nextNode : s.heap.nextNode = base.nextNode
  nextGroup : s.heap.nextGroup = base.nextGroup
  i_eq : s.i = cs.sum
  keys_eq : s.keys = (firsts (cs.splitLengths aray)).tail
  pos : ∀ c ∈ cs, 1 ≤ c
  sum_le : cs.sum ≤ aray.length

theorem Dealt.nil (aray : List (DataOffset T)) (h : Heap T) : Dealt aray h [] [] ⟨h, 0, []⟩ := by
  constructor <;> simp [firsts]

section

variable (hD : Dealt aray base ps cs s)

include hD

theorem Dealt.length_firsts : (firsts (cs.splitLengths aray)).length = cs.length := by
  have := congrArg List.length (map_some_firsts (splitLengths_ne_nil hD.pos hD.sum_le))
  simpa using this

theorem Dealt.i_eq_zero_iff : s.i = 0 ↔ cs = [] := by
  rw [hD.i_eq]
  rcases cs with _ | ⟨c, cs⟩
  · simp
  · have := hD.pos c (by simp)
    simp only [sum_cons, reduceCtorEq, iff_false]
    omega

theorem Dealt.snoc (hp : p ∉ ps) (hc : 1 ≤ c)
    (hle : cs.sum + c ≤ aray.length) :
    Dealt aray base (ps ++ [p]) (cs ++ [c])
      ⟨s.heap.setNode p (leafNode none ((aray.drop s.i).take c)), s.i + c,
        s.keys ++ if s.i ≠ 0 then (((aray.drop s.i).take c).head?.map (·.key)).toList else []⟩ := by
  have hsplit : (cs ++ [c]).splitLengths aray
      = cs.splitLengths aray ++ [(aray.drop s.i).take c] := by
    rw [splitLengths_append, hD.i_eq]
    simp
  have hlen := hD.length_firsts
  constructor
  · rw [hsplit]
    have hne : ∀ q ∈ ps, q ≠ p := fun q hq hqp => hp (hqp ▸ hq)
    have hold := (forall₂_and_left ps _).mpr ⟨hne, hD.filled⟩
    refine rel_append (hold.imp ?_) (.cons (by simp) .nil)
    rintro q ds ⟨hqp, hq⟩
    simp [hqp, hq]
  · intro q hq
    simp only [mem_append, mem_singleton, not_or] at hq
    simp [hq.2, hD.others q hq.1]
  · exact hD.group
  · exact hD.nextNode
  · exact hD.nextGroup
  · simp [hD.i_eq]
  · rw [hsplit, firsts_append, hD.keys_eq]
    by_cases h0 : s.i = 0
    · rw [hD.i_eq_zero_iff] at h0
      subst h0
      have : s.i = 0 := by rw [hD.i_eq]; rfl
      simp only [List.splitLengths, nil_append, firsts, flatMap_nil, tail_nil, this,
        ne_eq, not_true_eq_false, if_false, append_nil, flatMap_cons, drop_zero]
      cases (aray.take c).head? <;> rfl
    · rw [if_pos h0, tail_append_of_ne_nil]
      · simp [firsts]
      · intro hnil
        rw [hnil, length_nil, eq_comm, length_eq_zero_iff, ← hD.i_eq_zero_iff] at hlen
        exact h0 hlen
  · exact List.forall_mem_append.2 ⟨hD.pos, by simpa using hc⟩
  · simpa using hle

theorem Dealt.keys_lt (hcap : cs.length ≤ keyCap) (hcs : cs ≠ []) : s.keys.length < keyCap := by
  have := hD.length_firsts
  have : 0 < cs.length := length_pos_of_ne_nil hcs
  rw [hD.keys_eq, length_tail]
  omega

end

structure NextNode (aray : List (DataOffset T)) (keyCap : ℕ) (record : ℕ → Bool) (ps cs : List ℕ)
    (s : Deal T) (p c : ℕ) : Prop where
  unused : p ∉ ps
  pos : 1 ≤ c
  le : c ≤ maxDatas T
  sum_le : cs.sum + c ≤ aray.length
  length_le : cs.length ≤ keyCap
  record_iff : record s.i = true ↔ cs ≠ []

section

variable (hD : Dealt aray base ps cs s)

include hD

theorem Dealt.fillDatas (slot : ℕ → ℕ → ℕ)
    (hN : NextNode aray keyCap record ps cs s p c)
    (hp : base.node p = some ⟨u, none, (leafNode none []).body⟩)
    (hslot : ∀ k < c, slot k (s.i + k) = k) :
    ∃ s', CSB.fillDatas aray keyCap slot record (some p) c s = .ok s' ∧
      s'.heap.node p = some ⟨u, none, (leafNode none ((aray.drop s.i).take c)).body⟩ ∧
      Dealt aray base (ps ++ [p]) (cs ++ [c])
        { s' with heap := s'.heap.setNode p (leafNode none ((aray.drop s.i).take c)) } := by
  have hfill : CSB.fillDatas aray keyCap slot record (some p) c s = .ok _ :=
    fillDatas_eq (u := u) (f := none) (by rw [hD.others p hN.unused, hp])
      (by rw [hD.i_eq]; exact hN.sum_le) hN.le hslot
      fun hr _ => hD.keys_lt hN.length_le (hN.record_iff.mp hr)
  refine ⟨_, hfill, by simp, ?_⟩
  have hsnoc := hD.snoc hN.unused hN.pos hN.sum_le
  have hrec : record s.i = true ↔ s.i ≠ 0 := by
    rw [hN.record_iff, not_iff_not, hD.i_eq_zero_iff]
  simp only [Heap.setNode_setNode, hrec]
  exact hsnoc

theorem Dealt.fillAndSet (slot : ℕ → ℕ → ℕ)
    (hN : NextNode aray keyCap record ps cs s p c) (hp : base.node p = some (CCSBNode.newLeaf T))
    (hslot : ∀ k < c, slot k (s.i + k) = k) :
    ∃ s', CSB.fillAndSet aray keyCap slot record (some p) c s = .ok s' ∧
      Dealt aray base (ps ++ [p]) (cs ++ [c]) s' := by
  obtain ⟨s', hs', hp', hD'⟩ := hD.fillDatas slot hN hp hslot
  refine ⟨_, ?_, hD'⟩
  have hlen : ((aray.drop s.i).take c).length = c := by
    rw [length_take, length_drop, hD.i_eq]
    have := hN.sum_le
    omega
  rw [CSB.fillAndSet, hs', bind_ok, setUsed_eq hp', bind_ok]
  simp only [CCSBNode.setUsedKeys, leafNode, hlen, if_pos hN.le]
  rfl

theorem Dealt.fillUsed (hN : NextNode aray keyCap record ps cs s p c)
    (hp : base.node p = some ⟨c, none, (leafNode none []).body⟩) :
    ∃ s', CSB.fillUsed aray keyCap record (some p) s = .ok s' ∧
      Dealt aray base (ps ++ [p]) (cs ++ [c]) s' := by
  obtain ⟨s', hs', hp', hD'⟩ := hD.fillDatas (fun k _ => k) hN hp fun _ _ => rfl
  have hlen : ((aray.drop s.i).take c).length = c := by
    rw [length_take, length_drop, hD.i_eq]
    have := hN.sum_le
    omega
  refine ⟨s', ?_, ?_⟩
  · rw [CSB.fillUsed, Heap.readNode_eq (by rw [hD.others p hN.unused, hp]), bind_ok, hs']
  · rwa [show leafNode none ((aray.drop s.i).take c)
        = ⟨c, none, (leafNode none ((aray.drop s.i).take c)).body⟩ by simp [leafNode, hlen],
      Heap.setNode_self hp'] at hD'

theorem Dealt.setNode (hp : p ∉ ps) (n : CCSBNode T) :
    Dealt aray (base.setNode p n) ps cs { s with heap := s.heap.setNode p n } := by
  have hne : ∀ q ∈ ps, q ≠ p := fun q hq hqp => hp (hqp ▸ hq)
  have hold := (forall₂_and_left ps _).mpr ⟨hne, hD.filled⟩
  refine ⟨hold.imp ?_, ?_, hD.group, hD.nextNode, hD.nextGroup, hD.i_eq, hD.keys_eq, hD.pos,
    hD.sum_le⟩
  · rintro q ds ⟨hqp, hq⟩
    simp [hqp, hq]
  · intro q hq
    by_cases hqp : q = p
    · simp [hqp]
    · simp [hqp, hD.others q hq]

theorem Dealt.rebase (hn : ∀ p, p ∉ ps → base'.node p = base.node p) (hg : base'.group = base.group)
    (hN : base'.nextNode = base.nextNode) (hG : base'.nextGroup = base.nextGroup) :
    Dealt aray base' ps cs s :=
  ⟨hD.filled, fun p hp => by rw [hD.others p hp, hn p hp], by rw [hD.group, hg],
    by rw [hD.nextNode, hN], by rw [hD.nextGroup, hG], hD.i_eq, hD.keys_eq, hD.pos, hD.sum_le⟩

end

theorem Dealt.forNodes {aray : List (DataOffset T)} {base : Heap T} {ps cs : List ℕ} {s : Deal T}
    (hD : Dealt aray base ps cs s) {g m : ℕ} {ns : List ℕ} {b : GroupBody}
    (hg : base.group g = some ⟨ns.length, ns, b⟩) (hm : m ≤ ns.length) (ks : List ℕ)
    (hks : ks.length = ns.length) (body : ℕ → Option NodePtr → Deal T → Run (Deal T))
    (hbody : ∀ j p c s, j < m → ns[j]? = some p → ks[j]? = some c →
      Dealt aray base (ps ++ ns.take j) (cs ++ ks.take j) s →
      ∃ s', body j (some p) s = .ok s' ∧
        Dealt aray base (ps ++ ns.take j ++ [p]) (cs ++ ks.take j ++ [c]) s') :
    ∃ s', (List.range m).foldlM (fun s j => do
        let node ← s.heap.getNode (some g) j
        body j node s) s = .ok s' ∧
      Dealt aray base (ps ++ ns.take m) (cs ++ ks.take m) s' := by
  obtain ⟨s', hs', hD'⟩ := CSB.forNodes (m := m) (s := s)
    (P := fun qs s => Dealt aray base qs (cs ++ ks.take (qs.length - ps.length)) s)
    (fun _ _ h => h.group) hg hm (show Dealt aray base ps _ s by simpa using hD) body (by
    intro j p s hj hp hI
    obtain ⟨c, hc⟩ : ∃ c, ks[j]? = some c := ⟨_, getElem?_eq_getElem (by omega)⟩
    have hlen : (ps ++ ns.take j).length - ps.length = j := by
      rw [length_append, length_take]
      omega
    rw [hlen] at hI
    obtain ⟨s', hs', hD'⟩ := hbody j p c s hj hp hc hI
    refine ⟨s', hs', ?_⟩
    have hlen' : (ps ++ ns.take j ++ [p]).length - ps.length = j + 1 := by
      simp only [length_append, length_take, length_singleton]
      omega
    rw [hlen', take_add_one, hc]
    simpa using hD')
  refine ⟨s', hs', ?_⟩
  have hlen : (ps ++ ns.take m).length - ps.length = m := by
    rw [length_append, length_take]
    omega
  rwa [hlen] at hD'

theorem fillOneLeafGroup_spec (hg : h.group g = some ⟨ns.length, ns, b⟩)
    (hnew : ∀ p ∈ ns, h.node p = some (CCSBNode.newLeaf T)) (hnd : ns.Nodup) {q : ℕ}
    (hn : aray.length = (q + 1) * maxDatas T + r) (h1 : 1 ≤ r) (h2 : r ≤ maxDatas T)
    (hN : ns.length = q + 2) :
    ∃ s, fillOneLeafGroup aray (q + 1) g (q + 2) ⟨h, 0, []⟩ = .ok s ∧
      Dealt aray h ns
        (List.replicate q (maxDatas T) ++ Pieces.lastTwo (maxDatas T) (maxDatas T / 2) r) s := by
  have hD2 := two_le_maxDatas T
  set D := maxDatas T with hDdef
  rw [Nat.add_mul, Nat.one_mul] at hn
  obtain ⟨ms, x, y, hns, hms⟩ := exists_snoc_two hN
  -- the full nodes
  have hfull := (Dealt.nil aray h).forNodes (m := q) hg (by omega) (List.replicate (q + 2) D)
    (by simp [hN])
    (fun j node s => fillAndSet aray (q + 1) (fun _ i => i % D)
      (fun _ => decide (j ≠ 0)) node (min D (aray.length - s.i)) s) (by
    intro j p c s hj hp hc hD
    obtain rfl : c = D := eq_of_mem_replicate (mem_of_getElem? hc)
    rw [nil_append, nil_append, take_replicate,
      show min j (q + 2) = j by omega] at hD ⊢
    have hi : s.i = j * D := by simpa using hD.i_eq
    have hjq : j * D + D ≤ q * D := by
      rw [← Nat.succ_mul]
      exact Nat.mul_le_mul_right D hj
    rw [min_eq_left (show D ≤ aray.length - s.i by omega)]
    refine hD.fillAndSet _ ⟨?_, by omega, le_rfl, ?_, ?_, ?_⟩ ?_ ?_
    · exact not_mem_take_of_nodup hnd hp
    · rw [sum_replicate, smul_eq_mul]
      omega
    · rw [length_replicate]
      omega
    · simp
    · exact hnew p (mem_of_getElem? hp)
    · intro k hk
      rw [hi, Nat.mul_comm, Nat.mul_add_mod, Nat.mod_eq_of_lt hk])
  obtain ⟨s, hs, hD⟩ := hfull
  rw [nil_append, nil_append, take_replicate, show min q (q + 2) = q by omega,
    hns, take_left' hms] at hD
  have hi : s.i = q * D := by simpa using hD.i_eq
  have hx : ns[q]? = some x := by simp [hns, ← hms]
  have hy : ns[q + 1]? = some y := by simp [hns, ← hms]
  have hxy : x ∉ ms ∧ y ∉ ms ∧ y ≠ x := by
    rw [hns, nodup_append'] at hnd
    have h3 := hnd.2.2
    simp only [disjoint_cons_right, nodup_cons, mem_singleton] at hnd h3
    exact ⟨h3.1, h3.2.1, fun h => hnd.2.1.1 h.symm⟩
  have hnx := hnew x (mem_of_getElem? hx)
  have hny := hnew y (mem_of_getElem? hy)
  rw [fillOneLeafGroup, show q + 2 - 2 = q by omega, show q + 2 - 1 = q + 1 by omega]
  simp only [← hDdef]
  rw [hs, bind_ok, Nat.add_mul, Nat.one_mul, show aray.length - (q * D + D) = r by omega]
  -- the last two nodes get `a` and `b` entries
  obtain ⟨a, b', hab, hsum, ha, hb, -, hb1⟩ :=
    Pieces.lastTwo_eq D (D / 2) r h1 h2 (Nat.div_le_self D 2)
  have hNx : ∀ s : Deal T,
      NextNode aray (q + 1) (fun _ => decide (q ≠ 0)) ms (List.replicate q D) s x a := by
    refine fun s => ⟨hxy.1, by omega, ha, ?_, by simp, by simp⟩
    rw [sum_replicate, smul_eq_mul]
    omega
  have hNy : ∀ s : Deal T, NextNode aray (q + 1) (fun _ => decide (q + 1 ≠ 0)) (ms ++ [x])
      (List.replicate q D ++ [a]) s y b' := by
    refine fun s => ⟨by simp [hxy.2], hb1, by omega, ?_, by simp, by simp⟩
    rw [sum_append, sum_replicate, smul_eq_mul, sum_singleton]
    omega
  have hres : ms ++ [x, y] = ms ++ [x] ++ [y] ∧
      List.replicate q D ++ [a, b'] = List.replicate q D ++ [a] ++ [b'] := by simp
  rw [hab, hns, hres.1, hres.2]
  by_cases hθ : D / 2 ≤ r
  · -- no balancing
    rw [if_pos hθ]
    obtain ⟨rfl, rfl⟩ : a = D ∧ b' = r := by
      simpa [Pieces.lastTwo, hθ, eq_comm] using hab
    obtain ⟨s₁, hs₁, hD₁⟩ := hD.fillAndSet (fun k _ => k) (hNx s) hnx fun _ _ => rfl
    have hi₁ : s₁.i = q * D + D := by simpa using hD₁.i_eq
    obtain ⟨s₂, hs₂, hD₂⟩ := hD₁.fillAndSet (fun k _ => k) (hNy s₁) hny fun _ _ => rfl
    refine ⟨s₂, ?_, hD₂⟩
    rw [foldlM_range'_two, Heap.getNode_eq (by rw [hD.group, hg]) hx, bind_ok,
      show min D (aray.length - s.i) = D by omega, hs₁, bind_ok,
      Heap.getNode_eq (by rw [hD₁.group, hg]) hy, bind_ok,
      show min D (aray.length - s₁.i) = b' by omega, hs₂]
  · -- the last two nodes share what is left
    rw [if_neg hθ]
    have hrest : aray.length - D * q = D + r := by
      rw [Nat.mul_comm]
      omega
    obtain ⟨ha', hb'⟩ : (if (D + r) % 2 = 1 then (D + r) / 2 + 1 else (D + r) / 2) = a ∧
        (D + r) / 2 = b' := by
      rw [Pieces.lastTwo, if_neg hθ] at hab
      split_ifs at hab ⊢ <;> simp only [List.cons.injEq, and_true] at hab <;> omega
    -- the counts are set on blank nodes first
    have hDx := hD.setNode hxy.1 ((CCSBNode.newLeaf T).setUsedKeys a)
    have hDy := hDx.setNode hxy.2.1 ((CCSBNode.newLeaf T).setUsedKeys b')
    obtain ⟨s₁, hs₁, hD₁⟩ := hDy.fillUsed (hNx _) (by
      simp [hxy.2.2.symm, CCSBNode.newLeaf, CCSBNode.setUsedKeys, ← hDdef, ha, leafNode])
    obtain ⟨s₂, hs₂, hD₂⟩ := hD₁.fillUsed (hNy s₁) (by
      simp [CCSBNode.newLeaf, CCSBNode.setUsedKeys, ← hDdef, leafNode]
      omega)
    refine ⟨s₂, ?_, hD₂.rebase (fun p hp => ?_) rfl rfl rfl⟩
    · rw [hrest, Heap.getNode_eq (by rw [hD.group, hg]) hx, bind_ok, ha', hb',
        setUsed_eq (n := CCSBNode.newLeaf T) (by rw [hD.others x hxy.1, hnx]), bind_ok,
        Heap.getNode_eq (by simpa [hD.group] using hg) hy, bind_ok,
        setUsed_eq (n := CCSBNode.newLeaf T)
          (by simp [hxy.2.2, hD.others y hxy.2.1, hny]), bind_ok, foldlM_range'_two,
        Heap.getNode_eq (by simpa [hD.group] using hg) hx, bind_ok, hs₁, bind_ok,
        Heap.getNode_eq (by rw [hD₁.group]; exact hg) hy, bind_ok, hs₂]
    · simp only [mem_append, mem_singleton, not_or] at hp
      simp [hp.1.2, hp.2]

/-- The first `k` nodes of the group `ns` have got their counts `ks`; between the
heaps `base` and `base'` nothing else happened. -/
structure Counted (base base' : Heap T) (ns ks : List ℕ) (k : ℕ) : Prop where
  counted : ∀ j p c, j < k → ns[j]? = some p → ks[j]? = some c →
    base'.node p = some ⟨c, none, (leafNode none []).body⟩
  blank : ∀ j p, k ≤ j → ns[j]? = some p → base'.node p = some (CCSBNode.newLeaf T)
  others : ∀ p, p ∉ ns → base'.node p = base.node p
  group : base'.group = base.group
  nextNode : base'.nextNode = base.nextNode
  nextGroup : base'.nextGroup = base.nextGroup

theorem Counted.setUsed {ks : List ℕ} {k : ℕ} (hC : Counted base base' ns ks k)
    (hD : Dealt aray base' ps cs s) (hnd : ns.Nodup) (hdisj : ∀ p ∈ ns, p ∉ ps)
    (hg : base.group g = some ⟨ns.length, ns, b⟩) (hp : ns[k]? = some p) (hc : ks[k]? = some c)
    (hle : c ≤ maxDatas T) :
    ∃ base'' h', s.heap.getNode (some g) k = .ok (some p) ∧
      CSB.setUsed s.heap (some p) c = .ok h' ∧ Counted base base'' ns ks (k + 1) ∧
      Dealt aray base'' ps cs { s with heap := h' } := by
  have hps : p ∉ ps := hdisj p (mem_of_getElem? hp)
  refine ⟨base'.setNode p ((CCSBNode.newLeaf T).setUsedKeys c),
    s.heap.setNode p ((CCSBNode.newLeaf T).setUsedKeys c), ?_, ?_, ?_, hD.setNode hps _⟩
  · exact Heap.getNode_eq (by rw [hD.group, hC.group, hg]) hp
  · exact setUsed_eq (by rw [hD.others p hps, hC.blank k p le_rfl hp]) c
  · have hinj : ∀ j q, ns[j]? = some q → j ≠ k → q ≠ p := by
      rintro j q hq hjk rfl
      obtain ⟨hjl, hjq⟩ := List.getElem?_eq_some_iff.mp hq
      obtain ⟨hkl, hkq⟩ := List.getElem?_eq_some_iff.mp hp
      exact hjk ((hnd.getElem_inj_iff).mp (hjq.trans hkq.symm))
    refine ⟨?_, ?_, ?_, hC.group, hC.nextNode, hC.nextGroup⟩
    · intro j q c' hj hq hc'
      rcases Nat.lt_succ_iff_lt_or_eq.mp hj with hj | rfl
      · simp [hinj j q hq (by omega), hC.counted j q c' hj hq hc']
      · obtain rfl : p = q := Option.mem_unique hp hq
        obtain rfl : c = c' := Option.mem_unique hc hc'
        simp [CCSBNode.newLeaf, CCSBNode.setUsedKeys, leafNode, hle]
    · intro j q hj hq
      simp [hinj j q hq (by omega), hC.blank j q (by omega) hq]
    · intro q hq
      have hqp : q ≠ p := fun h => hq (h ▸ mem_of_getElem? hp)
      simp [hqp, hC.others q hq]

theorem fillFullGroups (aray : List (DataOffset T)) {X : List (ℕ × List ℕ)}
    (hW : ∀ G ∈ W, h.group G.1 = some ⟨G.2.length, G.2, b⟩)
    (hnew : ∀ p ∈ W.flatMap (·.2), h.node p = some (CCSBNode.newLeaf T))
    (hnd : (W.flatMap (·.2)).Nodup) (keyCap : ℕ)
    (hlen : (W.flatMap (·.2)).length * maxDatas T ≤ aray.length)
    (hcap : (W.flatMap (·.2)).length ≤ keyCap) :
    ∃ s, (List.range W.length).foldlM (forGroup ((W ++ X).map (·.1))
        (fillAndSet aray keyCap (fun k _ => k) (fun i => decide (i ≠ 0)) · (maxDatas T) ·))
        ⟨h, 0, []⟩ = .ok s ∧
      Dealt aray h (W.flatMap (·.2))
        (List.replicate (W.flatMap (·.2)).length (maxDatas T)) s := by
  have hD2 := two_le_maxDatas T
  refine forGroups (P := fun ps s => Dealt aray h ps (List.replicate ps.length (maxDatas T)) s)
    (fun _ _ h => h.group) hW (Dealt.nil aray h) _ ?_
  intro pre p post s hsplit hD
  rw [hsplit, nodup_append'] at hnd
  have hle : pre.length + 1 ≤ (W.flatMap (·.2)).length := by
    rw [hsplit, length_append, length_cons]
    omega
  have hmul : pre.length * maxDatas T + maxDatas T ≤ (W.flatMap (·.2)).length * maxDatas T := by
    rw [← Nat.succ_mul]
    exact Nat.mul_le_mul_right _ hle
  rw [length_append, length_singleton, replicate_succ']
  refine hD.fillAndSet _ ⟨fun hp => hnd.2.2 hp (by simp), by omega, le_rfl, ?_, ?_, ?_⟩ ?_
    fun _ _ => rfl
  · rw [sum_replicate, smul_eq_mul]
    omega
  · rw [length_replicate]
    omega
  · rw [decide_eq_true_iff, ne_eq, ne_eq, hD.i_eq_zero_iff]
  · exact hnew p (by simp [hsplit])

theorem restdata_eq {n D N : ℕ} (hn : n = N * D + r) (h1 : 1 ≤ r) (h2 : r ≤ D) :
    (if n % D = 0 then D else n % D) = r := by
  have hmod : n % D = r % D := by rw [hn, Nat.add_comm, Nat.add_mul_mod_self_right]
  rcases Nat.lt_or_ge r D with hlt | hge
  · rw [hmod, Nat.mod_eq_of_lt hlt, if_neg (by omega)]
  · obtain rfl : r = D := by omega
    rw [hmod, Nat.mod_self, if_pos rfl]

theorem Dealt.fillLastGroup (hD : Dealt aray h ps (List.replicate M (maxDatas T)) s)
    (hg : h.group g = some ⟨ns.length, ns, b⟩)
    (hnew : ∀ p ∈ ns, h.node p = some (CCSBNode.newLeaf T)) (hnd : ns.Nodup)
    (hdisj : ∀ p ∈ ns, p ∉ ps) (hns : ns.length = m + 2)
    (hn : aray.length = (M + m + 1) * maxDatas T + r) (h1 : 1 ≤ r) (h2 : r ≤ maxDatas T) :
    ∃ s', CSB.fillLastGroup aray (M + m + 1) g s = .ok s' ∧
      Dealt aray h (ps ++ ns) (List.replicate (M + m) (maxDatas T) ++
        Pieces.lastTwo (maxDatas T) (maxDatas T / 2) r) s' := by
  have hD2 := two_le_maxDatas T
  set D := maxDatas T with hDdef
  obtain ⟨a, b', hab, hsum, ha, hb, -, hb1⟩ :=
    Pieces.lastTwo_eq D (D / 2) r h1 h2 (Nat.div_le_self D 2)
  set ks := List.replicate m D ++ [a, b'] with hks
  have hkslen : ks.length = ns.length := by simp [hks, hns]
  have hksm : ks[m]? = some a ∧ ks[m + 1]? = some b' := by simp [hks]
  obtain ⟨x, hx⟩ : ∃ x, ns[m]? = some x := ⟨_, getElem?_eq_getElem (by omega)⟩
  obtain ⟨y, hy⟩ : ∃ y, ns[m + 1]? = some y := ⟨_, getElem?_eq_getElem (by omega)⟩
  -- the counts
  have hC₀ : Counted h h ns ks 0 :=
    ⟨by omega, fun j p _ hp => hnew p (mem_of_getElem? hp), fun _ _ => rfl, rfl, rfl, rfl⟩
  obtain ⟨h₁, hh₁, base₁, hC₁, hD₁⟩ := Run.foldlM_range_inv (n := m) (s := s.heap)
    (f := fun h' j => do
      let node ← h'.getNode (some g) j
      setUsed h' node D)
    (I := fun k h' => ∃ base', Counted h base' ns ks k ∧
      Dealt aray base' ps (List.replicate M D) { s with heap := h' }) ⟨h, hC₀, hD⟩ (by
    rintro k h' hk ⟨base', hC, hD'⟩
    obtain ⟨p, hp⟩ : ∃ p, ns[k]? = some p := ⟨_, getElem?_eq_getElem (by omega)⟩
    have hc : ks[k]? = some D := by
      simp [hks, getElem?_append_left (show k < (List.replicate m D).length by simpa), hk]
    obtain ⟨base'', h'', hget, hset, hC'', hD''⟩ := hC.setUsed hD' hnd hdisj hg hp hc le_rfl
    exact ⟨h'', by rw [hget, bind_ok, hset], base'', hC'', hD''⟩)
  obtain ⟨base₂, h₂, hget₂, hset₂, hC₂, hD₂⟩ := hC₁.setUsed hD₁ hnd hdisj hg hx hksm.1 ha
  obtain ⟨base₃, h₃, hget₃, hset₃, hC₃, hD₃⟩ :=
    hC₂.setUsed hD₂ hnd hdisj hg hy hksm.2 (by omega)
  -- the entries
  obtain ⟨s', hs', hD'⟩ := hD₃.forNodes (m := ns.length) (by rw [hC₃.group, hg]) le_rfl ks
    hkslen (fun _ node s => CSB.fillUsed aray (M + m + 1) (fun i => decide (i ≠ 0)) node s)
    (by
    intro j p c s hj hp hc hD
    have hcmem : c = D ∨ c = a ∨ c = b' := by
      have := mem_of_getElem? hc
      simp only [hks, mem_append, mem_cons, not_mem_nil, or_false] at this
      exact this.imp_left eq_of_mem_replicate
    refine hD.fillUsed ⟨?_, by omega, by omega, ?_, ?_, ?_⟩ (hC₃.counted j p c (by omega) hp hc)
    · rw [mem_append, not_or]
      exact ⟨hdisj p (mem_of_getElem? hp), not_mem_take_of_nodup hnd hp⟩
    · have hle := sum_take_add_sum_drop ks (j + 1)
      rw [take_add_one, hc] at hle
      simp only [hks, sum_append, sum_replicate, smul_eq_mul, sum_cons,
        sum_nil, Option.toList_some] at hle ⊢
      simp only [Nat.add_mul, Nat.one_mul] at hn
      omega
    · rw [length_append, length_replicate, length_take]
      omega
    · rw [decide_eq_true_iff, ne_eq, ne_eq, hD.i_eq_zero_iff])
  refine ⟨s', ?_, ?_⟩
  · rw [CSB.fillLastGroup, Heap.readGroup_eq (by rw [hD.group, hg]), bind_ok]
    simp only [← hDdef]
    rw [restdata_eq hn h1 h2, if_neg (by omega), show ns.length - 2 = m by omega, hh₁,
      bind_ok, hget₂, bind_ok, hab]
    simp only [getD_cons_zero, getD_cons_succ]
    rw [hset₂, bind_ok, hget₃, bind_ok, hset₃, bind_ok, hs']
  · rw [take_length, ← hkslen, take_length, hks, ← append_assoc,
      ← replicate_add, ← hab] at hD'
    exact hD'.rebase (fun p hp => (hC₃.others p fun h => hp (by simp [h])).symm)
      hC₃.group.symm hC₃.nextNode.symm hC₃.nextGroup.symm

theorem fillLeafGroups_spec (hV : ∀ G ∈ W ++ [(g, ns)], h.group G.1 = some ⟨G.2.length, G.2, b⟩)
    (hnew : ∀ p ∈ (W ++ [(g, ns)]).flatMap (·.2), h.node p = some (CCSBNode.newLeaf T))
    (hnd : ((W ++ [(g, ns)]).flatMap (·.2)).Nodup) (hM : (W.flatMap (·.2)).length = M)
    (hns : ns.length = m + 2) (hn : aray.length = (M + m + 1) * maxDatas T + r) (h1 : 1 ≤ r)
    (h2 : r ≤ maxDatas T) :
    ∃ s, fillLeafGroups aray (M + m + 1) ((W ++ [(g, ns)]).map (·.1)) (W.length + 1) ⟨h, 0, []⟩
        = .ok s ∧
      Dealt aray h ((W ++ [(g, ns)]).flatMap (·.2)) (List.replicate (M + m) (maxDatas T) ++
        Pieces.lastTwo (maxDatas T) (maxDatas T / 2) r) s := by
  have hflat : (W ++ [(g, ns)]).flatMap (·.2) = W.flatMap (·.2) ++ ns := by simp
  rw [hflat] at hnew hnd ⊢
  rw [nodup_append'] at hnd
  have hmul : M * maxDatas T ≤ (M + m + 1) * maxDatas T := Nat.mul_le_mul_right _ (by omega)
  obtain ⟨s, hs, hD⟩ := fillFullGroups aray (X := [(g, ns)])
    (fun G hG => hV G (by simp [hG])) (fun p hp => hnew p (by simp only [mem_append, hp, true_or]))
    hnd.1 (M + m + 1) (by rw [hM]; omega) (by omega)
  rw [hM] at hD
  obtain ⟨s', hs', hD'⟩ := hD.fillLastGroup (hV (g, ns) (by simp))
    (fun p hp => hnew p (by simp [hp])) hnd.2.1 (fun p hp hp' => hnd.2.2 hp' hp) hns hn h1 h2
  refine ⟨s', ?_, hD'⟩
  have hidx : ((W ++ [(g, ns)]).map (·.1))[W.length]? = some g := by simp
  rw [fillLeafGroups, Nat.add_sub_cancel, hs, bind_ok, Run.index_eq_ok hidx, bind_ok, hs']

end CSB
