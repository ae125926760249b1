/-
The leaf level that `makeLeafNodeGroup` builds.
-/
import ClaimsDB.CSBLeafFill

namespace CSB

open Run (bind_ok index_eq_ok)
open List
open Function (update update_of_ne update_self)

variable {T : Type} [IndexKey T]

/-! ### Linking the leaf groups -/

/-- The groups `V` of the heap `h` have the headers `hd` and the tailers `tl` in `h'`, in which
nothing else has changed. -/
structure Links (V : List (ℕ × List ℕ)) (h h' : Heap T) (hd tl : ℕ → Option GroupPtr) : Prop where
  group : ∀ i G, V[i]? = some G → h'.group G.1 = some ⟨G.2.length, G.2, .leaf (hd i) (tl i)⟩
  others : ∀ g, g ∉ V.map (·.1) → h'.group g = h.group g
  node : h'.node = h.node
  nextNode : h'.nextNode = h.nextNode
  nextGroup : h'.nextGroup = h.nextGroup

variable {V : List (ℕ × List ℕ)} {i : ℕ} {G : ℕ × List ℕ} {h h' : Heap T}
  {hd tl : ℕ → Option GroupPtr} {aray : List (DataOffset T)}

theorem ptr_ne_of_nodup (hnd : (V.map (·.1)).Nodup) {j : ℕ} {G' : ℕ × List ℕ}
    (hi : V[i]? = some G) (hj : V[j]? = some G') (hij : i ≠ j) : G.1 ≠ G'.1 := by
  intro heq
  obtain ⟨hil, rfl⟩ := List.getElem?_eq_some_iff.mp hi
  obtain ⟨hjl, rfl⟩ := List.getElem?_eq_some_iff.mp hj
  have hinj := List.nodup_iff_injective_get.mp hnd
  have := @hinj ⟨i, by simpa using hil⟩ ⟨j, by simpa using hjl⟩ (by simpa using heq)
  exact hij (congrArg Fin.val this)

section

variable (hL : Links V h h' hd tl) (hnd : (V.map (·.1)).Nodup) (hi : V[i]? = some G)

include hL hnd hi

omit [IndexKey T] in
theorem Links.setGroup (x y : Option GroupPtr) :
    Links V h (h'.setGroup G.1 ⟨G.2.length, G.2, .leaf x y⟩) (update hd i x)
      (update tl i y) := by
  refine ⟨fun j G' hj => ?_, fun g hg => ?_, hL.node, hL.nextNode, hL.nextGroup⟩
  · by_cases hij : j = i
    · subst hij
      obtain rfl : G = G' := Option.mem_unique hi hj
      simp
    · have hne := ptr_ne_of_nodup hnd hj hi hij
      simp [hne, hij, hL.group j G' hj]
  · have hne : g ≠ G.1 := by
      rintro rfl
      exact hg (mem_map_of_mem (mem_of_getElem? hi))
    simp [hne, hL.others g hg]

omit [IndexKey T] in
theorem Links.setHeaderNG (x : Option GroupPtr) :
    ∃ h'', h'.setHeaderNG (some G.1) x = .ok h'' ∧ Links V h h'' (update hd i x) tl := by
  exact ⟨_, Heap.setHeaderNG_eq (hL.group i G hi) x,
    by simpa using hL.setGroup hnd hi x (tl i)⟩

omit [IndexKey T] in
theorem Links.setTailerNG (x : Option GroupPtr) :
    ∃ h'', h'.setTailerNG (some G.1) x = .ok h'' ∧ Links V h h'' hd (update tl i x) := by
  exact ⟨_, Heap.setTailerNG_eq (hL.group i G hi) x,
    by simpa using hL.setGroup hnd hi (hd i) x⟩

end

def headerOf (V : List (ℕ × List ℕ)) : ℕ → Option GroupPtr
  | 0 => none
  | i + 1 => (V[i]?).map (·.1)

def tailerOf (V : List (ℕ × List ℕ)) (i : ℕ) : Option GroupPtr := (V[i + 1]?).map (·.1)

theorem update_ite_lt {α : Type} (f : ℕ → α) (d : α) (k : ℕ) :
    update (fun i => if i < k then f i else d) k (f k)
      = fun i => if i < k + 1 then f i else d := by
  funext i
  rcases Nat.lt_trichotomy i k with hik | rfl | hik
  · rw [update_of_ne (by omega), if_pos hik, if_pos (by omega)]
  · rw [update_self, if_pos (by omega)]
  · rw [update_of_ne (by omega), if_neg (by omega), if_neg (by omega)]

omit [IndexKey T] in
theorem linkLeafGroups_spec (hnd : (V.map (·.1)).Nodup)
    (hV : ∀ G ∈ V, h.group G.1 = some ⟨G.2.length, G.2, .leaf none none⟩) {num : ℕ}
    (hnum : V.length = num + 1) :
    ∃ h', linkLeafGroups h (V.map (·.1)) (num + 1) = .ok h' ∧
      Links V h h' (headerOf V) (tailerOf V) := by
  have hget : ∀ i, i < V.length → ∃ G, V[i]? = some G ∧ (V.map (·.1))[i]? = some G.1 :=
    fun i hi => ⟨V.get ⟨i, hi⟩, by simp [hi], by simp [hi]⟩
  obtain ⟨F, hF, hF'⟩ := hget 0 (by omega)
  obtain ⟨E, hE, hE'⟩ := hget num (by omega)
  have hL₀ : Links V h h (fun _ => none) (fun _ => none) :=
    ⟨fun i G hG => hV G (mem_of_getElem? hG), fun _ _ => rfl, rfl, rfl, rfl⟩
  obtain ⟨h₁, hs₁, hL₁⟩ := hL₀.setHeaderNG hnd hF none
  obtain ⟨h₂, hs₂, hL₂⟩ := hL₁.setTailerNG hnd hE none
  -- the tailers of the first `k` groups
  obtain ⟨h₃, hs₃, hL₃⟩ := Run.foldlM_range_inv (n := num) (s := h₂)
    (f := fun h i => do
      let a ← Run.index (V.map (·.1)) i
      let b ← Run.index (V.map (·.1)) (i + 1)
      h.setTailerNG (some a) (some b))
    (I := fun k h' => Links V h h' (fun _ => none) fun i => if i < k then tailerOf V i else none)
    (by simpa using hL₂) (by
    intro k h' hk hL
    obtain ⟨A, hA, hA'⟩ := hget k (by omega)
    obtain ⟨B, hB, hB'⟩ := hget (k + 1) (by omega)
    obtain ⟨h'', hs, hL'⟩ := hL.setTailerNG hnd hA (some B.1)
    refine ⟨h'', ?_, ?_⟩
    · rw [index_eq_ok hA', bind_ok, index_eq_ok hB', bind_ok, hs]
    · rwa [show some B.1 = tailerOf V k by simp [tailerOf, hB], update_ite_lt] at hL')
  have htl : (fun i => if i < num then tailerOf V i else none) = tailerOf V := by
    funext i
    split_ifs with hi
    · rfl
    · rw [tailerOf, getElem?_eq_none (by omega)]
      rfl
  rw [htl] at hL₃
  -- the headers of the first `k + 1` groups
  obtain ⟨h₄, hs₄, hL₄⟩ := Run.foldlM_range_inv (n := num) (s := h₃)
    (f := fun h i => do
      let a ← Run.index (V.map (·.1)) i
      let b ← Run.index (V.map (·.1)) (i + 1)
      h.setHeaderNG (some b) (some a))
    (I := fun k h' => Links V h h' (fun i => if i < k + 1 then headerOf V i else none)
      (tailerOf V)) (by
      convert hL₃ using 1
      funext i
      rcases i with _ | i <;> simp [headerOf]) (by
    intro k h' hk hL
    obtain ⟨A, hA, hA'⟩ := hget k (by omega)
    obtain ⟨B, hB, hB'⟩ := hget (k + 1) (by omega)
    obtain ⟨h'', hs, hL'⟩ := hL.setHeaderNG hnd hB (some A.1)
    refine ⟨h'', ?_, ?_⟩
    · rw [index_eq_ok hA', bind_ok, index_eq_ok hB', bind_ok, hs]
    · rwa [show some A.1 = headerOf V (k + 1) by simp [headerOf, hA], update_ite_lt] at hL')
  refine ⟨h₄, ?_, ?_⟩
  · rw [linkLeafGroups, index_eq_ok hF', bind_ok, hs₁, bind_ok, Nat.add_sub_cancel,
      index_eq_ok hE', bind_ok, hs₂, bind_ok, hs₃, bind_ok, hs₄]
  · refine ⟨fun i G hi => ?_, hL₄.others, hL₄.node, hL₄.nextNode, hL₄.nextGroup⟩
    have hlt := (List.getElem?_eq_some_iff.mp hi).choose
    have := hL₄.group i G hi
    rwa [if_pos (by omega)] at this

theorem leafNodes_replicate {f : Option NodePtr} : ∀ {L : LeafView T},
    (∀ x ∈ flat L, h.node x.1 = some (leafNode f x.2)) →
      LeafNodes h (List.replicate L.length f) L
  | [], _ => .nil
  | G :: L, hx => .cons (fun x hG => hx x (by simp [hG]))
      (leafNodes_replicate fun x hL => hx x (by simp [hL]))

omit [IndexKey T] in
theorem leafChain_of_links : ∀ {L : LeafView T} {prev : Option GroupPtr},
    (∀ i G, L[i]? = some G → h.group G.ptr = some ⟨G.nodes.length, G.nodes.map (·.1),
      .leaf (if i = 0 then prev else headerOf (L.map (·.bare)) i) (tailerOf (L.map (·.bare)) i)⟩) →
    LeafChain h prev L none
  | [], _, _ => trivial
  | G :: L, prev, hG => by
    refine ⟨?_, leafChain_of_links fun i G' hG' => ?_⟩
    · rw [hG 0 G rfl]
      cases L <;> simp [headPtr, tailerOf, GroupView.bare]
    · rw [hG (i + 1) G' hG']
      cases i <;> simp [headerOf, tailerOf, GroupView.bare]

theorem Dealt.leafLevel {h₀ : Heap T} {cs : List ℕ} {s : Deal T}
    (hA : Allocated (CCSBNode.newLeaf T) (.leaf none none) h₀ h V)
    (hD : Dealt aray h (V.flatMap (·.2)) cs s) (hcs : ∀ c ∈ cs, c ≤ maxDatas T)
    (hl : Links V s.heap h' (headerOf V) (tailerOf V)) :
    ∃ L : LeafView T, L.map (·.bare) = V ∧ (flat L).map (·.2) = cs.splitLengths aray ∧
      Forest h' (List.replicate L.length none) [] L := by
  have hlen := hD.filled.length_eq
  set L : LeafView T := decorate V (cs.splitLengths aray) with hL
  have hbare : L.map (·.bare) = V := map_bare_decorate V _ hlen.le
  have hflat : flat L = (V.flatMap (·.2)).zip (cs.splitLengths aray) := flat_decorate V _
  have hptrs : (flat L).map (·.1) = V.flatMap (·.2) := by
    rw [hflat, map_fst_zip hlen.le]
  have hpieces : (flat L).map (·.2) = cs.splitLengths aray := by
    rw [hflat, map_snd_zip hlen.ge]
  have hgroups : L.map (·.ptr) = V.map (·.1) := by
    rw [← hbare, map_map]
    rfl
  refine ⟨L, hbare, hpieces, ?_⟩
  constructor
  · refine ⟨leafNodes_replicate fun x hx => ?_, leafChain_of_links fun i G hG => ?_⟩
    · rw [hflat] at hx
      rw [hl.node, forall₂_zip hD.filled hx]
    · have hi : V[i]? = some G.bare := by rw [← hbare, getElem?_map, hG]; rfl
      have hgroup := hl.group i _ hi
      rw [hbare]
      simp only [GroupView.bare, length_map] at hgroup
      rw [hgroup]
      cases i <;> rfl
  · trivial
  · simpa [nodePtrs, hptrs] using hA.nodup_nodes
  · simpa [groupPtrs, hgroups] using hA.nodup_groups
  · intro p hp
    rw [nodePtrs, flatMap_nil, nil_append, hptrs] at hp
    rw [hl.nextNode, hD.nextNode]
    exact (hA.nodes_ge p hp).2
  · intro g hg
    rw [groupPtrs, flatMap_nil, nil_append, hgroups] at hg
    obtain ⟨G, hG, rfl⟩ := List.mem_map.mp hg
    rw [hl.nextGroup, hD.nextGroup]
    exact (hA.groups_ge G hG).2
  · intro x hx
    have hmem : x.2 ∈ cs.splitLengths aray := hpieces ▸ mem_map_of_mem hx
    have hlen : x.2.length ∈ (cs.splitLengths aray).map List.length := mem_map_of_mem hmem
    rw [map_splitLengths_length _ _ hD.sum_le] at hlen
    exact hcs _ hlen
  · simp

theorem dealLeaves_one (h₀ : Heap T) {N r : ℕ} (hn : aray.length = (N + 1) * maxDatas T + r)
    (h1 : 1 ≤ r) (h2 : r ≤ maxDatas T) (hN : N + 2 ≤ maxKeys T + 1) :
    ∃ V h s, dealLeaves h₀ aray 1 (N + 1) 1 = .ok (V.map (·.1), s) ∧
      Allocated (CCSBNode.newLeaf T) (.leaf none none) h₀ h V ∧
      Dealt aray h (V.flatMap (·.2))
        (Pieces.balancedSizes (maxDatas T) (maxDatas T / 2) aray.length) s ∧
      V.map (·.2.length) = Pieces.balancedSizes (maxKeys T + 1) (maxKeys T / 2 + 1) (N + 2) := by
  have hceil : aray.length ⌈/⌉ maxDatas T = N + 2 := Pieces.ceilDiv_eq_of_eq hn h1 h2
  obtain ⟨V, h, hal, hA, hlen⟩ := allocGroups_spec
    (show ∀ (h : Heap T) n, h.newLeafNodeGroup n = _ from fun _ _ => rfl)
    (show [N + 2].length ≤ 1 by simp) (by simpa using hN) h₀
  obtain ⟨⟨g, ns⟩, rfl⟩ : ∃ G, V = [G] :=
    List.length_eq_one_iff.mp (by simpa using congrArg List.length hlen)
  have hns : ns.length = N + 2 := by simpa using hlen
  obtain ⟨s, hs, hD⟩ := fillOneLeafGroup_spec (hA.group (g, ns) (by simp))
    (fun p hp => hA.node p (by simpa using hp)) (by simpa using hA.nodup_nodes) hn h1 h2 hns
  refine ⟨[(g, ns)], h, s, ?_, hA, ?_, ?_⟩
  · rw [dealLeaves, if_pos rfl, hceil]
    simp only [hal, bind_ok, map_cons, map_nil]
    rw [index_eq_ok rfl, bind_ok, hs]
    rfl
  · rw [Pieces.balancedSizes_eq hn h1 h2]
    simpa using hD
  · rw [hlen, Pieces.balancedSizes, if_pos]
    rw [Pieces.ceilDiv_eq_of_eq (q := 0) (r := N + 2) (by omega) (by omega) hN]

theorem dealLeaves_more (h₀ : Heap T) {Q R r : ℕ}
    (hn : aray.length = ((Q + 1) * (maxKeys T + 1) + R - 1) * maxDatas T + r) (h1 : 1 ≤ r)
    (h2 : r ≤ maxDatas T) (hR1 : 1 ≤ R) (hR2 : R ≤ maxKeys T + 1) :
    ∃ V h s, dealLeaves h₀ aray (Q + 2) ((Q + 1) * (maxKeys T + 1) + R - 1) (Q + 2)
        = .ok (V.map (·.1), s) ∧
      Allocated (CCSBNode.newLeaf T) (.leaf none none) h₀ h V ∧
      Dealt aray h (V.flatMap (·.2))
        (Pieces.balancedSizes (maxDatas T) (maxDatas T / 2) aray.length) s ∧
      V.map (·.2.length) = Pieces.balancedSizes (maxKeys T + 1) (maxKeys T / 2 + 1)
        ((Q + 1) * (maxKeys T + 1) + R) := by
  have hK2 := two_le_maxKeys T
  set K := maxKeys T with hK
  set D := maxDatas T with hD
  have hrest : (aray.length - (Q + 2 - 1) * (K + 1) * D) ⌈/⌉ D = R := by
    obtain ⟨R', rfl⟩ : ∃ R', R = R' + 1 := ⟨R - 1, by omega⟩
    refine Pieces.ceilDiv_eq_of_eq (r := r) ?_ h1 h2
    rw [hn, show Q + 2 - 1 = Q + 1 by omega, ← Nat.add_assoc, Nat.add_sub_cancel, Nat.add_mul]
    omega
  obtain ⟨a, b, hab, hsum, ha, hb, hmin, hb1⟩ :=
    Pieces.lastTwo_eq (K + 1) (K / 2 + 1) R hR1 hR2 (by omega)
  have hsizes : groupSizes T (Q + 2) R = List.replicate Q (K + 1) ++ [a] ++ [b] := by
    rw [groupSizes, ← hK, hab, show Q + 2 - 2 = Q by omega, append_assoc]
    rfl
  obtain ⟨V, h, hal, hA, hlen⟩ := allocGroups_spec
    (show ∀ (h : Heap T) n, h.newLeafNodeGroup n = _ from fun _ _ => rfl)
    (show (groupSizes T (Q + 2) R).length ≤ Q + 2 by simp [hsizes]) (by
      intro n hmem
      rw [hsizes] at hmem
      simp only [mem_append, mem_singleton] at hmem
      rcases hmem with (hmem | rfl) | rfl
      · exact (eq_of_mem_replicate hmem).le
      · omega
      · omega) h₀
  -- the last group and the ones before it
  obtain ⟨W, g, ns, rfl⟩ : ∃ W g ns, V = W ++ [(g, ns)] := by
    obtain ⟨W, ⟨g, ns⟩, rfl⟩ := eq_nil_or_concat V |>.resolve_left (by
      rintro rfl
      simp [hsizes] at hlen)
    exact ⟨W, g, ns, by simp⟩
  rw [hsizes, map_append] at hlen
  obtain ⟨hW, hns⟩ := append_inj' hlen rfl
  have hns : ns.length = b := by simpa using hns
  have hWlen : W.length = Q + 1 := by simpa using congrArg List.length hW
  have hM : (W.flatMap (·.2)).length = Q * (K + 1) + a := by
    rw [length_flatMap, hW]
    simp
  obtain ⟨m, rfl⟩ : ∃ m, b = m + 2 := ⟨b - 2, by omega⟩
  have hN : (Q + 1) * (K + 1) + R - 1 = Q * (K + 1) + a + m + 1 := by
    rw [Nat.add_mul, Nat.one_mul]
    omega
  rw [hN] at hn
  obtain ⟨s, hs, hDealt⟩ := fillLeafGroups_spec hA.group hA.node hA.nodup_nodes hM hns hn h1 h2
  refine ⟨_, h, s, ?_, hA, ?_, ?_⟩
  · rw [dealLeaves, if_neg (by omega)]
    simp only [← hK, ← hD, hrest, hal, bind_ok, hN]
    rw [show Q + 2 = W.length + 1 by omega, hs]
    rfl
  · rwa [Pieces.balancedSizes_eq hn h1 h2]
  · rw [Pieces.balancedSizes_eq rfl hR1 hR2, hab, map_append, hW]
    simp [hns]

/-- **`makeLeafNodeGroup`** returns, and the leaf level holds the array in pieces of balanced sizes.
-/
theorem makeLeafNodeGroup_spec (t : CSBPlusTree T) (hn : maxDatas T < aray.length) :
    ∃ t' L, makeLeafNodeGroup t aray ((aray.length ⌈/⌉ maxDatas T) ⌈/⌉ (maxKeys T + 1))
        (aray.length ⌈/⌉ maxDatas T - 1)
        = .ok (t', L.map (·.ptr), (firsts ((flat L).map (·.2))).tail) ∧
      Forest t'.heap (List.replicate L.length none) [] L ∧
      (flat L).map (·.2)
        = (Pieces.balancedSizes (maxDatas T) (maxDatas T / 2) aray.length).splitLengths aray ∧
      L.map (·.nodes.length) = Pieces.balancedSizes (maxKeys T + 1) (maxKeys T / 2 + 1)
        (aray.length ⌈/⌉ maxDatas T) ∧
      t'.leafHeader = L.head?.map (·.ptr) ∧ t'.leafTailer = L.getLast?.map (·.ptr) ∧
      t'.csbDepth = t.csbDepth + 1 := by
  have hD2 := two_le_maxDatas T
  obtain ⟨N, r, hN, hnN, h1, h2⟩ :=
    Pieces.exists_ceilDiv (show 0 < maxDatas T by omega) (show 0 < aray.length by omega)
  obtain ⟨Q, R, hQ, hNQ, hR1, hR2⟩ :=
    Pieces.exists_ceilDiv (show 0 < maxKeys T + 1 by omega) (show 0 < N + 1 by omega)
  rw [hN, hQ, Nat.add_sub_cancel]
  -- the groups, filled
  obtain ⟨V, h, s, hs, hA, hD, hV⟩ : ∃ V h s, dealLeaves t.heap aray (Q + 1) N (Q + 1)
        = .ok (V.map (·.1), s) ∧
      Allocated (CCSBNode.newLeaf T) (.leaf none none) t.heap h V ∧
      Dealt aray h (V.flatMap (·.2))
        (Pieces.balancedSizes (maxDatas T) (maxDatas T / 2) aray.length) s ∧
      V.map (·.2.length) = Pieces.balancedSizes (maxKeys T + 1) (maxKeys T / 2 + 1) (N + 1) := by
    rcases Q with _ | Q
    · obtain ⟨N, rfl⟩ : ∃ M, N = M + 1 := ⟨N - 1, by rcases N with _ | N <;> omega⟩
      exact dealLeaves_one t.heap hnN h1 h2 (by omega)
    · have hNR : N = (Q + 1) * (maxKeys T + 1) + R - 1 := by omega
      have hNR' : N + 1 = (Q + 1) * (maxKeys T + 1) + R := by omega
      rw [hNR']
      rw [hNR] at hnN ⊢
      exact dealLeaves_more t.heap hnN h1 h2 hR1 hR2
  have hVlen : V.length = Q + 1 := by
    have := congrArg List.length hV
    rwa [length_map, Pieces.length_balancedSizes (by omega) (by omega), hQ] at this
  -- the links
  obtain ⟨h', hh', hl⟩ := linkLeafGroups_spec (h := s.heap) hA.nodup_groups
    (fun G hG => by rw [hD.group, hA.group G hG]) hVlen
  obtain ⟨L, hbare, hpieces, hF⟩ := hD.leafLevel hA
    (Pieces.le_of_mem_balancedSizes (by omega) (by omega) (Nat.div_le_self _ 2)) hl
  have hptrs : L.map (·.ptr) = V.map (·.1) := by
    rw [← hbare, map_map]
    rfl
  have hfirst : (V.map (·.1))[0]? = L.head?.map (·.ptr) := by
    rw [← hptrs, getElem?_map, head?_eq_getElem?]
  have hlast : (V.map (·.1))[Q]? = L.getLast?.map (·.ptr) := by
    rw [← hptrs, getElem?_map, getLast?_eq_getElem?]
    have : L.length = Q + 1 := by simpa [hVlen] using congrArg List.length hptrs
    rw [this, Nat.add_sub_cancel]
  obtain ⟨f, hf⟩ : ∃ f, (V.map (·.1))[0]? = some f := ⟨_, getElem?_eq_getElem (by simp; omega)⟩
  obtain ⟨l, hl'⟩ : ∃ l, (V.map (·.1))[Q]? = some l := ⟨_, getElem?_eq_getElem (by simp; omega)⟩
  refine ⟨{ t with heap := h', leafHeader := some f, leafTailer := some l,
                    csbDepth := t.csbDepth + 1 }, L, ?_, hF, hpieces, ?_, ?_, ?_, rfl⟩
  · rw [makeLeafNodeGroup]
    simp only [hN, hQ, hs, bind_ok, hh', Nat.add_sub_cancel, index_eq_ok hf,
      index_eq_ok hl', Run.pure_eq_ok, hptrs, hpieces, ← hD.keys_eq]
  · rw [← hV, ← hbare, map_map]
    simp [Function.comp_def, GroupView.bare]
  · exact hf.symm.trans hfirst
  · exact hl'.symm.trans hlast

end CSB
