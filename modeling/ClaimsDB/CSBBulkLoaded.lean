/-
`BulkLoad` as a whole.
-/
import ClaimsDB.CSBInternalLevel

namespace CSB

open Run (bind_ok)
open List

variable {T : Type} [IndexKey T]

abbrev levelSizes (T : Type) [IndexKey T] (M : ℕ) : List ℕ :=
  Pieces.balancedSizes (maxKeys T + 1) (maxKeys T / 2 + 1) M

theorem two_le_of_mem_levelSizes {M : ℕ} (hM : 2 ≤ M) : ∀ c ∈ levelSizes T M, 2 ≤ c := by
  have hK := two_le_maxKeys T
  intro c hc
  rcases Nat.lt_or_ge (maxKeys T + 1) M with hlt | hge
  · have := (Pieces.mem_balancedSizes (by omega) (by omega) (by omega) c hc).2.2 hlt
    omega
  · have hceil : M ⌈/⌉ (maxKeys T + 1) = 0 + 1 :=
      Pieces.ceilDiv_eq_of_eq (r := M) (by omega) (by omega) hge
    rw [levelSizes, Pieces.balancedSizes, if_pos (by omega), mem_singleton] at hc
    omega

/-- What holds between two levels: `F` are the first keys of the topmost nodes. -/
structure Building (t : CSBPlusTree T) (F : List T) (ups : List (InternalView T)) (L : LeafView T) :
    Prop where
  forest : Forest t.heap (List.replicate (tops ups L).length none) ups L
  sizes : (tops ups L).map (·.2.length) = levelSizes T F.length
  two_le : 2 ≤ F.length
  firsts : (spell F ups).map some = leafFirsts L
  depth : t.csbDepth = ups.length + 1
  header : t.leafHeader = L.head?.map (·.ptr)
  tailer : t.leafTailer = L.getLast?.map (·.ptr)

variable {t : CSBPlusTree T} {F : List T} {ups : List (InternalView T)} {L : LeafView T}
  {V : List (ℕ × List ℕ)} {h : Heap T} {aray : List (DataOffset T)}

theorem Building.length_tops (hB : Building t F ups L) :
    (tops ups L).length = F.length ⌈/⌉ (maxKeys T + 1) := by
  have := congrArg List.length hB.sizes
  rwa [length_map, Pieces.length_balancedSizes (by omega) (by have := hB.two_le; omega)] at this

theorem exists_last_two (hne : V ≠ []) (h2 : ∀ G ∈ V, 2 ≤ G.2.length) :
    ∃ W g ms x y, V = W ++ [(g, ms ++ [x, y])] ∧
      V.flatMap (·.2) = W.flatMap (·.2) ++ ms ++ [x, y] := by
  obtain ⟨W, ⟨g, ns⟩, rfl⟩ := (eq_nil_or_concat V).resolve_left hne
  have hns : 2 ≤ ns.length := h2 (g, ns) (by simp)
  obtain ⟨ms, x, y, rfl, -⟩ := exists_snoc_two (show ns.length = ns.length - 2 + 2 by omega)
  exact ⟨W, g, ms, x, y, by simp, by simp⟩

theorem Building.sizes_eq (hB : Building t F ups L) (hF : maxKeys T + 1 < F.length) :
    ∃ q a b, (tops ups L).map (·.2.length) = List.replicate q (maxKeys T + 1) ++ [a, b] ∧
      F.length = q * (maxKeys T + 1) + (a + b) ∧ 1 ≤ a ∧ a ≤ maxKeys T + 1 ∧ 1 ≤ b ∧
      b ≤ maxKeys T + 1 := by
  obtain ⟨q', r, -, hFq, h1, h2⟩ :=
    Pieces.exists_ceilDiv (show 0 < maxKeys T + 1 by omega) (show 0 < F.length by omega)
  obtain ⟨q, rfl⟩ : ∃ q, q' = q + 1 := ⟨q' - 1, by rcases q' with _ | q' <;> omega⟩
  obtain ⟨a, b, hab, hsum, ha, hba, -, hb1⟩ :=
    Pieces.lastTwo_eq (maxKeys T + 1) (maxKeys T / 2 + 1) r h1 h2 (by omega)
  refine ⟨q, a, b, ?_, ?_, by omega, ha, hb1, by omega⟩
  · rw [hB.sizes, levelSizes, Pieces.balancedSizes_eq hFq h1 h2, hab]
  · rw [hFq, Nat.add_mul]
    omega

theorem Building.pieces (hB : Building t F ups L) {pieces : List (List T)}
    (hp : pieces = ((tops ups L).map (·.2.length)).splitLengths F) :
    pieces.map List.length = (tops ups L).map (·.2.length) ∧ pieces.flatten = F ∧
      (∀ piece ∈ pieces, piece ≠ []) ∧ ∀ piece ∈ pieces, piece.length ≤ maxKeys T + 1 := by
  have h2 := hB.two_le
  have hsum : ((tops ups L).map (·.2.length)).sum = F.length := by
    rw [hB.sizes, Pieces.sum_balancedSizes (by omega) (by omega)]
  have hlen : pieces.map List.length = (tops ups L).map (·.2.length) := by
    rw [hp, map_splitLengths_length _ _ hsum.le]
  refine ⟨hlen, ?_, ?_, fun piece hpiece => ?_⟩
  · rw [hp, flatten_splitLengths _ _ hsum.ge]
  · rw [hp]
    refine splitLengths_ne_nil ?_ hsum.le
    rw [hB.sizes]
    exact Pieces.pos_of_mem_balancedSizes (by omega) (by omega) (by omega)
  · have hmem : piece.length ∈ pieces.map List.length := mem_map_of_mem hpiece
    rw [hlen, hB.sizes] at hmem
    exact Pieces.le_of_mem_balancedSizes (by omega) (by omega) (by omega) _ hmem

theorem allocInternal_spec (h : Heap T) {m : ℕ} (hm : 2 ≤ m) :
    ∃ V h', allocGroups Heap.newInternalNodeGroup (m ⌈/⌉ (maxKeys T + 1))
        (if 2 ≤ m ⌈/⌉ (maxKeys T + 1) then groupSizes T (m ⌈/⌉ (maxKeys T + 1))
          (m - (m ⌈/⌉ (maxKeys T + 1) - 1) * (maxKeys T + 1)) else [m]) h
        = .ok (V.map (·.1), h') ∧
      Allocated (CCSBNode.newInternal T) .internal h h' V ∧
      V.map (·.2.length) = levelSizes T m := by
  have hsizes : (if 2 ≤ m ⌈/⌉ (maxKeys T + 1) then groupSizes T (m ⌈/⌉ (maxKeys T + 1))
      (m - (m ⌈/⌉ (maxKeys T + 1) - 1) * (maxKeys T + 1)) else [m]) = levelSizes T m := by
    rw [levelSizes, Pieces.balancedSizes]
    by_cases h2 : 2 ≤ m ⌈/⌉ (maxKeys T + 1)
    · rw [if_pos h2, if_neg (by omega), groupSizes]
    · rw [if_neg h2, if_pos (by omega)]
  rw [hsizes]
  exact allocGroups_spec (show ∀ (h : Heap T) n, h.newInternalNodeGroup n = _ from fun _ _ => rfl)
    (Pieces.length_balancedSizes (by omega) (by omega)).le
    (Pieces.le_of_mem_balancedSizes (by omega) (by omega) (by omega)) h

theorem Building.fill (hB : Building t F ups L) (hF : maxKeys T + 1 < F.length)
    (hA : Allocated (CCSBNode.newInternal T) .internal t.heap h V)
    (hV : V.map (·.2.length) = levelSizes T (tops ups L).length) :
    ∃ s, fillInternalGroups F.tail ((tops ups L).length - 1) (V.map (·.1))
        ((tops ups L).map (·.1)) V.length (tops ups L).length ⟨h, 0, []⟩ = .ok s ∧
      Keyed F h (V.flatMap (·.2)) ((tops ups L).map (·.2.length)) s := by
  obtain ⟨q, a, b, hus, hFlen, ha1, ha, hb1, hb⟩ := hB.sizes_eq hF
  have hm : (tops ups L).length = q + 2 := by simpa using congrArg List.length hus
  -- the groups of the new level, from the last one
  have hV2 : ∀ G ∈ V, 2 ≤ G.2.length := by
    intro G hG
    refine two_le_of_mem_levelSizes (T := T) (M := (tops ups L).length) (by omega) _ ?_
    rw [← hV]
    exact mem_map_of_mem hG
  have hsum : (V.flatMap (·.2)).length = q + 2 := by
    rw [length_flatMap, hV, Pieces.sum_balancedSizes (by omega) (by omega), hm]
  have hVne : V ≠ [] := by
    rintro rfl
    simp at hsum
  obtain ⟨W, g, ms, x, y, rfl, hflat⟩ := exists_last_two hVne hV2
  have hN : (W.flatMap (·.2) ++ ms).length = q := by
    rw [hflat, length_append] at hsum
    simpa using hsum
  -- the last two groups below
  have hlow : ∀ j u : ℕ, ((tops ups L).map (·.2.length))[j]? = some u →
      ∃ l G, ((tops ups L).map (·.1))[j]? = some l ∧ h.group l = some G ∧ G.usedNodes = u := by
    intro j u hj
    rw [getElem?_map, Option.map_eq_some_iff] at hj
    obtain ⟨⟨l, ns⟩, hl, rfl⟩ := hj
    obtain ⟨⟨b, hgrp⟩, -⟩ := hB.forest.holds.top (mem_of_getElem? hl)
    refine ⟨l, ⟨ns.length, ns, b⟩, by simp [hl], ?_, rfl⟩
    rw [hA.old_group l (hB.forest.groups_lt l (mem_groupPtrs_of_tops (mem_of_getElem? hl))),
      hgrp]
  obtain ⟨l₁, G₁, hl₁, hG₁, rfl⟩ := hlow q a (by simp [hus])
  obtain ⟨l₂, G₂, hl₂, hG₂, rfl⟩ := hlow (q + 1) b (by simp [hus])
  obtain ⟨s, hs, hKeyed⟩ := fillInternalGroups_spec (F := F) hA.group
    (by rw [← hflat]; exact hA.node) (by rw [← hflat]; exact hA.nodup_nodes) hN hl₁ hl₂ hG₁ hG₂
    ha1 ha hb1 hb hFlen
  rw [hflat, hm, hus]
  exact ⟨s, by simpa using hs, hKeyed⟩

/-- **One level**: `makeInternalNodeGroup` returns a tree that is being built with one level more. -/
theorem makeInternalNodeGroup_spec (hB : Building t F ups L) (hF : maxKeys T + 1 < F.length) :
    ∃ t' U F', makeInternalNodeGroup t F.tail
        ((tops ups L).length ⌈/⌉ (maxKeys T + 1)) (tops ups L).length ((tops ups L).length - 1)
        ((tops ups L).map (·.1)) = .ok (t', (tops (U :: ups) L).map (·.1), F'.tail) ∧
      Building t' F' (U :: ups) L ∧ F'.length < F.length ∧
      F'.length = (tops ups L).length := by
  have hK := two_le_maxKeys T
  obtain ⟨q, a, b, hus, hFlen, ha1, ha, hb1, hb⟩ := hB.sizes_eq hF
  have hm : (tops ups L).length = q + 2 := by simpa using congrArg List.length hus
  obtain ⟨V, h, hal, hA, hV⟩ := allocInternal_spec t.heap (show 2 ≤ (tops ups L).length by omega)
  obtain ⟨s, hs, hKd⟩ := hB.fill hF hA hV
  obtain ⟨hplen, hpflat, hpne, hple⟩ := hB.pieces rfl
  set pieces := ((tops ups L).map (·.2.length)).splitLengths F with hpieces
  have hVlen : V.length = (tops ups L).length ⌈/⌉ (maxKeys T + 1) := by
    have := congrArg List.length hV
    rwa [length_map, Pieces.length_balancedSizes (by omega) (by omega)] at this
  have hptrs : (V.flatMap (·.2)).length = (tops ups L).length := by
    rw [length_flatMap, hV, Pieces.sum_balancedSizes (by omega) (by omega)]
  have hplen' : pieces.length = (tops ups L).length := by simpa using congrArg List.length hplen
  -- nothing below has changed so far
  have hold : ∀ p ∈ nodePtrs ups L, p ∉ V.flatMap (·.2) := by
    intro p hp hp'
    have h1 := hB.forest.nodes_lt p hp
    have h2 := (hA.nodes_ge p hp').1
    omega
  have hAd₀ : Adopted (V.flatMap (·.2)) pieces ups L s.heap s.heap 0 := by
    refine ⟨?_, ?_, fun _ _ _ => rfl, rfl, rfl, rfl⟩
    · simp only [take_zero, map_nil, nil_append, Nat.sub_zero, hptrs]
      refine hB.forest.holds.frame (fun p hp => ?_) fun g hg => ?_
      · rw [hKd.others p (hold p hp), hA.old_node p (hB.forest.nodes_lt p hp)]
      · rw [hKd.group, hA.old_group g (hB.forest.groups_lt g hg)]
    · intro j p piece g hp hpiece _
      refine forall₂_zip hKd.filled ?_
      exact mem_of_getElem? (List.getElem?_zip_eq_some.mpr ⟨hp, hpiece⟩)
  obtain ⟨s', hs', hAd⟩ := adoptGroups_spec (fun G hG => by rw [hKd.group, hA.group G hG]) hAd₀
    hA.nodup_nodes hB.forest.nodup_nodes (fun p hp hp' => hold p hp' hp) (by omega) (by omega)
  obtain ⟨U, hbare, hflat, hForest⟩ := hAd.level hB.forest hA hKd.group hKd.nextNode hKd.nextGroup
    (by omega) hplen hpne hple
  have hheads : (heads pieces).length = (tops ups L).length := by rw [length_heads hpne, hplen']
  refine ⟨{ t with heap := s'.heap, csbDepth := t.csbDepth + 1 }, U, heads pieces, ?_, ?_, ?_, hheads⟩
  · have hkeys : s.keys = (heads pieces).tail := by
      have hsum : ((tops ups L).map (·.2.length)).sum = F.length := by
        rw [hus, hFlen]
        simp
      rw [hKd.keys_eq, heads_splitLengths_snoc _ le_rfl, hsum, getElem?_eq_none le_rfl,
        Option.toList_none, append_nil]
    have htops : (tops (U :: ups) L).map (·.1) = V.map (·.1) := by
      rw [← hbare]
      rfl
    rw [← hVlen] at hal
    rw [makeInternalNodeGroup]
    simp only [← hVlen, hal, bind_ok, hs, hs', htops, hkeys]
    rfl
  · constructor
    · have : (tops (U :: ups) L).length = U.length := by simp [tops]
      rw [this]
      exact hForest
    · rw [hheads, ← hV, ← hbare]
      simp [tops, Function.comp_def]
    · omega
    · have hz : List.zipWith (fun f (x : ℕ × List T × ℕ) => f :: x.2.1) (heads pieces) (flat U)
          = pieces := by
        rw [hflat]
        exact zipWith_heads _ _ hplen' (by omega) hpne
      have : spell (heads pieces) (U :: ups) = spell F ups := by
        rw [spell, hz, hpflat]
      rw [this, hB.firsts]
    · simp [hB.depth]
    · exact hB.header
    · exact hB.tailer
  · have hmul : q ≤ q * (maxKeys T + 1) := Nat.le_mul_of_pos_right q (by omega)
    have hba : 2 ≤ b := by
      refine two_le_of_mem_levelSizes (T := T) hB.two_le b ?_
      rw [← hB.sizes, hus]
      simp
    omega

/-- **All levels**: the loop ends with a level whose keys fit one node. -/
theorem makeLevels_spec : ∀ {fuel : ℕ} {t : CSBPlusTree T} {F : List T}
    {ups : List (InternalView T)}, Building t F ups L → F.length ≤ fuel →
    ∃ t' F' ups', makeLevels fuel t (tops ups L).length ((tops ups L).map (·.1)) F.tail
        = .ok (t', (tops ups' L).map (·.1), F'.tail) ∧
      Building t' F' ups' L ∧ F'.length ≤ maxKeys T + 1 ∧
      ups'.length + F'.length ≤ ups.length + F.length
  | 0, _, _, _, hB, hle => absurd hB.two_le (by omega)
  | fuel + 1, t, F, ups, hB, hle => by
    have h2 := hB.two_le
    rw [makeLevels, length_tail]
    by_cases hF : maxKeys T + 1 < F.length
    · obtain ⟨t', U, F', hs, hB', hlt, hF'⟩ := makeInternalNodeGroup_spec hB hF
      obtain ⟨t'', F'', ups', hs', hB'', hle', hups⟩ :=
        makeLevels_spec hB' (show F'.length ≤ fuel by omega)
      refine ⟨t'', F'', ups', ?_, hB'', hle', by rw [length_cons] at hups; omega⟩
      rw [if_pos (by omega)]
      simp only [hs, bind_ok]
      rw [← hF', ← hB'.length_tops, hs']
    · exact ⟨t, F, ups, by rw [if_neg (by omega)], hB, by omega, le_rfl⟩

theorem fillRoot_spec {root : ℕ} (hnode : h.node root = some (CCSBNode.newInternal T))
    {keys : List T} (hkeys : keys.length ≤ maxKeys T) :
    fillRoot keys (some root) h = .ok (h.setNode root (internalNode none keys none)) := by
  have hfill : fillKeys keys (some root) keys.length ⟨h, 0, []⟩ = .ok _ :=
    fillKeys_eq (u := 0) (f := none) (by rw [hnode]; rfl) (by omega) hkeys
  rw [fillRoot, hfill, bind_ok, drop_zero, take_length]
  simp only
  rw [setUsed_eq (n := ⟨0, none, (internalNode none keys none).body⟩) (by simp), bind_ok,
    Heap.setNode_setNode]
  have hused : (⟨0, none, (internalNode none keys none).body⟩ : CCSBNode T).setUsedKeys keys.length
      = internalNode none keys none := by
    simp [CCSBNode.setUsedKeys, internalNode, hkeys]
  rw [hused, setFather_eq (n := internalNode none keys none) (by simp), Heap.setNode_setNode,
    setFather_internalNode]

/-- **The root** over the only group of the topmost level. -/
theorem makeRoot_spec (hB : Building t F ups L) (hF : F.length ≤ maxKeys T + 1) :
    ∃ t' U, makeRoot t F.tail ((tops ups L).map (·.1)) = .ok t' ∧ Represents t' (U :: ups) L := by
  have h2 := hB.two_le
  have hceil : F.length ⌈/⌉ (maxKeys T + 1) = 0 + 1 :=
    Pieces.ceilDiv_eq_of_eq (r := F.length) (by omega) (by omega) hF
  have hsizes : (tops ups L).map (·.2.length) = [F.length] := by
    rw [hB.sizes, levelSizes, Pieces.balancedSizes, if_pos (by omega)]
  obtain ⟨⟨g, ns⟩, htops⟩ : ∃ G, tops ups L = [G] :=
    List.length_eq_one_iff.mp (by simpa using congrArg List.length hsizes)
  -- the new node
  set h := t.heap.newInternalNodeGroup 1 with hh
  set V : List (ℕ × List ℕ) := [(t.heap.nextGroup, [t.heap.nextNode])] with hV
  have hA : Allocated (CCSBNode.newInternal T) .internal t.heap h V := by
    have := (Allocated.refl (CCSBNode.newInternal T) .internal t.heap).snoc (n := 1) (by omega)
    simpa [Heap.freshNodes, hh, Heap.newInternalNodeGroup] using this
  have hptrs : V.flatMap (·.2) = [t.heap.nextNode] := rfl
  set root := t.heap.nextNode with hroot
  have hgroup := hA.group (t.heap.nextGroup, [root]) (by simp [hV])
  have hnode : h.node root = some (CCSBNode.newInternal T) := hA.node root (by simp [hV])
  set h₁ := h.setNode root (internalNode none F.tail none) with hh₁
  have hfill := fillRoot_spec hnode (show F.tail.length ≤ maxKeys T by rw [length_tail]; omega)
  -- it adopts the group below
  have hnotold : root ∉ nodePtrs ups L := fun hp =>
    absurd (hB.forest.nodes_lt root hp) (by omega)
  have hAd₀ : Adopted (V.flatMap (·.2)) [F] ups L h₁ h₁ 0 := by
    refine ⟨?_, ?_, fun _ _ _ => rfl, rfl, rfl, rfl⟩
    · have hH := hB.forest.holds
      rw [htops] at hH
      refine hH.frame (fun p hp => ?_) fun g hg => ?_
      · have hpr : p ≠ root := fun h => hnotold (h ▸ hp)
        simp [hh₁, hpr, hA.old_node p (hB.forest.nodes_lt p hp)]
      · simp [hh₁, hA.old_group g (hB.forest.groups_lt g hg)]
    · intro j p piece g hp hpiece _
      obtain ⟨rfl, rfl⟩ : j = 0 ∧ root = p := by
        rcases j with _ | j <;> simp_all
      obtain rfl : F = piece := by simpa using hpiece
      simp [hh₁]
  obtain ⟨h', hs', hAd⟩ := hAd₀.adopt hA.nodup_nodes hB.forest.nodup_nodes (by simpa [hV] using hnotold)
    (show (V.flatMap (·.2))[0]? = some root from rfl) (show [F][0]? = some F from rfl)
    (show (tops ups L)[0]? = some (g, ns) by rw [htops]; rfl)
  have hFne : ∀ piece ∈ [F], piece ≠ [] := by
    intro piece hp h0
    rw [List.mem_singleton.mp hp] at h0
    rw [h0, length_nil] at h2
    omega
  obtain ⟨U, hbare, hflat, hForest⟩ := hAd.level hB.forest hA
    (show h₁.group = h.group from rfl) rfl rfl rfl
    (by simpa using hsizes.symm) hFne (by simpa using hF)
  have hU : U.length = 1 := by simpa [hV] using congrArg List.length hbare
  rw [hU] at hForest
  refine ⟨⟨h', t.leafHeader, t.leafTailer, some root, t.csbDepth + 1⟩, U, ?_, hForest,
    ⟨_, root, hbare, rfl⟩, ?_, hB.header, hB.tailer, ?_⟩
  · rw [makeRoot]
    simp only [← hh, htops]
    rw [Heap.getNode_eq hgroup (show [root][0]? = some root from rfl), bind_ok, hfill,
      bind_ok, Run.index_eq_ok rfl, bind_ok, hs', bind_ok]
    rfl
  · simp [hB.depth]
  · -- the first keys below the root are `F`
    have hz := zipWith_heads (tops ups L) (V.flatMap (·.2)) (by simp [htops]) rfl hFne
    rw [← hflat] at hz
    have hF0 : F.head?.toList = [F.head (hFne F (by simp))] := by
      rw [head?_eq_some_head (hFne F (by simp))]
      rfl
    simp only [heads, flatMap_cons, flatMap_nil, append_nil, hF0] at hz
    refine ⟨F.head (hFne F (by simp)), ?_⟩
    rw [spell, hz, flatten_singleton, hB.firsts]

/-! ### The whole function -/

theorem represents_single {g p : ℕ} {ds : List (DataOffset T)}
    (hg : h.group g = some ⟨1, [p], .leaf none none⟩) (hp : h.node p = some (leafNode none ds))
    (hglt : g < h.nextGroup) (hplt : p < h.nextNode) (h0 : ds ≠ []) (hle : ds.length ≤ maxDatas T) :
    Represents ⟨h, some g, some g, some p, 1⟩ [] [⟨g, [(p, ds)]⟩] := by
  refine ⟨⟨⟨.cons ?_ .nil, hg, trivial⟩, trivial, ?_, ?_, ?_, ?_, ?_, ?_⟩, ⟨g, p, rfl, rfl⟩, rfl,
    rfl, rfl, ?_⟩
  · intro x hx
    rw [List.mem_singleton.mp hx, hp]
  · simp [nodePtrs]
  · simp [groupPtrs]
  · simpa [nodePtrs] using hplt
  · simpa [groupPtrs] using hglt
  · simpa [flat] using hle
  · simp
  · obtain ⟨d, ds, rfl⟩ := exists_cons_of_ne_nil h0
    exact ⟨d.key, by simp [spell, leafFirsts, flat]⟩

theorem bulkLoad_one (h0 : aray ≠ []) (hle : aray.length ≤ maxDatas T) :
    ∃ t L, bulkLoad (CSBPlusTree.new T) aray = .ok t ∧ Represents t [] L ∧ entries L = aray := by
  have hpos : 0 < aray.length := length_pos_of_ne_nil h0
  set h := (Heap.empty T).newLeafNodeGroup 1 with hh
  have hA : Allocated (CCSBNode.newLeaf T) (.leaf none none) (Heap.empty T) h [(0, [0])] := by
    have := (Allocated.refl (CCSBNode.newLeaf T) (.leaf none none) (Heap.empty T)).snoc (n := 1)
      (by omega)
    simpa [Heap.freshNodes, hh, Heap.newLeafNodeGroup, Heap.empty] using this
  have hgroup : h.group 0 = some ⟨1, [0], .leaf none none⟩ := hA.group (0, [0]) (by simp)
  have hnode : h.node 0 = some (CCSBNode.newLeaf T) := hA.node 0 (by simp)
  set h₁ := h.setNode 0 (leafNode none aray) with hh₁
  have hfill : fillDatas aray 0 (fun k _ => k) (fun _ => false) (some 0) aray.length ⟨h, 0, []⟩
      = .ok _ := fillDatas_eq (u := 0) (f := none) (by rw [hnode]; rfl) (by omega) hle
        (fun _ _ => rfl) (by simp)
  have hused : (⟨0, none, (leafNode none aray).body⟩ : CCSBNode T).setUsedKeys aray.length
      = leafNode none aray := by
    simp [CCSBNode.setUsedKeys, leafNode, hle]
  have hgroup₁ : h₁.group 0 = some ⟨1, [0], .leaf none none⟩ := hgroup
  have hset : h₁.setGroup 0 ⟨1, [0], .leaf none none⟩ = h₁ := by
    rw [Heap.setGroup, ← hgroup₁, Function.update_eq_self]
  refine ⟨⟨h₁, some 0, some 0, some 0, 1⟩, [⟨0, [(0, aray)]⟩], ?_, ?_, by simp [entries]⟩
  · rw [bulkLoad, if_neg (by omega), if_pos hle]
    simp only [CSBPlusTree.new, ← hh, show (Heap.empty T).nextGroup = 0 from rfl]
    rw [Heap.getNode_eq hgroup (show [0][0]? = some 0 from rfl), bind_ok, hfill, bind_ok]
    simp only [drop_zero, take_length]
    rw [setUsed_eq (n := ⟨0, none, (leafNode none aray).body⟩) (by simp), bind_ok,
      Heap.setNode_setNode, hused, setFather_eq (n := leafNode none aray) (by simp), bind_ok,
      Heap.setNode_setNode, setFather_leafNode, ← hh₁]
    rw [Heap.setHeaderNG_eq hgroup₁, bind_ok, hset, Heap.setTailerNG_eq hgroup₁, bind_ok,
      hset]
    rfl
  · refine represents_single hgroup₁ (by simp [hh₁]) ?_ ?_ h0 hle
    · simp [hh₁, hh, Heap.newLeafNodeGroup, Heap.newGroup]
    · simp [hh₁, hh, Heap.newLeafNodeGroup, Heap.newGroup]

theorem bulkLoad_more (hlt : maxDatas T < aray.length) :
    ∃ t ups L, bulkLoad (CSBPlusTree.new T) aray = .ok t ∧ Represents t ups L ∧
      entries L = aray ∧ ups.length < aray.length := by
  have hD := two_le_maxDatas T
  obtain ⟨t₁, L, hs₁, hForest, hpieces, hsizes, hhd, htl, hdepth⟩ :=
    makeLeafNodeGroup_spec (CSBPlusTree.new T) hlt
  set N := aray.length ⌈/⌉ maxDatas T with hN
  set cs := Pieces.balancedSizes (maxDatas T) (maxDatas T / 2) aray.length with hcs
  have hsum : cs.sum = aray.length := Pieces.sum_balancedSizes (by omega) (by omega)
  have hne : ∀ ds ∈ (flat L).map (·.2), ds ≠ [] := by
    rw [hpieces]
    exact splitLengths_ne_nil
      (Pieces.pos_of_mem_balancedSizes (by omega) (by omega) (Nat.div_le_self _ 2)) hsum.le
  have hfirsts := map_some_firsts hne
  set F := firsts ((flat L).map (·.2)) with hF
  have hFlen : F.length = N := by
    have := congrArg List.length hfirsts
    rw [hpieces, length_map, length_map, length_splitLengths,
      Pieces.length_balancedSizes (by omega) (by omega)] at this
    exact this
  have hN2 : 2 ≤ N ∧ N ≤ aray.length := by
    obtain ⟨q, r, hq, hn, h1, h2⟩ :=
      Pieces.exists_ceilDiv (show 0 < maxDatas T by omega) (show 0 < aray.length by omega)
    have hmul : q ≤ q * maxDatas T := Nat.le_mul_of_pos_right q (by omega)
    rcases q with _ | q <;> omega
  have hB : Building t₁ F [] L := by
    refine ⟨by simpa [tops] using hForest, ?_, by omega, ?_, by simpa [CSBPlusTree.new] using hdepth,
      hhd, htl⟩
    · rw [hFlen, levelSizes, ← hsizes]
      simp [tops, Function.comp_def, GroupView.bare]
    · rw [spell, hfirsts, leafFirsts, map_map]
      rfl
  obtain ⟨t₂, F', ups, hs₂, hB₂, hle, hups⟩ :=
    makeLevels_spec hB (show F.length ≤ aray.length by omega)
  obtain ⟨t, U, hs, hR⟩ := makeRoot_spec hB₂ hle
  refine ⟨t, U :: ups, L, ?_, hR, ?_, ?_⟩
  · have htops : (tops [] L).map (·.1) = L.map (·.ptr) := by
      simp [tops, Function.comp_def, GroupView.bare]
    have hlen : (tops [] L).length = N ⌈/⌉ (maxKeys T + 1) := by rw [hB.length_tops, hFlen]
    rw [hlen, htops] at hs₂
    rw [bulkLoad, if_neg (by omega), if_neg (by omega)]
    simp only [← hN, hs₁, bind_ok, hs₂, hs]
  · rw [entries, flatMap_def, hpieces, flatten_splitLengths _ _ hsum.ge]
  · have := hB₂.two_le
    rw [length_nil] at hups
    rw [length_cons]
    omega

/-- **`BulkLoad`** returns for every array, and the leaves of its tree spell the array. -/
theorem bulkLoad_represents (h0 : aray ≠ []) :
    ∃ t ups L, bulkLoad (CSBPlusTree.new T) aray = .ok t ∧ Represents t ups L ∧
      entries L = aray ∧ ups.length < aray.length := by
  rcases Nat.lt_or_ge (maxDatas T) aray.length with hlt | hge
  · exact bulkLoad_more hlt
  · obtain ⟨t, L, hs, hR, hE⟩ := bulkLoad_one h0 hge
    exact ⟨t, [], L, hs, hR, hE, length_pos_of_ne_nil h0⟩

end CSB
