/-
A level of internal nodes over the groups of the level below.
-/
import ClaimsDB.CSBInternalFill
import ClaimsDB.CSBLeafLevel

namespace CSB

open List

variable {T : Type} [IndexKey T]

/-! ### Fathers and children -/

variable {h : Heap T} {p : ℕ} {ns : List ℕ} {b : GroupBody} {f : Option NodePtr} {α β : Type}
  {R : α → β → Prop} {as : List α} {bs : List β} {k : ℕ} {h' : Heap T}
  {fs : List (Option NodePtr)} {ups : List (InternalView T)} {L : LeafView T} {g : ℕ × List ℕ}
  {pieces : List (List T)} {V : List (ℕ × List ℕ)}

theorem adopt_spec {l : ℕ} {ks : List T} {c : Option GroupPtr}
    (hp : h.node p = some (internalNode f ks c)) (hl : h.group l = some ⟨ns.length, ns, b⟩)
    (hns : ∀ q ∈ ns, ∃ n, h.node q = some n) (hpn : p ∉ ns) (hnd : ns.Nodup) :
    ∃ h', adopt h (some p) l = .ok h' ∧
      h'.node p = some (internalNode f ks (some l)) ∧
      (∀ q ∈ ns, h'.node q = (h.node q).map (·.setFather (some p))) ∧
      (∀ q, q ≠ p → q ∉ ns → h'.node q = h.node q) ∧
      h'.group = h.group ∧ h'.nextNode = h.nextNode ∧ h'.nextGroup = h.nextGroup := by
  set h₁ := h.setNode p (internalNode f ks (some l)) with hh₁
  have hset : h.modifyNode (some p) (·.setPointer (some l)) = .ok h₁ :=
    Heap.modifyNode_eq hp rfl
  obtain ⟨h', hs', hdone, hrest, hg, hN, hG⟩ := Run.foldlM_range_inv (n := ns.length) (s := h₁)
    (f := fun h k => do
      let c ← h.getNode (some l) k
      setFather h c (some p))
    (I := fun k h' => (∀ q ∈ ns.take k, h'.node q = (h₁.node q).map (·.setFather (some p))) ∧
      (∀ q, q ∉ ns.take k → h'.node q = h₁.node q) ∧ h'.group = h₁.group ∧
      h'.nextNode = h₁.nextNode ∧ h'.nextGroup = h₁.nextGroup) ⟨by simp, by simp, rfl, rfl, rfl⟩ (by
    rintro k h' hk ⟨hdone, hrest, hg, hN, hG⟩
    obtain ⟨q, hq⟩ : ∃ q, ns[k]? = some q := ⟨_, getElem?_eq_getElem hk⟩
    have hqk : q ∉ ns.take k := not_mem_take_of_nodup hnd hq
    have hqp : q ≠ p := fun h => hpn (h ▸ mem_of_getElem? hq)
    obtain ⟨n, hn⟩ := hns q (mem_of_getElem? hq)
    have hn₁ : h₁.node q = some n := by simp [hh₁, hqp, hn]
    refine ⟨h'.setNode q (n.setFather (some p)), ?_, ?_, ?_, hg, hN, hG⟩
    · rw [Heap.getNode_eq (by rw [hg]; exact hl) hq, Run.bind_ok,
        setFather_eq (by rw [hrest q hqk, hn₁])]
    · intro r hr
      rw [take_add_one, hq, mem_append] at hr
      rcases hr with hr | hr
      · have hrq : r ≠ q := fun h => hqk (h ▸ hr)
        simp [hrq, hdone r hr]
      · obtain rfl : r = q := by simpa using hr
        simp [hn₁]
    · intro r hr
      rw [take_add_one, hq, mem_append, not_or] at hr
      have hrq : r ≠ q := by simpa using hr.2
      simp [hrq, hrest r hr.1])
  rw [take_length] at hdone hrest
  refine ⟨h', ?_, ?_, ?_, ?_, hg, hN, hG⟩
  · rw [adopt, hset, Run.bind_ok, Heap.readGroup_eq (by exact hl), Run.bind_ok, hs']
  · rw [hrest p hpn]
    simp [hh₁]
  · intro q hq
    have hqp : q ≠ p := fun h => hpn (h ▸ hq)
    rw [hdone q hq]
    simp [hh₁, hqp]
  · intro q hqp hq
    rw [hrest q hq]
    simp [hh₁, hqp]

@[simp] theorem setFather_leafNode (f f' : Option NodePtr) (ds : List (DataOffset T)) :
    (leafNode f ds).setFather f' = leafNode f' ds := rfl

@[simp] theorem setFather_internalNode (f f' : Option NodePtr) (ks : List T)
    (c : Option GroupPtr) :
    (internalNode f ks c).setFather f' = internalNode f' ks c := rfl

theorem forall₂_set {R' : α → β → Prop} {a : α} (hR : List.Forall₂ R as bs)
    (hkeep : ∀ i x y, i ≠ k → bs[i]? = some y → R x y → R' x y)
    (hset : ∀ x y, bs[k]? = some y → R x y → R' a y) : List.Forall₂ R' (as.set k a) bs := by
  rw [forall₂_iff_get] at hR ⊢
  refine ⟨by simpa using hR.1, fun i h₁ h₂ => ?_⟩
  have hi : i < as.length := by simpa using h₁
  have hold := hR.2 i hi h₂
  have hget : bs[i]? = some (bs.get ⟨i, h₂⟩) := getElem?_eq_getElem h₂
  by_cases hik : i = k
  · subst hik
    simpa using hset _ _ hget hold
  · have := hkeep i _ _ hik hget hold
    simpa [getElem_set, Ne.symm hik] using this

theorem nodes_disjoint {V : List (GroupView β)} (hnd : ((flat V).map (·.1)).Nodup) {i : ℕ}
    {G G' : GroupView β} (hi : V[i]? = some G) (hk : V[k]? = some G') (hik : i ≠ k) :
    ∀ x ∈ G.nodes, x.1 ∉ G'.nodes.map (·.1) := by
  have hflat : (flat V).map (·.1) = V.flatMap fun G => G.nodes.map (·.1) := by
    simp [flat, map_flatMap]
  rw [hflat, nodup_flatMap] at hnd
  have hpair := hnd.2
  intro x hx hx'
  have hxG : x.1 ∈ G.nodes.map (·.1) := mem_map_of_mem hx
  rw [pairwise_iff_getElem] at hpair
  obtain ⟨hil, rfl⟩ := List.getElem?_eq_some_iff.mp hi
  obtain ⟨hkl, rfl⟩ := List.getElem?_eq_some_iff.mp hk
  rcases Nat.lt_or_gt_of_ne hik with h | h
  · exact hpair i k hil hkl h hxG hx'
  · exact hpair k i hkl hil h hx' hxG

theorem Holds.setFather (hH : Holds h fs ups L) (hnd : (nodePtrs ups L).Nodup) {g : ℕ}
    (hk : (tops ups L)[k]? = some (g, ns)) (f : Option NodePtr)
    (hchange : ∀ p ∈ ns, h'.node p = (h.node p).map (·.setFather f))
    (hother : ∀ p ∈ nodePtrs ups L, p ∉ ns → h'.node p = h.node p)
    (hgroup : ∀ g ∈ groupPtrs ups L, h'.group g = h.group g) : Holds h' (fs.set k f) ups L := by
  cases ups with
  | nil =>
    obtain ⟨hN, hC⟩ := hH
    have hnd' : ((flat L).map (·.1)).Nodup := by simpa [nodePtrs] using hnd
    obtain ⟨G, hG, hbare⟩ : ∃ G, L[k]? = some G ∧ G.bare = (g, ns) := by
      simpa [tops] using hk
    obtain rfl : G.nodes.map (·.1) = ns := congrArg Prod.snd hbare
    refine ⟨forall₂_set hN ?_ ?_, hC.frame fun G hG => hgroup _ ?_⟩
    · intro i x y hik hy hx z hz
      rw [hother z.1 ?_ (nodes_disjoint hnd' hy hG hik z hz), hx z hz]
      simp only [nodePtrs, flatMap_nil, nil_append]
      exact mem_map_of_mem (List.mem_flatMap.mpr ⟨y, mem_of_getElem? hy, hz⟩)
    · intro x y hy hx z hz
      obtain rfl : G = y := Option.mem_unique hG hy
      rw [hchange z.1 (mem_map_of_mem hz), hx z hz]
      rfl
    · simpa [groupPtrs] using ⟨G, hG, rfl⟩
  | cons U ups =>
    obtain ⟨hU, hrest⟩ := hH
    have hnd' : ((flat U).map (·.1)).Nodup := by
      rw [nodePtrs, flatMap_cons, append_assoc] at hnd
      exact hnd.of_append_left
    obtain ⟨G, hG, hbare⟩ : ∃ G, U[k]? = some G ∧ G.bare = (g, ns) := by
      simpa [tops] using hk
    obtain rfl : G.nodes.map (·.1) = ns := congrArg Prod.snd hbare
    have hgU : ∀ y ∈ U, h'.group y.ptr = h.group y.ptr := fun y hy => hgroup _ (by
      simp only [groupPtrs, flatMap_cons, mem_append, mem_map]
      exact .inl (.inl ⟨y, hy, rfl⟩))
    refine ⟨forall₂_set hU ?_ ?_, hrest.frame (fun p hp => hother p ?_ ?_) fun g hg => hgroup g ?_⟩
    · rintro i x y hik hy ⟨hx₁, hx₂⟩
      refine ⟨by rw [hgU y (mem_of_getElem? hy), hx₁], fun z hz => ?_⟩
      rw [hother z.1 ?_ (nodes_disjoint hnd' hy hG hik z hz), hx₂ z hz]
      simp only [nodePtrs, flatMap_cons, mem_append]
      exact .inl (.inl (mem_map_of_mem (List.mem_flatMap.mpr ⟨y, mem_of_getElem? hy, hz⟩)))
    · rintro x y hy ⟨hx₁, hx₂⟩
      obtain rfl : G = y := Option.mem_unique hG hy
      refine ⟨by rw [hgU G (mem_of_getElem? hy), hx₁], fun z hz => ?_⟩
      rw [hchange z.1 (mem_map_of_mem hz), hx₂ z hz]
      rfl
    · simp only [nodePtrs, flatMap_cons, mem_append] at hp ⊢
      tauto
    · -- nodes of the levels below are not among the nodes of `G`
      intro hmem
      rw [nodePtrs, flatMap_cons, append_assoc, nodup_append'] at hnd
      refine hnd.2.2 ?_ hp
      obtain ⟨z, hz, rfl⟩ := List.mem_map.mp hmem
      exact mem_map_of_mem (List.mem_flatMap.mpr ⟨G, mem_of_getElem? hG, hz⟩)
    · simp only [groupPtrs, flatMap_cons, mem_append] at hg ⊢
      tauto

omit [IndexKey T] in
theorem LeafChain.group_of_mem {next : Option GroupPtr} :
    ∀ {prev : Option GroupPtr} {L : LeafView T}, LeafChain h prev L next → ∀ G ∈ L,
      ∃ hd tl, h.group G.ptr = some ⟨G.nodes.length, G.nodes.map (·.1), .leaf hd tl⟩
  | _, [], _, _, hG => absurd hG (by simp)
  | _, G' :: L, ⟨hG', hL⟩, G, hG => by
    rcases List.mem_cons.mp hG with rfl | hG
    · exact ⟨_, _, hG'⟩
    · exact hL.group_of_mem G hG

theorem forall₂_of_mem_right (hR : List.Forall₂ R as bs) {b : β} (hb : b ∈ bs) :
    ∃ a ∈ as, R a b := by
  induction hR with
  | nil => cases hb
  | cons hab _ ih =>
    rcases List.mem_cons.mp hb with rfl | hb
    · exact ⟨_, by simp, hab⟩
    · obtain ⟨a, ha, h⟩ := ih hb
      exact ⟨a, by simp [ha], h⟩

theorem Holds.top (hH : Holds h fs ups L) {g : ℕ} (hk : (g, ns) ∈ tops ups L) :
    (∃ b, h.group g = some ⟨ns.length, ns, b⟩) ∧ ∀ q ∈ ns, ∃ n, h.node q = some n := by
  cases ups with
  | nil =>
    obtain ⟨G, hG, hbare⟩ := List.mem_map.mp hk
    obtain ⟨rfl, rfl⟩ : G.ptr = g ∧ G.nodes.map (·.1) = ns := Prod.ext_iff.mp hbare
    obtain ⟨hd, tl, hgrp⟩ := hH.2.group_of_mem G hG
    obtain ⟨f, -, hx⟩ := forall₂_of_mem_right hH.1 hG
    refine ⟨⟨_, by simpa using hgrp⟩, fun q hq => ?_⟩
    obtain ⟨x, hxG, rfl⟩ := List.mem_map.mp hq
    exact ⟨_, hx x hxG⟩
  | cons U ups =>
    obtain ⟨G, hG, hbare⟩ := List.mem_map.mp hk
    obtain ⟨rfl, rfl⟩ : G.ptr = g ∧ G.nodes.map (·.1) = ns := Prod.ext_iff.mp hbare
    obtain ⟨f, -, hgrp, hx⟩ := forall₂_of_mem_right hH.1 hG
    refine ⟨⟨_, by simpa using hgrp⟩, fun q hq => ?_⟩
    obtain ⟨x, hxG, rfl⟩ := List.mem_map.mp hq
    exact ⟨_, hx x hxG⟩

omit [IndexKey T] in
theorem tops_sublist (ups : List (InternalView T)) (L : LeafView T) :
    ((tops ups L).flatMap (·.2)).Sublist (nodePtrs ups L) := by
  cases ups with
  | nil =>
    simp only [tops, nodePtrs, flat, flatMap_nil, nil_append, map_flatMap,
      flatMap_map]
    exact List.Sublist.refl _
  | cons U ups =>
    have : (tops (U :: ups) L).flatMap (·.2) = (flat U).map (·.1) := by
      simp only [tops, flat, map_flatMap, flatMap_map]
      rfl
    rw [this, nodePtrs, flatMap_cons, append_assoc]
    exact sublist_append_left _ _

omit [IndexKey T] in
theorem mem_groupPtrs_of_tops (hg : g ∈ tops ups L) : g.1 ∈ groupPtrs ups L := by
  cases ups with
  | nil =>
    obtain ⟨G, hG, rfl⟩ := List.mem_map.mp hg
    simpa [groupPtrs] using ⟨G, hG, rfl⟩
  | cons U ups =>
    obtain ⟨G, hG, rfl⟩ := List.mem_map.mp hg
    simp only [groupPtrs, flatMap_cons, mem_append, mem_map]
    exact .inl (.inl ⟨G, hG, rfl⟩)

/-- The first `k` nodes of the new level have become fathers. -/
structure Adopted (ptrs : List ℕ) (pieces : List (List T)) (ups : List (InternalView T))
    (L : LeafView T) (h h' : Heap T) (k : ℕ) : Prop where
  holds : Holds h' ((ptrs.take k).map some ++ List.replicate (ptrs.length - k) none) ups L
  new : ∀ j p piece g, ptrs[j]? = some p → pieces[j]? = some piece →
    (tops ups L)[j]? = some g →
    h'.node p = some (internalNode none piece.tail (if j < k then some g.1 else none))
  others : ∀ p, p ∉ ptrs → p ∉ nodePtrs ups L → h'.node p = h.node p
  group : h'.group = h.group
  nextNode : h'.nextNode = h.nextNode
  nextGroup : h'.nextGroup = h.nextGroup

theorem Adopted.adopt {ptrs : List ℕ} (hA : Adopted ptrs pieces ups L h h' k) (hnd : ptrs.Nodup)
    (hnd' : (nodePtrs ups L).Nodup) (hnew : ∀ p ∈ ptrs, p ∉ nodePtrs ups L) {piece : List T}
    (hp : ptrs[k]? = some p) (hpiece : pieces[k]? = some piece) (hg : (tops ups L)[k]? = some g) :
    ∃ h'', CSB.adopt h' (some p) g.1 = .ok h'' ∧ Adopted ptrs pieces ups L h h'' (k + 1) := by
  obtain ⟨g, ns⟩ := g
  have hmem := mem_of_getElem? hg
  obtain ⟨⟨b, hgrp⟩, hnodes⟩ := hA.holds.top hmem
  have hsub : ∀ q ∈ ns, q ∈ nodePtrs ups L := fun q hq =>
    (tops_sublist ups L).subset (List.mem_flatMap.mpr ⟨_, hmem, hq⟩)
  have hpold : p ∉ nodePtrs ups L := hnew p (mem_of_getElem? hp)
  have hns : ns.Nodup := (List.nodup_flatMap.mp (hnd'.sublist (tops_sublist ups L))).1 _ hmem
  have hnode := hA.new k p piece (g, ns) hp hpiece hg
  obtain ⟨h'', hs, hpn, hch, hoth, hgr, hN, hG⟩ :=
    adopt_spec hnode hgrp hnodes (fun h => hpold (hsub p h)) hns
  have hklt : k < ptrs.length := (List.getElem?_eq_some_iff.mp hp).choose
  refine ⟨h'', hs, ?_, ?_, ?_, by rw [hgr, hA.group], by rw [hN, hA.nextNode],
    by rw [hG, hA.nextGroup]⟩
  · have hset := hA.holds.setFather hnd' hg (some p) hch
      (fun q hq hqn => hoth q (fun h => hpold (h ▸ hq)) hqn) (fun g _ => by rw [hgr])
    have hfs : ((ptrs.take k).map some ++ List.replicate (ptrs.length - k) none).set k (some p)
        = (ptrs.take (k + 1)).map some ++ List.replicate (ptrs.length - (k + 1)) none := by
      have hlen : ((ptrs.take k).map some).length = k := by
        rw [length_map, length_take]
        omega
      rw [set_append_right _ _ (by omega), hlen, Nat.sub_self,
        show ptrs.length - k = ptrs.length - (k + 1) + 1 by omega, replicate_succ,
        set_cons_zero, take_add_one, hp]
      simp
    rwa [hfs] at hset
  · intro j q piece' g' hq hpiece' hg'
    have hqold : q ∉ ns := fun h => hnew q (mem_of_getElem? hq) (hsub q h)
    by_cases hjk : j = k
    · subst hjk
      obtain rfl : p = q := Option.mem_unique hp hq
      obtain rfl : piece = piece' := Option.mem_unique hpiece hpiece'
      obtain rfl : (g, ns) = g' := Option.mem_unique hg hg'
      rw [hpn, if_pos (by omega)]
    · have hqp : q ≠ p := by
        rintro rfl
        obtain ⟨hjl, hjq⟩ := List.getElem?_eq_some_iff.mp hq
        obtain ⟨hkl, hkq⟩ := List.getElem?_eq_some_iff.mp hp
        exact hjk (hnd.getElem_inj_iff.mp (hjq.trans hkq.symm))
      rw [hoth q hqp hqold, hA.new j q piece' g' hq hpiece' hg']
      simp only [Nat.lt_succ_iff, Nat.le_iff_lt_or_eq, hjk, or_false]
  · intro q hq hqold
    rw [hoth q (fun h => hq (h ▸ mem_of_getElem? hp)) (fun h => hqold (hsub q h)),
      hA.others q hq hqold]

theorem adoptGroups_spec (hV : ∀ G ∈ V, h.group G.1 = some ⟨G.2.length, G.2, b⟩)
    (hA : Adopted (V.flatMap (·.2)) pieces ups L h h 0) (hnd : (V.flatMap (·.2)).Nodup)
    (hnd' : (nodePtrs ups L).Nodup) (hnew : ∀ p ∈ V.flatMap (·.2), p ∉ nodePtrs ups L)
    (hlen : pieces.length = (V.flatMap (·.2)).length)
    (hlen' : (tops ups L).length = (V.flatMap (·.2)).length) :
    ∃ s, adoptGroups (V.map (·.1)) ((tops ups L).map (·.1)) V.length h = .ok s ∧
      Adopted (V.flatMap (·.2)) pieces ups L h s.heap (V.flatMap (·.2)).length := by
  have key := forGroups (s := (⟨h, 0, []⟩ : Deal T)) (W := V) (X := [])
    (P := fun ps s => s.i = ps.length ∧
      Adopted (V.flatMap (·.2)) pieces ups L h s.heap ps.length)
    (fun _ _ hP => hP.2.group) hV ⟨rfl, hA⟩
    (fun node s => do
      let l ← Run.index ((tops ups L).map (·.1)) s.i
      let h ← CSB.adopt s.heap node l
      pure { s with heap := h, i := s.i + 1 }) (by
    rintro pre p post s hsplit ⟨hi, hA⟩
    have hlt : pre.length < (V.flatMap (·.2)).length := by
      rw [hsplit, length_append, length_cons]
      omega
    have hp : (V.flatMap (·.2))[pre.length]? = some p := by simp [hsplit]
    obtain ⟨piece, hpiece⟩ : ∃ x, pieces[pre.length]? = some x :=
      ⟨_, getElem?_eq_getElem (by omega)⟩
    obtain ⟨g, hg⟩ : ∃ x, (tops ups L)[pre.length]? = some x :=
      ⟨_, getElem?_eq_getElem (by omega)⟩
    obtain ⟨h'', hs, hA'⟩ := hA.adopt hnd hnd' hnew hp hpiece hg
    refine ⟨⟨h'', s.i + 1, s.keys⟩, ?_, by simp [hi], by simpa using hA'⟩
    rw [hi, Run.index_eq_ok (show ((tops ups L).map (·.1))[pre.length]? = some g.1 by simp [hg]),
      Run.bind_ok, hs, Run.bind_ok]
    rfl)
  obtain ⟨s, hs, -, hA'⟩ := key
  exact ⟨s, by simpa [adoptGroups] using hs, hA'⟩

/-! ### The level in the picture -/

theorem internalNodes_replicate : ∀ {U : InternalView T},
    (∀ G ∈ U, h.group G.ptr = some ⟨G.nodes.length, G.nodes.map (·.1), .internal⟩) →
    (∀ x ∈ flat U, h.node x.1 = some (internalNode f x.2.1 (some x.2.2))) →
      InternalNodes h (List.replicate U.length f) U
  | [], _, _ => .nil
  | G :: U, hg, hx => .cons ⟨hg G (by simp), fun x hG => hx x (by simp [hG])⟩
      (internalNodes_replicate (fun G' hG' => hg G' (by simp [hG'])) fun x hU => hx x (by simp [hU]))

def contents (pieces : List (List T)) (lows : List (ℕ × List ℕ)) : List (List T × ℕ) :=
  (pieces.map List.tail).zip (lows.map (·.1))

omit [IndexKey T] in
theorem contents_linked : ∀ {pieces : List (List T)} {lows : List (ℕ × List ℕ)},
    pieces.map List.length = lows.map (·.2.length) → (∀ piece ∈ pieces, piece ≠ []) →
    (contents pieces lows).map (fun c => (c.2, c.1.length + 1))
      = lows.map fun g => (g.1, g.2.length)
  | [], [], _, _ => rfl
  | [], _ :: _, hlen, _ => by simp at hlen
  | _ :: _, [], hlen, _ => by simp at hlen
  | [] :: _, _, _, hne => absurd rfl (hne [] (by simp))
  | (x :: piece) :: pieces, g :: lows, hlen, hne => by
    have ih := @contents_linked pieces lows (by simp_all)
      fun y hy => hne y (by simp [hy])
    simp only [contents, map_cons, zip_cons_cons, tail_cons] at ih ⊢
    rw [ih]
    simp_all

omit [IndexKey T] in
theorem zipWith_heads : ∀ {pieces : List (List T)} (lows : List (ℕ × List ℕ)) (ptrs : List ℕ),
    pieces.length = lows.length → pieces.length = ptrs.length → (∀ piece ∈ pieces, piece ≠ []) →
    List.zipWith (fun f (x : ℕ × List T × ℕ) => f :: x.2.1) (heads pieces)
      (ptrs.zip (contents pieces lows)) = pieces
  | [], _, _, _, _, _ => by simp [heads]
  | _ :: _, [], _, hlen, _, _ => by simp at hlen
  | _ :: _, _, [], _, hlen, _ => by simp at hlen
  | [] :: _, _, _, _, _, hne => absurd rfl (hne [] (by simp))
  | (x :: piece) :: pieces, g :: lows, p :: ptrs, hlen, hlen', hne => by
    have ih := zipWith_heads lows ptrs (by simpa using hlen) (by simpa using hlen')
      fun y (hy : y ∈ pieces) => hne y (by simp [hy])
    simp only [contents, heads, map_cons, zip_cons_cons, tail_cons,
      flatMap_cons, head?_cons, Option.toList_some, singleton_append,
      zipWith_cons_cons] at ih ⊢
    rw [ih]

theorem Adopted.level {h₀ h₁ : Heap T} (hF : Forest h₀ fs ups L)
    (hA : Allocated (CCSBNode.newInternal T) .internal h₀ h V) (hgroup : h₁.group = h.group)
    (hN : h₁.nextNode = h.nextNode) (hG : h₁.nextGroup = h.nextGroup)
    (hAd : Adopted (V.flatMap (·.2)) pieces ups L h₁ h' (V.flatMap (·.2)).length)
    (hlen : pieces.length = (V.flatMap (·.2)).length)
    (hsizes : pieces.map List.length = (tops ups L).map (·.2.length))
    (hne : ∀ piece ∈ pieces, piece ≠ []) (hle : ∀ piece ∈ pieces, piece.length ≤ maxKeys T + 1) :
    ∃ U : InternalView T, U.map (·.bare) = V ∧
      flat U = (V.flatMap (·.2)).zip (contents pieces (tops ups L)) ∧
      Forest h' (List.replicate U.length none) (U :: ups) L := by
  have hlen' : pieces.length = (tops ups L).length := by simpa using congrArg List.length hsizes
  have hclen : (contents pieces (tops ups L)).length = (V.flatMap (·.2)).length := by
    simp [contents, ← hlen', hlen]
  set U : InternalView T := decorate V (contents pieces (tops ups L)) with hU
  have hbare : U.map (·.bare) = V := map_bare_decorate V _ hclen.ge
  have hflat : flat U = (V.flatMap (·.2)).zip (contents pieces (tops ups L)) := flat_decorate V _
  have hptrs : (flat U).map (·.1) = V.flatMap (·.2) := by
    rw [hflat, map_fst_zip hclen.ge]
  have hgroups : U.map (·.ptr) = V.map (·.1) := by
    rw [← hbare, map_map]
    rfl
  refine ⟨U, hbare, hflat, ?_⟩
  constructor
  · refine ⟨internalNodes_replicate (fun G hG => ?_) fun x hx => ?_, ?_⟩
    · have hmem : G.bare ∈ V := hbare ▸ mem_map_of_mem hG
      have := hA.group _ hmem
      rw [hAd.group, hgroup, GroupView.bare] at *
      simpa using this
    · rw [hflat] at hx
      obtain ⟨j, hj⟩ := List.mem_iff_getElem?.mp hx
      obtain ⟨hp, hc⟩ := List.getElem?_zip_eq_some.mp hj
      obtain ⟨hc₁, hc₂⟩ := List.getElem?_zip_eq_some.mp hc
      rw [getElem?_map, Option.map_eq_some_iff] at hc₁ hc₂
      obtain ⟨piece, hpiece, htail⟩ := hc₁
      obtain ⟨g, hg, hgx⟩ := hc₂
      have hnew := hAd.new j x.1 piece g hp hpiece hg
      rwa [if_pos (List.getElem?_eq_some_iff.mp hp).choose, htail, hgx] at hnew
    · have := hAd.holds
      rw [take_length, Nat.sub_self] at this
      rw [fathersOf, ← Function.comp_def, ← map_map, hptrs]
      simpa using this
  · refine ⟨?_, hF.linked⟩
    have hsnd := map_snd_zip hclen.le
    rw [hflat, ← contents_linked hsizes hne]
    conv_rhs => rw [← hsnd, map_map]
    rfl
  · rw [nodePtrs, flatMap_cons, append_assoc, ← nodePtrs, hptrs, nodup_append']
    refine ⟨hA.nodup_nodes, hF.nodup_nodes, fun p hp hp' => ?_⟩
    have h1 := (hA.nodes_ge p hp).1
    have h2 := hF.nodes_lt p hp'
    omega
  · rw [groupPtrs, flatMap_cons, append_assoc, ← groupPtrs, hgroups, nodup_append']
    refine ⟨hA.nodup_groups, hF.nodup_groups, fun g hg hg' => ?_⟩
    obtain ⟨G, hGV, rfl⟩ := List.mem_map.mp hg
    have h1 := (hA.groups_ge G hGV).1
    have h2 := hF.groups_lt _ hg'
    omega
  · intro p hp
    rw [nodePtrs, flatMap_cons, append_assoc, ← nodePtrs, hptrs, mem_append] at hp
    rw [hAd.nextNode, hN]
    rcases hp with hp | hp
    · exact (hA.nodes_ge p hp).2
    · exact lt_of_lt_of_le (hF.nodes_lt p hp) hA.nextNode_le
  · intro g hg
    rw [groupPtrs, flatMap_cons, append_assoc, ← groupPtrs, hgroups, mem_append] at hg
    rw [hAd.nextGroup, hG]
    rcases hg with hg | hg
    · obtain ⟨G, hGV, rfl⟩ := List.mem_map.mp hg
      exact (hA.groups_ge G hGV).2
    · exact lt_of_lt_of_le (hF.groups_lt g hg) hA.nextGroup_le
  · exact hF.datas_le
  · intro W hW x hx
    rcases List.mem_cons.mp hW with rfl | hW
    · rw [hflat] at hx
      obtain ⟨piece, hpiece, htail⟩ := List.mem_map.mp (of_mem_zip (of_mem_zip hx).2).1
      have := hle piece hpiece
      rw [← htail, length_tail]
      omega
    · exact hF.keys_le W hW x hx

end CSB
