/-
What the queries answer on a represented tree.
-/
import ClaimsDB.CSBSearch
import ClaimsDB.CSBShape

namespace CSB

open Run (bind_ok)
open List

variable {T : Type} [IndexKey T]

/-! ### The loops inside one node -/

variable {α : Type} {xs : List (DataOffset T)} {x : α} {f : Option NodePtr} {ks : List T}
  {c : Option GroupPtr} {i : ℕ} {ds : List (DataOffset T)} {within : T → Bool}
  {ns : List (NodePtr × List (DataOffset T))} {h : Heap T} {g : GroupPtr} {b : GroupBody}
  {L : LeafView T}

theorem length_takeWhile_lt {p : α → Bool} {xs : List α}
    (hx : xs[(xs.takeWhile p).length]? = some x) : p x = false := by
  induction xs with
  | nil => simp at hx
  | cons y ys ih =>
    rw [takeWhile_cons] at hx
    by_cases hy : p y = true
    · rw [if_pos hy, length_cons, getElem?_cons_succ] at hx
      exact ih hx
    · rw [if_neg hy] at hx
      simp only [length_nil, getElem?_cons_zero, Option.some.injEq] at hx
      rw [← hx]
      simpa using hy

theorem getElement_internalNode (hlen : ks.length ≤ maxKeys T) :
    ∃ d, (internalNode f ks c).getElement i = .ok d ∧ ∀ k, ks[i]? = some k → d.key = k := by
  simp only [CCSBNode.getElement, internalNode]
  by_cases hlt : i < maxKeys T
  · rw [if_pos hlt]
    set xs := ks ++ List.replicate (maxKeys T - ks.length) IndexKey.invalid with hxs
    have hxlen : xs.length = maxKeys T := by
      rw [hxs, length_append, length_replicate]
      omega
    obtain ⟨k, hk⟩ : ∃ k, xs[i]? = some k := ⟨_, getElem?_eq_getElem (by omega)⟩
    refine ⟨⟨k, 65535, 65535⟩, by rw [Run.index_eq_ok hk]; rfl, fun k' hk' => ?_⟩
    have hi' : i < ks.length := (List.getElem?_eq_some_iff.mp hk').choose
    rw [hxs, getElem?_append_left hi', hk'] at hk
    exact (Option.some.inj hk).symm
  · rw [if_neg hlt]
    exact ⟨_, rfl, fun k hk => absurd (List.getElem?_eq_some_iff.mp hk).choose (by omega)⟩

theorem scanKeys_eq (right : T → Bool) (hlen : ks.length ≤ maxKeys T) :
    scanKeys (internalNode f ks c) right (ks.length + 1) 0
      = .ok (ks.takeWhile right).length := by
  -- after `i` keys that are passed, the rest of the scan is over the rest of the keys
  have key : ∀ m i, i + m = ks.length → scanKeys (internalNode f ks c) right (m + 1) i
      = .ok (i + ((ks.drop i).takeWhile right).length) := by
    intro m
    induction m with
    | zero =>
      intro i hi
      obtain ⟨d, hd, -⟩ := getElement_internalNode (f := f) (c := c) (i := i) hlen
      rw [scanKeys, hd, bind_ok, if_neg (by simp [internalNode]; omega),
        drop_eq_nil_of_le (by omega)]
      rfl
    | succ m ih =>
      intro i hi
      obtain ⟨d, hd, hkey⟩ := getElement_internalNode (f := f) (c := c) (i := i) hlen
      obtain ⟨k, hk⟩ : ∃ k, ks[i]? = some k := ⟨_, getElem?_eq_getElem (by omega)⟩
      have hdrop : ks.drop i = k :: ks.drop (i + 1) := by
        obtain ⟨hil, rfl⟩ := List.getElem?_eq_some_iff.mp hk
        exact drop_eq_getElem_cons hil
      rw [scanKeys, hd, bind_ok, hkey k hk, hdrop, takeWhile_cons]
      by_cases hr : right k = true
      · rw [if_pos ⟨hr, by simp [internalNode]; omega⟩, ih (i + 1) (by omega), if_pos hr,
          length_cons]
        congr 1
        omega
      · rw [if_neg (by simp [hr]), if_neg hr]
        rfl
  have := key ks.length 0 (by omega)
  simpa using this

theorem getElement_leafNode {d : DataOffset T} (hlen : ds.length ≤ maxDatas T)
    (hd : ds[i]? = some d) : (leafNode f ds).getElement i = .ok d := by
  have hi : i < ds.length := (List.getElem?_eq_some_iff.mp hd).choose
  simp only [CCSBNode.getElement, leafNode]
  rw [if_pos (by omega), Run.index_eq_ok (by rw [getElem?_append_left hi, hd])]

theorem drop_eq_cons {xs : List α} (hx : xs[i]? = some x) : xs.drop i = x :: xs.drop (i + 1) := by
  obtain ⟨hi, rfl⟩ := List.getElem?_eq_some_iff.mp hx
  exact drop_eq_getElem_cons hi

theorem scanDatas_eq (start : T → Bool) (hlen : ds.length ≤ maxDatas T) :
    scanDatas (leafNode f ds) start (leafNode f ds).usedKeys 0
      = .ok (ds.takeWhile fun d => !start d.key).length := by
  have key : ∀ m i, i + m = ds.length → scanDatas (leafNode f ds) start m i
      = .ok (i + ((ds.drop i).takeWhile fun d => !start d.key).length) := by
    intro m
    induction m with
    | zero =>
      intro i hi
      rw [scanDatas, drop_eq_nil_of_le (by omega)]
      rfl
    | succ m ih =>
      intro i hi
      obtain ⟨d, hd⟩ : ∃ d, ds[i]? = some d := ⟨_, getElem?_eq_getElem (by omega)⟩
      rw [scanDatas, getElement_leafNode hlen hd, bind_ok, drop_eq_cons hd, takeWhile_cons]
      by_cases hs : start d.key = true
      · simp [hs]
      · rw [if_neg hs, ih (i + 1) (by omega), if_pos (by simpa using hs), length_cons]
        congr 1
        omega
  have := key ds.length 0 (by omega)
  simpa [leafNode] using this

def taken (within : T → Bool) (ds : List (DataOffset T)) : List (DataOffset T) :=
  ds.takeWhile fun d => within d.key

def stops (within : T → Bool) (ds : List (DataOffset T)) : Bool := ds.any fun d => !within d.key

omit [IndexKey T] in
theorem taken_append (within : T → Bool) (xs ys : List (DataOffset T)) :
    taken within (xs ++ ys)
      = if stops within xs then taken within xs else xs ++ taken within ys := by
  induction xs with
  | nil => simp [stops]
  | cons x xs ih =>
    simp only [taken, stops, cons_append, takeWhile_cons, any_cons] at ih ⊢
    by_cases hx : within x.key = true
    · simp only [hx, Bool.not_true, Bool.false_or, if_true, ih]
      exact apply_ite (List.cons x) _ _ _
    · simp [hx]

omit [IndexKey T] in
theorem taken_of_not_stops (h : stops within xs = false) : taken within xs = xs := by
  have := taken_append within xs []
  simpa [h, taken] using this

theorem collectNode_eq (within : T → Bool) (hlen : ds.length ≤ maxDatas T) (i : ℕ)
    (ret : SearchResult) :
    collectNode (leafNode f ds) within ((leafNode f ds).usedKeys - i) i ret
      = .ok (ret.collectAll (taken within (ds.drop i)), stops within (ds.drop i)) := by
  have key : ∀ m i ret, ds.length - i = m → collectNode (leafNode f ds) within m i ret
      = .ok (ret.collectAll (taken within (ds.drop i)), stops within (ds.drop i)) := by
    intro m
    induction m with
    | zero =>
      intro i ret hi
      rw [collectNode, drop_eq_nil_of_le (by omega)]
      rfl
    | succ m ih =>
      intro i ret hi
      obtain ⟨d, hd⟩ : ∃ d, ds[i]? = some d := ⟨_, getElem?_eq_getElem (by omega)⟩
      rw [collectNode, getElement_leafNode hlen hd, bind_ok, drop_eq_cons hd]
      by_cases hw : within d.key = true
      · rw [if_pos hw, ih (i + 1) _ (by omega)]
        simp [taken, stops, hw, SearchResult.collectAll]
      · rw [if_neg hw]
        simp [taken, stops, hw, SearchResult.collectAll]
  exact key _ i ret (by simp [leafNode])

omit [IndexKey T] in
theorem collect_step {ys : List (DataOffset T)} (ret : SearchResult) :
    (if stops within xs then ret.collectAll (taken within xs)
      else (ret.collectAll (taken within xs)).collectAll (taken within ys))
      = ret.collectAll (taken within (xs ++ ys)) := by
  rw [taken_append]
  cases hs : stops within xs with
  | true => simp
  | false => simp [taken_of_not_stops hs, SearchResult.collectAll]

/-! ### The loops over nodes and groups -/

def restEntries (ns : List (NodePtr × List (DataOffset T))) (j i : ℕ) : List (DataOffset T) :=
  match ns.drop j with
  | [] => []
  | x :: rest => x.2.drop i ++ rest.flatMap (·.2)

omit [IndexKey T] in
theorem restEntries_zero (ns : List (NodePtr × List (DataOffset T))) :
    restEntries ns 0 0 = ns.flatMap (·.2) := by
  cases ns <;> simp [restEntries]

omit [IndexKey T] in
theorem restEntries_cons {j : ℕ} {x : NodePtr × List (DataOffset T)} (hx : ns[j]? = some x)
    (i : ℕ) : restEntries ns j i = x.2.drop i ++ restEntries ns (j + 1) 0 := by
  rw [restEntries, drop_eq_cons hx]
  simp only [restEntries]
  cases ns.drop (j + 1) <;> simp

theorem collectGroup_eq (within : T → Bool) (hg : h.group g = some ⟨ns.length, ns.map (·.1), b⟩)
    (hns : ∀ x ∈ ns, (∃ f, h.node x.1 = some (leafNode f x.2)) ∧ x.2.length ≤ maxDatas T)
    (j i : ℕ) (ret : SearchResult) :
    collectGroup h g within (ns.length - j) j i ret
      = .ok (ret.collectAll (taken within (restEntries ns j i)),
          stops within (restEntries ns j i)) := by
  have key : ∀ m j i ret, ns.length - j = m → collectGroup h g within m j i ret
      = .ok (ret.collectAll (taken within (restEntries ns j i)),
          stops within (restEntries ns j i)) := by
    intro m
    induction m with
    | zero =>
      intro j i ret hj
      rw [collectGroup, restEntries, drop_eq_nil_of_le (by omega)]
      rfl
    | succ m ih =>
      intro j i ret hj
      obtain ⟨x, hx⟩ : ∃ x, ns[j]? = some x := ⟨_, getElem?_eq_getElem (by omega)⟩
      obtain ⟨⟨f, hnode⟩, hle⟩ := hns x (mem_of_getElem? hx)
      rw [collectGroup, Heap.getNode_eq (by simpa using hg) (show (ns.map (·.1))[j]? = some x.1 by
        simp [hx]), bind_ok, Heap.readNode_eq hnode, bind_ok, collectNode_eq within hle,
        bind_ok, restEntries_cons hx]
      simp only
      rw [ih (j + 1) 0 _ (by omega), ← collect_step]
      cases hs : stops within (x.2.drop i) with
      | true => simp_all [stops]
      | false => simp_all [stops]
  exact key _ j i ret rfl

def Readable (h : Heap T) (L : LeafView T) : Prop :=
  ∀ x ∈ flat L, (∃ f, h.node x.1 = some (leafNode f x.2)) ∧ x.2.length ≤ maxDatas T

def restLevel (L : LeafView T) (j i : ℕ) : List (DataOffset T) :=
  match L with
  | [] => []
  | G :: L => restEntries G.nodes j i ++ entries L

omit [IndexKey T] in
theorem restLevel_zero (L : LeafView T) : restLevel L 0 0 = entries L := by
  cases L <;> simp [restLevel, restEntries_zero, entries]

omit [IndexKey T] in
theorem getTailerNG_eq {g u : ℕ} {ns : List ℕ} {hd tl : Option GroupPtr}
    (hg : h.group g = some ⟨u, ns, .leaf hd tl⟩) : h.getTailerNG (some g) = .ok tl := by
  simp [Heap.getTailerNG, Heap.readGroup_eq hg]

theorem collectList_eq (within : T → Bool) :
    ∀ {L : LeafView T} {prev : Option GroupPtr} (fuel : ℕ), LeafChain h prev L none →
      Readable h L → L.length ≤ fuel → ∀ (j i : ℕ) (ret : SearchResult),
      collectList h within fuel (headPtr L none) j i ret
        = .ok (ret.collectAll (taken within (restLevel L j i))) := by
  intro L
  induction L with
  | nil =>
    intro prev fuel _ _ _ j i ret
    cases fuel <;> rfl
  | cons G L ih =>
    rintro prev fuel ⟨hG, hC⟩ hRd hfuel j i ret
    obtain ⟨fuel, rfl⟩ : ∃ m, fuel = m + 1 := ⟨fuel - 1, by simp at hfuel; omega⟩
    have hns : ∀ x ∈ G.nodes, (∃ f, h.node x.1 = some (leafNode f x.2)) ∧
        x.2.length ≤ maxDatas T := fun x hx => hRd x (by simp [hx])
    rw [headPtr, collectList, Heap.readGroup_eq hG, bind_ok,
      collectGroup_eq within hG hns, bind_ok, restLevel, ← collect_step]
    cases hs : stops within (restEntries G.nodes j i) with
    | true => simp
    | false =>
      simp only [Bool.false_eq_true, if_false]
      rw [getTailerNG_eq hG, bind_ok,
        ih fuel hC (fun x hx => hRd x (by simp [hx])) (by simpa using hfuel), restLevel_zero]

omit [IndexKey T] in
theorem findNode_eq {ns : List NodePtr} (hg : h.group g = some ⟨ns.length, ns, b⟩)
    (hnd : ns.Nodup) {p : NodePtr} {k : ℕ} (hk : ns[k]? = some p) :
    findNode h (some g) p ns.length 0 = .ok k := by
  have key : ∀ m j, j + m = ns.length → j ≤ k → findNode h (some g) p m j = .ok k := by
    intro m
    induction m with
    | zero =>
      intro j hj hjk
      have := (List.getElem?_eq_some_iff.mp hk).choose
      omega
    | succ m ih =>
      intro j hj hjk
      obtain ⟨q, hq⟩ : ∃ q, ns[j]? = some q := ⟨_, getElem?_eq_getElem (by omega)⟩
      rw [findNode, Heap.getNode_eq hg hq, bind_ok]
      by_cases hqp : q = p
      · obtain rfl : j = k := by
          obtain ⟨hjl, hjq⟩ := List.getElem?_eq_some_iff.mp hq
          obtain ⟨hkl, hkp⟩ := List.getElem?_eq_some_iff.mp hk
          exact hnd.getElem_inj_iff.mp (hjq.trans (hqp.trans hkp.symm))
        rw [if_pos (by rw [hqp])]
      · have hne : j ≠ k := by
          rintro rfl
          exact hqp (Option.mem_unique hq hk)
        rw [if_neg (by simpa using hqp), ih (j + 1) (by omega) (by omega)]
  exact key ns.length 0 (by omega) (by omega)

/-! ### The descent -/

/-- The first key of node `p` is passed by the test, unless it is leftmost, and the next one is not.
-/
def StandsAt (ptrs : List ℕ) (F : List T) (right : T → Bool) (p : ℕ) : Prop :=
  ∃ A B FA f FB, ptrs = A ++ p :: B ∧ F = FA ++ f :: FB ∧ A.length = FA.length ∧
    (FA = [] ∨ right f = true) ∧ ∀ f' ∈ FB.head?, right f' = false

theorem StandsAt.down {fs : List (Option NodePtr)} {F : List T} {U : InternalView T}
    {ups : List (InternalView T)} {right : T → Bool} {p : ℕ} (hL : Level h fs F (U :: ups) L)
    (hS : StandsAt ((tops (U :: ups) L).flatMap (·.2)) F right p)
    (hle : ∀ x ∈ flat U, x.2.1.length ≤ maxKeys T) :
    ∃ n i c, h.readNode (some p) = .ok n ∧ scanKeys n right (n.usedKeys + 1) 0 = .ok i ∧
      h.getNode n.getPointer i = .ok (some c) ∧
      StandsAt ((tops ups L).flatMap (·.2)) (lowerFirsts F U).flatten right c := by
  obtain ⟨A, B, FA, f, FB, hptrs, hF, hlen, hright, hnext⟩ := hS
  rw [flatMap_tops_cons] at hptrs
  -- the node in the picture
  obtain ⟨UA, UB', hU, hUA, hUB'⟩ := List.map_eq_append_iff.mp hptrs
  obtain ⟨x, UB, rfl, rfl, hUB⟩ := List.map_eq_cons_iff.mp hUB'
  have hidx : (flat U)[UA.length]? = some x := by simp [hU]
  obtain ⟨f', ns, hf', hns, hO, -⟩ := hL.pieces hL.below.leftmost hidx
  have hxmem : x ∈ flat U := mem_of_getElem? hidx
  obtain ⟨fa, hnode⟩ := hL.holds.1.node_of_mem hxmem
  obtain ⟨b, hgrp⟩ := hO.group
  set i := (x.2.1.takeWhile right).length with hi
  have hile : i ≤ x.2.1.length := ( takeWhile_prefix right).length_le
  obtain ⟨c, hc⟩ : ∃ c, ns[i]? = some c :=
    ⟨_, getElem?_eq_getElem (by have := hO.length; simp only at this; omega)⟩
  refine ⟨_, i, c, Heap.readNode_eq hnode, scanKeys_eq right (hle x hxmem),
    Heap.getNode_eq hgrp hc, ?_⟩
  -- the level below, cut at the group of the node
  have hlenA : FA.length = UA.length := by rw [← hlen, ← hUA, length_map]
  obtain rfl : f = f' := by
    rw [hF, ← hlenA, getElem?_append_right le_rfl] at hf'
    simpa using hf'
  have hpieces : lowerFirsts F U = List.zipWith (fun f x => f :: x.2.1) FA UA ++
      (f :: x.2.1) :: List.zipWith (fun f x => f :: x.2.1) FB UB := by
    rw [lowerFirsts, hF, hU, zipWith_append hlenA, zipWith_cons_cons]
  set PA := List.zipWith (fun f (x : NodePtr × List T × GroupPtr) => f :: x.2.1) FA UA with hPA
  set PB := List.zipWith (fun f (x : NodePtr × List T × GroupPtr) => f :: x.2.1) FB UB with hPB
  have htops : tops ups L = (tops ups L).take UA.length ++
      (x.2.2, ns) :: (tops ups L).drop (UA.length + 1) := by
    rw [← drop_eq_cons hns, take_append_drop]
  set GA := (tops ups L).take UA.length with hGA
  set GB := (tops ups L).drop (UA.length + 1) with hGB
  have hGAlen : GA.length = PA.length := by
    have : UA.length < (tops ups L).length := (List.getElem?_eq_some_iff.mp hns).choose
    rw [hGA, hPA, length_take, length_zipWith]
    omega
  have hbefore : (GA.flatMap (·.2)).length = PA.flatten.length := by
    have hl := hL.lengths
    rw [hpieces, htops, map_append, map_append] at hl
    have := (append_inj hl (by simpa using hGAlen.symm)).1
    rw [length_flatMap, length_flatten, this]
  obtain ⟨fi, hfi⟩ : ∃ y, (f :: x.2.1)[i]? = some y :=
    ⟨_, getElem?_eq_getElem (by simp only [length_cons]; omega)⟩
  refine ⟨GA.flatMap (·.2) ++ ns.take i, ns.drop (i + 1) ++ GB.flatMap (·.2),
    PA.flatten ++ (f :: x.2.1).take i, fi, x.2.1.drop i ++ PB.flatten, ?_, ?_, ?_, ?_, ?_⟩
  · rw [htops, flatMap_append, flatMap_cons]
    conv_lhs => rw [← take_append_drop i ns, drop_eq_cons hc]
    simp
  · rw [hpieces, flatten_append, flatten_cons]
    conv_lhs => rw [← take_append_drop i (f :: x.2.1), drop_eq_cons hfi]
    simp
  · have := hO.length
    simp only at this
    rw [length_append, length_append, hbefore, length_take, length_take,
      length_cons, this]
  · -- the first key of the child is passed: it is the node's own or one that was scanned
    rcases Nat.eq_zero_or_pos i with h0 | hpos
    · rw [h0] at hfi ⊢
      obtain rfl : f = fi := by simpa using hfi
      rcases hright with rfl | hr
      · left
        simp [hPA]
      · exact .inr hr
    · obtain ⟨m, hm⟩ : ∃ m, i = m + 1 := ⟨i - 1, by omega⟩
      rw [hm, getElem?_cons_succ] at hfi
      obtain ⟨rest, hrest⟩ := takeWhile_prefix (l := x.2.1) right
      rw [← hrest, getElem?_append_left (by omega)] at hfi
      exact .inr (mem_takeWhile_imp (mem_of_getElem? hfi))
  · intro y hy
    rcases hd : x.2.1.drop i with _ | ⟨z, zs⟩
    · -- the child is the last one of its group
      rw [hd, nil_append] at hy
      have hlenB : FB.length = UB.length := by
        have := hL.length
        rw [length_flat_tops, hF, hU, length_append, length_append, length_cons,
          length_cons] at this
        omega
      rcases FB with _ | ⟨g, FB⟩
      · simp [hPB] at hy
      · rcases UB with _ | ⟨u, UB⟩
        · simp at hlenB
        · refine hnext y ?_
          simpa [hPB] using hy
    · rw [hd] at hy
      obtain rfl : z = y := by simpa using hy
      have hz : x.2.1[(x.2.1.takeWhile right).length]? = some z := by
        rw [← hi, ← head?_drop, hd]
        rfl
      exact length_takeWhile_lt hz

/-- **The descent** ends at a leaf that stands where the query has to start. -/
theorem descend_spec (right : T → Bool) :
    ∀ {ups : List (InternalView T)} {fs : List (Option NodePtr)} {F : List T} {p : ℕ},
      Level h fs F ups L → StandsAt ((tops ups L).flatMap (·.2)) F right p →
      (∀ U ∈ ups, ∀ x ∈ flat U, x.2.1.length ≤ maxKeys T) →
      ∃ q F', descend h right ups.length (some p) = .ok (some q) ∧
        F'.map some = leafFirsts L ∧ StandsAt ((flat L).map (·.1)) F' right q := by
  intro ups
  induction ups with
  | nil =>
    intro fs F p hL hS _
    exact ⟨p, F, rfl, hL.firsts, by rwa [flatMap_tops_nil] at hS⟩
  | cons U ups ih =>
    intro fs F p hL hS hle
    obtain ⟨n, i, c, hn, hi, hc, hS'⟩ := hS.down hL (hle U (by simp))
    obtain ⟨q, F', hq, hF', hS''⟩ := ih hL.below hS' fun V hV => hle V (by simp [hV])
    refine ⟨q, F', ?_, hF', hS''⟩
    rw [length_cons, descend, hn, bind_ok, hi, bind_ok, hc, bind_ok, hq]

/-! ### The answer -/

def SortedByKey (es : List (DataOffset T)) : Prop := es.Pairwise fun a b => a.key ≤ b.key

structure Window (right start within : T → Bool) : Prop where
  right_mono : ∀ a b, a ≤ b → right b = true → right a = true
  right_start : ∀ k, right k = true → start k = false
  within_start : ∀ k, within k = true → start k = true
  convex : ∀ a b, a ≤ b → right a = false → within a = false → within b = false

section Answer

variable {right start within : T → Bool} (hW : Window right start within)
include hW

theorem Window.not_within {k : T} (hk : right k = true) : within k = false := by
  cases h : within k with
  | false => rfl
  | true => exact absurd (hW.within_start k h) (by simp [hW.right_start k hk])

theorem Window.taken_eq_filter {es : List (DataOffset T)} (hs : SortedByKey es)
    (hr : ∀ d ∈ es, right d.key = false) :
    taken within es = es.filter fun d => within d.key := by
  induction es with
  | nil => rfl
  | cons d es ih =>
    obtain ⟨hd, hs⟩ := List.pairwise_cons.mp hs
    cases hw : within d.key with
    | true =>
      have := ih hs fun e he => hr e (by simp [he])
      simp only [taken, takeWhile_cons, hw, filter_cons, if_true] at this ⊢
      rw [this]
    | false =>
      have hnone : es.filter (fun d => within d.key) = [] := by
        rw [filter_eq_nil_iff]
        intro e he
        simp [hW.convex d.key e.key (hd e he) (hr d (by simp)) hw]
      simp [taken, hw, hnone]

theorem Window.walk {c B : List (DataOffset T)} (hs : SortedByKey (c ++ B))
    (hB : ∀ d ∈ B, right d.key = false) :
    taken within (c.dropWhile (fun d => !start d.key) ++ B)
      = (c ++ B).filter fun d => within d.key := by
  induction c with
  | nil => exact hW.taken_eq_filter hs hB
  | cons d c ih =>
    rw [cons_append] at hs
    have hs' := List.pairwise_cons.mp hs
    cases hst : start d.key with
    | false =>
      have hwd : within d.key = false := by
        cases h : within d.key with
        | false => rfl
        | true => exact absurd (hW.within_start _ h) (by simp [hst])
      rw [dropWhile_cons, if_pos (by simp [hst]), ih hs'.2, cons_append,
        filter_cons, if_neg (by simp [hwd])]
    | true =>
      -- from a start on nothing is passed
      rw [dropWhile_cons, if_neg (by simp [hst])]
      have hrd : right d.key = false := by
        cases h : right d.key with
        | false => rfl
        | true => exact absurd (hW.right_start _ h) (by simp [hst])
      refine hW.taken_eq_filter hs fun e he => ?_
      rcases List.mem_cons.mp he with rfl | he
      · exact hrd
      · cases h : right e.key with
        | false => rfl
        | true => exact absurd (hW.right_mono _ _ (hs'.1 e he) h) (by simp [hrd])

end Answer

theorem drop_length_takeWhile {α : Type} (p : α → Bool) (xs : List α) :
    xs.drop (xs.takeWhile p).length = xs.dropWhile p := by
  have h := takeWhile_append_dropWhile (p := p) (l := xs)
  calc xs.drop (xs.takeWhile p).length
      = (xs.takeWhile p ++ xs.dropWhile p).drop (xs.takeWhile p).length := by rw [h]
    _ = xs.dropWhile p := drop_left

theorem flat_eq_append {β : Type} : ∀ {V : List (GroupView β)} {A B : List (NodePtr × β)}
    {x : NodePtr × β}, flat V = A ++ x :: B →
    ∃ V₁ G V₂ N₁ N₂, V = V₁ ++ G :: V₂ ∧ G.nodes = N₁ ++ x :: N₂ ∧ A = flat V₁ ++ N₁ ∧
      B = N₂ ++ flat V₂
  | [], A, B, x, h => by simp at h
  | G :: V, A, B, x, h => by
    rw [flat_cons] at h
    rcases List.append_eq_append_iff.mp h with ⟨C, rfl, hC⟩ | ⟨C, hC, hD⟩
    · obtain ⟨V₁, G', V₂, N₁, N₂, rfl, hG', rfl, rfl⟩ := flat_eq_append hC
      exact ⟨G :: V₁, G', V₂, N₁, N₂, rfl, hG', by simp, rfl⟩
    · rcases C with _ | ⟨y, C⟩
      · simp only [append_nil, nil_append] at hC hD
        obtain ⟨V₁, G', V₂, N₁, N₂, rfl, hG', h₁, rfl⟩ :=
          flat_eq_append (V := V) (A := []) (B := B) (x := x) (by simpa using hD.symm)
        exact ⟨G :: V₁, G', V₂, N₁, N₂, rfl, hG', by simp [hC, ← h₁], rfl⟩
      · simp only [cons_append, List.cons.injEq] at hD
        obtain ⟨rfl, rfl⟩ := hD
        exact ⟨[], G, V, A, C, rfl, hC, by simp, rfl⟩

variable {L : LeafView T} {right : T → Bool} {t : CSBPlusTree T} {ups : List (InternalView T)}

theorem StandsAt.split {F : List T} {q : ℕ} (hF : F.map some = leafFirsts L)
    (hS : StandsAt ((flat L).map (·.1)) F right q)
    (hmono : ∀ a b, a ≤ b → right b = true → right a = true) (hs : SortedByKey (entries L)) :
    ∃ A ds B, flat L = A ++ (q, ds) :: B ∧ (A = [] ∨ ∀ d ∈ ds.head?, right d.key = true) ∧
      (∀ d ∈ A.flatMap (·.2), right d.key = true) ∧
      ∀ d ∈ B.flatMap (·.2), right d.key = false := by
  obtain ⟨A', B', FA, f, FB, hptrs, rfl, hlen, hright, hnext⟩ := hS
  obtain ⟨A, C, hflat, rfl, hC⟩ := List.map_eq_append_iff.mp hptrs
  obtain ⟨⟨q', ds⟩, B, rfl, rfl, rfl⟩ := List.map_eq_cons_iff.mp hC
  have hent : entries L = A.flatMap (·.2) ++ (ds ++ B.flatMap (·.2)) := by
    simp [entries, hflat]
  rw [leafFirsts, hflat, map_append, map_append, map_cons, map_cons] at hF
  have hlen' : (FA.map some).length = (A.map fun x => x.2.head?.map (·.key)).length := by
    simpa using hlen.symm
  obtain ⟨-, hF⟩ := append_inj hF hlen'
  simp only [List.cons.injEq] at hF
  obtain ⟨hf, hFB⟩ := hF
  rw [hent, SortedByKey, pairwise_append] at hs
  obtain ⟨-, hs₂, hAB⟩ := hs
  refine ⟨A, ds, B, hflat, hright.imp (fun h => ?_) (fun hr d hd => ?_), fun d hd => ?_,
    fun d hd => ?_⟩
  · exact eq_nil_of_length_eq_zero (by simpa [h] using hlen)
  · rw [Option.mem_def.mp hd, Option.map_some, Option.some.injEq] at hf
    exact hf ▸ hr
  · rcases hright with rfl | hr
    · have : A = [] := eq_nil_of_length_eq_zero (by simpa using hlen)
      simp [this] at hd
    · obtain ⟨e, he, rfl⟩ := Option.map_eq_some_iff.mp hf.symm
      refine hmono _ _ (hAB d hd e ?_) hr
      exact mem_append_left _ (mem_of_head? he)
  · rcases B with _ | ⟨y, B⟩
    · simp at hd
    · rcases FB with _ | ⟨g, FB⟩
      · simp at hFB
      · simp only [map_cons, List.cons.injEq] at hFB
        obtain ⟨e, he, rfl⟩ := Option.map_eq_some_iff.mp hFB.1.symm
        have hre : right e.key = false := hnext _ (by simp)
        obtain ⟨ys, hys⟩ := List.head?_eq_some_iff.mp he
        -- everything behind is at least `e`
        have hle : e.key ≤ d.key := by
          rw [pairwise_append] at hs₂
          have hsB := hs₂.2.1
          rw [flatMap_cons, hys, cons_append, pairwise_cons] at hsB
          rw [flatMap_cons, hys, cons_append] at hd
          rcases List.mem_cons.mp hd with rfl | hd
          · exact le_rfl
          · exact hsB.1 d hd
        cases h : right d.key with
        | false => rfl
        | true => exact absurd (hmono _ _ hle h) (by simp [hre])

/-- What a query answers; one that falls through fails when a single leaf runs out. -/
def answer (single : Bool) (start within : T → Bool) (fallsThrough : Bool)
    (es : List (DataOffset T)) : Run SearchResult :=
  if single && fallsThrough && !stops within (es.dropWhile fun d => !start d.key) then
    .error .nullDeref
  else .ok (SearchResult.empty.collectAll (es.filter fun d => within d.key))

theorem Represents.father {U : InternalView T} (hR : Represents t (U :: ups) L)
    {G : GroupView (List (DataOffset T))} (hG : G ∈ L) {x : NodePtr × List (DataOffset T)}
    (hx : x ∈ G.nodes) :
    ∃ f fa ks, t.heap.node x.1 = some (leafNode (some f) x.2) ∧
      t.heap.node f = some (internalNode fa ks (some G.ptr)) := by
  obtain ⟨r, hLevel⟩ := hR.level
  obtain ⟨front, V, hV⟩ : ∃ front V, U :: ups = front ++ [V] :=
    ⟨_, _, (dropLast_append_getLast (cons_ne_nil U ups)).symm⟩
  rw [hV] at hLevel
  obtain ⟨fs, F, hL⟩ := hLevel.suffix
  obtain ⟨y, hy, hO⟩ := forall₂_of_mem_right hL.owns (show G.bare ∈ tops [] L from
    mem_map_of_mem hG)
  obtain ⟨n, hn, hfa⟩ := hO.father x.1 (mem_map_of_mem hx)
  obtain ⟨f, hf⟩ := hL.holds.2.1.node_of_mem (List.mem_flatMap.mpr ⟨G, hG, hx⟩)
  obtain rfl := Option.mem_unique hn hf
  obtain ⟨fa, hnode⟩ := hL.holds.1.node_of_mem hy
  obtain rfl : f = some y.1 := hfa
  obtain hptr : G.ptr = y.2.2 := hO.ptr
  exact ⟨y.1, fa, y.2.1, hf, by rw [hptr]; exact hnode⟩

theorem Represents.readable (hR : Represents t ups L) : Readable t.heap L := by
  obtain ⟨r, hLevel⟩ := hR.level
  obtain ⟨fs, hN, -⟩ := hLevel.leafLevel
  exact fun x hx => ⟨hN.node_of_mem hx, hR.forest.datas_le x hx⟩

theorem Represents.length_le (hR : Represents t ups L) : L.length ≤ t.heap.nextGroup := by
  have hnd : (L.map (·.ptr)).Nodup := (nodup_append'.mp hR.forest.nodup_groups).2.1
  have hsub : L.map (·.ptr) ⊆ List.range t.heap.nextGroup := fun g hg =>
    List.mem_range.mpr (hR.forest.groups_lt g (mem_append_right _ hg))
  simpa using (subperm_of_subset hnd hsub).length_le

omit [IndexKey T] in
theorem LeafChain.suffix {h : Heap T} {next : Option GroupPtr} : ∀ {L₁ L₂ : LeafView T}
    {prev : Option GroupPtr}, LeafChain h prev (L₁ ++ L₂) next → ∃ prev', LeafChain h prev' L₂ next
  | [], _, _, hC => ⟨_, hC⟩
  | _ :: _, _, _, hC => hC.2.suffix

theorem Represents.descend (hR : Represents t ups L) (right : T → Bool) :
    ∃ q F, CSB.descend t.heap right (t.csbDepth - 1) t.csbRoot = .ok (some q) ∧
      F.map some = leafFirsts L ∧ StandsAt ((flat L).map (·.1)) F right q := by
  obtain ⟨r, hLevel⟩ := hR.level
  obtain ⟨g, p, htops, hroot⟩ := hR.root
  have hS₀ : StandsAt ((tops ups L).flatMap (·.2)) [r] right p :=
    ⟨[], [], [], r, [], by simp [htops], rfl, rfl, .inl rfl, by simp⟩
  rw [show t.csbDepth - 1 = ups.length by rw [hR.depth]; omega, hroot]
  exact descend_spec right hLevel hS₀ hR.forest.keys_le

theorem Represents.single (hR : Represents t [] L) :
    ∃ g p ds, L = [⟨g, [(p, ds)]⟩] ∧ t.csbRoot = some p ∧
      t.heap.node p = some (leafNode none ds) := by
  obtain ⟨g, p, htops, hroot⟩ := hR.root
  obtain ⟨G, rfl, hG⟩ := List.map_eq_singleton_iff.mp htops
  obtain ⟨rfl, hn⟩ := Prod.mk.inj hG
  obtain ⟨⟨p', ds⟩, hnodes, rfl⟩ := List.map_eq_singleton_iff.mp hn
  refine ⟨G.ptr, p', ds, by rw [← hnodes], hroot, ?_⟩
  cases hR.forest.holds.1 with
  | cons hGx _ => exact hGx (p', ds) (by simp [hnodes])

/-- **The answer of a query** on a sorted tree. -/
theorem query_eq (hR : Represents t ups L) (hs : SortedByKey (entries L))
    {start within : T → Bool} (hW : Window right start within) (fallsThrough : Bool) :
    query t right start within fallsThrough
      = answer (decide (t.csbDepth = 1)) start within fallsThrough (entries L) := by
  obtain ⟨r, hLevel⟩ := hR.level
  obtain ⟨q, F, hdesc, hF, hS⟩ := hR.descend right
  obtain ⟨A, ds, B, hflat, -, hA, hB⟩ := hS.split hF hW.right_mono hs
  obtain ⟨L₁, G, L₂, N₁, N₂, rfl, hGn, rfl, rfl⟩ := flat_eq_append hflat
  have hG : G ∈ L₁ ++ G :: L₂ := by simp
  have hx : (q, ds) ∈ G.nodes := by simp [hGn]
  have hle : ds.length ≤ maxDatas T :=
    hR.forest.datas_le (q, ds) (List.mem_flatMap.mpr ⟨G, hG, hx⟩)
  -- what is collected is what the filter finds
  have hent : entries (L₁ ++ G :: L₂) = (flat L₁ ++ N₁).flatMap (·.2) ++
      (ds ++ (N₂ ++ flat L₂).flatMap (·.2)) := by
    simp [entries, hGn]
  have hsorted : SortedByKey (ds ++ (N₂ ++ flat L₂).flatMap (·.2)) := by
    rw [hent, SortedByKey, pairwise_append] at hs
    exact hs.2.1
  have hleft : ((flat L₁ ++ N₁).flatMap (·.2)).filter (fun d => within d.key) = [] := by
    rw [filter_eq_nil_iff]
    intro d hd
    simp [hW.not_within (hA d hd)]
  have hfilter : (entries (L₁ ++ G :: L₂)).filter (fun d => within d.key)
      = taken within (ds.dropWhile (fun d => !start d.key) ++ (N₂ ++ flat L₂).flatMap (·.2)) := by
    rw [hW.walk hsorted hB, hent, filter_append, hleft, nil_append]
  rw [query, hdesc, bind_ok]
  simp only
  cases ups with
  | nil =>
    obtain ⟨g, p, ds₀, hL, -, hnode⟩ := hR.single
    obtain ⟨rfl, rfl, rfl⟩ : L₁ = [] ∧ G = ⟨g, [(p, ds₀)]⟩ ∧ L₂ = [] := by
      rcases L₁ with _ | ⟨G', L₁⟩
      · simpa using hL
      · simp at hL
    obtain ⟨rfl, heq, rfl⟩ : N₁ = [] ∧ (p, ds₀) = (q, ds) ∧ N₂ = [] := by
      rcases N₁ with _ | ⟨y, N₁⟩
      · simpa using hGn
      · simp at hGn
    obtain ⟨rfl, rfl⟩ := Prod.mk.inj heq
    simp only [nil_append, append_nil, flat_nil, flatMap_nil] at hfilter hent
    rw [Heap.readNode_eq hnode, bind_ok, scanDatas_eq start hle, bind_ok]
    simp only [show (leafNode none ds₀).pFather = none from rfl]
    rw [collectNode_eq within hle, bind_ok, drop_length_takeWhile, answer, nil_append,
      hfilter, hent]
    simp [hR.depth]
  | cons U ups =>
    obtain ⟨f, fa, ks, hnode, hfather⟩ := hR.father hG hx
    obtain ⟨hd, tl, hgrp⟩ := (hLevel.leafLevel.choose_spec.2).group_of_mem G hG
    obtain ⟨prev, hchain⟩ := (hLevel.leafLevel.choose_spec.2).suffix
    have hnd : (G.nodes.map (·.1)).Nodup := by
      have := (nodup_append'.mp hR.forest.nodup_nodes).2.1
      simp only [flat_append, flat_cons, map_append] at this
      exact this.of_append_right.of_append_left
    have hk : (G.nodes.map (·.1))[N₁.length]? = some q := by simp [hGn]
    rw [Heap.readNode_eq hnode, bind_ok, scanDatas_eq start hle, bind_ok]
    simp only [leafNode]
    rw [Heap.readNode_eq hfather, bind_ok]
    simp only [internalNode, CCSBNode.getPointer]
    rw [Heap.readGroup_eq hgrp, bind_ok]
    have hfind := findNode_eq (by simpa using hgrp) hnd hk
    rw [length_map] at hfind
    simp only
    rw [hfind, bind_ok]
    have hlen := hR.length_le
    simp only [length_append, length_cons] at hlen
    have hcoll := collectList_eq within (t.heap.nextGroup + 1) hchain
      (fun x hx => hR.readable x (by simp only [flat_append, mem_append]; exact .inr hx))
      (by simp only [length_cons]; omega) N₁.length
      (ds.takeWhile fun d => !start d.key).length .empty
    rw [headPtr] at hcoll
    rw [hcoll, answer, if_neg (by simp [hR.depth]), hfilter]
    simp [restLevel, restEntries, hGn, drop_length_takeWhile, entries]

theorem window_search (key : T) : Window (fun k => decide (k < key)) (fun k => decide (key = k))
    (fun k => decide (key = k)) := by
  refine ⟨fun a b hab hb => ?_, fun k hk => ?_, fun k hk => hk, fun a b hab ha hne => ?_⟩
  · exact decide_eq_true (lt_of_le_of_lt hab (of_decide_eq_true hb))
  · exact decide_eq_false (of_decide_eq_true hk).ne'
  · have hle : key ≤ a := not_lt.mp (of_decide_eq_false ha)
    have hlt : key < a := lt_of_le_of_ne hle (of_decide_eq_false hne)
    exact decide_eq_false (lt_of_lt_of_le hlt hab).ne

theorem search_eq (hR : Represents t ups L) (hs : SortedByKey (entries L)) (key : T) :
    search t key = .ok (SearchResult.empty.collectAll ((entries L).filter fun d => key = d.key)) := by
  rw [search, query_eq hR hs (window_search key), answer, if_neg (by simp)]

omit [IndexKey T] in
theorem collectAll_apply (es : List (DataOffset T)) (b : UInt16) : ∀ ret : SearchResult,
    ret.collectAll es b = if (∃ d ∈ es, d.blockOff = b) then
      some ((ret b).getD [] ++ (es.filter fun d => d.blockOff = b).map (·.tupleOff)) else ret b := by
  induction es with
  | nil => intro ret; simp [SearchResult.collectAll]
  | cons d es ih =>
    intro ret
    rw [show ret.collectAll (d :: es) = (ret.collect d).collectAll es from rfl, ih]
    by_cases hd : d.blockOff = b
    · subst hd
      by_cases hes : ∃ e ∈ es, e.blockOff = d.blockOff
      · simp [hes, SearchResult.collect]
      · have hnone : es.filter (fun e => e.blockOff = d.blockOff) = [] := by
          rw [filter_eq_nil_iff]
          intro e he
          simpa using fun h => hes ⟨e, he, h⟩
        simp [hes, hnone, SearchResult.collect]
    · simp [hd, SearchResult.collect, Function.update_of_ne (Ne.symm hd)]

theorem collectAll_filter (es : List (DataOffset T)) (key : T) (b : UInt16) :
    SearchResult.empty.collectAll (es.filter fun d => key = d.key) b
      = if (∃ d ∈ es, d.key = key ∧ d.blockOff = b) then
        some ((es.filter fun d => d.key = key ∧ d.blockOff = b).map (·.tupleOff)) else none := by
  rw [collectAll_apply]
  simp only [mem_filter, decide_eq_true_eq, filter_filter, SearchResult.empty,
    Option.getD_none, nil_append, and_assoc, eq_comm (a := key), Bool.decide_and, Bool.and_comm]

/-- **`Search` is exact**: per block the offsets of the entries with the key, in order. -/
theorem search_exact (aray : List (DataOffset T)) (hs : SortedByKey aray) (key : T) :
    ∃ t ret, bulkLoad (CSBPlusTree.new T) aray = .ok t ∧ search t key = .ok ret ∧
      ∀ b, ret b = if (∃ d ∈ aray, d.key = key ∧ d.blockOff = b) then
        some ((aray.filter fun d => d.key = key ∧ d.blockOff = b).map (·.tupleOff)) else none := by
  obtain ⟨t, ht, hsearch⟩ : ∃ t, bulkLoad (CSBPlusTree.new T) aray = .ok t ∧ search t key
      = .ok (SearchResult.empty.collectAll (aray.filter fun d => key = d.key)) := by
    rcases eq_or_ne aray [] with rfl | hne
    · exact ⟨_, rfl, rfl⟩
    · obtain ⟨t, ups, L, ht, hR, rfl, -⟩ := bulkLoad_represents hne
      exact ⟨t, ht, search_eq hR hs key⟩
  exact ⟨t, _, ht, hsearch, collectAll_filter aray key⟩

theorem search_exact_twenty :
    ∃ t ret, bulkLoad (CSBPlusTree.new CInt)
        (List.replicate 20 ⟨⟨7, by norm_num, by norm_num⟩, 1, 2⟩) = .ok t ∧
      search t ⟨7, by norm_num, by norm_num⟩ = .ok ret ∧ ret 1 = some (List.replicate 20 2) := by
  obtain ⟨t, ret, ht, hret, hb⟩ := search_exact (T := CInt)
    (List.replicate 20 ⟨⟨7, by norm_num, by norm_num⟩, 1, 2⟩)
    (List.pairwise_replicate.mpr (.inr le_rfl)) ⟨7, by norm_num, by norm_num⟩
  exact ⟨t, ret, ht, hret, by rw [hb 1]; simp⟩

end CSB
