/-
The shape of a CSB+ tree, read off the heap: which nodes are reached and at which depth, the
leftmost keys, and the list of leaf groups in both directions.
-/
import ClaimsDB.CSBBulkLoaded
import Mathlib

namespace CSB

open List

variable {T : Type} [IndexKey T]

/-! ### Following the pointers -/

/-- Node `p` is reached from the root along child pointers, on level `d`. -/
inductive Reached (t : CSBPlusTree T) : ℕ → NodePtr → Prop
  | root {p : NodePtr} : t.csbRoot = some p → Reached t 1 p
  | child {d i : ℕ} {p c : NodePtr} {n : CCSBNode T} {g : GroupPtr} {G : CCSBNodeGroup} :
      Reached t d p → t.heap.node p = some n → n.getPointer = some g → t.heap.group g = some G →
      i < G.usedNodes → G.nodes[i]? = some c → Reached t (d + 1) c

/-- The first key of the leftmost leaf below node `p` is `k`. -/
inductive LeftmostKey (h : Heap T) : NodePtr → T → Prop
  | leaf {p : NodePtr} {u : ℕ} {f : Option NodePtr} {ds : List (DataOffset T)} {d : DataOffset T} :
      h.node p = some ⟨u, f, .leaf ds⟩ → 0 < u → ds[0]? = some d → LeftmostKey h p d.key
  | internal {p c : NodePtr} {u : ℕ} {f : Option NodePtr} {ks : List T} {g : GroupPtr}
      {G : CCSBNodeGroup} {k : T} :
      h.node p = some ⟨u, f, .internal ks (some g)⟩ → h.group g = some G → G.nodes[0]? = some c →
      LeftmostKey h c k → LeftmostKey h p k

inductive Forwards (h : Heap T) : Option GroupPtr → List GroupPtr → Prop
  | nil : Forwards h none []
  | cons {g : GroupPtr} {u : ℕ} {ns : List NodePtr} {hd tl : Option GroupPtr}
      {gs : List GroupPtr} :
      h.group g = some ⟨u, ns, .leaf hd tl⟩ → Forwards h tl gs → Forwards h (some g) (g :: gs)

inductive Backwards (h : Heap T) : Option GroupPtr → List GroupPtr → Prop
  | nil : Backwards h none []
  | cons {g : GroupPtr} {u : ℕ} {ns : List NodePtr} {hd tl : Option GroupPtr}
      {gs : List GroupPtr} :
      h.group g = some ⟨u, ns, .leaf hd tl⟩ → Backwards h hd gs → Backwards h (some g) (g :: gs)

def nodeEntries (h : Heap T) (p : NodePtr) : List (DataOffset T) :=
  match h.node p with
  | some ⟨u, _, .leaf ds⟩ => ds.take u
  | _ => []

def groupNodes (h : Heap T) (g : GroupPtr) : List NodePtr :=
  match h.group g with
  | some G => G.nodes.take G.usedNodes
  | none => []

def groupEntries (h : Heap T) (g : GroupPtr) : List (DataOffset T) :=
  (groupNodes h g).flatMap (nodeEntries h)

/-- The shape invariant of a tree that holds `aray`. -/
structure Shape (t : CSBPlusTree T) (aray : List (DataOffset T)) : Prop where
  leaf_depth : ∀ d p u f ds, Reached t d p → t.heap.node p = some ⟨u, f, .leaf ds⟩ →
    d = t.csbDepth
  /-- an internal node with `u` keys owns a group of `u + 1` nodes whose father it is, and its
  key `i` is the first key of the leftmost leaf below child `i + 1` -/
  internal : ∀ d p u f ks c, Reached t d p → t.heap.node p = some ⟨u, f, .internal ks c⟩ →
    ∃ g ns b, c = some g ∧ t.heap.group g = some ⟨u + 1, ns, b⟩ ∧ ns.length = u + 1 ∧
      (∀ q ∈ ns, ∃ n, t.heap.node q = some n ∧ n.pFather = some p) ∧
      ∀ i < u, ∃ k q, ks[i]? = some k ∧ ns[i + 1]? = some q ∧ LeftmostKey t.heap q k
  /-- the doubly linked list of leaf groups spells the array in both directions, and its nodes
  are the leaves of the tree -/
  list : ∃ gs, Forwards t.heap t.leafHeader gs ∧ Backwards t.heap t.leafTailer gs.reverse ∧
    gs.flatMap (groupEntries t.heap) = aray ∧
    gs.reverse.flatMap (fun g => (groupEntries t.heap g).reverse) = aray.reverse ∧
    ∀ g ∈ gs, ∀ p ∈ groupNodes t.heap g, Reached t t.csbDepth p

/-! ### The levels of a represented tree -/

/-- The levels from some level down: `F` are the first keys below its nodes. -/
structure Level (h : Heap T) (fs : List (Option NodePtr)) (F : List T)
    (ups : List (InternalView T)) (L : LeafView T) : Prop where
  holds : Holds h fs ups L
  linked : Linked ups L
  firsts : (spell F ups).map some = leafFirsts L
  length : F.length = ((tops ups L).flatMap (·.2)).length

omit [IndexKey T] in
theorem flatMap_tops_cons (U : InternalView T) (ups : List (InternalView T)) (L : LeafView T) :
    (tops (U :: ups) L).flatMap (·.2) = (flat U).map (·.1) := by
  simp only [tops, flat, map_flatMap, flatMap_map]
  rfl

omit [IndexKey T] in
theorem flatMap_tops_nil (L : LeafView T) :
    (tops ([] : List (InternalView T)) L).flatMap (·.2) = (flat L).map (·.1) := by
  simp only [tops, flat, map_flatMap, flatMap_map]
  rfl

variable {t : CSBPlusTree T} {ups : List (InternalView T)} {L : LeafView T} {α β : Type}
  {R : α → β → Prop} {h : Heap T} {fs : List (Option NodePtr)} {F : List T} {U : InternalView T}
  {x : NodePtr × List T × GroupPtr} {p : NodePtr}

theorem Represents.level (hR : Represents t ups L) : ∃ f, Level t.heap [none] [f] ups L := by
  obtain ⟨f, hf⟩ := hR.firsts
  obtain ⟨g, p, htops, -⟩ := hR.root
  exact ⟨f, hR.forest.holds, hR.forest.linked, hf, by simp [htops]⟩

def lowerFirsts (F : List T) (U : InternalView T) : List (List T) :=
  List.zipWith (fun f x => f :: x.2.1) F (flat U)

structure Owns (h : Heap T) (x : NodePtr × List T × GroupPtr) (g : ℕ × List ℕ) : Prop where
  ptr : g.1 = x.2.2
  length : g.2.length = x.2.1.length + 1
  group : ∃ b, h.group g.1 = some ⟨g.2.length, g.2, b⟩
  father : ∀ q ∈ g.2, ∃ n, h.node q = some n ∧ n.pFather = some x.1

theorem forall₂_and_mem {P : β → Prop} {as : List α} {bs : List β} (hR : List.Forall₂ R as bs)
    (hP : ∀ b ∈ bs, P b) : List.Forall₂ (fun a b => R a b ∧ P b) as bs := by
  induction hR with
  | nil => exact .nil
  | cons hab _ ih => exact .cons ⟨hab, hP _ (by simp)⟩ (ih fun b hb => hP b (by simp [hb]))

theorem Holds.fathers (hH : Holds h fs ups L) :
    List.Forall₂ (fun f g => (∃ b, h.group g.1 = some ⟨g.2.length, g.2, b⟩) ∧
      ∀ q ∈ g.2, ∃ n, h.node q = some n ∧ n.pFather = f) fs (tops ups L) := by
  cases ups with
  | nil =>
    rw [tops, forall₂_map_right_iff]
    refine (forall₂_and_mem hH.1 hH.2.group_of_mem).imp ?_
    rintro f G ⟨hG, hd, tl, hgrp⟩
    refine ⟨⟨_, by simpa [GroupView.bare] using hgrp⟩, fun q hq => ?_⟩
    obtain ⟨x, hx, rfl⟩ := List.mem_map.mp hq
    exact ⟨_, hG x hx, rfl⟩
  | cons U ups =>
    rw [tops, forall₂_map_right_iff]
    refine hH.1.imp fun f G hG => ⟨⟨_, by simpa [GroupView.bare] using hG.1⟩, fun q hq => ?_⟩
    obtain ⟨x, hx, rfl⟩ := List.mem_map.mp hq
    exact ⟨_, hG.2 x hx, rfl⟩

theorem Level.owns (hL : Level h fs F (U :: ups) L) :
    List.Forall₂ (Owns h) (flat U) (tops ups L) := by
  have hf := hL.holds.2.fathers
  rw [fathersOf, forall₂_map_left_iff] at hf
  have hl := hL.linked.1
  have hl' : List.Forall₂ (fun (x : NodePtr × List T × GroupPtr) (g : ℕ × List ℕ) =>
      (x.2.2, x.2.1.length + 1) = (g.1, g.2.length)) (flat U) (tops ups L) := by
    rw [← forall₂_map_left_iff (R := fun a (g : ℕ × List ℕ) => a = (g.1, g.2.length)),
      ← forall₂_map_right_iff, forall₂_eq_eq_eq]
    exact hl
  refine List.forall₂_iff_get.mpr ⟨hf.length_eq, fun i h₁ h₂ => ?_⟩
  obtain ⟨hgrp, hfa⟩ := (List.forall₂_iff_get.mp hf).2 i h₁ h₂
  have heq := (List.forall₂_iff_get.mp hl').2 i h₁ h₂
  simp only [Prod.mk.injEq] at heq
  exact ⟨heq.1.symm, heq.2.symm, hgrp, hfa⟩

omit [IndexKey T] in
theorem length_flat_tops (U : InternalView T) (ups : List (InternalView T)) (L : LeafView T) :
    ((tops (U :: ups) L).flatMap (·.2)).length = (flat U).length := by
  rw [flatMap_tops_cons, length_map]

theorem Level.lengths (hL : Level h fs F (U :: ups) L) :
    (lowerFirsts F U).map List.length = (tops ups L).map (·.2.length) := by
  have hlen : F.length = (flat U).length := by rw [hL.length, length_flat_tops]
  have hl := congrArg (List.map Prod.snd) hL.linked.1
  simp only [map_map] at hl
  have hz : (lowerFirsts F U).map List.length = (flat U).map fun x => x.2.1.length + 1 := by
    rw [lowerFirsts, map_zipWith]
    apply ext_getElem?
    intro i
    rw [getElem?_zipWith, getElem?_map]
    rcases Nat.lt_or_ge i F.length with hi | hi
    · rw [getElem?_eq_getElem hi, getElem?_eq_getElem (hlen ▸ hi)]
      rfl
    · rw [getElem?_eq_none hi, getElem?_eq_none (hlen ▸ hi)]
      rfl
  rw [hz]
  exact hl

theorem Level.below (hL : Level h fs F (U :: ups) L) :
    Level h (fathersOf U) (lowerFirsts F U).flatten ups L := by
  refine ⟨hL.holds.2, hL.linked.2, hL.firsts, ?_⟩
  rw [length_flatten, hL.lengths, length_flatMap]

theorem forall₂_of_flatten : ∀ {as : List (List α)}
    {bs : List (List β)}, as.map List.length = bs.map List.length →
    List.Forall₂ R as.flatten bs.flatten → List.Forall₂ (List.Forall₂ R) as bs
  | [], [], _, _ => .nil
  | [], _ :: _, hlen, _ => by simp at hlen
  | _ :: _, [], hlen, _ => by simp at hlen
  | a :: as, b :: bs, hlen, hR => by
    simp only [map_cons, List.cons.injEq] at hlen
    simp only [flatten_cons] at hR
    have htake := forall₂_take a.length hR
    have hdrop := forall₂_drop a.length hR
    rw [take_left' rfl, take_left' hlen.1.symm] at htake
    rw [drop_left' rfl, drop_left' hlen.1.symm] at hdrop
    exact .cons htake (forall₂_of_flatten hlen.2 hdrop)

theorem LeafNodes.node_of_mem (hL : LeafNodes h fs L) {x : NodePtr × List (DataOffset T)}
    (hx : x ∈ flat L) : ∃ f, h.node x.1 = some (leafNode f x.2) := by
  obtain ⟨G, hG, hxG⟩ := List.mem_flatMap.mp hx
  obtain ⟨f, -, hf⟩ := forall₂_of_mem_right hL hG
  exact ⟨f, hf x hxG⟩

theorem InternalNodes.node_of_mem (hU : InternalNodes h fs U) (hx : x ∈ flat U) :
    ∃ f, h.node x.1 = some (internalNode f x.2.1 (some x.2.2)) := by
  obtain ⟨G, hG, hxG⟩ := List.mem_flatMap.mp hx
  obtain ⟨f, -, -, hf⟩ := forall₂_of_mem_right hU hG
  exact ⟨f, hf x hxG⟩

theorem Level.pieces {R : ℕ → T → Prop} (hL : Level h fs F (U :: ups) L)
    (hlow : List.Forall₂ R ((tops ups L).flatMap (·.2)) (lowerFirsts F U).flatten) {i : ℕ}
    (hx : (flat U)[i]? = some x) :
    ∃ f ns, F[i]? = some f ∧ (tops ups L)[i]? = some (x.2.2, ns) ∧ Owns h x (x.2.2, ns) ∧
      List.Forall₂ R ns (f :: x.2.1) := by
  rw [flatMap_def] at hlow
  have hpieces := forall₂_of_flatten (by rw [hL.lengths, map_map]; rfl) hlow
  obtain ⟨hi, rfl⟩ := List.getElem?_eq_some_iff.mp hx
  have howns := hL.owns
  have hig : i < (tops ups L).length := howns.length_eq ▸ hi
  have hiF : i < F.length := by rwa [hL.length, length_flat_tops]
  have hO := (List.forall₂_iff_get.mp howns).2 i hi hig
  have hP := (List.forall₂_iff_get.mp hpieces).2 i (by simpa using hig)
    (by simp [lowerFirsts]; exact ⟨hiF, hi⟩)
  obtain ⟨hO₁, hO₂, hO₃, hO₄⟩ := hO
  simp only [get_eq_getElem] at hO₁ hO₂ hO₃ hO₄
  have hg : ((flat U)[i].2.2, (tops ups L)[i].2) = (tops ups L)[i] := by rw [← hO₁]
  refine ⟨F[i], (tops ups L)[i].2, getElem?_eq_getElem hiF, ?_, ?_, ?_⟩
  · rw [hg]
    exact getElem?_eq_getElem hig
  · rw [hg]
    exact ⟨hO₁, hO₂, hO₃, hO₄⟩
  · simpa [lowerFirsts] using hP

theorem Level.leftmost : ∀ {ups : List (InternalView T)}
    {fs : List (Option NodePtr)} {F : List T}, Level h fs F ups L →
    List.Forall₂ (LeftmostKey h) ((tops ups L).flatMap (·.2)) F := by
  intro ups
  induction ups with
  | nil =>
    intro fs F hL
    rw [flatMap_tops_nil, forall₂_map_left_iff, forall₂_iff_get]
    have hfirsts := hL.firsts
    rw [spell, leafFirsts] at hfirsts
    have hlen : (flat L).length = F.length := by simpa using (congrArg List.length hfirsts).symm
    refine ⟨hlen, fun i h₁ h₂ => ?_⟩
    have hi := congrArg (·[i]?) hfirsts
    simp only [getElem?_map, getElem?_eq_getElem h₁, getElem?_eq_getElem h₂,
      Option.map_some, Option.some.injEq] at hi
    obtain ⟨d, hd, hkey⟩ := Option.map_eq_some_iff.mp hi.symm
    obtain ⟨ds, hds⟩ := List.head?_eq_some_iff.mp hd
    obtain ⟨f, hnode⟩ := hL.holds.1.node_of_mem (getElem_mem h₁)
    simp only [get_eq_getElem, ← hkey]
    exact .leaf hnode (by simp [hds]) (by simp [hds])
  | cons U ups ih =>
    intro fs F hL
    rw [flatMap_tops_cons, forall₂_map_left_iff, forall₂_iff_get]
    have hlen : (flat U).length = F.length := by rw [hL.length, length_flat_tops]
    refine ⟨hlen, fun i h₁ h₂ => ?_⟩
    obtain ⟨f, ns, hf, -, hO, hR⟩ := hL.pieces (ih hL.below) (getElem?_eq_getElem h₁)
    obtain rfl : F[i] = f := by simpa [getElem?_eq_getElem h₂] using hf
    obtain ⟨fa, hnode⟩ := hL.holds.1.node_of_mem (getElem_mem h₁)
    obtain ⟨b, hgrp⟩ := hO.group
    cases hR with
    | cons hc _ => exact .internal hnode hgrp rfl hc

theorem Level.suffix {back : List (InternalView T)} :
    ∀ {front : List (InternalView T)} {fs : List (Option NodePtr)} {F : List T},
      Level h fs F (front ++ back) L → ∃ fs' F', Level h fs' F' back L
  | [], _, _, hL => ⟨_, _, hL⟩
  | _ :: _, _, _, hL => hL.below.suffix

theorem Represents.mem_of_reached (hR : Represents t ups L) {d : ℕ} (hp : Reached t d p) :
    ∃ front back, ups = front ++ back ∧ d = front.length + 1 ∧
      p ∈ (tops back L).flatMap (·.2) := by
  obtain ⟨f, hLevel⟩ := hR.level
  induction hp with
  | root hroot =>
    obtain ⟨g, q, htops, hq⟩ := hR.root
    obtain rfl := Option.mem_unique hq hroot
    exact ⟨[], ups, rfl, rfl, by simp [htops]⟩
  | @child d i p c n g G _ hn hg hG _ hc ih =>
    obtain ⟨front, back, rfl, rfl, hp⟩ := ih
    obtain ⟨fs, F, hL⟩ := hLevel.suffix
    cases back with
    | nil =>
      -- a leaf has no children
      rw [flatMap_tops_nil] at hp
      obtain ⟨x, hx, rfl⟩ := List.mem_map.mp hp
      obtain ⟨f, hnode⟩ := hL.holds.1.node_of_mem hx
      obtain rfl := Option.mem_unique hnode hn
      cases hg
    | cons U back =>
      rw [flatMap_tops_cons] at hp
      obtain ⟨x, hx, rfl⟩ := List.mem_map.mp hp
      obtain ⟨f, hnode⟩ := hL.holds.1.node_of_mem hx
      obtain rfl := Option.mem_unique hnode hn
      obtain rfl : x.2.2 = g := Option.some.inj hg
      obtain ⟨j, hj⟩ := List.mem_iff_getElem?.mp hx
      obtain ⟨-, ns, -, hns, hO, -⟩ := hL.pieces hL.below.leftmost hj
      obtain ⟨b, hgrp⟩ := hO.group
      obtain rfl := Option.mem_unique hgrp hG
      exact ⟨front ++ [U], back, by simp, by simp,
        List.mem_flatMap.mpr ⟨_, mem_of_getElem? hns, mem_of_getElem? hc⟩⟩

theorem Represents.reached_of_mem (hR : Represents t ups L) :
    ∀ {front back : List (InternalView T)},
    ups = front ++ back → ∀ p ∈ (tops back L).flatMap (·.2), Reached t (front.length + 1) p := by
  intro front
  obtain ⟨f, hLevel⟩ := hR.level
  induction front using List.reverseRecOn with
  | nil =>
    rintro back rfl p hp
    obtain ⟨g, q, htops, hq⟩ := hR.root
    obtain rfl : p = q := by simpa [htops] using hp
    exact .root hq
  | append_singleton front U ih =>
    rintro back hups p hp
    rw [append_assoc, singleton_append] at hups
    obtain ⟨fs, F, hL⟩ := (hups ▸ hLevel).suffix
    obtain ⟨⟨g, ns⟩, hg, hpns⟩ := List.mem_flatMap.mp hp
    obtain ⟨x, hx, hO⟩ := forall₂_of_mem_right hL.owns hg
    obtain ⟨fa, hnode⟩ := hL.holds.1.node_of_mem hx
    have hreach := ih hups x.1 (by rw [flatMap_tops_cons]; exact mem_map_of_mem hx)
    obtain ⟨b, hgrp⟩ := hO.group
    obtain ⟨i, hi⟩ := List.mem_iff_getElem?.mp hpns
    obtain rfl : g = x.2.2 := hO.ptr
    rw [length_append, length_singleton]
    exact .child hreach hnode rfl hgrp (List.getElem?_eq_some_iff.mp hi).choose hi

/-! ### The list of leaf groups -/

omit [IndexKey T] in
theorem LeafChain.forwards : ∀ {prev : Option GroupPtr} {L : LeafView T},
    LeafChain h prev L none → Forwards h (headPtr L none) (L.map (·.ptr))
  | _, [], _ => .nil
  | _, _ :: _, ⟨hG, hL⟩ => .cons hG hL.forwards

omit [IndexKey T] in
theorem LeafChain.backwards : ∀ {prev next : Option GroupPtr} {L : LeafView T}
    {gs : List GroupPtr}, LeafChain h prev L next → Backwards h prev gs →
    Backwards h ((L.getLast?.map (·.ptr)).or prev) ((L.map (·.ptr)).reverse ++ gs)
  | _, _, [], _, _, hgs => hgs
  | prev, next, G :: L, gs, ⟨hG, hL⟩, hgs => by
    have := hL.backwards (Backwards.cons hG hgs)
    rw [map_cons, reverse_cons, append_assoc, singleton_append]
    cases L with
    | nil => simpa using this
    | cons G' L =>
      obtain ⟨y, hy⟩ : ∃ y, (G' :: L).getLast? = some y :=
        ⟨_, getLast?_eq_some_getLast (cons_ne_nil G' L)⟩
      rw [hy] at this
      rw [getLast?_cons_cons, hy]
      simpa using this

theorem headPtr_none (V : List (GroupView β)) : headPtr V none = V.head?.map (·.ptr) := by
  cases V <;> rfl

theorem Holds.groupEntries (hN : LeafNodes h fs L) (hC : LeafChain h none L none)
    {G : GroupView (List (DataOffset T))} (hG : G ∈ L) : groupNodes h G.ptr = G.nodes.map (·.1) ∧
      groupEntries h G.ptr = G.nodes.flatMap (·.2) := by
  obtain ⟨hd, tl, hgrp⟩ := hC.group_of_mem G hG
  have hnodes : groupNodes h G.ptr = G.nodes.map (·.1) := by simp [groupNodes, hgrp]
  refine ⟨hnodes, ?_⟩
  rw [CSB.groupEntries, hnodes, flatMap_map]
  refine flatMap_congr fun x hx => ?_
  obtain ⟨f, hf⟩ := hN.node_of_mem (List.mem_flatMap.mpr ⟨G, hG, hx⟩)
  simp [nodeEntries, hf, leafNode]

theorem Level.leafLevel (hL : Level h fs F ups L) :
    ∃ fs', LeafNodes h fs' L ∧ LeafChain h none L none := by
  obtain ⟨fs', F', hL'⟩ := Level.suffix (show Level h fs F (ups ++ []) L by simpa using hL)
  exact ⟨fs', hL'.holds⟩

/-- **A represented tree has the shape invariant.** -/
theorem Represents.shape (hR : Represents t ups L) : Shape t (entries L) := by
  obtain ⟨f, hLevel⟩ := hR.level
  obtain ⟨fs, hN, hC⟩ := hLevel.leafLevel
  refine ⟨?_, ?_, L.map (·.ptr), ?_, ?_, ?_, ?_, ?_⟩
  · intro d p u f ds hp hnode
    obtain ⟨front, back, rfl, rfl, hmem⟩ := hR.mem_of_reached hp
    obtain ⟨fs, F, hL⟩ := hLevel.suffix
    cases back with
    | nil => simp [hR.depth]
    | cons U back =>
      rw [flatMap_tops_cons] at hmem
      obtain ⟨x, hx, rfl⟩ := List.mem_map.mp hmem
      obtain ⟨fa, hnode'⟩ := hL.holds.1.node_of_mem hx
      cases hnode.symm.trans hnode'
  · intro d p u f ks c hp hnode
    obtain ⟨front, back, rfl, rfl, hmem⟩ := hR.mem_of_reached hp
    obtain ⟨fs, F, hL⟩ := hLevel.suffix
    cases back with
    | nil =>
      rw [flatMap_tops_nil] at hmem
      obtain ⟨x, hx, rfl⟩ := List.mem_map.mp hmem
      obtain ⟨fa, hnode'⟩ := hL.holds.1.node_of_mem hx
      cases hnode.symm.trans hnode'
    | cons U back =>
      rw [flatMap_tops_cons] at hmem
      obtain ⟨x, hx, rfl⟩ := List.mem_map.mp hmem
      obtain ⟨fa, hnode'⟩ := hL.holds.1.node_of_mem hx
      obtain ⟨rfl, -, rfl, rfl⟩ : u = x.2.1.length ∧ f = fa ∧
          ks = x.2.1 ++ List.replicate (maxKeys T - x.2.1.length) IndexKey.invalid ∧
          c = some x.2.2 := by
        simpa [internalNode] using hnode.symm.trans hnode'
      obtain ⟨j, hj⟩ := List.mem_iff_getElem?.mp hx
      obtain ⟨f', ns, -, -, hO, hkeys⟩ := hL.pieces hL.below.leftmost hj
      have hlen := hO.length
      obtain ⟨b, hgrp⟩ := hO.group
      rw [hlen] at hgrp
      refine ⟨x.2.2, ns, b, rfl, hgrp, hlen, hO.father, fun i hi => ?_⟩
      -- key `i` is the first key of child `i + 1`
      obtain ⟨q, hq⟩ : ∃ q, ns[i + 1]? = some q :=
        ⟨_, getElem?_eq_getElem (by simp only at hlen; omega)⟩
      obtain ⟨k, hk⟩ : ∃ k, x.2.1[i]? = some k := ⟨_, getElem?_eq_getElem hi⟩
      refine ⟨k, q, by rw [getElem?_append_left hi, hk], hq, ?_⟩
      exact forall₂_zip hkeys
        (mem_of_getElem? (List.getElem?_zip_eq_some.mpr ⟨hq, by simpa using hk⟩))
  · rw [hR.header, ← headPtr_none]
    exact hC.forwards
  · rw [hR.tailer]
    simpa using hC.backwards (.nil : Backwards t.heap none [])
  · rw [flatMap_map, entries, flat, flatMap_assoc]
    exact flatMap_congr fun G hG => (Holds.groupEntries hN hC hG).2
  · rw [← map_reverse, flatMap_map, entries, flat, flatMap_assoc,
      reverse_flatMap]
    refine flatMap_congr fun G hG => ?_
    rw [(Holds.groupEntries hN hC (List.mem_reverse.mp hG)).2]
    rfl
  · intro g hg p hp
    obtain ⟨G, hG, rfl⟩ := List.mem_map.mp hg
    rw [(Holds.groupEntries hN hC hG).1] at hp
    rw [hR.depth]
    refine hR.reached_of_mem (append_nil ups).symm p ?_
    rw [flatMap_tops_nil, flat, map_flatMap]
    exact List.mem_flatMap.mpr ⟨G, hG, hp⟩

/-- **`BulkLoad` builds the shape invariant.** -/
theorem bulkLoad_shape (aray : List (DataOffset T)) (hn : 1 ≤ aray.length) :
    ∃ t, bulkLoad (CSBPlusTree.new T) aray = .ok t ∧ Shape t aray := by
  obtain ⟨t, ups, L, ht, hR, hE, -⟩ := bulkLoad_represents (ne_nil_of_length_pos hn)
  exact ⟨t, ht, hE ▸ hR.shape⟩

theorem bulkLoad_shape_nine :
    ∃ t, bulkLoad (CSBPlusTree.new CInt)
        (List.replicate 9 ⟨⟨7, by norm_num, by norm_num⟩, 1, 2⟩) = .ok t ∧
      Shape t (List.replicate 9 ⟨⟨7, by norm_num, by norm_num⟩, 1, 2⟩) :=
  bulkLoad_shape _ (by simp)

end CSB
