/-
The picture of a CSB+ tree: levels of groups of nodes, from the root down.

The `k`-th node of a level is the father of the `k`-th group of the level below.  `Holds` says that
a heap contains exactly these levels, `Forest` what holds while a tree is built, `Represents` what
holds of a finished one.
-/
import ClaimsDB.CSBNode
import Mathlib.Data.List.SplitLengths

namespace CSB

open List

/-- A group with its pointer and its nodes, each with what it holds. -/
structure GroupView (β : Type) where
  ptr : GroupPtr
  nodes : List (NodePtr × β)

abbrev LeafView (T : Type) := List (GroupView (List (DataOffset T)))

abbrev InternalView (T : Type) := List (GroupView (List T × GroupPtr))

def flat {β : Type} (V : List (GroupView β)) : List (NodePtr × β) := V.flatMap (·.nodes)

variable {β : Type}

@[simp] theorem flat_nil : flat ([] : List (GroupView β)) = [] := rfl

@[simp] theorem flat_cons (G : GroupView β) (V : List (GroupView β)) :
    flat (G :: V) = G.nodes ++ flat V := by
  simp [flat]

@[simp] theorem flat_append (V W : List (GroupView β)) : flat (V ++ W) = flat V ++ flat W := by
  simp [flat]

def GroupView.bare {β : Type} (G : GroupView β) : ℕ × List ℕ :=
  (G.ptr, G.nodes.map (·.1))

def decorate {β : Type} : List (ℕ × List ℕ) → List β → List (GroupView β)
  | [], _ => []
  | (g, ns) :: V, bs => ⟨g, ns.zip bs⟩ :: decorate V (bs.drop ns.length)

theorem zip_append_left {α : Type} : ∀ (l₁ l₂ : List α) (bs : List β),
    (l₁ ++ l₂).zip bs = l₁.zip bs ++ l₂.zip (bs.drop l₁.length)
  | [], _, _ => by simp
  | _ :: _, _, [] => by simp
  | _ :: l₁, l₂, _ :: bs => by simp [zip_append_left l₁ l₂ bs]

theorem flat_decorate : ∀ (V : List (ℕ × List ℕ)) (bs : List β),
    flat (decorate V bs) = (V.flatMap (·.2)).zip bs
  | [], bs => by simp [decorate]
  | (g, ns) :: V, bs => by
    rw [decorate, flat_cons, flat_decorate V, flatMap_cons, zip_append_left]

theorem map_bare_decorate : ∀ (V : List (ℕ × List ℕ)) (bs : List β),
    (V.flatMap (·.2)).length ≤ bs.length → (decorate V bs).map (·.bare) = V
  | [], bs, _ => by simp [decorate]
  | (g, ns) :: V, bs, hle => by
    replace hle : ns.length + (V.flatMap (·.2)).length ≤ bs.length := by
      rwa [flatMap_cons, length_append] at hle
    rw [decorate, map_cons, map_bare_decorate V _ (by rw [length_drop]; omega),
      GroupView.bare, map_fst_zip (show ns.length ≤ bs.length by omega)]

def entries {T : Type} (L : LeafView T) : List (DataOffset T) := (flat L).flatMap (·.2)

variable {T : Type} [IndexKey T]

/-- A leaf node that uses the entries `ds`; the rest of the array is `INVALID`. -/
def leafNode (father : Option NodePtr) (ds : List (DataOffset T)) : CCSBNode T :=
  ⟨ds.length, father,
    .leaf (ds ++ List.replicate (maxDatas T - ds.length) (DataOffset.invalid T))⟩

/-- An internal node that uses the keys `ks`; the rest of the array is `INVALID`. -/
def internalNode (father : Option NodePtr) (ks : List T) (child : Option GroupPtr) :
    CCSBNode T :=
  ⟨ks.length, father,
    .internal (ks ++ List.replicate (maxKeys T - ks.length) IndexKey.invalid) child⟩

def LeafNodes (h : Heap T) (fathers : List (Option NodePtr)) (L : LeafView T) : Prop :=
  List.Forall₂ (fun f G => ∀ x ∈ G.nodes, h.node x.1 = some (leafNode f x.2)) fathers L

def headPtr {β : Type} (V : List (GroupView β)) (next : Option GroupPtr) : Option GroupPtr :=
  match V with
  | [] => next
  | G :: _ => some G.ptr

/-- The leaf groups of a level are in the heap and doubly linked, the first one
behind `prev` and the last one before `next`. -/
def LeafChain (h : Heap T) : Option GroupPtr → LeafView T → Option GroupPtr → Prop
  | _, [], _ => True
  | prev, G :: L, next =>
    h.group G.ptr = some ⟨G.nodes.length, G.nodes.map (·.1), .leaf prev (headPtr L next)⟩ ∧
      LeafChain h (some G.ptr) L next

def InternalNodes (h : Heap T) (fathers : List (Option NodePtr)) (U : InternalView T) :
    Prop :=
  List.Forall₂ (fun f G =>
    h.group G.ptr = some ⟨G.nodes.length, G.nodes.map (·.1), .internal⟩ ∧
      ∀ x ∈ G.nodes, h.node x.1 = some (internalNode f x.2.1 (some x.2.2))) fathers U

def fathersOf {β : Type} (V : List (GroupView β)) : List (Option NodePtr) :=
  (flat V).map fun x => some x.1

def Holds (h : Heap T) : List (Option NodePtr) → List (InternalView T) → LeafView T → Prop
  | fathers, [], L => LeafNodes h fathers L ∧ LeafChain h none L none
  | fathers, U :: ups, L => InternalNodes h fathers U ∧ Holds h (fathersOf U) ups L

def tops : List (InternalView T) → LeafView T → List (ℕ × List ℕ)
  | [], L => L.map (·.bare)
  | U :: _, _ => U.map (·.bare)

def Linked : List (InternalView T) → LeafView T → Prop
  | [], _ => True
  | U :: ups, L =>
    (flat U).map (fun x => (x.2.2, x.2.1.length + 1))
        = (tops ups L).map (fun g => (g.1, g.2.length)) ∧
      Linked ups L

/-- The first keys of the level below, read off the first keys and the keys of a level. -/
def spell : List T → List (InternalView T) → List T
  | firsts, [] => firsts
  | firsts, U :: ups =>
    spell (List.zipWith (fun f x => f :: x.2.1) firsts (flat U)).flatten ups

def leafFirsts (L : LeafView T) : List (Option T) := (flat L).map fun x => x.2.head?.map (·.key)

def nodePtrs (ups : List (InternalView T)) (L : LeafView T) : List ℕ :=
  (ups.flatMap fun U => (flat U).map (·.1)) ++ (flat L).map (·.1)

def groupPtrs (ups : List (InternalView T)) (L : LeafView T) : List ℕ :=
  (ups.flatMap fun U => U.map (·.ptr)) ++ L.map (·.ptr)

/-- Levels that are in the heap, with distinct allocated objects and within
the capacities of their arrays. -/
structure Forest (h : Heap T) (fathers : List (Option NodePtr)) (ups : List (InternalView T))
    (L : LeafView T) : Prop where
  holds : Holds h fathers ups L
  linked : Linked ups L
  nodup_nodes : (nodePtrs ups L).Nodup
  nodup_groups : (groupPtrs ups L).Nodup
  nodes_lt : ∀ p ∈ nodePtrs ups L, p < h.nextNode
  groups_lt : ∀ g ∈ groupPtrs ups L, g < h.nextGroup
  datas_le : ∀ x ∈ flat L, x.2.length ≤ maxDatas T
  keys_le : ∀ U ∈ ups, ∀ x ∈ flat U, x.2.1.length ≤ maxKeys T

/-- The finished tree `t` has the internal levels `ups` and the leaf level `L`. -/
structure Represents (t : CSBPlusTree T) (ups : List (InternalView T)) (L : LeafView T) :
    Prop where
  forest : Forest t.heap [none] ups L
  root : ∃ g p, tops ups L = [(g, [p])] ∧ t.csbRoot = some p
  depth : t.csbDepth = ups.length + 1
  header : t.leafHeader = L.head?.map (·.ptr)
  tailer : t.leafTailer = L.getLast?.map (·.ptr)
  firsts : ∃ f, (spell [f] ups).map some = leafFirsts L

/-! ### Reading and writing the heap -/

namespace Heap

section

variable (h : Heap T) (p : NodePtr) (n : CCSBNode T)

include h p n

omit [IndexKey T] in
@[simp] theorem setNode_node : (h.setNode p n).node = Function.update h.node p (some n) := rfl

omit [IndexKey T] in
@[simp] theorem setNode_group : (h.setNode p n).group = h.group := rfl

omit [IndexKey T] in
@[simp] theorem setNode_nextNode : (h.setNode p n).nextNode = h.nextNode := rfl

omit [IndexKey T] in
@[simp] theorem setNode_nextGroup : (h.setNode p n).nextGroup = h.nextGroup := rfl

end

section

variable (h : Heap T) (g : GroupPtr) (G : CCSBNodeGroup)

include h g G

omit [IndexKey T] in
@[simp] theorem setGroup_group : (h.setGroup g G).group = Function.update h.group g (some G) := rfl

omit [IndexKey T] in
@[simp] theorem setGroup_node : (h.setGroup g G).node = h.node := rfl

omit [IndexKey T] in
@[simp] theorem setGroup_nextNode : (h.setGroup g G).nextNode = h.nextNode := rfl

omit [IndexKey T] in
@[simp] theorem setGroup_nextGroup : (h.setGroup g G).nextGroup = h.nextGroup := rfl

end

omit [IndexKey T] in
theorem setNode_setNode (h : Heap T) (p : NodePtr) (n m : CCSBNode T) :
    (h.setNode p n).setNode p m = h.setNode p m := by
  simp [setNode]

variable {h : Heap T} {p : NodePtr} {n : CCSBNode T} {g : GroupPtr}

omit [IndexKey T] in
theorem readNode_eq (hp : h.node p = some n) : h.readNode (some p) = .ok n := by
  simp [readNode, hp]

omit [IndexKey T] in
theorem readGroup_eq {G : CCSBNodeGroup} (hg : h.group g = some G) :
    h.readGroup (some g) = .ok G := by
  simp [readGroup, hg]

omit [IndexKey T] in
theorem modifyNode_eq {m : CCSBNode T} {f : CCSBNode T → Run (CCSBNode T)}
    (hp : h.node p = some n) (hf : f n = .ok m) :
    h.modifyNode (some p) f = .ok (h.setNode p m) := by
  simp only [modifyNode, hp, hf]
  rfl

omit [IndexKey T] in
theorem getNode_eq {ns : List NodePtr} {b : GroupBody} (hg : h.group g = some ⟨ns.length, ns, b⟩)
    {i : ℕ} (hi : ns[i]? = some p) : h.getNode (some g) i = .ok (some p) := by
  have hlt : i < ns.length := (List.getElem?_eq_some_iff.mp hi).choose
  simp only [getNode, readGroup_eq hg, Run.bind_ok]
  rw [if_neg (by omega), Run.index_eq_ok hi]
  rfl

end Heap

/-! ### What a change of the heap leaves alone -/

variable {h h' : Heap T} {fathers : List (Option NodePtr)} {L : LeafView T}

theorem LeafNodes.frame (hL : LeafNodes h fathers L) (hn : ∀ x ∈ flat L, h'.node x.1 = h.node x.1) :
    LeafNodes h' fathers L := by
  induction hL with
  | nil => exact .nil
  | cons hG _ ih =>
    refine .cons (fun x hx => ?_) (ih fun x hx => hn x (by simp [hx]))
    rw [hn x (by simp [hx]), hG x hx]

omit [IndexKey T] in
theorem LeafChain.frame {next : Option GroupPtr} :
    ∀ {prev : Option GroupPtr} {L : LeafView T}, LeafChain h prev L next →
      (∀ G ∈ L, h'.group G.ptr = h.group G.ptr) → LeafChain h' prev L next
  | _, [], _, _ => trivial
  | _, G :: L, ⟨hG, hL⟩, hg =>
    ⟨by rw [hg G (by simp), hG], LeafChain.frame hL fun G' hG' => hg G' (by simp [hG'])⟩

theorem InternalNodes.frame {U : InternalView T} (hU : InternalNodes h fathers U)
    (hn : ∀ x ∈ flat U, h'.node x.1 = h.node x.1) (hg : ∀ G ∈ U, h'.group G.ptr = h.group G.ptr) :
    InternalNodes h' fathers U := by
  induction hU with
  | nil => exact .nil
  | cons hG _ ih =>
    refine .cons ⟨?_, fun x hx => ?_⟩
      (ih (fun x hx => hn x (by simp [hx])) fun G' hG' => hg G' (by simp [hG']))
    · rw [hg _ (by simp), hG.1]
    · rw [hn x (by simp [hx]), hG.2 x hx]

theorem Holds.frame :
    ∀ {ups : List (InternalView T)} {fathers : List (Option NodePtr)}, Holds h fathers ups L →
      (∀ p ∈ nodePtrs ups L, h'.node p = h.node p) →
      (∀ g ∈ groupPtrs ups L, h'.group g = h.group g) → Holds h' fathers ups L := by
  intro ups
  induction ups with
  | nil =>
    rintro fathers ⟨hN, hC⟩ hn hg
    refine ⟨hN.frame fun x hx => hn _ ?_, hC.frame fun G hG => hg _ ?_⟩
    · simpa [nodePtrs] using ⟨x.2, hx⟩
    · simpa [groupPtrs] using ⟨G, hG, rfl⟩
  | cons U ups ih =>
    rintro fathers ⟨hU, hrest⟩ hn hg
    refine ⟨hU.frame (fun x hx => hn _ ?_) fun G hG => hg _ ?_,
      ih hrest (fun p hp => hn p ?_) fun g hp => hg g ?_⟩
    · simp only [nodePtrs, flatMap_cons, mem_append, mem_map]
      exact .inl (.inl ⟨x, hx, rfl⟩)
    · simp only [groupPtrs, flatMap_cons, mem_append, mem_map]
      exact .inl (.inl ⟨G, hG, rfl⟩)
    · simp only [nodePtrs, flatMap_cons, mem_append] at hp ⊢
      tauto
    · simp only [groupPtrs, flatMap_cons, mem_append] at hp ⊢
      tauto

end CSB
