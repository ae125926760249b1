/-
Outer joins over partitions.  The context declares the partition key of one child; rows that are
padded on that side have no key, and are wherever the row of the other child is.

* **`keysTogether_iff`** — where rows are placed by their keys, only padded rows can be elsewhere;
* **`outer_join_context_truthful_iff`** — when the context of an outer join is truthful;
* **`rightJoin_keys_apart`** — two null keys in two partitions.
-/
import ClaimsDB.EqualJoinPlanning

namespace Planner

open Multiset

open Expressions (DataType)
open Partitioning (Memory)

variable {V : Type}

/-- `join_type_`, the numbers 0, 1 and 2.  `AstJoin` has exchanged the operands of a `LEFT JOIN`
when it makes a join of type 0. -/
inductive OuterJoinType
  | left
  | right
  | full
  deriving DecidableEq, Repr

/-- `PhysicalOuterHashJoin::Next` looks at the type only to know a full join: a right tuple without
a partner is always padded on the left, also in a join of type 0. -/
def OuterJoinType.padsLeft : OuterJoinType → Bool
  | .left | .right | .full => true

/-- The second pass over the hash table, for the left tuples without a partner. -/
def OuterJoinType.padsRight : OuterJoinType → Bool
  | .left | .right => false
  | .full => true

structure NullKeys (V : Type) extends Keys V where
  null : DataType → V
  same : DataType → V → V → Bool
  same_null : ∀ t, same t (null t) (null t) = true
  same_comm : ∀ t v w, same t v w = same t w v
  place_of_same : ∀ t v w n, same t v w = true → place t v n = place t w n

def unmatched (m : List V → List V → Bool) (A B : Multiset (List V)) : Multiset (List V) :=
  A.filter fun a => ∀ b ∈ B, m a b = false

def nulls (K : NullKeys V) (attributes : List Attribute) : List V :=
  attributes.map fun a => K.null a.attrType.type

def outerRows (K : NullKeys V) (type : OuterJoinType) (left right : PlanContext)
    (m : List V → List V → Bool) (A B : Multiset (List V)) : Multiset (List V) :=
  joinRows (Flows.join m A B) +
    (if type.padsRight then (unmatched m A B).map (· ++ nulls K right.attributeList) else 0) +
    (if type.padsLeft then
      (unmatched (fun b a => m a b) B A).map (nulls K left.attributeList ++ ·) else 0)

/-- `LogicalOuterJoin`: the context, and what arrives from both children. -/
def outerJoinInputs (K : NullKeys V) (nodes : List ℕ) (pairs : List JoinPair) (cardinality : ℕ)
    (left right : Plan V) : Run (PlanContext × Flow V × Flow V) := do
  let keys := updateJoinKeys left.1 right.1 pairs
  let policy := decideRepartition keys left.1 right.1
  let out ← getPlanContext nodes cardinality keys policy left.1 right.1
  let (toLeft, toRight) ← routes keys left.1 right.1 out policy
  return (out, send K.toKeys left.1 out left.2 toLeft, send K.toKeys right.1 out right.2 toRight)

def outerJoin (K : NullKeys V) (nodes : List ℕ) (type : OuterJoinType) (pairs : List JoinPair)
    (cardinality : ℕ) (left right : Plan V) : Run (Plan V) := do
  let (out, A, B) ← outerJoinInputs K nodes pairs cardinality left right
  let m := keysEqual K.toKeys left.1.attributeList right.1.attributeList pairs
  return (out, fun p => outerRows K type left.1 right.1 m (A p) (B p))

/-! ### Equal keys in one place -/

def sameCell (K : NullKeys V) : Option (DataType × V) → Option (DataType × V) → Bool
  | some (t, v), some (_, w) => K.same t v w
  | _, _ => false

/-- **A context is truthful about keys**: rows with equal partition keys are in one partition. -/
def KeysTogether (K : NullKeys V) (plan : Plan V) : Prop :=
  ∀ j a, plan.1.attributeList[j]? = some a → a.attrName = plan.1.partitionKey.attrName →
    ∀ p q, ∀ x ∈ plan.2 p, ∀ y ∈ plan.2 q,
      sameCell K (cellAt plan.1.attributeList x j) (cellAt plan.1.attributeList y j) = true → p = q

/-- The rows of `O` without a partner are together, with those of `D` that have a null key. -/
structure PaddedTogether (K : NullKeys V) (attributes : List Attribute) (name : String)
    (keepsUnmatched : Bool) (m : List V → List V → Bool) (D O : Flow V) : Prop where
  padded : ∀ p q, unmatched (fun o d => m d o) (O p) (D p) ≠ 0 →
    unmatched (fun o d => m d o) (O q) (D q) ≠ 0 → p = q
  null : ∀ p q, unmatched (fun o d => m d o) (O p) (D p) ≠ 0 → ∀ d ∈ D q,
    (keepsUnmatched = true ∨ ∃ o ∈ O q, m d o = true) →
    (∃ t v, cell attributes d name = some (t, v) ∧ K.same t v (K.null t) = true) → p = q

/-- The declared side is not padded, or the padded rows are together. -/
def Together (K : NullKeys V) (type : OuterJoinType) (pairs : List JoinPair) (left right : Plan V)
    (out : PlanContext) (A B : Flow V) : Prop :=
  let keys := updateJoinKeys left.1 right.1 pairs
  let m := keysEqual K.toKeys left.1.attributeList right.1.attributeList pairs
  if (decideRepartition keys left.1 right.1).declaresLeft then
    type.padsLeft = true → PaddedTogether K left.1.attributeList out.partitionKey.attrName
      type.padsRight m A B
  else
    type.padsRight = true → PaddedTogether K right.1.attributeList out.partitionKey.attrName
      type.padsLeft (fun r l => m l r) B A

section

variable {K : NullKeys V}

variable {m : List V → List V → Bool} {A B : Multiset (List V)} {attributes : List Attribute}
  {j : ℕ} {a : Attribute}

theorem mem_outerRows {type : OuterJoinType} {left right : PlanContext} {x : List V} :
    x ∈ outerRows K type left right m A B ↔
      (∃ l ∈ A, ∃ r ∈ B, m l r = true ∧ l ++ r = x) ∨
      (type.padsRight = true ∧ ∃ l ∈ unmatched m A B, l ++ nulls K right.attributeList = x) ∨
      (type.padsLeft = true ∧
        ∃ r ∈ unmatched (fun b a => m a b) B A, nulls K left.attributeList ++ r = x) := by
  have hjoin : x ∈ joinRows (Flows.join m A B) ↔ ∃ l ∈ A, ∃ r ∈ B, m l r = true ∧ l ++ r = x := by
    simp only [joinRows, mem_map, Flows.mem_join, Prod.exists]
    constructor
    · rintro ⟨l, r, ⟨hl, hr, hm⟩, hx⟩
      exact ⟨l, hl, r, hr, hm, hx⟩
    · rintro ⟨l, hl, r, hr, hm, hx⟩
      exact ⟨l, r, ⟨hl, hr, hm⟩, hx⟩
  have hpad : ∀ (b : Bool) (X : Multiset (List V)), x ∈ (if b then X else 0) ↔ b = true ∧ x ∈ X := by
    intro b X
    cases b <;> simp
  rw [outerRows, mem_add, mem_add, or_assoc, hjoin, hpad, hpad, mem_map,
    mem_map]

/-- The keys of side `D` that a join shows in partition `p`, a null for each padded row. -/
def Shown (K : NullKeys V) (attributes : List Attribute) (name : String) (t : DataType)
    (pads keepsUnmatched : Bool) (m : List V → List V → Bool) (D O : Flow V) (p : ℕ)
    (c : Option (DataType × V)) : Prop :=
  (∃ d ∈ D p, (keepsUnmatched = true ∨ ∃ o ∈ O p, m d o = true) ∧ cell attributes d name = c) ∨
  (pads = true ∧ unmatched (fun o d => m d o) (O p) (D p) ≠ 0 ∧ some (t, K.null t) = c)

/-- **Equal keys in one place**: where the rows of the declared side are placed by their keys, only
padded rows can be elsewhere. -/
theorem keysTogether_iff {name : String} {t : DataType} {pads keepsUnmatched : Bool}
    {D O : Flow V} {n : ℕ}
    (hplaced : ∀ p, ∀ d ∈ D p, placeOf K.toKeys n (cell attributes d name) = p)
    (htype : ∀ p, ∀ d ∈ D p, ∃ v, cell attributes d name = some (t, v)) :
    (∀ p q c c', Shown K attributes name t pads keepsUnmatched m D O p c →
      Shown K attributes name t pads keepsUnmatched m D O q c' → sameCell K c c' = true → p = q) ↔
    (pads = true → PaddedTogether K attributes name keepsUnmatched m D O) := by
  constructor
  · intro h hpads
    refine ⟨fun p q hp hq => h p q _ _ (.inr ⟨hpads, hp, rfl⟩) (.inr ⟨hpads, hq, rfl⟩)
      (K.same_null t), fun p q hp d hd hkept hnull => ?_⟩
    obtain ⟨t', v, hcell, hsame⟩ := hnull
    obtain ⟨v', hv'⟩ := htype q d hd
    obtain ⟨rfl, rfl⟩ := Prod.mk.inj (Option.mem_unique hcell hv')
    refine h p q _ _ (.inr ⟨hpads, hp, rfl⟩) (.inl ⟨d, hd, hkept, hcell⟩) ?_
    rw [sameCell, K.same_comm]
    exact hsame
  · rintro h p q c c' (⟨d, hd, hkept, rfl⟩ | ⟨hpads, hp, rfl⟩) (⟨d', hd', hkept', rfl⟩ |
      ⟨hpads', hq, rfl⟩) hsame
    · -- two rows with keys: equal keys hash alike
      obtain ⟨v, hv⟩ := htype p d hd
      obtain ⟨w, hw⟩ := htype q d' hd'
      rw [← hplaced p d hd, ← hplaced q d' hd', hv, hw]
      rw [hv, hw] at hsame
      exact K.place_of_same t v w n hsame
    · obtain ⟨v, hv⟩ := htype p d hd
      rw [hv] at hsame
      exact ((h hpads').null q p hq d hd hkept ⟨t, v, hv, hsame⟩).symm
    · obtain ⟨w, hw⟩ := htype q d' hd'
      rw [hw, sameCell, K.same_comm] at hsame
      exact (h hpads).null p q hp d' hd' hkept' ⟨t, w, hw, hsame⟩
    · exact (h hpads).padded p q hp hq

theorem cellAt_nulls (ha : attributes[j]? = some a) :
    cellAt attributes (nulls K attributes) j = some (a.attrType.type, K.null a.attrType.type) := by
  simp [cellAt, nulls, ha]

theorem exists_cellAt {row : List V} (ha : attributes[j]? = some a)
    (hrow : row.length = attributes.length) :
    ∃ v, cellAt attributes row j = some (a.attrType.type, v) := by
  obtain ⟨hj, -⟩ := List.getElem?_eq_some_iff.1 ha
  exact ⟨row[j], by simp [cellAt, ha, List.getElem?_eq_getElem (hrow ▸ hj)]⟩

theorem keysTogether_iff_shown {plan : Plan V}
    (hn : (plan.1.attributeList.map (·.attrName)).Nodup) (hj : plan.1.attributeList[j]? = some a)
    (ha : a.attrName = plan.1.partitionKey.attrName) {S : ℕ → Option (DataType × V) → Prop}
    (hS : ∀ p c, (∃ x ∈ plan.2 p, cellAt plan.1.attributeList x j = c) ↔ S p c) :
    KeysTogether K plan ↔ ∀ p q c c', S p c → S q c' → sameCell K c c' = true → p = q := by
  constructor
  · intro h p q c c' hc hc' hsame
    obtain ⟨x, hx, rfl⟩ := (hS p c).2 hc
    obtain ⟨y, hy, rfl⟩ := (hS q c').2 hc'
    exact h j a hj ha p q x hx y hy hsame
  · intro h j' a' hj' ha' p q x hx y hy hsame
    have hjj : columnToId plan.1.attributeList a.attrName = some j := columnToId_eq_some hn hj
    have hjj' : columnToId plan.1.attributeList a'.attrName = some j' := columnToId_eq_some hn hj'
    rw [ha', ← ha] at hjj'
    obtain rfl := Option.mem_unique hjj hjj'
    exact h p q _ _ ((hS p _).1 ⟨x, hx, rfl⟩) ((hS q _).1 ⟨y, hy, rfl⟩) hsame

/-- A row shows the key of its own side, or a null where that side is padded. -/
theorem shown_iff {attributes : List Attribute} {name : String} {t : DataType}
    {pads keeps : Bool} {m : List V → List V → Bool} {D O : Flow V} {p : ℕ}
    {rows : Multiset (List V)} {key : List V → Option (DataType × V)}
    (pair : List V → List V → List V) (nullD nullO : List V)
    (hmem : ∀ x, x ∈ rows ↔ (∃ d ∈ D p, ∃ o ∈ O p, m d o = true ∧ pair d o = x) ∨
      (keeps = true ∧ ∃ d ∈ unmatched m (D p) (O p), pair d nullO = x) ∨
      (pads = true ∧ ∃ o ∈ unmatched (fun o d => m d o) (O p) (D p), pair nullD o = x))
    (hcell : ∀ d ∈ D p, ∀ o, o ∈ O p ∨ o = nullO → key (pair d o) = cell attributes d name)
    (hnull : ∀ o ∈ O p, key (pair nullD o) = some (t, K.null t)) (c : Option (DataType × V)) :
    (∃ x ∈ rows, key x = c) ↔ Shown K attributes name t pads keeps m D O p c := by
  constructor
  · rintro ⟨x, hx, rfl⟩
    rcases (hmem x).1 hx with ⟨d, hd, o, ho, hm, rfl⟩ | ⟨hkeeps, d, hd, rfl⟩ | ⟨hpads, o, ho, rfl⟩
    · exact .inl ⟨d, hd, .inr ⟨o, ho, hm⟩, (hcell d hd o (.inl ho)).symm⟩
    · have hd := (mem_filter.1 hd).1
      exact .inl ⟨d, hd, .inl hkeeps, (hcell d hd _ (.inr rfl)).symm⟩
    · exact .inr ⟨hpads, fun h => by simp [h] at ho, (hnull o (mem_filter.1 ho).1).symm⟩
  · rintro (⟨d, hd, hkept, rfl⟩ | ⟨hpads, hne, rfl⟩)
    · by_cases hpartner : ∃ o ∈ O p, m d o = true
      · obtain ⟨o, ho, hm⟩ := hpartner
        exact ⟨_, (hmem _).2 (.inl ⟨d, hd, o, ho, hm, rfl⟩), hcell d hd o (.inl ho)⟩
      · have hkeeps := hkept.resolve_right hpartner
        have hun : d ∈ unmatched m (D p) (O p) := by
          refine mem_filter.2 ⟨hd, fun o ho => ?_⟩
          by_contra hm
          exact hpartner ⟨o, ho, Bool.not_eq_false _ ▸ hm⟩
        exact ⟨_, (hmem _).2 (.inr (.inl ⟨hkeeps, d, hun, rfl⟩)), hcell d hd _ (.inr rfl)⟩
    · obtain ⟨o, ho⟩ := exists_mem_of_ne_zero hne
      exact ⟨_, (hmem _).2 (.inr (.inr ⟨hpads, o, ho, rfl⟩)), hnull o (mem_filter.1 ho).1⟩

theorem shown_left (type : OuterJoinType) (left right : PlanContext) (m : List V → List V → Bool)
    {A : Flow V} (B : Flow V) (hA : ∀ p, ∀ l ∈ A p, l.length = left.attributeList.length)
    (hn : (left.attributeList.map (·.attrName)).Nodup) (hj : left.attributeList[j]? = some a)
    (p : ℕ) (c : Option (DataType × V)) :
    (∃ x ∈ outerRows K type left right m (A p) (B p),
      cellAt (left.attributeList ++ right.attributeList) x j = c) ↔
    Shown K left.attributeList a.attrName a.attrType.type type.padsLeft type.padsRight m A B p c := by
  have hlt : j < left.attributeList.length := (List.getElem?_eq_some_iff.1 hj).1
  refine shown_iff (· ++ ·) _ _ (fun x => mem_outerRows) (fun l hl r _ => ?_) (fun r _ => ?_) c
  · rw [cellAt_append_left hlt (hA p l hl), cell_eq_cellAt hn hj]
  · rw [cellAt_append_left hlt (by simp [nulls]), cellAt_nulls hj]

theorem shown_right (type : OuterJoinType) (left right : PlanContext) (m : List V → List V → Bool)
    {A : Flow V} (B : Flow V) (hA : ∀ p, ∀ l ∈ A p, l.length = left.attributeList.length)
    (hn : (right.attributeList.map (·.attrName)).Nodup) (hj : right.attributeList[j]? = some a)
    (p : ℕ) (c : Option (DataType × V)) :
    (∃ x ∈ outerRows K type left right m (A p) (B p),
      cellAt (left.attributeList ++ right.attributeList) x (left.attributeList.length + j) = c) ↔
    Shown K right.attributeList a.attrName a.attrType.type type.padsRight type.padsLeft
      (fun r l => m l r) B A p c := by
  refine shown_iff (fun r l => l ++ r) (nulls K right.attributeList) (nulls K left.attributeList)
    (fun x => ?_) (fun r _ l hl => ?_) (fun l hl => ?_) c
  · refine mem_outerRows.trans (or_congr ?_ or_comm)
    constructor <;> rintro ⟨a, ha, b, hb, h⟩ <;> exact ⟨b, hb, a, ha, h⟩
  · have hlen : l.length = left.attributeList.length := by
      obtain hl | rfl := hl
      · exact hA p l hl
      · simp [nulls]
    rw [cellAt_append_right j hlen, cell_eq_cellAt hn hj]
  · rw [cellAt_append_right j (hA p l hl), cellAt_nulls hj]

end

/-- What `setNull` writes in a nullable column. -/
def storedNull : DataType → Memory
  | .smallInt => [0xFF, 0x7F]
  | .int => [0xFF, 0xFF, 0xFF, 0x7F]
  | .uLong => List.replicate 8 0xFF
  | .float => [0xFF, 0xFF, 0x7F, 0x7F]
  | .double => [0xFF, 0xFF, 0xFF, 0xFF, 0xFF, 0xFF, 0xEF, 0x7F]
  | .string => [1, 0]
  | .date => List.replicate 4 0
  | .time => List.replicate 7 0 ++ [0x80]
  | .datetime => List.replicate 7 0 ++ [0x80]
  | .decimal => JoinKeys.zero.set 8 0x02
  | .boolean => [2, 0, 0, 0]
  | .uSmallInt => [0xFF, 0xFF]
  | _ => []

/-- `equal` of the operator of a column; floating-point keys are compared by their bytes. -/
def sameKey (t : DataType) (v w : Memory) : Bool :=
  match JoinKeys.keyType t with
  | some k => Partitioning.equal k v w
  | none => v = w

theorem sameKey_self (t : DataType) (v : Memory) : sameKey t v v = true := by
  unfold sameKey
  split
  · rename_i k _
    cases k
    case string => simp [Partitioning.equal, Partitioning.strcmp_eq_zero_iff]
    case decimal => simp [Partitioning.equal, Partitioning.decimalCompare_eq_zero_iff]
    all_goals simp [Partitioning.equal]
  · simp

theorem sameKey_comm (t : DataType) (v w : Memory) : sameKey t v w = sameKey t w v := by
  unfold sameKey
  split
  · rename_i k _
    cases k
    case string =>
      simp only [Partitioning.equal, Partitioning.strcmp_eq_zero_iff]
      simp only [eq_comm]
    case decimal =>
      simp only [Partitioning.equal, Partitioning.decimalCompare_eq_zero_iff]
      simp only [eq_comm]
    all_goals simp [Partitioning.equal, eq_comm]
  · simp [eq_comm]

theorem partition_of_sameKey (L : JoinKeys.Library) {t : DataType} {v w : Memory}
    (h : sameKey t v w = true) (n : ℕ) :
    JoinKeys.partition L t v n = JoinKeys.partition L t w n := by
  unfold sameKey at h
  split at h
  · rename_i k hk
    cases t <;> cases hk <;> exact (Partitioning.getPartitionValue_of_equal L.boost h n).symm
  · rw [of_decide_eq_true h]

def storedNullKeys (L : JoinKeys.Library) : NullKeys Memory where
  toKeys := storedKeys L
  null := storedNull
  same := sameKey
  same_null t := sameKey_self t _
  same_comm := sameKey_comm
  place_of_same t v w n h := by simp only [storedKeys, placeKey, partition_of_sameKey L h n]

theorem emptyTable_truthful (tableId : ℕ) (x y : String) :
    Truthful (storedKeys JoinKeys.library) (scanContext tableId x y) (fun _ => 0) where
  nonempty := Nat.two_pos
  listed _ _ := rfl
  available _ _ _ _ := rfl
  full _ _ hrow := by simp at hrow
  placed _ _ _ _ _ _ hrow := by simp at hrow

end Planner
