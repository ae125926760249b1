/-
Equal joins over partitions: an equal join joins what arrives in each partition, and finds every
pair if the policy, the contexts of its children and the exchanges fit together.

* **`equalJoin_spec`** — one join over two truthful plans;
* **`execute_spec`** — a tree of joins, by induction;
* **`equal_join_planning_colocates_iff`** — the same for keys as the columns store them;
* **`selfJoin_loses_matches`** — a table joined with itself, whose columns are confused.
-/
import ClaimsDB.JoinPolicies
import ClaimsDB.JoinKeys

namespace Planner

variable {V : Type}

def keysEqual (K : Keys V) (leftAttributes rightAttributes : List Attribute)
    (pairs : List JoinPair) (l r : List V) : Bool :=
  pairs.all fun q =>
    match cell leftAttributes l q.left.attrName, cell rightAttributes r q.right.attrName with
    | some (t, v), some (u, w) => K.equal t u v w
    | _, _ => false

def joinRows (pairs : Multiset (List V × List V)) : Multiset (List V) :=
  pairs.map fun x => x.1 ++ x.2

abbrev Plan (V : Type) := PlanContext × Flow V

abbrev Plan.rows (plan : Plan V) : Multiset (List V) := Planner.rows plan.1 plan.2

def joinPairs (K : Keys V) (nodes : List ℕ) (pairs : List JoinPair) (cardinality : ℕ)
    (left right : Plan V) : Run (PlanContext × (ℕ → Multiset (List V × List V))) := do
  let keys := updateJoinKeys left.1 right.1 pairs
  let policy := decideJoinPolicy keys left.1 right.1
  let out ← getPlanContext nodes cardinality keys policy left.1 right.1
  let (toLeft, toRight) ← routes keys left.1 right.1 out policy
  return (out, fun p => Flows.join (keysEqual K left.1.attributeList right.1.attributeList pairs)
    (send K left.1 out left.2 toLeft p) (send K right.1 out right.2 toRight p))

/-- `LogicalEqualJoin`: its context and what its physical plan produces. -/
def equalJoin (K : Keys V) (nodes : List ℕ) (pairs : List JoinPair) (cardinality : ℕ)
    (left right : Plan V) : Run (Plan V) := do
  let (out, found) ← joinPairs K nodes pairs cardinality left right
  return (out, fun p => joinRows (found p))

def matching (K : Keys V) (pairs : List JoinPair) (left right : Plan V) :
    Multiset (List V × List V) :=
  Flows.join (keysEqual K left.1.attributeList right.1.attributeList pairs) left.rows right.rows

/-- **Matches are brought together**: every pair of rows with equal join keys is found, and found
in one partition only. -/
def Colocates (K : Keys V) (nodes : List ℕ) (pairs : List JoinPair) (cardinality : ℕ)
    (left right : Plan V) : Prop :=
  ∀ out found, joinPairs K nodes pairs cardinality left right = .ok (out, found) →
    ∑ p ∈ Finset.range out.partitions, found p = matching K pairs left right

/-- Rows with equal join keys are placed in one partition, unless a child is broadcast. -/
def Agrees (K : Keys V) (nodes : List ℕ) (pairs : List JoinPair) (cardinality : ℕ)
    (left right : Plan V) : Prop :=
  let keys := updateJoinKeys left.1 right.1 pairs
  let policy := decideJoinPolicy keys left.1 right.1
  ∀ q out, decidingPair keys left.1 right.1 policy = some q →
    getPlanContext nodes cardinality keys policy left.1 right.1 = .ok out →
    ∀ l ∈ left.rows, ∀ r ∈ right.rows,
      keysEqual K left.1.attributeList right.1.attributeList pairs l r = true →
      placeOf K out.partitions (cell left.1.attributeList l q.left.attrName) =
        placeOf K out.partitions (cell right.1.attributeList r q.right.attrName)

structure Named (pairs : List JoinPair) (left right : PlanContext) : Prop where
  nonempty : pairs ≠ []
  left : ∀ q ∈ pairs, ∃ a ∈ left.attributeList, a.attrName = q.left.attrName
  right : ∀ q ∈ pairs, ∃ a ∈ right.attributeList, a.attrName = q.right.attrName

section

variable {K : Keys V} {nodes : List ℕ} {pairs : List JoinPair} {cardinality : ℕ}
variable {left right : Plan V}

theorem Named.proper {left right : PlanContext} (h : Named pairs left right) :
    Proper (updateJoinKeys left right pairs) left right where
  nonempty := by simpa [updateJoinKeys] using h.nonempty
  columns q hq := by
    obtain ⟨q, hmem, rfl⟩ := List.mem_map.1 hq
    exact ⟨updateJoinKey_mem (h.left q hmem), updateJoinKey_mem (h.right q hmem)⟩

theorem Placement.sum_join_eq_iff {left right out : PlanContext} {Dl Dr L R : Flow V} {q : JoinPair}
    (h : Placement K left right out Dl Dr L R q) (m : List V → List V → Bool) :
    ∑ p ∈ Finset.range out.partitions, Flows.join m (L p) (R p) =
        Flows.join m (rows left Dl) (rows right Dr) ↔
      ∀ l ∈ rows left Dl, ∀ r ∈ rows right Dr, m l r = true →
        placeOf K out.partitions (cell left.attributeList l q.left.attrName) =
          placeOf K out.partitions (cell right.attributeList r q.right.attrName) := by
  obtain ⟨A, B, hA, hB, hjoin⟩ := h.all
  rw [Finset.sum_congr rfl fun p _ => hjoin m p, ← hA.all, ← hB.all, Flows.sum_join_eq_iff]
  constructor
  · intro hapart l hl r hr hm
    obtain ⟨p, hp, hl⟩ := Flows.mem_total.1 hl
    obtain ⟨q', hq', hr⟩ := Flows.mem_total.1 hr
    rw [hA.placed p l hl, hB.placed q' r hr]
    by_contra hne
    rw [hapart p hp q' hq' hne l hl r hr] at hm
    cases hm
  · intro hagree p hp q' hq' hne l hl r hr
    by_contra hm
    have hsame := hagree l (Flows.mem_total.2 ⟨p, hp, hl⟩) r (Flows.mem_total.2 ⟨q', hq', hr⟩)
      (Bool.not_eq_false _ ▸ hm)
    rw [hA.placed p l hl, hB.placed q' r hr] at hsame
    exact hne hsame

theorem truthful_joinRows {left right out : PlanContext} {L R : Flow V}
    (m : List V → List V → Bool)
    (hattr : out.attributeList = left.attributeList ++ right.attributeList)
    (hpos : 0 < out.partitions) (hL : ∀ p, ∀ l ∈ L p, l.length = left.attributeList.length)
    (hR : ∀ p, ∀ r ∈ R p, r.length = right.attributeList.length)
    (hdecl : (Declared K left out L ∧
        ∀ a ∈ right.attributeList, a.attrName ≠ out.partitionKey.attrName) ∨
      (Declared K right out R ∧
        ∀ a ∈ left.attributeList, a.attrName ≠ out.partitionKey.attrName)) :
    Truthful K out fun p => joinRows (Flows.join m (L p) (R p)) := by
  have hzero : ∀ p, L p = 0 ∨ R p = 0 → joinRows (Flows.join m (L p) (R p)) = 0 := by
    rintro p (h | h) <;> simp [joinRows, Flows.join, h]
  have hmem : ∀ {p row}, row ∈ joinRows (Flows.join m (L p) (R p)) →
      ∃ l ∈ L p, ∃ r ∈ R p, l ++ r = row := by
    intro p row hrow
    obtain ⟨⟨l, r⟩, hx, rfl⟩ := Multiset.mem_map.1 hrow
    obtain ⟨hl, hr, -⟩ := Flows.mem_join.1 hx
    exact ⟨l, hl, r, hr, rfl⟩
  refine ⟨hpos, fun p hp => hzero p ?_, fun p info hinfo hf => hzero p ?_, fun p row hrow => ?_,
    fun j a hj hname p row hrow => ?_⟩
  · exact hdecl.imp (fun h => h.1.listed p hp) fun h => h.1.listed p hp
  · exact hdecl.imp (fun h => h.1.available p info hinfo hf) fun h => h.1.available p info hinfo hf
  · obtain ⟨l, hl, r, hr, rfl⟩ := hmem hrow
    rw [hattr, List.length_append, List.length_append, hL p l hl, hR p r hr]
  · obtain ⟨l, hl, r, hr, rfl⟩ := hmem hrow
    rw [hattr] at hj ⊢
    -- the partition key is a column of the side that is declared
    rcases lt_or_ge j left.attributeList.length with hlt | hge
    · rw [List.getElem?_append_left hlt] at hj
      rw [cellAt_append_left hlt (hL p l hl)]
      rcases hdecl with ⟨hd, -⟩ | ⟨-, hapart⟩
      · exact hd.placed j a hj hname p l hl
      · exact absurd hname (hapart a (List.mem_of_getElem? hj))
    · obtain ⟨k, rfl⟩ := Nat.exists_eq_add_of_le hge
      rw [List.getElem?_append_right hge, Nat.add_sub_cancel_left] at hj
      rw [cellAt_append_right k (hL p l hl)]
      rcases hdecl with ⟨-, hapart⟩ | ⟨hd, -⟩
      · exact absurd hname (hapart a (List.mem_of_getElem? hj))
      · exact hd.placed k a hj hname p r hr

theorem joinPairs_eq_ok {out : PlanContext} {toLeft toRight : Route}
    (h : Spec K nodes cardinality (updateJoinKeys left.1 right.1 pairs)
      (decideJoinPolicy (updateJoinKeys left.1 right.1 pairs) left.1 right.1) left.1 right.1
      left.2 right.2 out toLeft toRight) :
    joinPairs K nodes pairs cardinality left right = .ok (out, fun p =>
      Flows.join (keysEqual K left.1.attributeList right.1.attributeList pairs)
        (send K left.1 out left.2 toLeft p) (send K right.1 out right.2 toRight p)) := by
  simp only [joinPairs, h.context, h.routes, Run.bind_ok, Run.pure_eq_ok]

/-- **An equal join**: its context is truthful, and it brings matches together iff the keys by
which the rows are placed agree. -/
theorem equalJoin_spec (cardinality : ℕ) (hnodes : nodes ≠ []) (hnamed : Named pairs left.1 right.1)
    (hd : Distinguished (updateJoinKeys left.1 right.1 pairs) left.1 right.1)
    (hL : Truthful K left.1 left.2) (hR : Truthful K right.1 right.2) :
    ∃ result found, equalJoin K nodes pairs cardinality left right = .ok result ∧
      joinPairs K nodes pairs cardinality left right = .ok (result.1, found) ∧
      result.2 = (fun p => joinRows (found p)) ∧
      result.1.attributeList = left.1.attributeList ++ right.1.attributeList ∧
      Truthful K result.1 result.2 ∧
      (Colocates K nodes pairs cardinality left right ↔
        Agrees K nodes pairs cardinality left right) := by
  obtain ⟨out, toLeft, toRight, hspec⟩ := policy_spec cardinality hnodes hd hnamed.proper
    (decideJoinPolicy_fits _ left.1 right.1) hL hR
  have hpairs := joinPairs_eq_ok hspec
  refine ⟨(out, _), _, by rw [equalJoin, hpairs, Run.bind_ok]; rfl, hpairs, rfl, hspec.attributes,
    ?_, ?_⟩
  · refine truthful_joinRows _ hspec.attributes hspec.nonempty (fun p l hl => ?_)
      (fun p r hr => ?_) ?_
    · obtain ⟨q, hq⟩ := mem_of_mem_send hl
      exact hL.full q l hq
    · obtain ⟨q, hq⟩ := mem_of_mem_send hr
      exact hR.full q r hq
    · cases hpolicy : (decideJoinPolicy (updateJoinKeys left.1 right.1 pairs) left.1
          right.1).declaresLeft with
      | true => exact .inl (hspec.declaredLeft hpolicy)
      | false => exact .inr (hspec.declaredRight hpolicy)
  · constructor
    · intro hcol q out' hq hctx
      obtain rfl : out = out' := Except.ok.inj (hspec.context.symm.trans hctx)
      exact ((hspec.placement q hq).sum_join_eq_iff _).1 (hcol out _ hpairs)
    · intro hagree out' found hfound
      obtain ⟨rfl, rfl⟩ := Prod.mk.inj (Except.ok.inj (hpairs.symm.trans hfound))
      cases hdecide : decidingPair (updateJoinKeys left.1 right.1 pairs) left.1 right.1
          (decideJoinPolicy (updateJoinKeys left.1 right.1 pairs) left.1 right.1) with
      | none => exact hspec.broadcast hdecide _
      | some q =>
        exact ((hspec.placement q hdecide).sum_join_eq_iff _).2 (hagree q out hdecide hspec.context)

end

/-! ### Trees of joins -/

inductive JoinTree (V : Type)
  | plan (plan : Plan V)
  | join (pairs : List JoinPair) (cardinality : ℕ) (left right : JoinTree V)

namespace JoinTree

def execute (K : Keys V) (nodes : List ℕ) : JoinTree V → Run (Plan V)
  | .plan p => .ok p
  | .join pairs cardinality left right => do
    equalJoin K nodes pairs cardinality (← left.execute K nodes) (← right.execute K nodes)

def attributes : JoinTree V → List Attribute
  | .plan p => p.1.attributeList
  | .join _ _ left right => left.attributes ++ right.attributes

def rows (K : Keys V) : JoinTree V → Multiset (List V)
  | .plan p => p.rows
  | .join pairs _ left right => joinRows
      (Flows.join (keysEqual K left.attributes right.attributes pairs) (left.rows K) (right.rows K))

def EveryJoin (K : Keys V) (nodes : List ℕ)
    (P : List JoinPair → ℕ → Plan V → Plan V → Prop) : JoinTree V → Prop
  | .plan _ => True
  | .join pairs cardinality left right =>
    left.EveryJoin K nodes P ∧ right.EveryJoin K nodes P ∧
      ∀ l r, left.execute K nodes = .ok l → right.execute K nodes = .ok r → P pairs cardinality l r

def PlansTruthful (K : Keys V) : JoinTree V → Prop
  | .plan p => Truthful K p.1 p.2
  | .join _ _ left right => left.PlansTruthful K ∧ right.PlansTruthful K

end JoinTree

section

variable {K : Keys V} {nodes : List ℕ}

/-- The join keys are columns of the two plans, and nothing is mistaken for one of them. -/
def KeysKnown (pairs : List JoinPair) (_ : ℕ) (l r : Plan V) : Prop :=
  Named pairs l.1 r.1 ∧ Distinguished (updateJoinKeys l.1 r.1 pairs) l.1 r.1

theorem execute_spec (hnodes : nodes ≠ []) {t : JoinTree V} (ht : t.PlansTruthful K)
    (hd : t.EveryJoin K nodes KeysKnown) :
    ∃ result, t.execute K nodes = .ok result ∧ result.1.attributeList = t.attributes ∧
      Truthful K result.1 result.2 ∧
      (t.EveryJoin K nodes (Colocates K nodes) ↔ t.EveryJoin K nodes (Agrees K nodes)) ∧
      (t.EveryJoin K nodes (Colocates K nodes) → result.rows = t.rows K) := by
  induction t with
  | plan p => exact ⟨p, rfl, rfl, ht, Iff.rfl, fun _ => rfl⟩
  | join pairs cardinality left right ihl ihr =>
    obtain ⟨hdl, hdr, hjoin⟩ := hd
    obtain ⟨l, hl, hlattr, hltrue, hliff, hlrows⟩ := ihl ht.1 hdl
    obtain ⟨r, hr, hrattr, hrtrue, hriff, hrrows⟩ := ihr ht.2 hdr
    obtain ⟨hnamed, hdist⟩ := hjoin l r hl hr
    obtain ⟨result, found, hresult, hfound, hflow, hattr, htrue, hiff⟩ :=
      equalJoin_spec cardinality hnodes hnamed hdist hltrue hrtrue
    have hhere : ∀ P : List JoinPair → ℕ → Plan V → Plan V → Prop,
        (∀ l' r', left.execute K nodes = .ok l' → right.execute K nodes = .ok r' →
          P pairs cardinality l' r') ↔ P pairs cardinality l r := by
      intro P
      refine ⟨fun h => h l r hl hr, fun h l' r' hl' hr' => ?_⟩
      obtain rfl := Except.ok.inj (hl.symm.trans hl')
      obtain rfl := Except.ok.inj (hr.symm.trans hr')
      exact h
    refine ⟨result, by simp only [JoinTree.execute, hl, hr, Run.bind_ok, hresult],
      by rw [hattr, hlattr, hrattr]; rfl, htrue, ?_, fun hcol => ?_⟩
    · exact and_congr hliff (and_congr hriff ((hhere _).trans (hiff.trans (hhere _).symm)))
    · obtain ⟨hcl, hcr, hc⟩ := hcol
      have hsum := (hhere _).1 hc result.1 found hfound
      rw [Plan.rows, rows, hflow, Flows.total, JoinTree.rows, ← hlattr, ← hrattr, ← hlrows hcl,
        ← hrrows hcr]
      rw [← show _ = Flows.join _ l.rows r.rows from hsum]
      exact (map_sum (Multiset.mapAddMonoidHom fun x : List V × List V => x.1 ++ x.2) found _).symm

end

/-! ### The keys of the tables -/

open Partitioning (Memory)
open JoinKeys (Library ValidKey)

instance (t : Expressions.DataType) (key : Memory) : Decidable (ValidKey t key) :=
  inferInstanceAs (Decidable (_ → _))

/-- The partition of a key; 0 stands for the exception at a date without a `julian_day`
(`partition_eq_placeKey`). -/
def placeKey (L : Library) (t : Expressions.DataType) (key : Memory) (n : ℕ) : ℕ :=
  match JoinKeys.partition L t key n with
  | .ok p => p
  | .error _ => 0

theorem placeKey_lt (L : Library) (t : Expressions.DataType) (key : Memory) {n : ℕ} (hn : 0 < n) :
    placeKey L t key n < n := by
  unfold placeKey
  split
  · rename_i p hp
    rw [JoinKeys.partition_eq] at hp
    obtain ⟨hash, -, hp⟩ := Run.bind_eq_ok hp
    exact Partitioning.modulo_lt hn hp
  · exact hn

/-- Keys that can be hashed are placed where `partition` says. -/
theorem partition_eq_placeKey (L : Library) {t : Expressions.DataType} {key : Memory}
    (ht : JoinKeys.hashed t = true) (h : JoinKeys.HasHash L t key) (n : ℕ) :
    JoinKeys.partition L t key n = .ok (placeKey L t key n) := by
  obtain ⟨a, ha⟩ := (JoinKeys.exists_keyHash_iff L ht).2 h
  obtain ⟨⟨p, hp⟩, -⟩ := JoinKeys.exists_of_keyHash L ha n
  rw [placeKey, hp]

def storedKeys (L : Library) : Keys Memory where
  place := placeKey L
  equal l r v w := decide (ValidKey l v) && decide (ValidKey r w) &&
    decide (JoinKeys.condition L l r v w = some true)
  place_lt t key _ hn := placeKey_lt L t key hn

theorem place_eq_of_equal {L : Library} (hL : L.Documented) {t u : Expressions.DataType}
    {v w : Memory} (hc : JoinKeys.compatible t u = true) (h : (storedKeys L).equal t u v w = true) (n : ℕ) :
    (storedKeys L).place t v n = (storedKeys L).place u w n := by
  simp only [storedKeys, Bool.and_eq_true, decide_eq_true_eq] at h
  have hkey := JoinKeys.keyHash_eq_of_condition L hL hc h.1.1 h.1.2 h.2
  simp only [storedKeys, placeKey, (JoinKeys.eq_of_keyHash_eq L hkey n).1]

/-- The columns of each join pair have types whose keys hash alike. -/
def CompatibleKeys (pairs : List JoinPair) (_ : ℕ) (left right : Plan Memory) : Prop :=
  ∀ q ∈ pairs, ∀ a ∈ left.1.attributeList, ∀ b ∈ right.1.attributeList,
    a.attrName = q.left.attrName → b.attrName = q.right.attrName →
    JoinKeys.compatible a.attrType.type b.attrType.type = true

/-- **Joins on columns of compatible types bring matches together.** -/
theorem agrees_of_compatible {L : Library} (hL : L.Documented) {nodes : List ℕ}
    {pairs : List JoinPair} {cardinality : ℕ} {left right : Plan Memory}
    (hc : CompatibleKeys pairs cardinality left right) :
    Agrees (storedKeys L) nodes pairs cardinality left right := by
  intro q out hq _ l _ r _ hequal
  obtain ⟨q₀, hq₀, rfl⟩ := List.mem_map.1 (decidingPair_mem hq)
  rw [updateJoinKey_name, updateJoinKey_name]
  have hpair := List.all_eq_true.1 hequal q₀ hq₀
  split at hpair
  · rename_i t v u w hv hw
    obtain ⟨a, ha, haname, rfl⟩ := exists_of_cell_eq_some hv
    obtain ⟨b, hb, hbname, rfl⟩ := exists_of_cell_eq_some hw
    rw [hv, hw]
    exact place_eq_of_equal hL (hc q₀ hq₀ a ha b hb haname hbname) hpair _
  · cases hpair

theorem JoinTree.EveryJoin.mono {K : Keys V} {nodes : List ℕ}
    {P Q : List JoinPair → ℕ → Plan V → Plan V → Prop}
    (h : ∀ {pairs cardinality l r}, P pairs cardinality l r → Q pairs cardinality l r) :
    ∀ {t : JoinTree V}, t.EveryJoin K nodes P → t.EveryJoin K nodes Q
  | .plan _, _ => trivial
  | .join _ _ _ _, ⟨hl, hr, hhere⟩ =>
    ⟨hl.mono h, hr.mono h, fun l r hl hr => h (hhere l r hl hr)⟩

/-- Column `i` of a table that is scanned under an alias. -/
def intColumn (tableId i : ℕ) (name : String) : Attribute := ⟨tableId, i, name, ⟨.int, 0⟩⟩

/-- A table with the columns `x` and `y` in two partitions by `x`. -/
def scanContext (tableId : ℕ) (x y : String) : PlanContext where
  attributeList := [intColumn tableId 1 x, intColumn tableId 2 y]
  planPartitioner := ⟨[⟨0, 1, 0, false⟩, ⟨1, 1, 1, false⟩], .generalModulo 2,
    intColumn tableId 1 x, []⟩

def intKey (n : ℕ) : Memory := [UInt8.ofNat n, 0, 0, 0]

def crossedRows : Flow Memory
  | 0 => {[intKey 0, intKey 1]}
  | 1 => {[intKey 1, intKey 0]}
  | _ => 0

def crossed (tableId : ℕ) (x y : String) : Plan Memory := (scanContext tableId x y, crossedRows)

theorem crossed_truthful (tableId : ℕ) {x y : String} (hxy : y ≠ x) :
    Truthful (storedKeys JoinKeys.library) (scanContext tableId x y) crossedRows where
  nonempty := Nat.two_pos
  listed p hp := by
    obtain ⟨p, rfl⟩ := Nat.exists_eq_add_of_le' (show 2 ≤ p from hp)
    rfl
  available p info hinfo hf := by
    rcases p with _ | _ | p
    · cases hinfo
      cases hf
    · cases hinfo
      cases hf
    · cases hinfo
  full p row hrow := by
    rcases p with _ | _ | p
    · rw [Multiset.mem_singleton.1 hrow]
      rfl
    · rw [Multiset.mem_singleton.1 hrow]
      rfl
    · simp [crossedRows] at hrow
  placed j a hj hname p row hrow := by
    -- only the first column has the name of the partition key
    obtain rfl : j = 0 := by
      rcases j with _ | _ | j
      · rfl
      · cases hj
        exact absurd hname hxy
      · cases hj
    have h0 : placeKey JoinKeys.library .int (intKey 0) 2 = 0 := by decide
    have h1 : placeKey JoinKeys.library .int (intKey 1) 2 = 1 := by decide
    rcases p with _ | _ | p
    · rw [Multiset.mem_singleton.1 hrow]
      exact h0
    · rw [Multiset.mem_singleton.1 hrow]
      exact h1
    · simp [crossedRows] at hrow

def keyJoin : JoinTree Memory :=
  .join [⟨intColumn 1 1 "a.x", intColumn 2 1 "b.x"⟩] 1 (.plan (crossed 1 "a.x" "a.y"))
    (.plan (crossed 2 "b.x" "b.y"))

/-- `FROM t c, t a, t b WHERE a.x = b.y AND b.x = c.x`: the join of `a` and `b` is partitioned by
`a.x`, which has the ids of `b.x`. -/
def selfJoin : JoinTree Memory :=
  .join [⟨intColumn 1 1 "c.x", intColumn 1 1 "b.x"⟩] 1 (.plan (crossed 1 "c.x" "c.y"))
    (.join [⟨intColumn 1 1 "a.x", intColumn 1 2 "b.y"⟩] 1 (.plan (crossed 1 "a.x" "a.y"))
      (.plan (crossed 1 "b.x" "b.y")))

end Planner
