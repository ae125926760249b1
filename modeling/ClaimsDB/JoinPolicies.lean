/-
How a join of two plans is distributed: which child is repartitioned, or broadcast by an equal
join, the plan context, and the exchanges.

* **`decideJoinPolicy_fits`** — what the partition keys are like where a policy is chosen;
* **`noRepartition_spec`** to **`rightBroadCast_spec`** — where the rows arrive under each policy;
* **`policy_spec`** — the six of them together.
-/
import ClaimsDB.PlanContexts

namespace Planner

open List

inductive JoinPolicy
  | noRepartition
  | leftRepartition
  | rightRepartition
  | completeRepartition
  | leftBroadCast
  | rightBroadCast
  deriving DecidableEq, Repr

/-! ### Policies -/

def updateJoinKey (attributes : List Attribute) (key : Attribute) : Attribute :=
  attributes.foldl (fun k a => if k.attrName = a.attrName then a else k) key

def updateJoinKeys (left right : PlanContext) (pairs : List JoinPair) : List JoinPair :=
  pairs.map fun q =>
    ⟨updateJoinKey left.attributeList q.left, updateJoinKey right.attributeList q.right⟩

def canOmitHashRepartition (joinKeyList : List Attribute) (partitioner : PlanPartitioner) : Bool :=
  joinKeyList.any (partitioner.partitionKey.same ·)

def isInOneJoinPair (pairs : List JoinPair) (leftKey rightKey : Attribute) : Bool :=
  pairs.any fun q => leftKey.same q.left && rightKey.same q.right

/-- An `int64_t` cut down to an `unsigned`. -/
def unsignedOf (size : ℤ) : ℕ := (size % 4294967296).toNat

def decideLeftOrRightRepartition (left right : PlanContext) : JoinPolicy :=
  if unsignedOf left.getAggregatedDatasize > unsignedOf right.getAggregatedDatasize then
    .rightRepartition
  else .leftRepartition

/-- `DecideJoinPolicy` of an outer join, with which that of an equal join begins. -/
def decideRepartition (pairs : List JoinPair) (left right : PlanContext) : JoinPolicy :=
  let leftPartitioned := canOmitHashRepartition (pairs.map (·.left)) left.planPartitioner
  let rightPartitioned := canOmitHashRepartition (pairs.map (·.right)) right.planPartitioner
  if leftPartitioned && rightPartitioned then
    if isInOneJoinPair pairs left.partitionKey right.partitionKey then
      if left.planPartitioner.hasSamePartitionLocation right.planPartitioner then .noRepartition
      else decideLeftOrRightRepartition left right
    else decideLeftOrRightRepartition left right
  else if leftPartitioned then .rightRepartition
  else if rightPartitioned then .leftRepartition
  else .completeRepartition

/-- `DecideJoinPolicy` of an equal join: a child that is much smaller than the other is
broadcast. -/
def decideJoinPolicy (pairs : List JoinPair) (left right : PlanContext) : JoinPolicy :=
  let policy := decideRepartition pairs left right
  if policy = .noRepartition then policy
  else
    let leftSize := left.getAggregatedDatasize
    let rightSize := right.getAggregatedDatasize
    if leftSize < rightSize.tdiv 100 ∧ rightSize > 0 then
      if policy = .leftRepartition then .leftRepartition else .leftBroadCast
    else if leftSize.tdiv 100 > rightSize ∧ leftSize > 0 then
      if policy = .rightRepartition then .rightRepartition else .rightBroadCast
    else policy

/-! ### Contexts -/

def keepPartitions (kept other : PlanContext) : PlanPartitioner where
  partitionList := kept.partitionList.map fun info => info.setCardinality
    (info.getCardinality + other.planPartitioner.getAggregatedDataSize / kept.partitions)
  partitionFunc := kept.planPartitioner.partitionFunc
  partitionKey := kept.partitionKey
  shadowPartitionKeys := []

def keepBothPartitions (left right : PlanContext) : PlanPartitioner where
  partitionList := List.zipWith
    (fun l r => l.setCardinality (l.getCardinality + r.getCardinality))
    left.partitionList right.partitionList
  partitionFunc := left.planPartitioner.partitionFunc
  partitionKey := left.partitionKey
  shadowPartitionKeys := [right.partitionKey]

def decideOutputDataflowProperty (nodes : List ℕ) (cardinality : ℕ) :
    List JoinPair → Run PlanPartitioner
  | [] => .error .outOfBounds
  | q :: _ => .ok {
      partitionList := nodes.mapIdx fun i location => ⟨i, cardinality % 2 ^ 32, location, false⟩
      partitionFunc := .boostHash nodes.length
      partitionKey := q.left
      shadowPartitionKeys := [q.right] }

def outputPartitioner (nodes : List ℕ) (cardinality : ℕ) (pairs : List JoinPair)
    (left right : PlanContext) : JoinPolicy → Run PlanPartitioner
  | .noRepartition => .ok (keepBothPartitions left right)
  | .leftRepartition | .leftBroadCast => .ok (keepPartitions right left)
  | .rightRepartition | .rightBroadCast => .ok (keepPartitions left right)
  | .completeRepartition => decideOutputDataflowProperty nodes cardinality pairs

/-- `GetPlanContext` of a join with the given policy, its join keys being up to date. -/
def getPlanContext (nodes : List ℕ) (cardinality : ℕ) (pairs : List JoinPair)
    (policy : JoinPolicy) (left right : PlanContext) : Run PlanContext := do
  let partitioner ← outputPartitioner nodes cardinality pairs left right policy
  return ⟨left.attributeList ++ right.attributeList, partitioner⟩

/-! ### Exchanges -/

def pairOfLeftKey (pairs : List JoinPair) (key : Attribute) : Run JoinPair :=
  match pairs.find? (·.left.same key) with
  | some q => .ok q
  | none => .error .assertFailed

/-- The join pair at `GetIdInLeftJoinKeys` with shadow partition keys, which are tried in turn. -/
def pairOfLeftKeyOrShadow (pairs : List JoinPair) (key : Attribute) :
    List Attribute → Run JoinPair
  | [] => pairOfLeftKey pairs key
  | shadow :: rest =>
    match pairs.find? (·.left.same key) with
    | some q => .ok q
    | none => pairOfLeftKeyOrShadow pairs shadow rest

def pairOfRightKey (pairs : List JoinPair) (key : Attribute) : Run JoinPair :=
  match pairs.find? (·.right.same key) with
  | some q => .ok q
  | none => .error .assertFailed

def routes (pairs : List JoinPair) (left right out : PlanContext) :
    JoinPolicy → Run (Route × Route)
  | .noRepartition => .ok (.stay, .stay)
  | .leftRepartition => do
    let q ← pairOfRightKey pairs out.partitionKey
    let j ← getIdInAttributeList left.attributeList q.left
    return (.hash j, .stay)
  | .rightRepartition => do
    let q ← pairOfLeftKeyOrShadow pairs out.partitionKey out.planPartitioner.shadowPartitionKeys
    let j ← getIdInAttributeList right.attributeList q.right
    return (.stay, .hash j)
  | .completeRepartition => do
    let i ← getIdInAttributeList left.attributeList out.partitionKey
    let q ← pairOfLeftKey pairs out.partitionKey
    let j ← getIdInAttributeList right.attributeList q.right
    return (.hash i, .hash j)
  | .leftBroadCast => .ok (.broadcast, .stay)
  | .rightBroadCast => .ok (.stay, .broadcast)

def decidingPair (pairs : List JoinPair) (left right : PlanContext) : JoinPolicy → Option JoinPair
  | .noRepartition =>
    pairs.find? fun q => left.partitionKey.same q.left && right.partitionKey.same q.right
  | .leftRepartition => pairs.find? (·.right.same right.partitionKey)
  | .rightRepartition => pairs.find? (·.left.same left.partitionKey)
  | .completeRepartition => pairs.head?
  | .leftBroadCast | .rightBroadCast => none

/-! ### What a policy is chosen for -/

def Fits (pairs : List JoinPair) (left right : PlanContext) : JoinPolicy → Prop
  | .noRepartition => isInOneJoinPair pairs left.partitionKey right.partitionKey = true ∧
      left.planPartitioner.hasSamePartitionLocation right.planPartitioner = true
  | .leftRepartition => canOmitHashRepartition (pairs.map (·.right)) right.planPartitioner = true
  | .rightRepartition => canOmitHashRepartition (pairs.map (·.left)) left.planPartitioner = true
  | _ => True

section

variable {pairs : List JoinPair} {left right out : PlanContext}

theorem decideLeftOrRightRepartition_cases (left right : PlanContext) :
    decideLeftOrRightRepartition left right = .rightRepartition ∨
      decideLeftOrRightRepartition left right = .leftRepartition :=
  ite_eq_or_eq _ _ _

theorem decideRepartition_fits (pairs : List JoinPair) (left right : PlanContext) :
    Fits pairs left right (decideRepartition pairs left right) := by
  have hside : canOmitHashRepartition (pairs.map (·.left)) left.planPartitioner = true →
      canOmitHashRepartition (pairs.map (·.right)) right.planPartitioner = true →
      Fits pairs left right (decideLeftOrRightRepartition left right) := by
    intro hl hr
    rcases decideLeftOrRightRepartition_cases left right with h | h
    · rw [h]
      exact hl
    · rw [h]
      exact hr
  unfold decideRepartition
  dsimp only
  split
  · rename_i h
    obtain ⟨hl, hr⟩ := Bool.and_eq_true_iff.1 h
    split
    · rename_i hpair
      split
      · rename_i hloc
        exact ⟨hpair, hloc⟩
      · exact hside hl hr
    · exact hside hl hr
  · split
    · rename_i hl
      exact hl
    · split
      · rename_i hr
        exact hr
      · trivial

theorem decideJoinPolicy_fits (pairs : List JoinPair) (left right : PlanContext) :
    Fits pairs left right (decideJoinPolicy pairs left right) := by
  have hfits := decideRepartition_fits pairs left right
  unfold decideJoinPolicy
  dsimp only
  split
  · exact hfits
  · split
    · split
      · rename_i hleft
        rw [hleft] at hfits
        exact hfits
      · trivial
    · split
      · split
        · rename_i hright
          rw [hright] at hfits
          exact hfits
        · trivial
      · exact hfits

variable {policy : JoinPolicy} {q : JoinPair} {key : Attribute} {l r : PlanPartitioner}

theorem decidingPair_mem (h : decidingPair pairs left right policy = some q) : q ∈ pairs := by
  cases policy with
  | noRepartition | leftRepartition | rightRepartition => exact mem_of_find?_eq_some h
  | completeRepartition => exact mem_of_head? h
  | leftBroadCast => cases h
  | rightBroadCast => cases h

theorem decideRepartition_cases (pairs : List JoinPair) (left right : PlanContext) :
    decideRepartition pairs left right ∈ [JoinPolicy.noRepartition, .leftRepartition,
      .rightRepartition, .completeRepartition] := by
  have hside := decideLeftOrRightRepartition_cases left right
  generalize hs : decideLeftOrRightRepartition left right = side at hside
  unfold decideRepartition
  simp only [hs]
  rcases hside with rfl | rfl <;> repeat' split
  all_goals decide

theorem exists_decidingPair (left right : PlanContext) (hne : pairs ≠ []) :
    ∃ q, decidingPair pairs left right (decideRepartition pairs left right) = some q := by
  have hfits := decideRepartition_fits pairs left right
  have hpolicy := decideRepartition_cases pairs left right
  generalize decideRepartition pairs left right = policy at hfits hpolicy
  refine Option.isSome_iff_exists.1 ?_
  simp only [mem_cons, not_mem_nil, or_false] at hpolicy
  rcases hpolicy with rfl | rfl | rfl | rfl
  · obtain ⟨q, hq, hkeys⟩ := List.any_eq_true.1 hfits.1
    exact List.find?_isSome.2 ⟨q, hq, hkeys⟩
  · obtain ⟨a, ha, hsame⟩ := List.any_eq_true.1 hfits
    obtain ⟨q, hq, rfl⟩ := List.mem_map.1 ha
    exact List.find?_isSome.2 ⟨q, hq, Attribute.same_comm _ _ ▸ hsame⟩
  · obtain ⟨a, ha, hsame⟩ := List.any_eq_true.1 hfits
    obtain ⟨q, hq, rfl⟩ := List.mem_map.1 ha
    exact List.find?_isSome.2 ⟨q, hq, Attribute.same_comm _ _ ▸ hsame⟩
  · obtain ⟨q, rest, rfl⟩ := exists_cons_of_ne_nil hne
    rfl

theorem updateJoinKey_name (attributes : List Attribute) (key : Attribute) :
    (updateJoinKey attributes key).attrName = key.attrName := by
  induction attributes generalizing key with
  | nil => rfl
  | cons a attributes ih =>
    rw [updateJoinKey, foldl_cons]
    split
    · rename_i h
      exact (ih a).trans h.symm
    · exact ih key

theorem updateJoinKey_mem {attributes : List Attribute}
    (h : ∃ a ∈ attributes, a.attrName = key.attrName) :
    updateJoinKey attributes key ∈ attributes := by
  have hmem : ∀ (attributes : List Attribute) (key : Attribute),
      updateJoinKey attributes key = key ∨ updateJoinKey attributes key ∈ attributes := by
    intro attributes
    induction attributes with
    | nil => exact fun key => .inl rfl
    | cons a attributes ih =>
      intro key
      rw [updateJoinKey, foldl_cons]
      split
      · rcases ih a with h | h
        · exact .inr (List.mem_cons.2 (.inl h))
        · exact .inr (mem_cons_of_mem a h)
      · exact (ih key).imp_right (mem_cons_of_mem a)
  induction attributes generalizing key with
  | nil => simp at h
  | cons a attributes ih =>
    rw [updateJoinKey, foldl_cons]
    split
    · rcases hmem attributes a with h | h
      · exact List.mem_cons.2 (.inl h)
      · exact mem_cons_of_mem a h
    · rename_i hne
      refine mem_cons_of_mem a (ih ?_)
      obtain ⟨b, hb, hname⟩ := h
      rcases List.mem_cons.1 hb with rfl | hb
      · exact absurd hname.symm hne
      · exact ⟨b, hb, hname⟩

/-! ### The partitions that are kept -/

structure SameLayout (kept out : PlanContext) : Prop where
  partitions : out.partitions = kept.partitions
  location : ∀ p, out.location p = kept.location p
  filtered : ∀ (p : ℕ) (info : PlanPartitionInfo), out.partitionList[p]? = some info →
    ∃ info' : PlanPartitionInfo, kept.partitionList[p]? = some info' ∧
      info'.filtered = info.filtered
  key : out.partitionKey = kept.partitionKey

theorem sameLayout_keepPartitions (attributes : List Attribute) (kept other : PlanContext) :
    SameLayout kept ⟨attributes, keepPartitions kept other⟩ where
  partitions := by simp [PlanContext.partitions, PlanContext.partitionList, keepPartitions]
  location p := by
    simp [PlanContext.location, PlanContext.partitionList, keepPartitions,
      PlanPartitionInfo.setCardinality, Function.comp_def]
  filtered p info h := by
    simp only [PlanContext.partitionList, keepPartitions, getElem?_map,
      Option.map_eq_some_iff] at h
    obtain ⟨info', h', rfl⟩ := h
    exact ⟨info', h', rfl⟩
  key := rfl

theorem sameLayout_keepBothPartitions (attributes : List Attribute)
    (hlen : left.partitionList.length = right.partitionList.length) :
    SameLayout left ⟨attributes, keepBothPartitions left right⟩ where
  partitions := by
    simp [PlanContext.partitions, PlanContext.partitionList, keepBothPartitions] at hlen ⊢
    exact hlen.le
  location p := by
    simp only [PlanContext.location, PlanContext.partitionList, keepBothPartitions,
      getElem?_zipWith] at hlen ⊢
    rcases lt_or_ge p left.planPartitioner.partitionList.length with h | h
    · rw [getElem?_eq_getElem h, getElem?_eq_getElem (hlen ▸ h)]
      rfl
    · rw [getElem?_eq_none h]
  filtered p info h := by
    simp only [PlanContext.partitionList, keepBothPartitions, getElem?_zipWith] at h
    split at h
    · rename_i x y hx hy
      cases h
      exact ⟨x, hx, rfl⟩
    · cases h
  key := rfl

theorem length_eq_of_sameLocation (h : l.hasSamePartitionLocation r = true) :
    l.partitionList.length = r.partitionList.length := by
  simp only [PlanPartitioner.hasSamePartitionLocation, Bool.and_eq_true, decide_eq_true_eq] at h
  exact h.1

theorem location_eq_of_sameLocation (h : l.hasSamePartitionLocation r = true) {p : ℕ}
    {x y : PlanPartitionInfo} (hx : l.partitionList[p]? = some x)
    (hy : r.partitionList[p]? = some y) (hfx : x.filtered = false) (hfy : y.filtered = false) :
    x.location = y.location := by
  simp only [PlanPartitioner.hasSamePartitionLocation, Bool.and_eq_true, all_eq_true] at h
  have hmem : (x, y) ∈ l.partitionList.zip r.partitionList :=
    mem_of_getElem? (List.getElem?_zip_eq_some.2 ⟨hx, hy⟩)
  simpa [PlanPartitionInfo.isAvailable, hfx, hfy] using h.2 _ hmem

/-- The rows placed by a join pair: `A` and `B` leave nothing out of `L` and `R`. -/
structure Placement {V : Type} (K : Keys V) (left right out : PlanContext) (Dl Dr L R : Flow V)
    (q : JoinPair) : Prop where
  placedLeft : ∀ p, ∀ l ∈ L p, placeOf K out.partitions (cell left.attributeList l q.left.attrName) = p
  placedRight : ∀ p, ∀ r ∈ R p,
    placeOf K out.partitions (cell right.attributeList r q.right.attrName) = p
  all : ∃ A B, Arrives K left out q.left.attrName Dl A ∧ Arrives K right out q.right.attrName Dr B ∧
    ∀ (m : List V → List V → Bool) p, Flows.join m (L p) (R p) = Flows.join m (A p) (B p)

structure Proper (pairs : List JoinPair) (left right : PlanContext) : Prop where
  nonempty : pairs ≠ []
  columns : ∀ q ∈ pairs, q.left ∈ left.attributeList ∧ q.right ∈ right.attributeList

theorem Distinguished.leftNames (hd : Distinguished pairs left right) :
    (left.attributeList.map (·.attrName)).Nodup :=
  (List.nodup_append.1 (map_append ▸ hd.names)).1

theorem Distinguished.rightNames (hd : Distinguished pairs left right) :
    (right.attributeList.map (·.attrName)).Nodup :=
  (List.nodup_append.1 (map_append ▸ hd.names)).2.1

variable {V : Type} {K : Keys V} {Dl Dr : Flow V} {nodes : List ℕ} {cardinality : ℕ}

/-- The rows of a side are where the output context says, if its partition key is one of their
columns. -/
structure Declared (K : Keys V) (side out : PlanContext) (D : Flow V) : Prop where
  listed : ∀ p, out.partitions ≤ p → D p = 0
  available : ∀ p info, out.partitionList[p]? = some info → info.filtered = true → D p = 0
  placed : ∀ j a, side.attributeList[j]? = some a → a.attrName = out.partitionKey.attrName →
    ∀ p, ∀ row ∈ D p, placeOf K out.partitions (cellAt side.attributeList row j) = p

def JoinPolicy.declaresLeft : JoinPolicy → Bool
  | .leftRepartition | .leftBroadCast => false
  | _ => true

/-- The context of a join, its exchanges, its partition key, and where the rows arrive. -/
structure Spec (K : Keys V) (nodes : List ℕ) (cardinality : ℕ) (pairs : List JoinPair)
    (policy : JoinPolicy) (left right : PlanContext) (Dl Dr : Flow V) (out : PlanContext)
    (rl rr : Route) : Prop where
  context : getPlanContext nodes cardinality pairs policy left right = .ok out
  routes : routes pairs left right out policy = .ok (rl, rr)
  attributes : out.attributeList = left.attributeList ++ right.attributeList
  nonempty : 0 < out.partitions
  declaredLeft : policy.declaresLeft = true → Declared K left out (send K left out Dl rl) ∧
    ∀ a ∈ right.attributeList, a.attrName ≠ out.partitionKey.attrName
  declaredRight : policy.declaresLeft = false → Declared K right out (send K right out Dr rr) ∧
    ∀ a ∈ left.attributeList, a.attrName ≠ out.partitionKey.attrName
  placement : ∀ q, decidingPair pairs left right policy = some q →
    Placement K left right out Dl Dr (send K left out Dl rl) (send K right out Dr rr) q
  keyName : ∀ q, decidingPair pairs left right policy = some q →
    (if policy.declaresLeft then q.left else q.right).attrName = out.partitionKey.attrName
  broadcast : decidingPair pairs left right policy = none → ∀ m : List V → List V → Bool,
    ∑ p ∈ Finset.range out.partitions,
      Flows.join m (send K left out Dl rl p) (send K right out Dr rr p) =
    Flows.join m (rows left Dl) (rows right Dr)

theorem placement_of_arrives {L R : Flow V} (hl : Arrives K left out q.left.attrName Dl L)
    (hr : Arrives K right out q.right.attrName Dr R) : Placement K left right out Dl Dr L R q :=
  ⟨hl.placed, hr.placed, L, R, hl, hr, fun _ _ => rfl⟩

theorem SameLayout.declared {c : PlanContext} {D : Flow V} (hs : SameLayout c out)
    (h : Truthful K c D) : Declared K c out (send K c out D .stay) := by
  rw [send_stay hs.location]
  refine ⟨fun p hp => h.listed p (hs.partitions ▸ hp), fun p info hinfo hf => ?_, ?_⟩
  · obtain ⟨info', hinfo', hf'⟩ := hs.filtered p info hinfo
    exact h.available p info' hinfo' (hf'.trans hf)
  · rw [hs.partitions, hs.key]
    exact h.placed

theorem noRepartition_placement (hd : Distinguished pairs left right) (hp : Proper pairs left right)
    (hloc : left.planPartitioner.hasSamePartitionLocation right.planPartitioner = true)
    (hout : SameLayout left out) (hL : Truthful K left Dl) (hR : Truthful K right Dr)
    (hq : decidingPair pairs left right .noRepartition = some q) :
    Placement K left right out Dl Dr (send K left out Dl .stay) (send K right out Dr .stay) q := by
  have hmem := mem_of_find?_eq_some hq
  obtain ⟨hql, hqr⟩ := hp.columns q hmem
  have hkeys := find?_some hq
  simp only [Bool.and_eq_true] at hkeys
  have hparts : out.partitions = right.partitions :=
    hout.partitions.trans (length_eq_of_sameLocation hloc)
  have hl : Arrives K left out q.left.attrName Dl Dl := arrives_self hL hd.leftNames hql
    (hd.leftKey q hmem (Attribute.same_comm _ _ ▸ hkeys.1)) hout.partitions
  have hr : Arrives K right out q.right.attrName Dr Dr := arrives_self hR hd.rightNames hqr
    (hd.rightKey q hmem (Attribute.same_comm _ _ ▸ hkeys.2)) hparts
  have hstay : ∀ p, ∀ r ∈ send K right out Dr .stay p, r ∈ Dr p := by
    intro p r hmem
    simp only [send] at hmem
    split at hmem
    · exact hmem
    · simp at hmem
  rw [send_stay hout.location]
  refine ⟨hl.placed, fun p r hmem => hr.placed p r (hstay p r hmem), Dl, Dr, hl, hr, fun m p => ?_⟩
  -- a partition that is at two nodes is empty on one side
  by_cases hlz : Dl p = 0
  · simp [Flows.join, hlz]
  by_cases hrz : Dr p = 0
  · simp [Flows.join, send, hrz]
  obtain ⟨x, hx, hfx⟩ := hL.exists_info hlz
  obtain ⟨y, hy, hfy⟩ := hR.exists_info hrz
  have hnode : right.location p = out.location p := by
    rw [hout.location, PlanContext.location, PlanContext.location, hx, hy, Option.map_some,
      Option.map_some, location_eq_of_sameLocation hloc hx hy hfx hfy]
  simp only [send, if_pos hnode]

theorem noRepartition_spec (hd : Distinguished pairs left right) (hp : Proper pairs left right)
    (hfits : Fits pairs left right .noRepartition) (hL : Truthful K left Dl)
    (hR : Truthful K right Dr) :
    ∃ out rl rr, Spec K nodes cardinality pairs .noRepartition left right Dl Dr out rl rr := by
  obtain ⟨hpair, hloc⟩ := hfits
  have hout := sameLayout_keepBothPartitions (left.attributeList ++ right.attributeList)
    (length_eq_of_sameLocation hloc)
  refine ⟨_, .stay, .stay, rfl, rfl, rfl, hout.partitions ▸ hL.nonempty, fun _ => ?_, nofun,
    fun q hq => noRepartition_placement hd hp hloc hout hL hR hq, fun q hq => ?_, fun hnone => ?_⟩
  · exact ⟨hout.declared hL, hd.leftApart⟩
  · have hkeys := find?_some hq
    simp only [Bool.and_eq_true] at hkeys
    exact hd.leftKey q (decidingPair_mem hq) (Attribute.same_comm _ _ ▸ hkeys.1)
  · simp only [decidingPair, find?_eq_none] at hnone
    obtain ⟨q, hq, hkeys⟩ := List.any_eq_true.1 hpair
    exact absurd hkeys (hnone q hq)

theorem exists_find? {side : JoinPair → Attribute} {child : PlanContext}
    (h : canOmitHashRepartition (pairs.map side) child.planPartitioner = true) :
    ∃ q, pairs.find? (fun q => (side q).same child.partitionKey) = some q := by
  obtain ⟨a, ha, hsame⟩ := List.any_eq_true.1 h
  obtain ⟨q, hq, rfl⟩ := List.mem_map.1 ha
  exact Option.isSome_iff_exists.1 (List.find?_isSome.2 ⟨q, hq, Attribute.same_comm _ _ ▸ hsame⟩)

section

variable (hd : Distinguished pairs left right)

include hd

theorem leftRepartition_spec (hp : Proper pairs left right)
    (hfits : Fits pairs left right .leftRepartition) (hR : Truthful K right Dr) :
    ∃ out rl rr, Spec K nodes cardinality pairs .leftRepartition left right Dl Dr out rl rr := by
  -- the pair that has the partition key of the right child
  obtain ⟨q, hq⟩ := exists_find? hfits
  have hmem := mem_of_find?_eq_some hq
  obtain ⟨hql, hqr⟩ := hp.columns q hmem
  have hkey : q.right.attrName = right.partitionKey.attrName :=
    hd.rightKey q hmem (by simpa using find?_some hq)
  obtain ⟨j, hj, hcol⟩ := getIdInAttributeList_eq_ok hd.leftNames (hd.leftIds q hmem) hql
  have hout := sameLayout_keepPartitions (left.attributeList ++ right.attributeList) right left
  have hpos := hout.partitions ▸ hR.nonempty
  refine ⟨_, .hash j, .stay, rfl, ?_, rfl, hpos, nofun,
    fun _ => ⟨hout.declared hR, hd.rightApart⟩, fun q' hq' => ?_, fun q' hq' => ?_,
    fun hnone => ?_⟩
  · have hpair : pairOfRightKey pairs right.partitionKey = .ok q := by rw [pairOfRightKey, hq]
    simp only [routes, hout.key, hpair, Run.bind_ok, hj, Run.pure_eq_ok]
  · obtain rfl : q = q' := Option.mem_unique hq hq'
    rw [send_stay hout.location]
    exact placement_of_arrives (arrives_hash hd.leftNames hpos hcol)
      (arrives_self hR hd.rightNames hqr hkey hout.partitions)
  · obtain rfl : q = q' := Option.mem_unique hq hq'
    exact hkey
  · rw [decidingPair, hq] at hnone
    cases hnone

theorem rightRepartition_spec (hp : Proper pairs left right)
    (hfits : Fits pairs left right .rightRepartition) (hL : Truthful K left Dl) :
    ∃ out rl rr, Spec K nodes cardinality pairs .rightRepartition left right Dl Dr out rl rr := by
  -- the pair that has the partition key of the left child
  obtain ⟨q, hq⟩ := exists_find? hfits
  have hmem := mem_of_find?_eq_some hq
  obtain ⟨hql, hqr⟩ := hp.columns q hmem
  have hkey : q.left.attrName = left.partitionKey.attrName :=
    hd.leftKey q hmem (by simpa using find?_some hq)
  obtain ⟨j, hj, hcol⟩ := getIdInAttributeList_eq_ok hd.rightNames (hd.rightIds q hmem) hqr
  have hout := sameLayout_keepPartitions (left.attributeList ++ right.attributeList) left right
  have hpos := hout.partitions ▸ hL.nonempty
  refine ⟨_, .stay, .hash j, rfl, ?_, rfl, hpos, fun _ => ⟨hout.declared hL, hd.leftApart⟩,
    nofun, fun q' hq' => ?_, fun q' hq' => ?_, fun hnone => ?_⟩
  · have hpair : pairOfLeftKeyOrShadow pairs left.partitionKey [] = .ok q := by
      rw [pairOfLeftKeyOrShadow, pairOfLeftKey, hq]
    change (pairOfLeftKeyOrShadow pairs left.partitionKey [] >>= fun q =>
      getIdInAttributeList right.attributeList q.right >>= fun j => pure (Route.stay, Route.hash j)) = _
    rw [hpair, Run.bind_ok, hj, Run.bind_ok, Run.pure_eq_ok]
  · obtain rfl : q = q' := Option.mem_unique hq hq'
    rw [send_stay hout.location]
    exact placement_of_arrives (arrives_self hL hd.leftNames hql hkey hout.partitions)
      (arrives_hash hd.rightNames hpos hcol)
  · obtain rfl : q = q' := Option.mem_unique hq hq'
    exact hkey
  · rw [decidingPair, hq] at hnone
    cases hnone

theorem leftBroadCast_spec (hR : Truthful K right Dr) :
    ∃ out rl rr, Spec K nodes cardinality pairs .leftBroadCast left right Dl Dr out rl rr := by
  have hout := sameLayout_keepPartitions (left.attributeList ++ right.attributeList) right left
  refine ⟨_, .broadcast, .stay, rfl, rfl, rfl, hout.partitions ▸ hR.nonempty, nofun,
    fun _ => ⟨hout.declared hR, hd.rightApart⟩, nofun, nofun, fun _ m => ?_⟩
  rw [send_stay hout.location, hout.partitions]
  exact Flows.sum_join_right

theorem rightBroadCast_spec (hL : Truthful K left Dl) :
    ∃ out rl rr, Spec K nodes cardinality pairs .rightBroadCast left right Dl Dr out rl rr := by
  have hout := sameLayout_keepPartitions (left.attributeList ++ right.attributeList) left right
  refine ⟨_, .stay, .broadcast, rfl, rfl, rfl, hout.partitions ▸ hL.nonempty,
    fun _ => ⟨hout.declared hL, hd.leftApart⟩, nofun, nofun, nofun, fun _ m => ?_⟩
  rw [send_stay hout.location, hout.partitions]
  exact Flows.sum_join_left

end

theorem declared_hash (hn : (left.attributeList.map (·.attrName)).Nodup)
    (hpos : 0 < out.partitions) {i : ℕ} (hcol : left.attributeList[i]? = some key)
    (hkey : out.partitionKey = key) (hf : ∀ info ∈ out.partitionList, info.filtered = false) :
    Declared K left out (send K left out Dl (.hash i)) := by
  have harr : Arrives K left out key.attrName Dl (send K left out Dl (.hash i)) :=
    arrives_hash hn hpos hcol
  refine ⟨fun p hp => ?_, fun p info hinfo hfiltered => ?_, fun j a hj hname p row hrow => ?_⟩
  · refine Multiset.eq_zero_iff_forall_notMem.2 fun row hrow => ?_
    have hp' := (harr.placed p row hrow).symm
    have hlt := placeOf_lt (K := K) hpos (cell left.attributeList row key.attrName)
    omega
  · rw [hf info (mem_of_getElem? hinfo)] at hfiltered
    cases hfiltered
  · rw [hkey] at hname
    rw [← cell_eq_cellAt hn hj, hname]
    exact harr.placed p row hrow

theorem completeRepartition_spec (hnodes : nodes ≠ []) (hd : Distinguished pairs left right)
    (hp : Proper pairs left right) : ∃ out rl rr,
      Spec K nodes cardinality pairs .completeRepartition left right Dl Dr out rl rr := by
  obtain ⟨q, rest, rfl⟩ := exists_cons_of_ne_nil hp.nonempty
  obtain ⟨hql, hqr⟩ := hp.columns q mem_cons_self
  obtain ⟨i, hi, hcoli⟩ := getIdInAttributeList_eq_ok hd.leftNames (hd.leftIds q mem_cons_self) hql
  obtain ⟨j, hj, hcolj⟩ := getIdInAttributeList_eq_ok hd.rightNames (hd.rightIds q mem_cons_self) hqr
  let partitioner : PlanPartitioner :=
    { partitionList := nodes.mapIdx fun i location => ⟨i, cardinality % 2 ^ 32, location, false⟩
      partitionFunc := .boostHash nodes.length
      partitionKey := q.left
      shadowPartitionKeys := [q.right] }
  have hpos : 0 < (⟨left.attributeList ++ right.attributeList, partitioner⟩ :
      PlanContext).partitions := by
    simpa [PlanContext.partitions, PlanContext.partitionList, partitioner, length_pos_iff]
      using hnodes
  have hf : ∀ info ∈ partitioner.partitionList, info.filtered = false := by
    intro info hinfo
    obtain ⟨k, hk, rfl⟩ := List.mem_mapIdx.1 hinfo
    rfl
  refine ⟨⟨left.attributeList ++ right.attributeList, partitioner⟩, .hash i, .hash j, rfl, ?_, rfl,
    hpos, fun _ => ⟨declared_hash hd.leftNames hpos hcoli rfl hf, fun a ha hname => ?_⟩, nofun,
    fun q' hq' => ?_, fun q' hq' => ?_, nofun⟩
  · have hpair : pairOfLeftKey (q :: rest) q.left = .ok q := by simp [pairOfLeftKey]
    simp only [routes, PlanContext.partitionKey, partitioner, hi, hpair, hj, Run.bind_ok,
      Run.pure_eq_ok]
  · have hdisj := (List.nodup_append.1 (map_append ▸ hd.names)).2.2
    exact hdisj _ (mem_map_of_mem hql) _ (mem_map_of_mem ha) hname.symm
  · obtain rfl : q = q' := Option.some.inj hq'
    exact placement_of_arrives (arrives_hash hd.leftNames hpos hcoli)
      (arrives_hash hd.rightNames hpos hcolj)
  · obtain rfl : q = q' := Option.some.inj hq'
    rfl

/-- **What a join does under the policy that was chosen for it.** -/
theorem policy_spec (cardinality : ℕ) (hnodes : nodes ≠ []) (hd : Distinguished pairs left right)
    (hp : Proper pairs left right) (hfits : Fits pairs left right policy)
    (hL : Truthful K left Dl) (hR : Truthful K right Dr) :
    ∃ out rl rr, Spec K nodes cardinality pairs policy left right Dl Dr out rl rr := by
  cases policy with
  | noRepartition => exact noRepartition_spec hd hp hfits hL hR
  | leftRepartition => exact leftRepartition_spec hd hp hfits hR
  | rightRepartition => exact rightRepartition_spec hd hp hfits hL
  | completeRepartition => exact completeRepartition_spec hnodes hd hp
  | leftBroadCast => exact leftBroadCast_spec hd hR
  | rightBroadCast => exact rightBroadCast_spec hd hL

end

end Planner
