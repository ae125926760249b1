/-
Plan contexts, and where the rows of a plan are.

A context is truthful about a flow when every row is in the partition that its partition key hashes
to.  An attribute is compared by the id of its table and its position there, in lookups by name.

* **`Truthful`** — rows are in the listed partition that their key hashes to;
* **`arrives_self`**, **`arrives_hash`** — what the exchanges bring to the partitions of a join;
* **`getIdInAttributeList_eq_ok`** — a column that is looked up by its ids is found.
-/
import ClaimsDB.ExpressionBuffers
import ClaimsDB.Faults
import ClaimsDB.PartitionedJoins

namespace Planner

open List
open Expressions (DataType ColumnType)

/-! ### Contexts -/

/-- A column, named `table.column`, with its position in its table. -/
structure Attribute where
  tableId : ℕ
  index : ℕ
  attrName : String
  attrType : ColumnType
  deriving DecidableEq, Repr

def Attribute.same (a b : Attribute) : Bool := a.tableId = b.tableId && a.index = b.index

structure PlanPartitionInfo where
  partitionId : ℕ
  cardinality : ℕ
  location : ℕ
  filtered : Bool
  deriving DecidableEq, Repr

def PlanPartitionInfo.getCardinality (info : PlanPartitionInfo) : ℕ :=
  if info.filtered then 0 else info.cardinality

def PlanPartitionInfo.isAvailable (info : PlanPartitionInfo) : Bool := !info.filtered

/-- An `unsigned`, kept as an `int`. -/
def PlanPartitionInfo.setCardinality (info : PlanPartitionInfo) (size : ℕ) : PlanPartitionInfo :=
  { info with cardinality := size % 2 ^ 32 }

/-- Of a partition function only its style and the number of partitions are used: the partition of
a key is computed from its hash. -/
inductive PartitionFunction
  | generalModulo (range : ℕ)
  | boostHash (range : ℕ)
  deriving DecidableEq, Repr

structure PlanPartitioner where
  partitionList : List PlanPartitionInfo
  partitionFunc : PartitionFunction
  partitionKey : Attribute
  shadowPartitionKeys : List Attribute
  deriving DecidableEq, Repr

structure PlanContext where
  attributeList : List Attribute
  planPartitioner : PlanPartitioner
  deriving DecidableEq, Repr

def PlanPartitioner.hasSamePartitionLocation (self target : PlanPartitioner) : Bool :=
  self.partitionList.length = target.partitionList.length &&
    (self.partitionList.zip target.partitionList).all fun x =>
      !(x.1.isAvailable && x.2.isAvailable) || x.1.location = x.2.location

def PlanPartitioner.getAggregatedDataSize (self : PlanPartitioner) : ℕ :=
  (self.partitionList.map (·.cardinality)).sum % 2 ^ 32

def PlanPartitioner.getAggregatedDataCardinality (self : PlanPartitioner) : ℕ :=
  (self.partitionList.map (·.getCardinality)).sum % 2 ^ 64

namespace PlanContext

def partitionList (c : PlanContext) : List PlanPartitionInfo := c.planPartitioner.partitionList

def partitionKey (c : PlanContext) : Attribute := c.planPartitioner.partitionKey

def partitions (c : PlanContext) : ℕ := c.partitionList.length

/-- The node of a partition, as `GetInvolvedNodeID` lists them. -/
def location (c : PlanContext) (p : ℕ) : Option ℕ := c.partitionList[p]?.map (·.location)

def getTupleSize (c : PlanContext) : ℕ :=
  (c.attributeList.map (·.attrType.getLength)).sum % 2 ^ 32

@[irreducible] def getAggregatedDatasize (c : PlanContext) : ℤ :=
  Int.bmod (c.planPartitioner.getAggregatedDataCardinality * c.getTupleSize : ℕ) (2 ^ 64)

end PlanContext

def getIdInAttributeList (attributes : List Attribute) (a : Attribute) : Run ℕ :=
  match attributes.findIdx? (·.same a) with
  | some i => .ok i
  | none => .error .assertFailed

/-- What the map of `GetColumnToId` holds for a name: the last column that has it. -/
def columnToId : List Attribute → String → Option ℕ
  | [], _ => none
  | a :: attributes, name =>
    match columnToId attributes name with
    | some i => some (i + 1)
    | none => if a.attrName = name then some 0 else none

/-! ### Flows -/

/-- The partition that a key hashes to, and whether `l = r` is true of two columns. -/
structure Keys (V : Type) where
  /-- `partition_value_[type][0](key, n)` -/
  place : DataType → V → ℕ → ℕ
  equal : DataType → DataType → V → V → Bool
  place_lt : ∀ t v n, 0 < n → place t v n < n

variable {V : Type}

/-- The rows in each partition, with the values in the order of the columns. -/
abbrev Flow (V : Type) := ℕ → Multiset (List V)

def cellAt (attributes : List Attribute) (row : List V) (j : ℕ) : Option (DataType × V) := do
  let a ← attributes[j]?
  let v ← row[j]?
  return (a.attrType.type, v)

def cell (attributes : List Attribute) (row : List V) (name : String) : Option (DataType × V) :=
  (columnToId attributes name).bind (cellAt attributes row)

def placeOf (K : Keys V) (n : ℕ) : Option (DataType × V) → ℕ
  | some (t, v) => K.place t v n
  | none => 0

/-- **A context is truthful**: rows are in the listed partition that their key hashes to. -/
structure Truthful (K : Keys V) (c : PlanContext) (D : Flow V) : Prop where
  nonempty : 0 < c.partitions
  listed : ∀ p, c.partitions ≤ p → D p = 0
  available : ∀ p info, c.partitionList[p]? = some info → info.filtered = true → D p = 0
  full : ∀ p, ∀ row ∈ D p, row.length = c.attributeList.length
  placed : ∀ j a, c.attributeList[j]? = some a → a.attrName = c.partitionKey.attrName →
    ∀ p, ∀ row ∈ D p, placeOf K c.partitions (cellAt c.attributeList row j) = p

inductive Route
  | stay
  | hash (column : ℕ)
  | broadcast
  deriving DecidableEq, Repr

abbrev rows (c : PlanContext) (D : Flow V) : Multiset (List V) := Flows.total c.partitions D

/-- What arrives in the partitions of `out`; a child that stays is read where it is. -/
def send (K : Keys V) (c out : PlanContext) (D : Flow V) : Route → Flow V
  | .stay => fun p => if c.location p = out.location p then D p else 0
  | .hash j => Flows.spread (fun row => placeOf K out.partitions (cellAt c.attributeList row j))
      (rows c D)
  | .broadcast => fun _ => rows c D

/-! ### Columns told apart -/

structure JoinPair where
  left : Attribute
  right : Attribute
  deriving DecidableEq, Repr

/-- Columns of two joined plans are known by their names, and nothing that is compared with a join
key by its ids, a column or the partition key of the same child, is taken for it wrongly. -/
structure Distinguished (pairs : List JoinPair) (left right : PlanContext) : Prop where
  names : ((left.attributeList ++ right.attributeList).map (·.attrName)).Nodup
  leftIds : ∀ q ∈ pairs, ∀ a ∈ left.attributeList, a.same q.left → a.attrName = q.left.attrName
  rightIds : ∀ q ∈ pairs, ∀ a ∈ right.attributeList, a.same q.right →
    a.attrName = q.right.attrName
  leftKey : ∀ q ∈ pairs, q.left.same left.partitionKey →
    q.left.attrName = left.partitionKey.attrName
  rightKey : ∀ q ∈ pairs, q.right.same right.partitionKey →
    q.right.attrName = right.partitionKey.attrName
  /-- the partition key of a child is not named like a column of the other -/
  leftApart : ∀ a ∈ right.attributeList, a.attrName ≠ left.partitionKey.attrName
  rightApart : ∀ a ∈ left.attributeList, a.attrName ≠ right.partitionKey.attrName

section

variable {K : Keys V} {attributes : List Attribute} {row : List V}

@[simp] theorem Attribute.same_self (a : Attribute) : a.same a = true := by simp [Attribute.same]

theorem Attribute.same_comm (a b : Attribute) : a.same b = b.same a := by
  simp [Attribute.same, eq_comm]

variable {name : String} {i : ℕ} {a : Attribute} {p j : ℕ} {attributes' : List Attribute}
  {row' : List V}

theorem columnToId_eq_none (h : ∀ a ∈ attributes, a.attrName ≠ name) :
    columnToId attributes name = none := by
  induction attributes with
  | nil => rfl
  | cons a attributes ih =>
    rw [columnToId, ih fun b hb => h b (mem_cons_of_mem a hb)]
    exact if_neg (h a mem_cons_self)

theorem columnToId_eq_some (hn : (attributes.map (·.attrName)).Nodup)
    (ha : attributes[i]? = some a) : columnToId attributes a.attrName = some i := by
  induction attributes generalizing i with
  | nil => simp at ha
  | cons b attributes ih =>
    obtain ⟨hb, hn⟩ := List.nodup_cons.1 (map_cons ▸ hn)
    cases i with
    | zero =>
      obtain rfl : b = a := by simpa using ha
      have hnone : columnToId attributes b.attrName = none :=
        columnToId_eq_none fun c hc hname => hb (hname ▸ mem_map_of_mem hc)
      simp [columnToId, hnone]
    | succ i =>
      have hi := ih hn (by simpa using ha)
      simp [columnToId, hi]

theorem columnToId_name (h : columnToId attributes name = some i) :
    ∃ a, attributes[i]? = some a ∧ a.attrName = name := by
  induction attributes generalizing i with
  | nil => cases h
  | cons a attributes ih =>
    rw [columnToId] at h
    split at h
    · rename_i k hk
      cases h
      exact ih hk
    · split at h
      · rename_i hname
        cases h
        exact ⟨a, rfl, hname⟩
      · cases h

theorem exists_of_cell_eq_some {t : DataType} {v : V} (h : cell attributes row name = some (t, v)) :
    ∃ a ∈ attributes, a.attrName = name ∧ a.attrType.type = t := by
  obtain ⟨i, hi, hcell⟩ := Option.bind_eq_some_iff.1 h
  obtain ⟨a, ha, hname⟩ := columnToId_name hi
  simp only [cellAt, ha, Option.bind_eq_bind, Option.bind_some, Option.pure_def,
    Option.bind_eq_some_iff, Option.some.injEq, Prod.mk.injEq] at hcell
  obtain ⟨_, -, htype, -⟩ := hcell
  exact ⟨a, mem_of_getElem? ha, hname, htype⟩

theorem cell_eq_cellAt (hn : (attributes.map (·.attrName)).Nodup) (ha : attributes[i]? = some a) :
    cell attributes row a.attrName = cellAt attributes row i := by
  rw [cell, columnToId_eq_some hn ha, Option.bind_some]

theorem getIdInAttributeList_eq_ok (hn : (attributes.map (·.attrName)).Nodup)
    (hids : ∀ b ∈ attributes, b.same a → b.attrName = a.attrName)
    (ha : a ∈ attributes) : ∃ i, getIdInAttributeList attributes a = .ok i ∧
      attributes[i]? = some a := by
  cases hfind : attributes.findIdx? (·.same a) with
  | none =>
    rw [findIdx?_eq_none_iff] at hfind
    have hself := hfind a ha
    simp at hself
  | some i =>
    obtain ⟨hi, hsame, -⟩ := List.findIdx?_eq_some_iff_getElem.1 hfind
    refine ⟨i, by rw [getIdInAttributeList, hfind], ?_⟩
    have hname := hids _ (getElem_mem hi) hsame
    rw [getElem?_eq_getElem hi, inj_on_of_nodup_map hn (getElem_mem hi) ha hname]

/-! ### What arrives -/

theorem placeOf_lt {n : ℕ} (hn : 0 < n) (x : Option (DataType × V)) : placeOf K n x < n := by
  rcases x with _ | ⟨t, v⟩
  · exact hn
  · exact K.place_lt t v n hn

variable {c out : PlanContext} {D : Flow V}

/-- All rows of a child arrive, each in the partition that the named column hashes to. -/
structure Arrives (K : Keys V) (c out : PlanContext) (name : String) (D D' : Flow V) : Prop where
  all : rows out D' = rows c D
  placed : ∀ p, ∀ row ∈ D' p, placeOf K out.partitions (cell c.attributeList row name) = p

theorem Truthful.exists_info (h : Truthful K c D) (hne : D p ≠ 0) :
    ∃ info : PlanPartitionInfo, c.partitionList[p]? = some info ∧ info.filtered = false := by
  have hlt : p < c.partitionList.length := by
    by_contra hge
    exact hne (h.listed p (not_lt.1 hge))
  refine ⟨_, getElem?_eq_getElem hlt, Bool.eq_false_iff.2 fun hf => ?_⟩
  exact hne (h.available p _ (getElem?_eq_getElem hlt) hf)

theorem arrives_self (h : Truthful K c D) (hn : (c.attributeList.map (·.attrName)).Nodup)
    (ha : a ∈ c.attributeList) (hkey : a.attrName = c.partitionKey.attrName)
    (hparts : out.partitions = c.partitions) : Arrives K c out a.attrName D D := by
  obtain ⟨j, hj⟩ := getElem?_of_mem ha
  refine ⟨by rw [rows, rows, hparts], fun p row hrow => ?_⟩
  rw [cell_eq_cellAt hn hj, hparts]
  exact h.placed j a hj hkey p row hrow

theorem send_stay (hloc : ∀ p, out.location p = c.location p) : send K c out D .stay = D :=
  funext fun p => if_pos (hloc p).symm

theorem arrives_hash (hn : (c.attributeList.map (·.attrName)).Nodup) (hparts : 0 < out.partitions)
    (hj : c.attributeList[j]? = some a) :
    Arrives K c out a.attrName D (send K c out D (.hash j)) := by
  refine ⟨Flows.total_spread fun row _ => placeOf_lt hparts _, fun p row hrow => ?_⟩
  rw [cell_eq_cellAt hn hj]
  exact (Flows.mem_spread.1 hrow).2

theorem mem_of_mem_send {route : Route} (h : row ∈ send K c out D route p) : ∃ q, row ∈ D q := by
  cases route with
  | stay =>
    simp only [send] at h
    split at h
    · exact ⟨p, h⟩
    · simp at h
  | hash j =>
    obtain ⟨q, -, hq⟩ := Flows.mem_total.1 (Flows.mem_spread.1 h).1
    exact ⟨q, hq⟩
  | broadcast =>
    obtain ⟨q, -, hq⟩ := Flows.mem_total.1 h
    exact ⟨q, hq⟩

theorem cellAt_append_left (hj : j < attributes.length) (hrow : row.length = attributes.length) :
    cellAt (attributes ++ attributes') (row ++ row') j = cellAt attributes row j := by
  rw [cellAt, cellAt, getElem?_append_left hj, getElem?_append_left (hrow ▸ hj)]

theorem cellAt_append_right (j : ℕ) (hrow : row.length = attributes.length) :
    cellAt (attributes ++ attributes') (row ++ row') (attributes.length + j) =
      cellAt attributes' row' j := by
  rw [cellAt, cellAt, getElem?_append_right (Nat.le_add_right _ _), Nat.add_sub_cancel_left,
    getElem?_append_right (hrow ▸ Nat.le_add_right _ _), hrow, Nat.add_sub_cancel_left]

end

end Planner
