/-
Column pruning of logical plans.

`PruneProj` walks down with the names that the operators above have reported, and puts projections
on them below operators.  A subquery passes the names on with its alias, although its columns have
other names.
-/
import ClaimsDB.LogicalPlans

namespace ColumnPruning

open Run (bind_eq_ok bind_ok pure_eq_ok)
open Function (comp_apply comp_def)
open List Except
open NamedColumns

variable {V : Type}

def decideAndCreateProject (attrs : List ColumnName) (child : Plan V) : Run (Plan V) := do
  let childAttrList ← child.attributes
  let keep := childAttrList.filter (· ∈ attrs)
  if keep.length < childAttrList.length then
    let names := if keep = [] ∧ 3 < childAttrList.length then childAttrList.take 1 else keep
    return if names = [] then child else .project (names.map columnItem) child
  else
    return child

/-- `PruneProj`: the plan, and the set of the caller afterwards; most operators copy the set. -/
def Plan.pruneProj : Plan V → List ColumnName → Run (Plan V × List ColumnName)
  | .scan table, aboveAttrs => .ok (.scan table, aboveAttrs)
  | .filter condition child, aboveAttrs => do
    let (child, attrs) ← child.pruneProj (getUniqueAttrs condition ++ aboveAttrs)
    let child ← decideAndCreateProject attrs child
    return (.filter condition child, aboveAttrs)
  | .join type joinCondi left right, aboveAttrs => do
    let (left, leftAttrs) ← left.pruneProj (getUniqueAttrs joinCondi ++ aboveAttrs)
    let left ← decideAndCreateProject leftAttrs left
    let (right, rightAttrs) ← right.pruneProj (getUniqueAttrs joinCondi ++ aboveAttrs)
    let right ← decideAndCreateProject rightAttrs right
    return (.join type joinCondi left right, aboveAttrs)
  | .deleteFilter filterKeys left right, aboveAttrs => do
    let (left, leftAttrs) ← left.pruneProj (filterKeys.map Prod.fst ++ aboveAttrs)
    let left ← decideAndCreateProject leftAttrs left
    let (right, rightAttrs) ← right.pruneProj (filterKeys.map Prod.snd ++ aboveAttrs)
    let right ← decideAndCreateProject rightAttrs right
    return (.deleteFilter filterKeys left right, aboveAttrs)
  | .aggregation groupBy aggregations aggregator child, aboveAttrs => do
    let (child, attrs) ←
      child.pruneProj (getUniqueAttrs (exprs (groupBy ++ aggregations)) ++ aboveAttrs)
    let child ← decideAndCreateProject attrs child
    return (.aggregation groupBy aggregations aggregator child, aboveAttrs)
  | .sort orderBy order child, aboveAttrs => do
    let (child, attrs) ← child.pruneProj (getUniqueAttrs orderBy ++ aboveAttrs)
    let child ← decideAndCreateProject attrs child
    return (.sort orderBy order child, aboveAttrs)
  | .limit offset count child, aboveAttrs => do
    let (child, attrs) ← child.pruneProj aboveAttrs
    return (.limit offset count child, attrs)
  | .project exprList child, aboveAttrs => do
    let (child, attrs) ← child.pruneProj (getUniqueAttrs (exprs exprList) ++ aboveAttrs)
    return (.project exprList child, attrs)
  | .subquery subqueryAlias child, aboveAttrs => do
    let (child, attrs) ← child.pruneProj aboveAttrs
    return (.subquery subqueryAlias child, attrs)

def pruneChild (child : Plan V) (attrs : List ColumnName) : Run (Plan V) := do
  let (child, attrs) ← child.pruneProj attrs
  decideAndCreateProject attrs child

/-! ### Named columns -/

def Named (attrs cols : List ColumnName) (n : ColumnName) : Prop :=
  n ∈ attrs ∨ (∀ m ∈ cols, m ∉ attrs) ∧ (cols.length ≤ 3 ∨ cols.head? = some n)

def keptColumns (attrs cols : List ColumnName) : List ColumnName :=
  if cols.filter (· ∈ attrs) = [] then if 3 < cols.length then cols.take 1 else cols
  else cols.filter (· ∈ attrs)

def Plan.seen : Plan V → List ColumnName → List ColumnName
  | .limit _ _ child, attrs => child.seen attrs
  | .project exprList child, attrs => child.seen (getUniqueAttrs (exprs exprList) ++ attrs)
  | .subquery _ child, attrs => child.seen attrs
  | _, attrs => attrs

def Plan.remaining : Plan V → List ColumnName → List ColumnName
  | .scan table, _ => table.columns
  | .filter condition child, attrs =>
    let attrs := getUniqueAttrs condition ++ attrs
    keptColumns (child.seen attrs) (child.remaining attrs)
  | .join _ joinCondi left right, attrs =>
    let attrs := getUniqueAttrs joinCondi ++ attrs
    keptColumns (left.seen attrs) (left.remaining attrs) ++
      keptColumns (right.seen attrs) (right.remaining attrs)
  | .deleteFilter filterKeys _ right, attrs =>
    let attrs := filterKeys.map Prod.snd ++ attrs
    keptColumns (right.seen attrs) (right.remaining attrs)
  | .aggregation groupBy aggregations _ _, _ => (groupBy ++ aggregations).map (·.name)
  | .sort orderBy _ child, attrs =>
    let attrs := getUniqueAttrs orderBy ++ attrs
    keptColumns (child.seen attrs) (child.remaining attrs)
  | .limit _ _ child, attrs => child.remaining attrs
  | .project exprList _, _ => exprList.map (·.name)
  | .subquery subqueryAlias child, attrs => (child.remaining attrs).map (rename subqueryAlias)

def NamesNeeded (child : Plan V) (attrs : List ColumnName) (needed : Set ColumnName) : Prop :=
  ∀ n ∈ child.remaining attrs, n ∈ needed → Named (child.seen attrs) (child.remaining attrs) n

/-- **The needed columns are named** where a projection is put over a child. -/
def Plan.Safe : Plan V → List ColumnName → Set ColumnName → Prop
  | .scan _, _, _ => True
  | .filter condition child, attrs, needed =>
    let attrs := getUniqueAttrs condition ++ attrs
    let needed := needed ∪ {n | n ∈ columnsOf condition}
    child.Safe attrs needed ∧ NamesNeeded child attrs needed
  | .join _ joinCondi left right, attrs, needed =>
    let attrs := getUniqueAttrs joinCondi ++ attrs
    let needed := needed ∪ {n | n ∈ columnsOf joinCondi}
    (left.Safe attrs needed ∧ NamesNeeded left attrs needed) ∧
      right.Safe attrs needed ∧ NamesNeeded right attrs needed
  | .deleteFilter filterKeys left right, attrs, needed =>
    let leftAttrs := filterKeys.map Prod.fst ++ attrs
    let leftNeeded := {n | n ∈ filterKeys.map Prod.fst}
    let rightAttrs := filterKeys.map Prod.snd ++ attrs
    let rightNeeded := needed ∪ {n | n ∈ filterKeys.map Prod.snd}
    (left.Safe leftAttrs leftNeeded ∧ NamesNeeded left leftAttrs leftNeeded) ∧
      right.Safe rightAttrs rightNeeded ∧ NamesNeeded right rightAttrs rightNeeded
  | .aggregation groupBy aggregations _ child, attrs, _ =>
    let attrs := getUniqueAttrs (exprs (groupBy ++ aggregations)) ++ attrs
    let needed := {n | n ∈ columnsOf (exprs (groupBy ++ aggregations))}
    child.Safe attrs needed ∧ NamesNeeded child attrs needed
  | .sort orderBy _ child, attrs, needed =>
    let attrs := getUniqueAttrs orderBy ++ attrs
    let needed := needed ∪ {n | n ∈ columnsOf orderBy}
    child.Safe attrs needed ∧ NamesNeeded child attrs needed
  | .limit _ _ child, attrs, needed => child.Safe attrs needed
  | .project exprList child, attrs, _ =>
    child.Safe (getUniqueAttrs (exprs exprList) ++ attrs) {n | n ∈ columnsOf (exprs exprList)}
  | .subquery subqueryAlias child, attrs, needed =>
    child.Safe attrs {n | rename subqueryAlias n ∈ needed}

/-- No two columns of a subquery get the same name (`rColumnIsAmbiguousAfterAlias`). -/
def Plan.AliasesDistinct : Plan V → Prop
  | .scan _ => True
  | .filter _ child => child.AliasesDistinct
  | .join _ _ left right => left.AliasesDistinct ∧ right.AliasesDistinct
  | .deleteFilter _ left right => left.AliasesDistinct ∧ right.AliasesDistinct
  | .aggregation _ _ _ child => child.AliasesDistinct
  | .sort _ _ child => child.AliasesDistinct
  | .limit _ _ child => child.AliasesDistinct
  | .project _ child => child.AliasesDistinct
  | .subquery _ child => child.AliasesDistinct ∧
    ∀ cols, child.attributes = .ok cols → (cols.map (·.column)).Nodup

def Plan.SidesDistinct : Plan V → Prop
  | .scan _ => True
  | .filter _ child => child.SidesDistinct
  | .join _ _ left right => left.SidesDistinct ∧ right.SidesDistinct ∧
    ∀ cols cols', left.attributes = .ok cols → right.attributes = .ok cols' → cols.Disjoint cols'
  | .deleteFilter _ left right => left.SidesDistinct ∧ right.SidesDistinct
  | .aggregation _ _ _ child => child.SidesDistinct
  | .sort _ _ child => child.SidesDistinct
  | .limit _ _ child => child.SidesDistinct
  | .project _ child => child.SidesDistinct
  | .subquery _ child => child.SidesDistinct

/-- The select list of the outermost query is not `*`. -/
def Plan.SelectsColumns : Plan V → Prop
  | .project _ _ => True
  | .limit _ _ child => child.SelectsColumns
  | _ => False

/-- **The result is preserved**: the plan after `PruneProj` has the same output columns and rows. -/
def Preserved (M : Values V) (plan : Plan V) : Prop :=
  ∃ plan' attrs, plan.pruneProj [] = .ok (plan', attrs) ∧ plan'.execute M = plan.execute M

/-! ### What remains -/

section

variable (child left right : Plan V) (attrs : List ColumnName)

theorem pruneProj_filter (condition : List (Expr V)) :
    (Plan.filter condition child).pruneProj attrs =
      pruneChild child (getUniqueAttrs condition ++ attrs) >>= fun child =>
        .ok (.filter condition child, attrs) := by
  rw [Plan.pruneProj, pruneChild, bind_assoc]
  rfl

theorem pruneProj_join (type : JoinType) (joinCondi : List (Expr V)) :
    (Plan.join type joinCondi left right).pruneProj attrs =
      pruneChild left (getUniqueAttrs joinCondi ++ attrs) >>= fun left =>
        pruneChild right (getUniqueAttrs joinCondi ++ attrs) >>= fun right =>
          .ok (.join type joinCondi left right, attrs) := by
  simp only [Plan.pruneProj, pruneChild, bind_assoc]
  rfl

theorem pruneProj_deleteFilter (filterKeys : List (ColumnName × ColumnName)) :
    (Plan.deleteFilter filterKeys left right).pruneProj attrs =
      pruneChild left (filterKeys.map Prod.fst ++ attrs) >>= fun left =>
        pruneChild right (filterKeys.map Prod.snd ++ attrs) >>= fun right =>
          .ok (.deleteFilter filterKeys left right, attrs) := by
  simp only [Plan.pruneProj, pruneChild, bind_assoc]
  rfl

theorem pruneProj_aggregation (groupBy aggregations : List (Item V)) (aggregator : Aggregator V) :
    (Plan.aggregation groupBy aggregations aggregator child).pruneProj attrs =
      pruneChild child (getUniqueAttrs (exprs (groupBy ++ aggregations)) ++ attrs) >>= fun child =>
        .ok (.aggregation groupBy aggregations aggregator child, attrs) := by
  rw [Plan.pruneProj, pruneChild, bind_assoc]
  rfl

theorem pruneProj_sort (orderBy : List (Expr V)) (order : List (List V) → List ℕ) :
    (Plan.sort orderBy order child).pruneProj attrs =
      pruneChild child (getUniqueAttrs orderBy ++ attrs) >>= fun child =>
        .ok (.sort orderBy order child, attrs) := by
  rw [Plan.pruneProj, pruneChild, bind_assoc]
  rfl

end

variable {attrs cols : List ColumnName} {child child' : Plan V} {M : Values V}
  {rows : List (List V)}

theorem mem_keptColumns {n : ColumnName} :
    n ∈ keptColumns attrs cols ↔ n ∈ cols ∧ Named attrs cols n := by
  have hempty : cols.filter (· ∈ attrs) = [] ↔ ∀ m ∈ cols, m ∉ attrs := by
    simp [filter_eq_nil_iff]
  unfold keptColumns Named
  split
  · rename_i h
    have hnone := hempty.1 h
    split_ifs with hlength
    · cases cols with
      | nil => simp
      | cons c cols =>
        have hle : ¬(c :: cols).length ≤ 3 := Nat.not_le.2 hlength
        rw [take_succ_cons, take_zero, mem_singleton]
        constructor
        · rintro rfl
          exact ⟨mem_cons_self, .inr ⟨hnone, .inr rfl⟩⟩
        · rintro ⟨hmem, hn | ⟨-, hle' | hhead⟩⟩
          · exact absurd hn (hnone n hmem)
          · exact absurd hle' hle
          · exact (Option.some.inj hhead).symm
    · exact ⟨fun hn => ⟨hn, .inr ⟨hnone, .inl (Nat.not_lt.1 hlength)⟩⟩, fun hn => hn.1⟩
  · rename_i h
    rw [mem_filter, decide_eq_true_eq]
    refine and_congr_right fun _ => ⟨.inl, ?_⟩
    rintro (hn | ⟨hnone, -⟩)
    · exact hn
    · exact absurd (hempty.2 hnone) h

theorem keptColumns_subset (attrs cols : List ColumnName) : keptColumns attrs cols ⊆ cols :=
  fun _ hn => (mem_keptColumns.1 hn).1

theorem columnsOf_columnItems (names : List ColumnName) :
    columnsOf (exprs (names.map (columnItem (V := V)))) = names := by
  induction names with
  | nil => rfl
  | cons n names ih =>
    change [n] ++ columnsOf (exprs (names.map columnItem)) = n :: names
    rw [ih]
    rfl

theorem names_columnItems (names : List ColumnName) :
    (names.map (columnItem (V := V))).map (·.name) = names := by
  rw [map_map]
  exact (map_congr_left fun n _ => columnItem_name n).trans (map_id _)

theorem decideAndCreateProject_eq (attrs : List ColumnName) (h : child.attributes = .ok cols) :
    decideAndCreateProject attrs child = .ok (if keptColumns attrs cols = cols then child
      else .project ((keptColumns attrs cols).map columnItem) child) := by
  simp only [decideAndCreateProject, h, bind_ok, pure_eq_ok]
  by_cases hkeep : cols.filter (· ∈ attrs) = []
  · by_cases hlength : 3 < cols.length
    · -- only the first column is kept
      have hkept : keptColumns attrs cols = cols.take 1 := by
        rw [keptColumns, if_pos hkeep, if_pos hlength]
      have hpos : (cols.filter (· ∈ attrs)).length < cols.length := by
        rw [hkeep, length_nil]
        omega
      have htake : cols.take 1 ≠ [] := by
        rw [Ne, take_eq_nil_iff]
        rintro (h1 | rfl)
        · cases h1
        · cases hlength
      have hne : cols.take 1 ≠ cols := fun heq => by
        have := congrArg List.length heq
        rw [length_take] at this
        omega
      rw [if_pos hpos, if_pos (And.intro hkeep hlength), if_neg htake, hkept, if_neg hne]
    · have hkept : keptColumns attrs cols = cols := by
        rw [keptColumns, if_pos hkeep, if_neg hlength]
      have hnot : ¬(cols.filter (· ∈ attrs) = [] ∧ 3 < cols.length) := fun h => hlength h.2
      rw [if_neg hnot, if_pos hkeep, if_pos hkept]
      split <;> rfl
  · have hkept : keptColumns attrs cols = cols.filter (· ∈ attrs) := if_neg hkeep
    have hnot : ¬(cols.filter (· ∈ attrs) = [] ∧ 3 < cols.length) := fun h => hkeep h.1
    rw [if_neg hnot, if_neg hkeep, hkept]
    by_cases hall : cols.filter (· ∈ attrs) = cols
    · rw [if_pos hall, if_neg]
      rw [hall]
      exact lt_irrefl _
    · rw [if_neg hall, if_pos]
      refine lt_of_le_of_ne (length_filter_le _ _) fun hlength => hall ?_
      exact List.filter_sublist.eq_of_length hlength

theorem attributes_decideAndCreateProject (h : child.attributes = .ok cols)
    (h' : decideAndCreateProject attrs child = .ok child') :
    child'.attributes = .ok (keptColumns attrs cols) := by
  rw [decideAndCreateProject_eq attrs h] at h'
  cases h'
  split
  · rename_i hall
    rw [hall, h]
  · rw [Plan.attributes, h, bind_ok, columnsOf_columnItems,
      resolve_eq_ok (keptColumns_subset attrs cols), names_columnItems]
    rfl

theorem initAll_columnItems (M : Values V) {names : List ColumnName} (h : names ⊆ cols) :
    initAll (find M.null cols) (exprs (names.map columnItem)) =
      .ok (select M.null (names.map fun n => (idOf cols n).getD 0)) := by
  induction names with
  | nil => rfl
  | cons n names ih =>
    obtain ⟨i, hi⟩ := exists_idOf (h mem_cons_self)
    have hcolumn : (Expr.column n).init (find M.null cols) = .ok fun row => row.getD i M.null := by
      simp only [Expr.init, find, hi, Option.map_some]
    change initAll (find M.null cols) (.column n :: exprs (names.map columnItem)) = _
    rw [initAll, hcolumn, bind_ok, ih fun m hm => h (mem_cons_of_mem n hm)]
    simp only [bind_ok, pure_eq_ok, select, map_cons, hi, Option.getD_some]
    rfl

theorem map_select_range {p : Plan V} (h : p.execute M = .ok (cols, rows)) :
    rows.map (select M.null (List.range cols.length)) = rows := by
  conv_rhs => rw [← map_id rows]
  refine map_congr_left fun row hrow => ?_
  rw [← ((execute_spec h).2) row hrow, select_range, id]

theorem execute_decideAndCreateProject {needed : Set ColumnName}
    (h : child.execute M = .ok (cols, rows))
    (hnamed : ∀ n ∈ cols, n ∈ needed → Named attrs cols n) :
    ∃ child' cols' ids, decideAndCreateProject attrs child = .ok child' ∧
      child'.execute M = .ok (cols', rows.map (select M.null ids)) ∧
      Narrows needed cols cols' ids := by
  rw [decideAndCreateProject_eq attrs (attributes_of_execute h)]
  by_cases hall : keptColumns attrs cols = cols
  · rw [if_pos hall]
    refine ⟨child, cols, _, rfl, ?_, Narrows.refl needed cols⟩
    rw [map_select_range h, h]
  · rw [if_neg hall]
    have hsubset := keptColumns_subset attrs cols
    refine ⟨_, keptColumns attrs cols, _, rfl, ?_, Narrows.names hsubset fun n hn hcols =>
      mem_keptColumns.2 ⟨hcols, hnamed n hcols hn⟩⟩
    rw [Plan.execute, h, bind_ok]
    dsimp only
    rw [initAll_columnItems M hsubset, bind_ok, names_columnItems]
    rfl

theorem attributes_of_pruneChild {child child' : Plan V} {attrs : List ColumnName}
    (ih : ∀ p' attrs', child.pruneProj attrs = .ok (p', attrs') → attrs' = child.seen attrs ∧
      ∀ cols, p'.attributes = .ok cols → cols = child.remaining attrs)
    (h : pruneChild child attrs = .ok child') :
    child'.attributes = .ok (keptColumns (child.seen attrs) (child.remaining attrs)) := by
  obtain ⟨⟨pruned, attrs'⟩, hpruned, h⟩ := bind_eq_ok h
  obtain ⟨cols, hcols, -⟩ := bind_eq_ok h
  obtain ⟨rfl, hremaining⟩ := ih _ _ hpruned
  rw [← hremaining cols hcols]
  exact attributes_decideAndCreateProject hcols h

/-- **What remains** is what `seen` and `remaining` say. -/
theorem pruneProj_remaining (p : Plan V) (attrs : List ColumnName) (p' : Plan V)
    (attrs' : List ColumnName) (h : p.pruneProj attrs = .ok (p', attrs')) :
    attrs' = p.seen attrs ∧ ∀ cols, p'.attributes = .ok cols → cols = p.remaining attrs := by
  induction p generalizing attrs p' attrs' with
  | scan table =>
    cases h
    exact ⟨rfl, fun cols hcols => (ok.inj hcols).symm⟩
  | filter condition child ih
  | aggregation groupBy aggregations aggregator child ih
  | sort orderBy order child ih =>
    simp only [pruneProj_filter, pruneProj_aggregation, pruneProj_sort] at h
    obtain ⟨child', hchild, h⟩ := bind_eq_ok h
    cases h
    refine ⟨rfl, fun cols hcols => ?_⟩
    rw [Plan.attributes, attributes_of_pruneChild (ih _) hchild, bind_ok] at hcols
    obtain ⟨-, -, hcols⟩ := bind_eq_ok hcols
    exact (ok.inj hcols).symm
  | join type joinCondi left right ihl ihr =>
    rw [pruneProj_join] at h
    obtain ⟨left', hleft, right', hright, h⟩ := Run.bind₂_eq_ok h
    cases h
    refine ⟨rfl, fun cols hcols => ?_⟩
    rw [Plan.attributes, attributes_of_pruneChild (ihl _) hleft, bind_ok,
      attributes_of_pruneChild (ihr _) hright, bind_ok] at hcols
    obtain ⟨-, -, hcols⟩ := bind_eq_ok hcols
    exact (ok.inj hcols).symm
  | deleteFilter filterKeys left right ihl ihr =>
    rw [pruneProj_deleteFilter] at h
    obtain ⟨left', hleft, right', hright, h⟩ := Run.bind₂_eq_ok h
    cases h
    refine ⟨rfl, fun cols hcols => ?_⟩
    rw [Plan.attributes, attributes_of_pruneChild (ihl _) hleft, bind_ok,
      attributes_of_pruneChild (ihr _) hright, bind_ok] at hcols
    obtain ⟨-, -, -, -, hcols⟩ := Run.bind₂_eq_ok hcols
    exact (ok.inj hcols).symm
  | limit offset count child ih =>
    rw [Plan.pruneProj] at h
    obtain ⟨⟨child', seen⟩, hchild, h⟩ := bind_eq_ok h
    cases h
    exact ih attrs child' attrs' hchild
  | project exprList child ih =>
    rw [Plan.pruneProj] at h
    obtain ⟨⟨child', seen⟩, hchild, h⟩ := bind_eq_ok h
    cases h
    refine ⟨(ih _ child' attrs' hchild).1, fun cols hcols => ?_⟩
    rw [Plan.attributes] at hcols
    obtain ⟨_, -, -, -, hcols⟩ := Run.bind₂_eq_ok hcols
    exact (ok.inj hcols).symm
  | subquery subqueryAlias child ih =>
    rw [Plan.pruneProj] at h
    obtain ⟨⟨child', seen⟩, hchild, h⟩ := bind_eq_ok h
    cases h
    obtain ⟨hseen, hremaining⟩ := ih attrs child' attrs' hchild
    refine ⟨hseen, fun cols hcols => ?_⟩
    rw [Plan.attributes] at hcols
    obtain ⟨childCols, hchildCols, hcols⟩ := bind_eq_ok hcols
    cases hcols
    rw [hremaining childCols hchildCols]
    rfl

theorem remaining_subset (p : Plan V) (attrs : List ColumnName) (h : p.attributes = .ok cols) :
    p.remaining attrs ⊆ cols := by
  induction p generalizing attrs cols with
  | scan table =>
    cases h
    exact List.Subset.refl _
  | filter condition child ih
  | sort orderBy order child ih =>
    rw [Plan.attributes] at h
    obtain ⟨childCols, hchild, -, -, h⟩ := Run.bind₂_eq_ok h
    cases h
    exact List.Subset.trans (keptColumns_subset _ _) (ih _ hchild)
  | join type joinCondi left right ihl ihr =>
    rw [Plan.attributes] at h
    obtain ⟨leftCols, hleft, rightCols, hright, h⟩ := Run.bind₂_eq_ok h
    obtain ⟨-, -, h⟩ := bind_eq_ok h
    cases h
    refine List.append_subset.2 ⟨fun n hn => mem_append_left _ ?_, fun n hn =>
      mem_append_right _ ?_⟩
    · exact ihl _ hleft (keptColumns_subset _ _ hn)
    · exact ihr _ hright (keptColumns_subset _ _ hn)
  | deleteFilter filterKeys left right ihl ihr =>
    rw [Plan.attributes] at h
    obtain ⟨leftCols, hleft, rightCols, hright, h⟩ := Run.bind₂_eq_ok h
    obtain ⟨-, -, -, -, h⟩ := Run.bind₂_eq_ok h
    cases h
    exact List.Subset.trans (keptColumns_subset _ _) (ihr _ hright)
  | aggregation groupBy aggregations aggregator child ih
  | project exprList child ih =>
    rw [Plan.attributes] at h
    obtain ⟨_, -, -, -, h⟩ := Run.bind₂_eq_ok h
    cases h
    exact List.Subset.refl _
  | limit offset count child ih => exact ih attrs h
  | subquery subqueryAlias child ih =>
    rw [Plan.attributes] at h
    obtain ⟨childCols, hchild, h⟩ := bind_eq_ok h
    cases h
    exact map_subset _ (ih attrs hchild)

/-! ### Named columns are enough -/

section

variable {M : Values V}

variable {ids ids' : List ℕ} {needed : Set ColumnName} {cols : List ColumnName} {child : Plan V}
  {attrs : List ColumnName} {rows : List (List V)} {g : List V → List V}

theorem joinRows_map {type : JoinType} {leftSize rightSize : ℕ}
    (isMatch isMatch' : List V × List V → Bool) {left right : List (List V)}
    (hids : ∀ i ∈ ids, i < leftSize) (hleft : ∀ l ∈ left, l.length = leftSize)
    (hmatch : ∀ l r, isMatch' (select M.null ids l, select M.null ids' r) = isMatch (l, r)) :
    joinRows M type ids.length ids'.length isMatch' (left.map (select M.null ids))
        (right.map (select M.null ids')) =
      (joinRows M type leftSize rightSize isMatch left right).map
        (select M.null (ids ++ ids'.map (leftSize + ·))) := by
  have happend : ∀ l : List V, l.length = leftSize → ∀ r,
      select M.null (ids ++ ids'.map (leftSize + ·)) (l ++ r) =
        select M.null ids l ++ select M.null ids' r := by
    rintro l rfl r
    exact select_append M.null hids
  simp only [joinRows, map_append]
  congr 1
  · congr 1
    · -- rows with a partner
      rw [flatMap_map, map_flatMap]
      refine flatMap_congr fun l hl => ?_
      rw [filter_map, map_map, map_map]
      have hfilter : right.filter ((fun r => isMatch' (select M.null ids l, r)) ∘
          select M.null ids') = right.filter fun r => isMatch (l, r) :=
        filter_congr fun r _ => hmatch l r
      rw [hfilter]
      exact map_congr_left fun r _ => (happend l (hleft l hl) r).symm
    · split
      · rw [filter_map, map_map, map_map]
        have hfilter : left.filter ((fun l => !(right.map (select M.null ids')).any fun r =>
            isMatch' (l, r)) ∘ select M.null ids) =
            left.filter fun l => !right.any fun r => isMatch (l, r) :=
          filter_congr fun l _ => by simp [any_map, comp_def, hmatch]
        rw [hfilter]
        refine map_congr_left fun l hl => ?_
        rw [comp_apply, comp_apply, happend l (hleft l (mem_of_mem_filter hl)),
          select_replicate]
      · rfl
  · split
    · rw [filter_map, map_map, map_map]
      have hfilter : right.filter ((fun r => !(left.map (select M.null ids)).any fun l =>
          isMatch' (l, r)) ∘ select M.null ids') =
          right.filter fun r => !left.any fun l => isMatch (l, r) :=
        filter_congr fun r _ => by simp [any_map, comp_def, hmatch]
      rw [hfilter]
      refine map_congr_left fun r _ => ?_
      rw [comp_apply, comp_apply, happend _ length_replicate,
        select_replicate]
    · rfl

theorem lookTwo_map {a a' b b' : List ColumnName} (h : Narrows needed a a' ids)
    (h' : Narrows needed b b' ids') {n : ColumnName} (hn : n ∈ needed) :
    (lookTwo M a' b' n).map (fun g rows => g (select M.null ids rows.1, select M.null ids' rows.2)) =
      lookTwo M a b n := by
  rw [lookTwo, lookTwo, ← h.find_eq M.null hn, ← h'.find_eq M.null hn, Option.map_or,
    Option.map_map, Option.map_map, Option.map_map, Option.map_map]
  rfl

theorem columnsOf_leftKeys (filterKeys : List (ColumnName × ColumnName)) :
    columnsOf (leftKeys (V := V) filterKeys) = filterKeys.map Prod.fst := by
  induction filterKeys with
  | nil => rfl
  | cons key filterKeys ih => exact congrArg (key.1 :: ·) ih

theorem columnsOf_rightKeys (filterKeys : List (ColumnName × ColumnName)) :
    columnsOf (rightKeys (V := V) filterKeys) = filterKeys.map Prod.snd := by
  induction filterKeys with
  | nil => rfl
  | cons key filterKeys ih => exact congrArg (key.2 :: ·) ih

theorem rename_injOn (subqueryAlias : String) (h : (cols.map (·.column)).Nodup) :
    ∀ x ∈ cols, ∀ y ∈ cols,
      rename subqueryAlias x = rename subqueryAlias y → x = y := by
  intro x hx y hy heq
  have hcolumn : x.column = y.column := (ColumnName.mk.inj heq).2
  exact inj_on_of_nodup_map h hx hy hcolumn

def NarrowedBy (M : Values V) (attrs : List ColumnName) (needed : Set ColumnName) (p : Plan V) :
    Prop :=
  ∀ cols rows, p.execute M = .ok (cols, rows) → ∃ p' attrs' cols' ids,
    p.pruneProj attrs = .ok (p', attrs') ∧
    p'.execute M = .ok (cols', rows.map (select M.null ids)) ∧ Narrows needed cols cols' ids

theorem pruneChild_narrows (ih : NarrowedBy M attrs needed child)
    (hnamed : NamesNeeded child attrs needed) (h : child.execute M = .ok (cols, rows)) :
    ∃ child' cols' ids, pruneChild child attrs = .ok child' ∧
      child'.execute M = .ok (cols', rows.map (select M.null ids)) ∧
      Narrows needed cols cols' ids := by
  obtain ⟨pruned, attrs', cols₁, ids₁, hpruned, hexec, hnarrows⟩ := ih cols rows h
  obtain ⟨rfl, hremaining⟩ := pruneProj_remaining child attrs pruned attrs' hpruned
  obtain rfl := hremaining cols₁ (attributes_of_execute hexec)
  obtain ⟨child', cols', ids, hchild, hexec', hnarrows'⟩ :=
    execute_decideAndCreateProject hexec hnamed
  refine ⟨child', cols', _, ?_, ?_, hnarrows.trans hnarrows'⟩
  · rw [pruneChild, hpruned, bind_ok]
    exact hchild
  · have hlt : ∀ j ∈ ids, j < ids₁.length := hnarrows.length ▸ hnarrows'.lt
    rw [hexec', map_map]
    refine congrArg (fun rows => ok (cols', rows)) (map_congr_left fun row _ => ?_)
    exact select_select M.null hlt row

theorem initAll_narrows {cols' : List ColumnName} {es : List (Expr V)}
    (h : Narrows needed cols cols' ids) (hneeded : ∀ n ∈ columnsOf es, n ∈ needed)
    (hg : initAll (find M.null cols) es = .ok g) :
    ∃ g', initAll (find M.null cols') es = .ok g' ∧ ∀ row, g' (select M.null ids row) = g row :=
  initAll_comp es (fun _ hn => h.find_eq M.null (hneeded _ hn)) hg

theorem map_values_narrows {g' : List V → List V} (h : ∀ row, g' (select M.null ids row) = g row) :
    (rows.map (select M.null ids)).map g' = rows.map g := by
  rw [map_map]
  exact map_congr_left fun row _ => h row

theorem pruneProj_project {exprList : List (Item V)} {child : Plan V} {attrs : List ColumnName}
    (h : NarrowedBy M (getUniqueAttrs (exprs exprList) ++ attrs)
      {n | n ∈ columnsOf (exprs exprList)} child) {cols : List ColumnName} {rows : List (List V)}
    (hexec : (Plan.project exprList child).execute M = .ok (cols, rows)) :
    ∃ p' attrs', (Plan.project exprList child).pruneProj attrs = .ok (p', attrs') ∧
      p'.execute M = .ok (cols, rows) := by
  rw [Plan.execute] at hexec
  obtain ⟨⟨childCols, childRows⟩, hchild, hexec⟩ := bind_eq_ok hexec
  obtain ⟨values, hvalues, hexec⟩ := bind_eq_ok hexec
  cases hexec
  obtain ⟨child', seen, cols', ids, hpruned, hchild', hnarrows⟩ := h _ _ hchild
  obtain ⟨values', hvalues', hsame⟩ := initAll_narrows hnarrows (fun _ hn => hn) hvalues
  refine ⟨_, seen, by rw [Plan.pruneProj, hpruned, bind_ok]; rfl, ?_⟩
  rw [Plan.execute, hchild', bind_ok]
  dsimp only
  rw [hvalues', bind_ok, map_values_narrows hsame]
  rfl

/-- **A plan whose needed columns are named is narrowed** to some of its columns, with all that are
needed. -/
theorem pruneProj_narrows (p : Plan V) (hdistinct : p.AliasesDistinct) (attrs : List ColumnName)
    (needed : Set ColumnName) (hsafe : p.Safe attrs needed) : NarrowedBy M attrs needed p := by
  induction p generalizing attrs needed with
  | scan table =>
    intro cols rows h
    refine ⟨_, _, cols, _, rfl, ?_, Narrows.refl needed cols⟩
    rw [map_select_range h, h]
  | filter condition child ih =>
    intro cols rows h
    rw [Plan.execute] at h
    obtain ⟨⟨childCols, childRows⟩, hchild, h⟩ := bind_eq_ok h
    obtain ⟨test, htest, h⟩ := bind_eq_ok h
    cases h
    obtain ⟨child', cols', ids, hpruned, hexec, hnarrows⟩ :=
      pruneChild_narrows (ih hdistinct _ _ hsafe.1) hsafe.2 hchild
    obtain ⟨test', htest', hsame⟩ := initAll_narrows hnarrows (fun _ hn => .inr hn) htest
    refine ⟨_, _, cols', ids, by rw [pruneProj_filter, hpruned, bind_ok], ?_,
      hnarrows.mono Set.subset_union_left⟩
    rw [Plan.execute, hexec, bind_ok]
    dsimp only
    rw [htest', bind_ok, pure_eq_ok, filter_map]
    refine congrArg (fun rows => ok (cols', List.map _ rows)) ?_
    exact filter_congr fun row _ => by rw [comp_apply, hsame]
  | join type joinCondi left right ihl ihr =>
    intro cols rows h
    rw [Plan.execute] at h
    obtain ⟨⟨leftCols, leftRows⟩, hleft, h⟩ := bind_eq_ok h
    obtain ⟨⟨rightCols, rightRows⟩, hright, h⟩ := bind_eq_ok h
    obtain ⟨test, htest, h⟩ := bind_eq_ok h
    cases h
    obtain ⟨left', lcols, lids, hlpruned, hlexec, hlnarrows⟩ :=
      pruneChild_narrows (ihl hdistinct.1 _ _ hsafe.1.1) hsafe.1.2 hleft
    obtain ⟨right', rcols, rids, hrpruned, hrexec, hrnarrows⟩ :=
      pruneChild_narrows (ihr hdistinct.2 _ _ hsafe.2.1) hsafe.2.2 hright
    obtain ⟨test', htest', hsame⟩ := initAll_comp joinCondi
      (fun n hn => lookTwo_map hlnarrows hrnarrows (.inr hn)) htest
    refine ⟨_, _, lcols ++ rcols, _, by rw [pruneProj_join, hlpruned, bind_ok, hrpruned,
      bind_ok], ?_, (hlnarrows.append hrnarrows).mono Set.subset_union_left⟩
    rw [Plan.execute, hlexec, bind_ok]
    dsimp only
    rw [hrexec, bind_ok]
    dsimp only
    rw [htest', bind_ok, pure_eq_ok, ← hlnarrows.length, ← hrnarrows.length,
      joinRows_map (fun rows => (test rows).all M.isTrue) _ hlnarrows.lt ((execute_spec hleft).2)
        fun l r => congrArg (fun values => values.all M.isTrue) (hsame (l, r))]
  | deleteFilter filterKeys left right ihl ihr =>
    intro cols rows h
    rw [Plan.execute] at h
    obtain ⟨⟨leftCols, leftRows⟩, hleft, h⟩ := bind_eq_ok h
    obtain ⟨⟨rightCols, rightRows⟩, hright, h⟩ := bind_eq_ok h
    obtain ⟨leftKey, hleftKey, rightKey, hrightKey, h⟩ := Run.bind₂_eq_ok h
    cases h
    obtain ⟨left', lcols, lids, hlpruned, hlexec, hlnarrows⟩ :=
      pruneChild_narrows (ihl hdistinct.1 _ _ hsafe.1.1) hsafe.1.2 hleft
    obtain ⟨right', rcols, rids, hrpruned, hrexec, hrnarrows⟩ :=
      pruneChild_narrows (ihr hdistinct.2 _ _ hsafe.2.1) hsafe.2.2 hright
    obtain ⟨leftKey', hleftKey', hlsame⟩ := initAll_narrows hlnarrows
      (fun n hn => columnsOf_leftKeys filterKeys ▸ hn) hleftKey
    obtain ⟨rightKey', hrightKey', hrsame⟩ := initAll_narrows hrnarrows
      (fun n hn => .inr (columnsOf_rightKeys filterKeys ▸ hn)) hrightKey
    refine ⟨_, _, rcols, rids, by rw [pruneProj_deleteFilter, hlpruned, bind_ok, hrpruned,
      bind_ok], ?_, hrnarrows.mono Set.subset_union_left⟩
    rw [Plan.execute, hlexec, bind_ok]
    dsimp only
    rw [hrexec, bind_ok]
    dsimp only
    rw [hleftKey', bind_ok, hrightKey', bind_ok, pure_eq_ok, map_values_narrows hlsame,
      flatMap_map, map_flatMap]
    refine congrArg (fun rows => ok (rcols, rows)) (flatMap_congr fun row _ => ?_)
    rw [hrsame, map_replicate]
  | aggregation groupBy aggregations aggregator child ih =>
    intro cols rows h
    have hrange := map_select_range h
    rw [Plan.execute] at h
    obtain ⟨⟨childCols, childRows⟩, hchild, h⟩ := bind_eq_ok h
    obtain ⟨values, hvalues, h⟩ := bind_eq_ok h
    cases h
    obtain ⟨child', cols', ids, hpruned, hexec, hnarrows⟩ :=
      pruneChild_narrows (ih hdistinct _ _ hsafe.1) hsafe.2 hchild
    obtain ⟨values', hvalues', hsame⟩ := initAll_narrows hnarrows (fun _ hn => hn) hvalues
    refine ⟨_, _, _, _, by rw [pruneProj_aggregation, hpruned, bind_ok], ?_,
      Narrows.refl needed _⟩
    rw [hrange, Plan.execute, hexec, bind_ok]
    dsimp only
    rw [hvalues', bind_ok, map_values_narrows hsame]
    rfl
  | sort orderBy order child ih =>
    intro cols rows h
    rw [Plan.execute] at h
    obtain ⟨⟨childCols, childRows⟩, hchild, h⟩ := bind_eq_ok h
    obtain ⟨values, hvalues, h⟩ := bind_eq_ok h
    cases h
    obtain ⟨child', cols', ids, hpruned, hexec, hnarrows⟩ :=
      pruneChild_narrows (ih hdistinct _ _ hsafe.1) hsafe.2 hchild
    obtain ⟨values', hvalues', hsame⟩ := initAll_narrows hnarrows (fun _ hn => .inr hn) hvalues
    refine ⟨_, _, cols', ids, by rw [pruneProj_sort, hpruned, bind_ok], ?_,
      hnarrows.mono Set.subset_union_left⟩
    rw [Plan.execute, hexec, bind_ok]
    dsimp only
    rw [hvalues', bind_ok, map_values_narrows hsame, pure_eq_ok, map_filterMap]
    simp only [getElem?_map]
  | limit offset count child ih =>
    intro cols rows h
    rw [Plan.execute] at h
    obtain ⟨⟨childCols, childRows⟩, hchild, h⟩ := bind_eq_ok h
    cases h
    obtain ⟨child', seen, cols', ids, hpruned, hexec, hnarrows⟩ :=
      ih hdistinct attrs needed hsafe _ _ hchild
    refine ⟨_, seen, cols', ids, by rw [Plan.pruneProj, hpruned, bind_ok]; rfl, ?_, hnarrows⟩
    rw [Plan.execute, hexec, bind_ok, map_take, map_drop]
    rfl
  | project exprList child ih =>
    intro cols rows h
    obtain ⟨p', seen, hpruned, hexec⟩ := pruneProj_project (ih hdistinct _ _ hsafe) h
    refine ⟨p', seen, cols, _, hpruned, ?_, Narrows.refl needed cols⟩
    rw [map_select_range h, hexec]
  | subquery subqueryAlias child ih =>
    intro cols rows h
    rw [Plan.execute] at h
    obtain ⟨⟨childCols, childRows⟩, hchild, h⟩ := bind_eq_ok h
    cases h
    obtain ⟨child', seen, cols', ids, hpruned, hexec, hnarrows⟩ :=
      ih hdistinct.1 attrs _ hsafe _ _ hchild
    have hinj := rename_injOn subqueryAlias (hdistinct.2 _ (attributes_of_execute hchild))
    refine ⟨_, seen, cols'.map (rename subqueryAlias), ids,
      by rw [Plan.pruneProj, hpruned, bind_ok]; rfl, ?_, hnarrows.map hinj⟩
    rw [Plan.execute, hexec, bind_ok]
    rfl

theorem pruneProj_preserves (p : Plan V) (hselect : p.SelectsColumns)
    (hdistinct : p.AliasesDistinct) (attrs : List ColumnName) (needed : Set ColumnName)
    (hsafe : p.Safe attrs needed) (h : p.execute M = .ok (cols, rows)) :
    ∃ p' attrs', p.pruneProj attrs = .ok (p', attrs') ∧ p'.execute M = .ok (cols, rows) := by
  induction p generalizing attrs needed cols rows with
  | project exprList child _ =>
    exact pruneProj_project (pruneProj_narrows child hdistinct _ _ hsafe) h
  | limit offset count child ih =>
    rw [Plan.execute] at h
    obtain ⟨⟨childCols, childRows⟩, hchild, h⟩ := bind_eq_ok h
    cases h
    obtain ⟨child', seen, hpruned, hexec⟩ := ih hselect hdistinct attrs needed hsafe hchild
    refine ⟨_, seen, by rw [Plan.pruneProj, hpruned, bind_ok]; rfl, ?_⟩
    rw [Plan.execute, hexec]
    rfl
  | _ => exact absurd hselect id

end

/-! ### Columns that are found were named -/

theorem names_of_pruneChild {child child' : Plan V} {attrs cols cols' : List ColumnName}
    {needed : Set ColumnName}
    (ih : ∀ p' attrs' cols', child.pruneProj attrs = .ok (p', attrs') →
      p'.attributes = .ok cols' → (∀ n ∈ cols, n ∈ needed → n ∈ cols') → child.Safe attrs needed)
    (hcols : child.attributes = .ok cols) (h : pruneChild child attrs = .ok child')
    (hcols' : child'.attributes = .ok cols') (hfound : ∀ n ∈ cols, n ∈ needed → n ∈ cols') :
    child.Safe attrs needed ∧ NamesNeeded child attrs needed := by
  have hkept := attributes_of_pruneChild (pruneProj_remaining child attrs) h
  obtain rfl := ok.inj (hcols'.symm.trans hkept)
  obtain ⟨⟨pruned, attrs'⟩, hpruned, h⟩ := bind_eq_ok h
  obtain ⟨prunedCols, hprunedCols, -⟩ := bind_eq_ok h
  obtain rfl := (pruneProj_remaining child attrs pruned attrs' hpruned).2 prunedCols hprunedCols
  refine ⟨ih pruned attrs' _ hpruned hprunedCols fun n hn hneeded =>
    keptColumns_subset _ _ (hfound n hn hneeded), fun n hn hneeded => ?_⟩
  exact (mem_keptColumns.1 (hfound n (remaining_subset child attrs hcols hn) hneeded)).2

variable {cols : List ColumnName}

/-- **Columns that are still found were named.** -/
theorem safe_of_pruneProj (p : Plan V) (hdistinct : p.AliasesDistinct) (hsides : p.SidesDistinct)
    (attrs : List ColumnName) (needed : Set ColumnName) (hcols : p.attributes = .ok cols)
    (p' : Plan V) (attrs' cols' : List ColumnName) (h : p.pruneProj attrs = .ok (p', attrs'))
    (hcols' : p'.attributes = .ok cols') (hfound : ∀ n ∈ cols, n ∈ needed → n ∈ cols') :
    p.Safe attrs needed := by
  induction p generalizing attrs needed cols p' attrs' cols' with
  | scan table => trivial
  | filter condition child ih
  | sort orderBy order child ih =>
    rw [Plan.attributes] at hcols
    obtain ⟨childCols, hchild, -, -, hcols⟩ := Run.bind₂_eq_ok hcols
    cases hcols
    simp only [pruneProj_filter, pruneProj_sort] at h
    obtain ⟨child', hpruned, h⟩ := bind_eq_ok h
    cases h
    rw [Plan.attributes] at hcols'
    obtain ⟨prunedCols, hprunedCols, _, hresolve, hcols'⟩ := Run.bind₂_eq_ok hcols'
    cases hcols'
    refine names_of_pruneChild (ih hdistinct hsides _ _ hchild) hchild hpruned hprunedCols ?_
    rintro n hn (hneeded | hneeded)
    · exact hfound n hn hneeded
    · exact subset_of_resolve hresolve hneeded
  | join type joinCondi left right ihl ihr =>
    rw [Plan.attributes] at hcols
    obtain ⟨leftCols, hleft, rightCols, hright, hcols⟩ := Run.bind₂_eq_ok hcols
    obtain ⟨-, -, hcols⟩ := bind_eq_ok hcols
    cases hcols
    rw [pruneProj_join] at h
    obtain ⟨left', hlpruned, right', hrpruned, h⟩ := Run.bind₂_eq_ok h
    cases h
    rw [Plan.attributes] at hcols'
    obtain ⟨lcols, hlcols, rcols, hrcols, hcols'⟩ := Run.bind₂_eq_ok hcols'
    obtain ⟨_, hresolve, hcols'⟩ := bind_eq_ok hcols'
    cases hcols'
    obtain ⟨hlsides, hrsides, hdisjoint⟩ := hsides
    have hdisjoint := hdisjoint leftCols rightCols hleft hright
    -- a column of one side is not looked up on the other
    have hlsubset : lcols ⊆ leftCols := by
      rw [ok.inj (hlcols.symm.trans
        (attributes_of_pruneChild (pruneProj_remaining left _) hlpruned))]
      exact List.Subset.trans (keptColumns_subset _ _) (remaining_subset left _ hleft)
    have hrsubset : rcols ⊆ rightCols := by
      rw [ok.inj (hrcols.symm.trans
        (attributes_of_pruneChild (pruneProj_remaining right _) hrpruned))]
      exact List.Subset.trans (keptColumns_subset _ _) (remaining_subset right _ hright)
    have hmem : ∀ n ∈ leftCols ++ rightCols, n ∈ needed ∪ {n | n ∈ columnsOf joinCondi} →
        n ∈ lcols ++ rcols := by
      rintro n hn (hneeded | hneeded)
      · exact hfound n hn hneeded
      · exact subset_of_resolve hresolve hneeded
    constructor
    · refine names_of_pruneChild (ihl hdistinct.1 hlsides _ _ hleft) hleft hlpruned hlcols ?_
      intro n hn hneeded
      refine (List.mem_append.1 (hmem n (mem_append_left _ hn) hneeded)).resolve_right ?_
      exact fun hr => hdisjoint hn (hrsubset hr)
    · refine names_of_pruneChild (ihr hdistinct.2 hrsides _ _ hright) hright hrpruned hrcols ?_
      intro n hn hneeded
      refine (List.mem_append.1 (hmem n (mem_append_right _ hn) hneeded)).resolve_left ?_
      exact fun hl => hdisjoint (hlsubset hl) hn
  | deleteFilter filterKeys left right ihl ihr =>
    rw [Plan.attributes] at hcols
    obtain ⟨leftCols, hleft, rightCols, hright, hcols⟩ := Run.bind₂_eq_ok hcols
    obtain ⟨-, -, -, -, hcols⟩ := Run.bind₂_eq_ok hcols
    cases hcols
    rw [pruneProj_deleteFilter] at h
    obtain ⟨left', hlpruned, right', hrpruned, h⟩ := Run.bind₂_eq_ok h
    cases h
    rw [Plan.attributes, columnsOf_leftKeys, columnsOf_rightKeys] at hcols'
    obtain ⟨lcols, hlcols, rcols, hrcols, hcols'⟩ := Run.bind₂_eq_ok hcols'
    obtain ⟨_, hlresolve, _, hrresolve, hcols'⟩ := Run.bind₂_eq_ok hcols'
    cases hcols'
    constructor
    · refine names_of_pruneChild (ihl hdistinct.1 hsides.1 _ _ hleft) hleft hlpruned hlcols ?_
      exact fun n _ hneeded => subset_of_resolve hlresolve hneeded
    · refine names_of_pruneChild (ihr hdistinct.2 hsides.2 _ _ hright) hright hrpruned hrcols ?_
      rintro n hn (hneeded | hneeded)
      · exact hfound n hn hneeded
      · exact subset_of_resolve hrresolve hneeded
  | aggregation groupBy aggregations aggregator child ih =>
    rw [Plan.attributes] at hcols
    obtain ⟨childCols, hchild, -⟩ := bind_eq_ok hcols
    rw [pruneProj_aggregation] at h
    obtain ⟨child', hpruned, h⟩ := bind_eq_ok h
    cases h
    rw [Plan.attributes] at hcols'
    obtain ⟨prunedCols, hprunedCols, _, hresolve, -⟩ := Run.bind₂_eq_ok hcols'
    refine names_of_pruneChild (ih hdistinct hsides _ _ hchild) hchild hpruned hprunedCols ?_
    exact fun n _ hneeded => subset_of_resolve hresolve hneeded
  | limit offset count child ih =>
    rw [Plan.pruneProj] at h
    obtain ⟨⟨child', seen⟩, hpruned, h⟩ := bind_eq_ok h
    cases h
    exact ih hdistinct hsides attrs needed hcols child' attrs' cols' hpruned hcols' hfound
  | project exprList child ih =>
    rw [Plan.attributes] at hcols
    obtain ⟨childCols, hchild, -⟩ := bind_eq_ok hcols
    rw [Plan.pruneProj] at h
    obtain ⟨⟨child', seen⟩, hpruned, h⟩ := bind_eq_ok h
    cases h
    rw [Plan.attributes] at hcols'
    obtain ⟨prunedCols, hprunedCols, _, hresolve, -⟩ := Run.bind₂_eq_ok hcols'
    refine ih hdistinct hsides _ _ hchild child' attrs' prunedCols hpruned hprunedCols ?_
    exact fun n _ hneeded => subset_of_resolve hresolve hneeded
  | subquery subqueryAlias child ih =>
    rw [Plan.attributes] at hcols
    obtain ⟨childCols, hchild, hcols⟩ := bind_eq_ok hcols
    cases hcols
    rw [Plan.pruneProj] at h
    obtain ⟨⟨child', seen⟩, hpruned, h⟩ := bind_eq_ok h
    cases h
    rw [Plan.attributes] at hcols'
    obtain ⟨prunedCols, hprunedCols, hcols'⟩ := bind_eq_ok hcols'
    cases hcols'
    refine ih hdistinct.1 hsides attrs _ hchild child' attrs' prunedCols hpruned hprunedCols ?_
    -- the renamed column is found, and no other column has its name
    intro n hn hneeded
    obtain ⟨m, hm, hrename⟩ := List.mem_map.1 (hfound _ (mem_map_of_mem hn) hneeded)
    have hm' : m ∈ childCols := by
      obtain rfl := (pruneProj_remaining child attrs child' attrs' hpruned).2 _ hprunedCols
      exact remaining_subset child attrs hchild hm
    rw [← rename_injOn subqueryAlias (hdistinct.2 _ hchild) m hm' n hn hrename]
    exact hm

/-- **Which queries keep their result**: those in which all columns that are needed are named. -/
theorem column_pruning_preserves_iff (M : Values V) (plan : Plan V)
    (hselect : plan.SelectsColumns) (hdistinct : plan.AliasesDistinct)
    (hresult : ∃ result, plan.execute M = .ok result) :
    (plan.Safe [] ∅ → Preserved M plan) ∧
      (plan.SidesDistinct → (Preserved M plan ↔ plan.Safe [] ∅)) := by
  obtain ⟨⟨cols, rows⟩, hresult⟩ := hresult
  have henough : plan.Safe [] ∅ → Preserved M plan := by
    intro hsafe
    obtain ⟨plan', attrs, hpruned, hexec⟩ :=
      pruneProj_preserves plan hselect hdistinct [] ∅ hsafe hresult
    exact ⟨plan', attrs, hpruned, hexec.trans hresult.symm⟩
  refine ⟨henough, fun hsides => ⟨?_, henough⟩⟩
  rintro ⟨plan', attrs, hpruned, hexec⟩
  have hcols' := attributes_of_execute (hexec.trans hresult)
  exact safe_of_pruneProj plan hdistinct hsides [] ∅ (attributes_of_execute hresult) plan' attrs cols
    hpruned hcols' fun _ _ hneeded => absurd hneeded (Set.notMem_empty _)

/-! ### Two subqueries and a date -/

def intValues : Values ℤ where
  null := 0
  isTrue v := v ≠ 0
  copies deleted key := if key ∈ deleted then 0 else 1

def tableT : Table ℤ where
  columns := [⟨"t", "row_id"⟩, ⟨"t", "a"⟩, ⟨"t", "b"⟩]
  rows := [[0, 1, 2]]
  full := by simp

def positiveB : Expr ℤ :=
  .oper .binary (fun args => if 0 < args.getD 0 0 then 1 else 0) [.column ⟨"t", "b"⟩, .const 0]

/-- `SELECT t.a FROM t WHERE t.b > 0` -/
def selectA : Plan ℤ :=
  .project [⟨"a", .column ⟨"t", "a"⟩⟩] (.filter [positiveB] (.scan tableT))

/-- `SELECT q.a FROM (SELECT t.a FROM t WHERE t.b > 0) q` -/
def selectFromColumns : Plan ℤ := .project [⟨"a", .column ⟨"q", "a"⟩⟩] (.subquery "q" selectA)

/-- `SELECT q.a FROM (SELECT * FROM t WHERE t.b > 0) q` -/
def selectFromStar : Plan ℤ :=
  .project [⟨"a", .column ⟨"q", "a"⟩⟩] (.subquery "q" (.filter [positiveB] (.scan tableT)))

/-- `SELECT t.a FROM t WHERE DATE_ADD(t.b, INTERVAL 1 DAY)` -/
def selectDate : Plan ℤ :=
  .project [⟨"a", .column ⟨"t", "a"⟩⟩] (.filter
    [.oper .date (fun args => args.getD 0 0 + args.getD 1 0) [.column ⟨"t", "b"⟩, .const 1]]
    (.scan tableT))

theorem selectFromColumns_preserved : Preserved intValues selectFromColumns := by
  have hdistinct : selectFromColumns.AliasesDistinct := by
    refine ⟨trivial, fun cols h => ?_⟩
    cases h
    decide
  refine (column_pruning_preserves_iff intValues selectFromColumns trivial hdistinct
    ⟨([⟨"q", "a"⟩], [[1]]), by decide⟩).1 ⟨trivial, ?_⟩
  -- below the filter, `t.a` and `t.b` are named
  rintro n - (hneeded | hneeded)
  · obtain rfl := List.mem_singleton.1 hneeded
    exact .inl (by decide)
  · obtain rfl := List.mem_singleton.1 hneeded
    exact .inl (by decide)

theorem not_preserved {M : Values V} {plan : Plan V} {rows : List (List V)}
    (h : plan.execute M = .ok (cols, rows))
    (hfails : (plan.pruneProj [] >>= fun pruned => pruned.1.attributes) = .error .assertFailed) :
    ¬Preserved M plan := by
  rintro ⟨plan', attrs, hpruned, hexec⟩
  rw [hpruned, bind_ok, attributes_of_execute (hexec.trans h)] at hfails
  cases hfails

/-- A `SELECT *` subquery and a date function lose a column. -/
theorem selectFromStar_selectDate_fail :
    (selectFromStar.execute intValues = .ok ([⟨"q", "a"⟩], [[1]]) ∧
      ¬Preserved intValues selectFromStar) ∧
    selectDate.execute intValues = .ok ([⟨"t", "a"⟩], [[1]]) ∧
      ¬Preserved intValues selectDate := by
  have hstar : selectFromStar.execute intValues = .ok ([⟨"q", "a"⟩], [[1]]) := by decide
  have hdate : selectDate.execute intValues = .ok ([⟨"t", "a"⟩], [[1]]) := by decide
  exact ⟨⟨hstar, not_preserved hstar (by decide)⟩, hdate,
    not_preserved hdate (by decide)⟩

end ColumnPruning
