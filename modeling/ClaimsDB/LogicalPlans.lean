/-
Logical plans and what they produce.  An operator looks names up among the columns of its children;
a name that is not there fails an assertion.
-/
import ClaimsDB.Faults
import ClaimsDB.NamedColumns

namespace ColumnPruning

open Run (bind_eq_ok bind_ok)
open List
open NamedColumns

structure ColumnName where
  table : String
  column : String
  deriving DecidableEq, Repr

def ColumnName.text (n : ColumnName) : String := n.table ++ "." ++ n.column

inductive ExprKind
  | unary
  | binary
  | ternary
  | caseWhen
  | inList
  | date
  deriving DecidableEq, Repr

inductive Expr (V : Type)
  | column (name : ColumnName)
  | const (value : V)
  | oper (kind : ExprKind) (function : List V → V) (args : List (Expr V))

variable {V R R' : Type}

mutual

/-- `GetUniqueAttr`; `ExprDate` has none of its own and reports nothing. -/
def Expr.getUniqueAttr : Expr V → List ColumnName
  | .column name => [name]
  | .const _ => []
  | .oper .date _ _ => []
  | .oper _ _ args => getUniqueAttrs args

def getUniqueAttrs : List (Expr V) → List ColumnName
  | [] => []
  | e :: es => e.getUniqueAttr ++ getUniqueAttrs es

end

mutual

def Expr.columns : Expr V → List ColumnName
  | .column name => [name]
  | .const _ => []
  | .oper _ _ args => columnsOf args

def columnsOf : List (Expr V) → List ColumnName
  | [] => []
  | e :: es => e.columns ++ columnsOf es

end

mutual

/-- `InitExprAtLogicalPlan` and `ExprEvaluate`: every column is looked up, and the result is a
function of the row. -/
def Expr.init (look : ColumnName → Option (R → V)) : Expr V → Run (R → V)
  | .column name =>
    match look name with
    | some value => .ok value
    | none => .error .assertFailed
  | .const value => .ok fun _ => value
  | .oper _ function args => do
    let values ← initAll look args
    return fun row => function (values row)

def initAll (look : ColumnName → Option (R → V)) : List (Expr V) → Run (R → List V)
  | [] => .ok fun _ => []
  | e :: es => do
    let value ← e.init look
    let values ← initAll look es
    return fun row => value row :: values row

end

structure Item (V : Type) where
  alias_ : String
  expr : Expr V

/-- `ExprNodeToAttr`: the name of the column that an expression becomes. -/
def Item.name (item : Item V) : ColumnName :=
  match item.expr with
  | .column name =>
    if item.alias_ = name.column ∨ item.alias_ = name.text then name else ⟨"NULL_MID", item.alias_⟩
  | _ => ⟨"NULL_MID", item.alias_⟩

def columnItem (name : ColumnName) : Item V := ⟨name.text, .column name⟩

theorem columnItem_name (name : ColumnName) : (columnItem (V := V) name).name = name := by
  simp [columnItem, Item.name]

def exprs (items : List (Item V)) : List (Expr V) := items.map (·.expr)

structure Table (V : Type) where
  columns : List ColumnName
  rows : List (List V)
  full : ∀ row ∈ rows, row.length = columns.length

/-- What an aggregation makes of the values of its expressions: rows of as many values. -/
structure Aggregator (V : Type) where
  run : List (List V) → List (List V)
  full : ∀ n rows, (∀ row ∈ rows, row.length = n) → ∀ row ∈ run rows, row.length = n

inductive JoinType
  | equal
  | cross
  | leftOuter
  | rightOuter
  | fullOuter
  deriving DecidableEq, Repr

def JoinType.keepsLeft (type : JoinType) : Bool := type = .leftOuter ∨ type = .fullOuter

def JoinType.keepsRight (type : JoinType) : Bool := type = .rightOuter ∨ type = .fullOuter

inductive Plan (V : Type)
  | scan (table : Table V)
  | filter (condition : List (Expr V)) (child : Plan V)
  | join (type : JoinType) (joinCondi : List (Expr V)) (left right : Plan V)
  | deleteFilter (filterKeys : List (ColumnName × ColumnName)) (left right : Plan V)
  | aggregation (groupBy aggregations : List (Item V)) (aggregator : Aggregator V)
    (child : Plan V)
  /-- `order` gives the positions of the rows from the values of the expressions -/
  | sort (orderBy : List (Expr V)) (order : List (List V) → List ℕ) (child : Plan V)
  | limit (offset count : ℕ) (child : Plan V)
  | project (exprList : List (Item V)) (child : Plan V)
  | subquery (subqueryAlias : String) (child : Plan V)

def rename (subqueryAlias : String) (name : ColumnName) : ColumnName :=
  ⟨subqueryAlias, name.column⟩

def resolve (names : List ColumnName) (cols : List ColumnName) : Run Unit :=
  if ∀ n ∈ names, n ∈ cols then .ok () else .error .assertFailed

def leftKeys (filterKeys : List (ColumnName × ColumnName)) : List (Expr V) :=
  filterKeys.map fun key => .column key.1

def rightKeys (filterKeys : List (ColumnName × ColumnName)) : List (Expr V) :=
  filterKeys.map fun key => .column key.2

def Plan.attributes : Plan V → Run (List ColumnName)
  | .scan table => .ok table.columns
  | .filter condition child => do
    let cols ← child.attributes
    resolve (columnsOf condition) cols
    return cols
  | .join _ joinCondi left right => do
    let leftCols ← left.attributes
    let rightCols ← right.attributes
    resolve (columnsOf joinCondi) (leftCols ++ rightCols)
    return leftCols ++ rightCols
  | .deleteFilter filterKeys left right => do
    let leftCols ← left.attributes
    let rightCols ← right.attributes
    resolve (columnsOf (leftKeys (V := V) filterKeys)) leftCols
    resolve (columnsOf (rightKeys (V := V) filterKeys)) rightCols
    return rightCols
  | .aggregation groupBy aggregations _ child => do
    let cols ← child.attributes
    resolve (columnsOf (exprs (groupBy ++ aggregations))) cols
    return (groupBy ++ aggregations).map (·.name)
  | .sort orderBy _ child => do
    let cols ← child.attributes
    resolve (columnsOf orderBy) cols
    return cols
  | .limit _ _ child => child.attributes
  | .project exprList child => do
    let cols ← child.attributes
    resolve (columnsOf (exprs exprList)) cols
    return exprList.map (·.name)
  | .subquery subqueryAlias child => do
    let cols ← child.attributes
    return cols.map (rename subqueryAlias)

/-- The null that pads rows, truth, and how often a delete filter lets a row through. -/
structure Values (V : Type) where
  null : V
  isTrue : V → Bool
  copies : List (List V) → List V → ℕ

def lookTwo (M : Values V) (leftCols rightCols : List ColumnName) (n : ColumnName) :
    Option (List V × List V → V) :=
  ((find M.null leftCols n).map fun g rows => g rows.1).or
    ((find M.null rightCols n).map fun g rows => g rows.2)

/-- The rows of a join whose children have `leftSize` and `rightSize` columns. -/
def joinRows (M : Values V) (type : JoinType) (leftSize rightSize : ℕ)
    (isMatch : List V × List V → Bool) (left right : List (List V)) : List (List V) :=
  (left.flatMap fun l => (right.filter fun r => isMatch (l, r)).map (l ++ ·)) ++
  (if type.keepsLeft then
    (left.filter fun l => !right.any fun r => isMatch (l, r)).map
      (· ++ List.replicate rightSize M.null)
  else []) ++
  (if type.keepsRight then
    (right.filter fun r => !left.any fun l => isMatch (l, r)).map
      (List.replicate leftSize M.null ++ ·)
  else [])

def Plan.execute (M : Values V) : Plan V → Run (List ColumnName × List (List V))
  | .scan table => .ok (table.columns, table.rows)
  | .filter condition child => do
    let (cols, rows) ← child.execute M
    let test ← initAll (find M.null cols) condition
    return (cols, rows.filter fun row => (test row).all M.isTrue)
  | .join type joinCondi left right => do
    let (leftCols, leftRows) ← left.execute M
    let (rightCols, rightRows) ← right.execute M
    let test ← initAll (lookTwo M leftCols rightCols) joinCondi
    return (leftCols ++ rightCols, joinRows M type leftCols.length rightCols.length
      (fun rows => (test rows).all M.isTrue) leftRows rightRows)
  | .deleteFilter filterKeys left right => do
    let (leftCols, leftRows) ← left.execute M
    let (rightCols, rightRows) ← right.execute M
    let leftKey ← initAll (find M.null leftCols) (leftKeys filterKeys)
    let rightKey ← initAll (find M.null rightCols) (rightKeys filterKeys)
    return (rightCols, rightRows.flatMap fun row =>
      List.replicate (M.copies (leftRows.map leftKey) (rightKey row)) row)
  | .aggregation groupBy aggregations aggregator child => do
    let (cols, rows) ← child.execute M
    let values ← initAll (find M.null cols) (exprs (groupBy ++ aggregations))
    return ((groupBy ++ aggregations).map (·.name), aggregator.run (rows.map values))
  | .sort orderBy order child => do
    let (cols, rows) ← child.execute M
    let values ← initAll (find M.null cols) orderBy
    return (cols, (order (rows.map values)).filterMap (rows[·]?))
  | .limit offset count child => do
    let (cols, rows) ← child.execute M
    return (cols, (rows.drop offset).take count)
  | .project exprList child => do
    let (cols, rows) ← child.execute M
    let values ← initAll (find M.null cols) (exprs exprList)
    return (exprList.map (·.name), rows.map values)
  | .subquery subqueryAlias child => do
    let (cols, rows) ← child.execute M
    return (cols.map (rename subqueryAlias), rows)

/-! ### Expressions -/

variable {look : ColumnName → Option (R → V)}

mutual

theorem Expr.isSome_of_init :
    ∀ (e : Expr V) {g : R → V}, e.init look = .ok g → ∀ n ∈ e.columns, (look n).isSome
  | .column name, g, h, n, hn => by
    obtain rfl := List.mem_singleton.1 hn
    rw [Expr.init] at h
    split at h
    · rename_i value hvalue
      rw [hvalue]
      rfl
    · cases h
  | .const _, _, _, _, hn => absurd hn not_mem_nil
  | .oper _ _ args, _, h, n, hn => by
    rw [Expr.init] at h
    obtain ⟨values, hvalues, -⟩ := bind_eq_ok h
    exact isSome_of_initAll args hvalues n hn

theorem isSome_of_initAll :
    ∀ (es : List (Expr V)) {g : R → List V}, initAll look es = .ok g →
      ∀ n ∈ columnsOf es, (look n).isSome
  | [], _, _, _, hn => absurd hn not_mem_nil
  | e :: es, _, h, n, hn => by
    rw [initAll] at h
    obtain ⟨value, hvalue, values, hvalues, -⟩ := Run.bind₂_eq_ok h
    rcases List.mem_append.1 hn with hn | hn
    · exact e.isSome_of_init hvalue n hn
    · exact isSome_of_initAll es hvalues n hn

end

mutual

variable {look : ColumnName → Option (R → V)} {look' : ColumnName → Option (R' → V)}
  {narrow : R → R'}

/-- **An expression over narrowed rows**: where every column means the same, so does the
expression. -/
theorem Expr.init_comp : ∀ (e : Expr V) {g : R → V},
    (∀ n ∈ e.columns, (look' n).map (fun g row => g (narrow row)) = look n) →
    e.init look = .ok g → ∃ g', e.init look' = .ok g' ∧ ∀ row, g' (narrow row) = g row
  | .column name, g, hlook, h => by
    have hname := hlook name (mem_singleton_self name)
    rw [Expr.init] at h
    split at h
    · rename_i value hvalue
      cases h
      rw [hvalue] at hname
      obtain ⟨g', hg', hnarrow⟩ := Option.map_eq_some_iff.1 hname
      exact ⟨g', by rw [Expr.init, hg'], congrFun hnarrow⟩
    · cases h
  | .const value, _, _, h => by
    cases h
    exact ⟨fun _ => value, rfl, fun _ => rfl⟩
  | .oper _ function args, _, hlook, h => by
    rw [Expr.init] at h
    obtain ⟨values, hvalues, h⟩ := bind_eq_ok h
    cases h
    obtain ⟨values', hvalues', hsame⟩ := initAll_comp args hlook hvalues
    exact ⟨_, by rw [Expr.init, hvalues']; rfl, fun row => congrArg function (hsame row)⟩

theorem initAll_comp : ∀ (es : List (Expr V)) {g : R → List V},
    (∀ n ∈ columnsOf es, (look' n).map (fun g row => g (narrow row)) = look n) →
    initAll look es = .ok g → ∃ g', initAll look' es = .ok g' ∧ ∀ row, g' (narrow row) = g row
  | [], _, _, h => by
    cases h
    exact ⟨fun _ => [], rfl, fun _ => rfl⟩
  | e :: es, _, hlook, h => by
    rw [initAll] at h
    obtain ⟨value, hvalue, values, hvalues, h⟩ := Run.bind₂_eq_ok h
    cases h
    obtain ⟨value', hvalue', hsame⟩ := e.init_comp (fun n hn =>
      hlook n (mem_append_left _ hn)) hvalue
    obtain ⟨values', hvalues', hsames⟩ := initAll_comp es (fun n hn =>
      hlook n (mem_append_right _ hn)) hvalues
    refine ⟨_, by rw [initAll, hvalue', bind_ok, hvalues']; rfl, fun row => ?_⟩
    rw [hsame, hsames]

end

theorem length_of_initAll {look : ColumnName → Option (R → V)} {es : List (Expr V)}
    {g : R → List V} (h : initAll look es = .ok g) (row : R) : (g row).length = es.length := by
  induction es generalizing g with
  | nil =>
    cases h
    rfl
  | cons e es ih =>
    rw [initAll] at h
    obtain ⟨value, -, values, hvalues, h⟩ := Run.bind₂_eq_ok h
    cases h
    exact congrArg Nat.succ (ih hvalues)

variable {names cols : List ColumnName}

theorem resolve_eq_ok (h : names ⊆ cols) : resolve names cols = .ok () := if_pos h

theorem subset_of_resolve {u : Unit} (h : resolve names cols = .ok u) : names ⊆ cols := by
  unfold resolve at h
  split at h
  · assumption
  · cases h

/-! ### Columns and rows -/

section

variable {M : Values V} {cols : List ColumnName} {es : List (Expr V)}

theorem columns_subset {g : List V → List V} (h : initAll (find M.null cols) es = .ok g) :
    columnsOf es ⊆ cols := fun n hn => find_isSome_iff.1 (isSome_of_initAll es h n hn)

theorem lookTwo_isSome_iff {leftCols rightCols : List ColumnName} {n : ColumnName} :
    (lookTwo M leftCols rightCols n).isSome ↔ n ∈ leftCols ++ rightCols := by
  rw [lookTwo, Option.isSome_or, Option.isSome_map, Option.isSome_map, Bool.or_eq_true,
    find_isSome_iff, find_isSome_iff, mem_append]

variable {p : Plan V} {rows : List (List V)}

/-- **The columns of a plan** are those that it is executed with, and every row has them all. -/
theorem execute_spec (h : p.execute M = .ok (cols, rows)) :
    p.attributes = .ok cols ∧ ∀ row ∈ rows, row.length = cols.length := by
  induction p generalizing cols rows with
  | scan table =>
    cases h
    exact ⟨rfl, table.full⟩
  | filter condition child ih =>
    rw [Plan.execute] at h
    obtain ⟨⟨cols', rows'⟩, hchild, h⟩ := bind_eq_ok h
    obtain ⟨test, htest, h⟩ := bind_eq_ok h
    cases h
    obtain ⟨hattributes, hfull⟩ := ih hchild
    refine ⟨?_, fun row hrow => hfull row (mem_of_mem_filter hrow)⟩
    rw [Plan.attributes, hattributes, bind_ok, resolve_eq_ok (columns_subset htest)]
    rfl
  | join type joinCondi left right ihl ihr =>
    rw [Plan.execute] at h
    obtain ⟨⟨leftCols, leftRows⟩, hleft, h⟩ := bind_eq_ok h
    obtain ⟨⟨rightCols, rightRows⟩, hright, h⟩ := bind_eq_ok h
    obtain ⟨test, htest, h⟩ := bind_eq_ok h
    cases h
    obtain ⟨hl, hfullL⟩ := ihl hleft
    obtain ⟨hr, hfullR⟩ := ihr hright
    constructor
    · have hsubset : columnsOf joinCondi ⊆ leftCols ++ rightCols := fun n hn =>
        lookTwo_isSome_iff.1 (isSome_of_initAll joinCondi htest n hn)
      rw [Plan.attributes, hl, bind_ok, hr, bind_ok, resolve_eq_ok hsubset]
      rfl
    · intro row hrow
      rw [length_append]
      rcases List.mem_append.1 hrow with hrow | hrow
      · rcases List.mem_append.1 hrow with hrow | hrow
        · obtain ⟨l, hl, hrow⟩ := List.mem_flatMap.1 hrow
          obtain ⟨r, hr, rfl⟩ := List.mem_map.1 hrow
          rw [length_append, hfullL l hl, hfullR r (mem_of_mem_filter hr)]
        · split at hrow
          · obtain ⟨l, hl, rfl⟩ := List.mem_map.1 hrow
            rw [length_append, hfullL l (mem_of_mem_filter hl), length_replicate]
          · cases hrow
      · split at hrow
        · obtain ⟨r, hr, rfl⟩ := List.mem_map.1 hrow
          rw [length_append, hfullR r (mem_of_mem_filter hr), length_replicate]
        · cases hrow
  | deleteFilter filterKeys left right ihl ihr =>
    rw [Plan.execute] at h
    obtain ⟨⟨leftCols, leftRows⟩, hleft, h⟩ := bind_eq_ok h
    obtain ⟨⟨rightCols, rightRows⟩, hright, h⟩ := bind_eq_ok h
    obtain ⟨leftKey, hleftKey, rightKey, hrightKey, h⟩ := Run.bind₂_eq_ok h
    cases h
    obtain ⟨hr, hfull⟩ := ihr hright
    constructor
    · rw [Plan.attributes, (ihl hleft).1, bind_ok, hr, bind_ok,
        resolve_eq_ok (columns_subset hleftKey), bind_ok,
        resolve_eq_ok (columns_subset hrightKey)]
      rfl
    · intro row hrow
      obtain ⟨r, hr, hrow⟩ := List.mem_flatMap.1 hrow
      obtain rfl := eq_of_mem_replicate hrow
      exact hfull row hr
  | aggregation groupBy aggregations aggregator child ih =>
    rw [Plan.execute] at h
    obtain ⟨⟨cols', rows'⟩, hchild, h⟩ := bind_eq_ok h
    obtain ⟨values, hvalues, h⟩ := bind_eq_ok h
    cases h
    constructor
    · rw [Plan.attributes, (ih hchild).1, bind_ok, resolve_eq_ok (columns_subset hvalues)]
      rfl
    · refine aggregator.full _ _ fun row hrow => ?_
      obtain ⟨r, -, rfl⟩ := List.mem_map.1 hrow
      rw [length_of_initAll hvalues, exprs, length_map, length_map]
  | sort orderBy order child ih =>
    rw [Plan.execute] at h
    obtain ⟨⟨cols', rows'⟩, hchild, h⟩ := bind_eq_ok h
    obtain ⟨values, hvalues, h⟩ := bind_eq_ok h
    cases h
    obtain ⟨hattributes, hfull⟩ := ih hchild
    constructor
    · rw [Plan.attributes, hattributes, bind_ok, resolve_eq_ok (columns_subset hvalues)]
      rfl
    · intro row hrow
      obtain ⟨i, -, hi⟩ := List.mem_filterMap.1 hrow
      exact hfull row (mem_of_getElem? hi)
  | limit offset count child ih =>
    rw [Plan.execute] at h
    obtain ⟨⟨cols', rows'⟩, hchild, h⟩ := bind_eq_ok h
    cases h
    obtain ⟨hattributes, hfull⟩ := ih hchild
    exact ⟨hattributes, fun row hrow => hfull row (mem_of_mem_drop (mem_of_mem_take hrow))⟩
  | project exprList child ih =>
    rw [Plan.execute] at h
    obtain ⟨⟨cols', rows'⟩, hchild, h⟩ := bind_eq_ok h
    obtain ⟨values, hvalues, h⟩ := bind_eq_ok h
    cases h
    constructor
    · rw [Plan.attributes, (ih hchild).1, bind_ok, resolve_eq_ok (columns_subset hvalues)]
      rfl
    · intro row hrow
      obtain ⟨r, -, rfl⟩ := List.mem_map.1 hrow
      rw [length_of_initAll hvalues, exprs, length_map, length_map]
  | subquery subqueryAlias child ih =>
    rw [Plan.execute] at h
    obtain ⟨⟨cols', rows'⟩, hchild, h⟩ := bind_eq_ok h
    cases h
    obtain ⟨hattributes, hfull⟩ := ih hchild
    rw [Plan.attributes, hattributes, length_map]
    exact ⟨rfl, hfull⟩

theorem attributes_of_execute (h : p.execute M = .ok (cols, rows)) : p.attributes = .ok cols :=
  (execute_spec h).1

end

end ColumnPruning
