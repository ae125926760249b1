/-
The FROM clause: push-down of conditions and the logical plan.

`pushDown` splits WHERE and ON at their top-level ANDs and hangs each conjunct at a node,
`getLogicalPlan` turns the nodes into operators, and `denote` says which rows these produce.  Names
have been resolved: a column is known to a plan that covers its relation.

* **`pushDown`** — the conditions that `PushDownCondition` hangs at the nodes;
* **`Expr.getLogicalPlan`**, **`Placed.getLogicalPlan`** — the plan, or the fault on the way to it;
* **`denote`**, **`sql`** — the rows of a plan, and those that SQL gives to the clause.
-/
import ClaimsDB.Faults
import ClaimsDB.JoinedRows

namespace PushDown

open Rows (Joined merge single padded product)

/-! ### Expressions -/

abbrev Row (V : Type) := String → V

/-- Expressions; all but `and` and `equal` are a `call` with up to three children. -/
inductive Expr (V : Type)
  | column (relationName columnName : String)
  | const (v : V)
  | absent
  | and (arg0 arg1 : Expr V)
  | equal (arg0 arg1 : Expr V)
  | call (exprType : String) (arg0 arg1 arg2 : Expr V)

/-- What the operators compute.  A row passes a condition when the condition's
value is a `truth`; `sameKey` compares join keys, and holds of keys that are equal
(`sameKey_of_equal`), as keys of one type are and keys of different types need not be. -/
structure Meaning (V : Type) where
  call : String → V → V → V → V
  and : V → V → V
  equal : V → V → V
  absent : V
  null : V
  truth : V → Bool
  sameKey : V → V → Bool
  truth_and : ∀ v w, truth (and v w) = (truth v && truth w)
  sameKey_of_equal : ∀ v w, truth (equal v w) = true → sameKey v w = true ∧ sameKey w v = true

variable {V : Type}

def columnValue (M : Meaning V) (relationName columnName : String)
    (x : Joined String (Row V)) : V :=
  match x relationName with
  | some row => row columnName
  | none => M.absent

def eval (M : Meaning V) : Expr V → Joined String (Row V) → V
  | .column r c, x => columnValue M r c x
  | .const v, _ => v
  | .absent, _ => M.absent
  | .and a b, x => M.and (eval M a x) (eval M b x)
  | .equal a b, x => M.equal (eval M a x) (eval M b x)
  | .call op a b c, x => M.call op (eval M a x) (eval M b x) (eval M c x)

def holds (M : Meaning V) (e : Expr V) (x : Joined String (Row V)) : Bool := M.truth (eval M e x)

/-- `GetRefTable`: the tables whose columns occur. -/
def Expr.getRefTable : Expr V → Finset String
  | .column r _ => {r}
  | .const _ => ∅
  | .absent => ∅
  | .and a b => a.getRefTable ∪ b.getRefTable
  | .equal a b => a.getRefTable ∪ b.getRefTable
  | .call _ a b c => a.getRefTable ∪ b.getRefTable ∪ c.getRefTable

/-- `GetSubExpr`: the conjuncts of the top-level AND. -/
def Expr.getSubExpr : Expr V → List (Expr V)
  | .and a b => a.getSubExpr ++ b.getSubExpr
  | e => [e]

/-- `IsEqualJoinCondition`: an equality of two columns. -/
def Expr.isEqualJoinCondition : Expr V → Bool
  | .equal (.column _ _) (.column _ _) => true
  | _ => false

inductive SubExprType
  | noneTable
  | singleTable
  | isEqualCondition
  | moreTable
  deriving DecidableEq

def getSubExprType (subExpr : Expr V) (refTableNum : ℕ) : SubExprType :=
  if refTableNum = 0 then .noneTable
  else if refTableNum = 1 then .singleTable
  else if refTableNum = 2 ∧ subExpr.isEqualJoinCondition then .isEqualCondition
  else .moreTable

def Expr.type (e : Expr V) : SubExprType := getSubExprType e e.getRefTable.card

def conjuncts : Option (Expr V) → List (Expr V)
  | none => []
  | some e => e.getSubExpr

def holdsAll (M : Meaning V) (es : List (Expr V)) (x : Joined String (Row V)) : Bool :=
  es.all fun e => holds M e x

def holdsClause (M : Meaning V) : Option (Expr V) → Joined String (Row V) → Bool
  | none, _ => true
  | some e, x => holds M e x

theorem holdsAll_iff {M : Meaning V} {es : List (Expr V)} {x : Joined String (Row V)} :
    holdsAll M es x = true ↔ ∀ e ∈ es, holds M e x = true := List.all_eq_true

section

variable (M : Meaning V)

include M

@[simp] theorem holdsAll_append (es es' : List (Expr V))
    (x : Joined String (Row V)) :
    holdsAll M (es ++ es') x = (holdsAll M es x && holdsAll M es' x) := List.all_append

theorem holds_eq_all (e : Expr V) (x : Joined String (Row V)) :
    holds M e x = holdsAll M e.getSubExpr x := by
  induction e with
  | and a b iha ihb =>
    rw [Expr.getSubExpr, holdsAll_append, ← iha, ← ihb]
    exact M.truth_and _ _
  | _ => simp [Expr.getSubExpr, holdsAll]

theorem holdsClause_eq_all (w : Option (Expr V)) (x : Joined String (Row V)) :
    holdsClause M w x = holdsAll M (conjuncts w) x := by
  cases w with
  | none => rfl
  | some e => exact holds_eq_all M e x

theorem eval_congr (e : Expr V) {x y : Joined String (Row V)}
    (h : ∀ a ∈ e.getRefTable, x a = y a) : eval M e x = eval M e y := by
  induction e with
  | column r c => simp [eval, columnValue, h r (by simp [Expr.getRefTable])]
  | const v => rfl
  | absent => rfl
  | and a b iha ihb | equal a b iha ihb =>
    simp only [Expr.getRefTable, Finset.mem_union] at h
    rw [eval, eval, iha fun t ht => h t (.inl ht), ihb fun t ht => h t (.inr ht)]
  | call op a b c iha ihb ihc =>
    simp only [Expr.getRefTable, Finset.mem_union] at h
    rw [eval, eval, iha fun t ht => h t (.inl (.inl ht)), ihb fun t ht => h t (.inl (.inr ht)),
      ihc fun t ht => h t (.inr ht)]

theorem reads_holds {e : Expr V} {T : Finset String}
    (h : e.getRefTable ⊆ T) : Rows.Reads T (holds M e) := by
  intro x y hxy
  rw [holds, holds, eval_congr M e fun a ha => hxy a (h ha)]

theorem reads_holdsAll {es : List (Expr V)} {T : Finset String}
    (h : ∀ e ∈ es, e.getRefTable ⊆ T) : Rows.Reads T (holdsAll M es) := by
  intro x y hxy
  rw [Bool.eq_iff_iff, holdsAll_iff, holdsAll_iff]
  exact forall₂_congr fun e he => by rw [reads_holds M (h e he) x y hxy]

end

/-! ### The tree of a FROM clause -/

/-- The kinds of joins the later passes tell apart.  The three outer ones are
those whose `join_type_` has the word "outer".  A STRAIGHT_JOIN with ON is `straight`; without ON
nothing tells it from an inner join. -/
inductive JoinType
  | inner
  | straight
  | left
  | right
  | full
  deriving DecidableEq

/-- A FROM clause.  A subquery has what the rest of its statement makes of the rows. -/
inductive From (V : Type)
  | table (tableAlias : String) (rows : Multiset (Row V))
  | subquery (subqueryAlias : String) (fromList : From V) (whereClause : Option (Expr V))
      (finish : Multiset (Joined String (Row V)) → Multiset (Row V))
  | join (joinType : JoinType) (left right : From V) (joinCondition : Option (Expr V))
  | fromList (args next : From V)
  | lastFrom (args : From V)

def From.tables : From V → Finset String
  | .table a _ => {a}
  | .subquery a _ _ _ => {a}
  | .join _ l r _ => l.tables ∪ r.tables
  | .fromList a n => a.tables ∪ n.tables
  | .lastFrom a => a.tables

/-! ### Push-down -/

/-- A conjunct to be placed.  The tree shares these by pointer; `id` tells
them apart. -/
structure SubExprInfo (V : Type) where
  id : ℕ
  subExpr : Expr V

/-- The shared part of the conjuncts: how many exist, and whose `is_set` flag
is up. -/
structure Flags where
  next : ℕ
  isSet : Finset ℕ

/-- `GetSubExprInfo`: a fresh record for every conjunct. -/
def getSubExprInfo (e : Option (Expr V)) (h : Flags) : List (SubExprInfo V) × Flags :=
  ((conjuncts e).mapIdx fun i c => ⟨h.next + i, c⟩,
    { h with next := h.next + (conjuncts e).length })

structure Conditions (V : Type) where
  equalJoinCondition : List (SubExprInfo V)
  normalCondition : List (SubExprInfo V)

def Conditions.none : Conditions V := ⟨[], []⟩

def Conditions.push (i : SubExprInfo V) (c : Conditions V) : Conditions V :=
  if i.subExpr.type = .isEqualCondition then
    { c with equalJoinCondition := i :: c.equalJoinCondition }
  else { c with normalCondition := i :: c.normalCondition }

/-- `SetCondition`: take the conjuncts that are not set yet and whose tables
are all there, and set their flags. -/
def setCondition (fromTables : Finset String) :
    List (SubExprInfo V) → Flags → Conditions V × Flags
  | [], h => (.none, h)
  | i :: is, h =>
    if i.id ∉ h.isSet ∧ i.subExpr.getRefTable ⊆ fromTables then
      let r := setCondition fromTables is { h with isSet := insert i.id h.isSet }
      (r.1.push i, r.2)
    else setCondition fromTables is h

/-- The nodes with their conditions; the operands of a left join are exchanged. -/
inductive Placed (V : Type)
  | table (tableAlias : String) (rows : Multiset (Row V)) (c : Conditions V)
  | subquery (subqueryAlias : String) (fromList : Placed V)
      (finish : Multiset (Joined String (Row V)) → Multiset (Row V)) (c : Conditions V)
  | join (joinType : JoinType) (leftTable rightTable : Placed V) (c : Conditions V)
  | fromList (args next : Placed V) (c : Conditions V)
  | lastFrom (args : Placed V) (c : Conditions V)

def unvisited : From V → Placed V
  | .table a rows => .table a rows .none
  | .subquery a f _ finish => .subquery a (unvisited f) finish .none
  | .join .left l r _ => .join .left (unvisited r) (unvisited l) .none
  | .join .inner l r _ => .join .inner (unvisited l) (unvisited r) .none
  | .join .straight l r _ => .join .inner (unvisited l) (unvisited r) .none
  | .join .right l r _ => .join .right (unvisited l) (unvisited r) .none
  | .join .full l r _ => .join .full (unvisited l) (unvisited r) .none
  | .fromList a n => .fromList (unvisited a) (unvisited n) .none
  | .lastFrom a => .lastFrom (unvisited a) .none

/-- What the right operand of an outer join adds to `from_tables_`. -/
def tableAliasOf : From V → Finset String
  | .table a _ => {a}
  | _ => ∅

/-- An outer join: every conjunct from above becomes a normal condition. -/
def placeOuter (joinType : JoinType) (left : Placed V × Finset String × Flags)
    (right : From V) (onInfos infos : List (SubExprInfo V)) :
    Placed V × Finset String × Flags :=
  let tables := left.2.1 ∪ tableAliasOf right
  let s := setCondition tables onInfos left.2.2
  (.join joinType left.1 (unvisited right)
    { s.1 with normalCondition := s.1.normalCondition ++ infos }, tables, s.2)

/-- `PushDownCondition` of the nodes: the node with its conditions, the tables
it adds to `from_tables_` and the flags. -/
def pushDown : From V → List (SubExprInfo V) → Flags → Placed V × Finset String × Flags
  | .table a rows, infos, h =>
    let s := setCondition {a} infos h
    (.table a rows s.1, {a}, s.2)
  | .subquery a f w finish, infos, h =>
    let sub := getSubExprInfo w h
    let inner := pushDown f sub.1 sub.2
    let s := setCondition {a} infos inner.2.2
    (.subquery a inner.1 finish s.1, {a}, s.2)
  | .join .inner l r on, infos, h =>
    let cond := getSubExprInfo on h
    let cur := infos ++ cond.1
    let left := pushDown l cur cond.2
    let right := pushDown r cur left.2.2
    let tables := left.2.1 ∪ right.2.1
    let s := setCondition tables cur right.2.2
    (.join .inner left.1 right.1 s.1, tables, s.2)
  -- the parser hangs the bare expression where an `AstJoinCondition` is expected, so what is read
  -- as its `condition_` is not known, nor what becomes of it; the plan of this node is a fault
  | .join .straight l r _, _, h =>
    (.join .straight (unvisited l) (unvisited r) .none, l.tables ∪ r.tables, h)
  | .join .left l r on, infos, h =>
    let cond := getSubExprInfo on h
    placeOuter .left (pushDown r cond.1 cond.2) l cond.1 infos
  | .join .right l r on, infos, h =>
    let cond := getSubExprInfo on h
    placeOuter .right (pushDown l cond.1 cond.2) r cond.1 infos
  | .join .full l r on, infos, h =>
    let cond := getSubExprInfo on h
    placeOuter .full (pushDown l cond.1 cond.2) r cond.1 infos
  | .fromList a n, infos, h =>
    let args := pushDown a infos h
    let next := pushDown n infos args.2.2
    let tables := args.2.1 ∪ next.2.1
    let s := setCondition tables infos next.2.2
    (.fromList args.1 next.1 s.1, tables, s.2)
  | .lastFrom a, infos, h =>
    let args := pushDown a infos h
    let s := setCondition args.2.1 infos args.2.2
    (.lastFrom args.1 s.1, args.2.1, s.2)

/-- `AstSelectStmt::PushDownCondition`, from a fresh context. -/
def pushDownSelect (f : From V) (w : Option (Expr V)) (h : Flags) :
    Placed V × Finset String × Flags :=
  pushDown f (getSubExprInfo w h).1 (getSubExprInfo w h).2

/-! ### Logical plans -/

abbrev Column := String × String

inductive Plan (V : Type)
  | scan (tableAlias : String) (rows : Multiset (Row V))
  | subquery (subqueryAlias : String) (child : Plan V)
      (finish : Multiset (Joined String (Row V)) → Multiset (Row V))
  | filter (child : Plan V) (condition : List (Expr V))
  | equalJoin (joinPair : List (Column × Column)) (left right : Plan V)
      (condition : List (Expr V))
  | outerJoin (joinPair : List (Column × Column)) (left right : Plan V) (joinType : ℕ)
      (condition : List (Expr V))
  | crossJoin (left right : Plan V) (condition : List (Expr V))

def Plan.tables : Plan V → Finset String
  | .scan a _ => {a}
  | .subquery a _ _ => {a}
  | .filter p _ => p.tables
  | .equalJoin _ l r _ => l.tables ∪ r.tables
  | .outerJoin _ l r _ _ => l.tables ∪ r.tables
  | .crossJoin l r _ => l.tables ∪ r.tables

def Expr.isAbsent : Expr V → Bool
  | .absent => true
  | _ => false

/-- What planning an operator runs into whatever its arguments are.  The operators that
`GetLogicalPlan` has no case for assert false ("+" is a sign when it has no second argument), and a
comparison with a subquery reads the type of a plan that is `NULL`.  The tree has no types: a CASE
without ELSE whose first THEN is not a string has an expression type of its own. -/
def operatorFault (exprType : String) (arg1 : Expr V) : Option Fault :=
  if exprType = "+" ∧ arg1.isAbsent = true then some .assertFailed
  else if exprType ∈ ["SUBQUERY", "ANY", "SOME", "ALL"] then some .nullDeref
  else if exprType ∈ ["IS_BOOL", "IS_NOT_BOOL", "EXSIST", "NOT_EXSIST",
      "EXPR_IN_SELECT", "LIST_IN_SELECT", "EXPR_NOT_IN_SELECT", "LIST_NOT_IN_SELECT",
      "CAST", "COALESCE", "CASE1_NOT_STRING", "CASE2_NOT_STRING",
      "INTERVAL_HOUR", "INTERVAL_MICROSECOND", "INTERVAL_MINUTE", "INTERVAL_SECOND"] then
    some .assertFailed
  else none

/-- `GetLogicalPlan` over one plan or two; a column has to be known to one of them. -/
def Expr.getLogicalPlan (left right : Finset String) : Expr V → Run (Expr V)
  | .column r c =>
    if r ∈ left then if r ∈ right then .error .assertFailed else .ok (.column r c)
    else if r ∈ right then .ok (.column r c) else .error .assertFailed
  | .const v => .ok (.const v)
  | .absent => .ok .absent
  | .and a b => do
    let a ← a.getLogicalPlan left right
    let b ← b.getLogicalPlan left right
    return .and a b
  | .equal a b => do
    let a ← a.getLogicalPlan left right
    let b ← b.getLogicalPlan left right
    return .equal a b
  | .call op a b c =>
    match operatorFault op b with
    | some fault => .error fault
    | none => do
      let a ← a.getLogicalPlan left right
      let b ← b.getLogicalPlan left right
      let c ← c.getLogicalPlan left right
      return .call op a b c

/-- Every operator of the expression can be planned. -/
def Expr.supported : Expr V → Bool
  | .column _ _ => true
  | .const _ => true
  | .absent => true
  | .and a b => a.supported && b.supported
  | .equal a b => a.supported && b.supported
  | .call op a b c =>
    (operatorFault op b).isNone && (a.supported && b.supported && c.supported)

/-- `GetJoinCondition`; with `right` empty, `GetFilterCondition`. -/
def getJoinCondition (left right : Finset String) : List (SubExprInfo V) → Run (List (Expr V))
  | [] => .ok []
  | i :: is => do
    let e ← i.subExpr.getLogicalPlan left right
    let es ← getJoinCondition left right is
    return e :: es

/-- One round of `GetEqualJoinPair`, whose cast asks for an equality of columns. -/
def equalJoinPair (left right : Finset String) : Expr V → Run (Column × Column)
  | .equal (.column r0 c0) (.column r1 c1) =>
    if r0 ∈ left ∧ r1 ∈ right then .ok ((r0, c0), (r1, c1))
    else if r1 ∈ left ∧ r0 ∈ right then .ok ((r1, c1), (r0, c0))
    else .error .assertFailed
  | _ => .error .indeterminate

def getEqualJoinPair (left right : Finset String) :
    List (SubExprInfo V) → Run (List (Column × Column))
  | [] => .ok []
  | i :: is => do
    let p ← equalJoinPair left right i.subExpr
    let ps ← getEqualJoinPair left right is
    return p :: ps

def getFilterLogicalPlan (plan : Plan V) : List (SubExprInfo V) → Run (Plan V)
  | [] => .ok plan
  | i :: is => do return .filter plan (← getJoinCondition plan.tables ∅ (i :: is))

def JoinType.outerNumber : JoinType → Option ℕ
  | .inner => none
  | .straight => none
  | .left => some 0
  | .right => some 1
  | .full => some 2

/-- The kind of the join that `args_` of a list node is. -/
def Placed.outerNumber : Placed V → Option ℕ
  | .join t _ _ _ => t.outerNumber
  | _ => none

def joinPlan (joinType : JoinType) (left right : Plan V) (c : Conditions V) : Run (Plan V) :=
  match c.equalJoinCondition with
  | [] => do
    return .crossJoin left right (← getJoinCondition left.tables right.tables c.normalCondition)
  | _ :: _ => do
    let condition ← getJoinCondition left.tables right.tables c.equalJoinCondition
    match joinType.outerNumber with
    | none => do
      let normal ← getJoinCondition left.tables right.tables c.normalCondition
      let joinPair ← getEqualJoinPair left.tables right.tables c.equalJoinCondition
      return .equalJoin joinPair left right (condition ++ normal)
    | some n => do
      let joinPair ← getEqualJoinPair left.tables right.tables c.equalJoinCondition
      getFilterLogicalPlan (.outerJoin joinPair left right n condition) c.normalCondition

/-- The plan of a list node with a successor.  The join takes its kind from
`args_`. -/
def fromListPlan (outerNumber : Option ℕ) (args next : Plan V) (c : Conditions V) :
    Run (Plan V) :=
  match c.equalJoinCondition with
  | [] => do
    return .crossJoin next args (← getJoinCondition next.tables args.tables c.normalCondition)
  | _ :: _ => do
    let joinPair ← getEqualJoinPair args.tables next.tables c.equalJoinCondition
    let condition ← getJoinCondition next.tables args.tables c.equalJoinCondition
    let normal ← getJoinCondition next.tables args.tables c.normalCondition
    match outerNumber with
    | some n => return .outerJoin joinPair args next n (condition ++ normal)
    | none => return .equalJoin joinPair args next (condition ++ normal)

def leafPlan (plan : Plan V) (c : Conditions V) : Run (Plan V) :=
  match c.equalJoinCondition with
  | [] => getFilterLogicalPlan plan c.normalCondition
  | _ :: _ => .error .assertFailed

/-- `GetLogicalPlan` of the nodes. -/
def Placed.getLogicalPlan : Placed V → Run (Plan V)
  | .table a rows c => leafPlan (.scan a rows) c
  | .subquery a f finish c => do
    let child ← f.getLogicalPlan
    leafPlan (.subquery a child finish) c
  | .join t l r c => do
    let left ← l.getLogicalPlan
    let right ← r.getLogicalPlan
    if t = .straight then .error .indeterminate else joinPlan t left right c
  | .fromList a n c => do
    let args ← a.getLogicalPlan
    let next ← n.getLogicalPlan
    fromListPlan a.outerNumber args next c
  | .lastFrom a _ => a.getLogicalPlan

def selectPlan (f : From V) (w : Option (Expr V)) : Run (Plan V) :=
  (pushDownSelect f w ⟨0, ∅⟩).1.getLogicalPlan

/-! ### What a plan and a statement mean -/

def nullRow (M : Meaning V) : Row V := fun _ => M.null

def keysAgree (M : Meaning V) (joinPair : List (Column × Column))
    (x : Joined String (Row V)) : Bool :=
  joinPair.all fun p =>
    M.sameKey (columnValue M p.1.1 p.1.2 x) (columnValue M p.2.1 p.2.2 x)

def pairMatches (M : Meaning V) (joinPair : List (Column × Column)) (condition : List (Expr V))
    (x : Joined String (Row V)) : Bool :=
  keysAgree M joinPair x && holdsAll M condition x

/-- The joined rows that a plan produces.  An outer join keeps every row of its
right input, and with number 2 every row of both. -/
def denote (M : Meaning V) : Plan V → Multiset (Joined String (Row V))
  | .scan a rows => rows.map (single a)
  | .subquery a p finish => (finish (denote M p)).map (single a)
  | .filter p condition => Rows.select (holdsAll M condition) (denote M p)
  | .equalJoin joinPair l r condition =>
    Rows.matched (pairMatches M joinPair condition) (denote M l) (denote M r)
  | .outerJoin joinPair l r n condition =>
    if n = 2 then
      Rows.fullOuter (pairMatches M joinPair condition) (padded (nullRow M) l.tables)
        (padded (nullRow M) r.tables) (denote M l) (denote M r)
    else
      Rows.rightOuter (pairMatches M joinPair condition) (padded (nullRow M) l.tables)
        (denote M l) (denote M r)
  | .crossJoin l r condition => Rows.matched (holdsAll M condition) (denote M l) (denote M r)

/-- **SQL**: ON decides which pairs of a join match, and an outer join pads the
rows of a preserved side that have no match. -/
def sql (M : Meaning V) : From V → Multiset (Joined String (Row V))
  | .table a rows => rows.map (single a)
  | .subquery a f w finish =>
    (finish (Rows.select (holdsClause M w) (sql M f))).map (single a)
  | .join .inner l r on => Rows.matched (holdsClause M on) (sql M l) (sql M r)
  | .join .straight l r on => Rows.matched (holdsClause M on) (sql M l) (sql M r)
  | .join .left l r on =>
    Rows.leftOuter (holdsClause M on) (padded (nullRow M) r.tables) (sql M l) (sql M r)
  | .join .right l r on =>
    Rows.rightOuter (holdsClause M on) (padded (nullRow M) l.tables) (sql M l) (sql M r)
  | .join .full l r on =>
    Rows.fullOuter (holdsClause M on) (padded (nullRow M) l.tables)
      (padded (nullRow M) r.tables) (sql M l) (sql M r)
  | .fromList a n => product (sql M a) (sql M n)
  | .lastFrom a => sql M a

def sqlSelect (M : Meaning V) (f : From V) (w : Option (Expr V)) :
    Multiset (Joined String (Row V)) := Rows.select (holdsClause M w) (sql M f)

/-- Tables that are joined have distinct names, and clauses refer to their scope. -/
def From.WellFormed : From V → Prop
  | .table _ _ => True
  | .subquery _ f w _ => f.WellFormed ∧ ∀ e ∈ conjuncts w, e.getRefTable ⊆ f.tables
  | .join _ l r on => l.WellFormed ∧ r.WellFormed ∧ Disjoint l.tables r.tables ∧
      ∀ e ∈ conjuncts on, e.getRefTable ⊆ l.tables ∪ r.tables
  | .fromList a n => a.WellFormed ∧ n.WellFormed ∧ Disjoint a.tables n.tables
  | .lastFrom a => a.WellFormed

theorem allOver_sql (M : Meaning V) (f : From V) : Rows.AllOver f.tables (sql M f) := by
  induction f with
  | table a rows => exact Rows.allOver_map_single a rows
  | subquery a f w finish _ => exact Rows.allOver_map_single a _
  | join t l r on ihl ihr =>
    cases t with
    | inner | straight => exact (ihl.product ihr).select _
    | left => exact Rows.allOver_leftOuter ihl ihr (Rows.over_padded _ _)
    | right => exact Rows.allOver_rightOuter ihl ihr (Rows.over_padded _ _)
    | full =>
      exact Rows.allOver_fullOuter ihl ihr (Rows.over_padded _ _) (Rows.over_padded _ _)
  | fromList a n iha ihn => exact iha.product ihn
  | lastFrom a ih => exact ih

end PushDown
