/-
Typed expressions and how they are evaluated.

`ExprEvaluate` evaluates the arguments at the type they are asked for, calls the function that the
table of operators has for it, and casts the result.  The functions in the tables are any functions
on values, and `none` is a call that does not return.
-/
import Mathlib.Data.List.Basic

namespace Expressions

inductive DataType
  | smallInt
  | int
  | uLong
  | float
  | double
  | string
  | date
  | time
  | datetime
  | decimal
  | boolean
  | uSmallInt
  | dateDay
  | dateWeek
  | dateMonth
  | dateYear
  | dateQuarter
  deriving DecidableEq, Repr

inductive OperType
  | none
  | add
  | minus
  | multiply
  | divide
  | mod
  | and
  | or
  | xor
  | not
  | equal
  | notEqual
  | great
  | greatEqual
  | less
  | lessEqual
  | bothTrim
  | trailingTrim
  | leadingTrim
  | like
  | notLike
  | upper
  | substring
  | negative
  | caseWhen
  | dateAddDay
  | dateAddWeek
  | dateAddMonth
  | dateAddYear
  | dateSubDay
  | dateSubWeek
  | dateSubMonth
  | dateSubYear
  | aggSum
  | aggAvg
  | max
  | min
  | aggCount
  | isNotNull
  | isNull
  deriving DecidableEq, Repr

/-! ### The table of common types -/

/-- `type_conversion_matrix`, as `InitTypeConversionMatrix` leaves it.  Its `memset` fills 400 of
the 1600 bytes, the first five rows: an entry of those rows that is not assigned afterwards is no
type at all, one of the other rows is zero, which is `t_smallInt`. -/
def typeConversionMatrix : DataType → DataType → Option DataType
  | .smallInt, .smallInt => some .smallInt
  | .smallInt, .int => some .int
  | .smallInt, .uLong => some .uLong
  | .smallInt, .float => some .float
  | .smallInt, .double => some .double
  | .smallInt, .string => some .int
  | .smallInt, .decimal => some .decimal
  | .smallInt, .boolean => some .smallInt
  | .smallInt, _ => none
  | .int, .smallInt => some .int
  | .int, .int => some .int
  | .int, .uLong => some .uLong
  | .int, .float => some .float
  | .int, .double => some .double
  | .int, .string => some .int
  | .int, .decimal => some .decimal
  | .int, .boolean => some .int
  | .int, _ => none
  | .uLong, .smallInt => some .uLong
  | .uLong, .int => some .uLong
  | .uLong, .uLong => some .uLong
  | .uLong, .float => some .float
  | .uLong, .double => some .double
  | .uLong, .string => some .uLong
  | .uLong, .decimal => some .decimal
  | .uLong, .boolean => some .uLong
  | .uLong, _ => none
  | .float, .smallInt => some .float
  | .float, .int => some .float
  | .float, .uLong => some .float
  | .float, .float => some .float
  | .float, .double => some .double
  | .float, .string => some .float
  | .float, .decimal => some .decimal
  | .float, .boolean => some .float
  | .float, _ => none
  | .double, .smallInt => some .double
  | .double, .int => some .double
  | .double, .uLong => some .double
  | .double, .float => some .double
  | .double, .double => some .double
  | .double, .string => some .double
  | .double, .decimal => some .decimal
  | .double, .boolean => some .double
  | .double, _ => none
  | .string, .smallInt => some .smallInt
  | .string, .int => some .int
  | .string, .uLong => some .uLong
  | .string, .float => some .float
  | .string, .double => some .double
  | .string, .string => some .string
  | .string, .date => some .date
  | .string, .time => some .time
  | .string, .datetime => some .datetime
  | .string, .decimal => some .decimal
  | .date, .string => some .date
  | .date, .date => some .date
  | .time, .string => some .time
  | .time, .time => some .time
  | .datetime, .string => some .datetime
  | .datetime, .datetime => some .datetime
  | .decimal, .smallInt => some .decimal
  | .decimal, .int => some .decimal
  | .decimal, .uLong => some .decimal
  | .decimal, .float => some .decimal
  | .decimal, .double => some .decimal
  | .decimal, .decimal => some .decimal
  | .decimal, .boolean => some .decimal
  | .boolean, .smallInt => some .smallInt
  | .boolean, .int => some .int
  | .boolean, .uLong => some .uLong
  | .boolean, .float => some .float
  | .boolean, .double => some .double
  | .boolean, .decimal => some .decimal
  | .boolean, .boolean => some .boolean
  | _, _ => some .smallInt

/-! ### Trees -/

/-- An `ExprNode` of each class.  A column is named by `C`. -/
inductive ExprNode (C : Type)
  | column (actual : DataType) (id : C)
  | const (actual : DataType) (value : List Char)
  | unary (actual get : DataType) (oper : OperType) (arg0 : ExprNode C)
  | binary (actual get : DataType) (oper : OperType) (arg0 arg1 : ExprNode C)
  | ternary (actual : DataType) (oper : OperType) (arg0 arg1 arg2 : ExprNode C)
  /-- one `then` for each `when`, and the `then` of ELSE last -/
  | caseWhen (actual : DataType) (whens thens : List (ExprNode C))
  /-- `cmp_expr_` as the lists of its `get_type_` and `arg0_`, and the rows of `right_node_` -/
  | inList (actual : DataType) (gets : List DataType) (lefts : List (ExprNode C))
      (rights : List (List (ExprNode C)))
  | dateAddSub (actual arg1Return : DataType) (oper : OperType) (arg0 arg1 : ExprNode C)

namespace ExprNode

variable {C : Type}

def actualType : ExprNode C → DataType
  | .column a _ => a
  | .const a _ => a
  | .unary a _ _ _ => a
  | .binary a _ _ _ _ => a
  | .ternary a _ _ _ _ => a
  | .caseWhen a _ _ => a
  | .inList a _ _ _ => a
  | .dateAddSub a _ _ _ _ => a

/-- `get_type_`: the constructors that are not given one take the type of the node. -/
def getType : ExprNode C → DataType
  | .unary _ g _ _ => g
  | .binary _ g _ _ _ => g
  | e => e.actualType

end ExprNode

/-! ### Evaluation -/

/-- The functions that evaluation finds in `type_cast_func_` and `data_type_oper_func_`, on the
contents `V` of a value buffer. -/
structure Tables (V : Type) where
  cast : DataType → DataType → V → Option V
  oper : DataType → OperType → List V → Option V
  text : List Char → V
  /-- `*static_cast<bool*>(value)` -/
  truth : V → Bool
  /-- a `bool` in memory -/
  bool : Bool → V

section Evaluate

variable {C V : Type} (T : Tables V)

/-- The THEN at the first true condition, or the last one. -/
def pickThen : List (Option V) → List (Option V) → Option V → Option V
  | [], _, other => other
  | w :: ws, ts, other => do
    if T.truth (← w) then ts.headD none else pickThen ws ts.tail other

/-- The inner loop of `ExprIn::ExprEvaluate`: one row against the left side. -/
def rowEqual : List DataType → List (Option V) → List (Option V) → Option Bool
  | g :: gs, l :: ls, r :: rs => do
    if T.truth (← T.oper g .equal [← l, ← r]) then rowEqual gs ls rs else some false
  | _, _, _ :: _ => none
  | _, _, [] => some true

/-- The outer loop of `ExprIn::ExprEvaluate`. -/
def anyRowEqual (gs : List DataType) (ls : List (Option V)) : List (List (Option V)) → Option Bool
  | [] => some false
  | r :: rs => do if ← rowEqual T gs ls r then some true else anyRowEqual gs ls rs

mutual

/-- `ExprEvaluate` of a node whose `return_type_` is the second argument. -/
def evaluate (row : C → V) : ExprNode C → DataType → Option V
  | .column a id, ret => T.cast a ret (row id)
  -- the cast of a constant is from the string it is given by
  | .const _ value, ret => T.cast .string ret (T.text value)
  | .unary a g o x, ret => do T.cast a ret (← T.oper g o [← evaluate row x g])
  | .binary a g o x y, ret => do
    T.cast a ret (← T.oper g o [← evaluate row x g, ← evaluate row y g])
  | .ternary a o x y z, ret => do
    T.cast a ret (← T.oper a o [← evaluate row x x.actualType, ← evaluate row y y.actualType,
      ← evaluate row z z.actualType])
  | .caseWhen a whens thens, ret => do
    let results := evaluateList row thens (thens.map ExprNode.getType)
    T.cast a ret (← pickThen T (evaluateList row whens (whens.map fun _ => .boolean)) results
      (results.getLastD none))
  | .inList a gets lefts rights, ret => do
    T.cast a ret (T.bool (← anyRowEqual T gets (evaluateList row lefts gets)
      (evaluateRows row rights gets)))
  | .dateAddSub a a1 o x y, ret => do
    T.cast a ret (← T.oper a o [← evaluate row x a, ← evaluate row y a1])

def evaluateList (row : C → V) : List (ExprNode C) → List DataType → List (Option V)
  | e :: es, ret :: rets => evaluate row e ret :: evaluateList row es rets
  | _, _ => []

def evaluateRows (row : C → V) : List (List (ExprNode C)) → List DataType →
    List (List (Option V))
  | es :: rows, rets => evaluateList row es rets :: evaluateRows row rows rets
  | [], _ => []

end

/-- `ExprUnary::ExprEvaluate(eecnxt, last_value)`: an aggregate takes its argument into the value
it has so far. -/
def evaluateInto (row : C → V) (last : V) : ExprNode C → Option V
  | .unary _ g o x => do T.oper g o [last, ← evaluate T row x g]
  | _ => none

end Evaluate

end Expressions
