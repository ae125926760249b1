/-
Expressions that are merged because they have the same name.

The text of an expression shows neither the type of a constant nor the operands of a chain of
comparisons.  The texts of legible expressions are read back by a fold, `read`, so that reading an
operand, an operator and an operand is reading the whole.

* **`reads`** — a legible expression is read back from its name;
* **`eq_of_recoverExprName_eq`** — legible expressions with one name are equal;
* **`merged_expressions_evaluate_alike`** — what the analysis of a query merges has one value;
* **`merged_expressions_evaluate_differently`** — two queries where it has two.
-/
import ClaimsDB.Expressions
import Mathlib.Tactic

namespace ExprNames

open List
open Expressions

/-! ### Syntax trees -/

/-- `expr_type_` of an `AstExprConst` -/
inductive ConstType
  | int
  | double
  | string
  | bool
  deriving DecidableEq, Repr

/-- `expr_type_` of an `AstExprUnary` that has an argument -/
inductive UnaryType
  | plus
  | minus
  | bang
  | not
  | isNull
  | isNotNull
  | isBool
  | isNotBool
  | count
  | sum
  | avg
  | min
  | max
  deriving DecidableEq, Repr

/-- `expr_type_` of an `AstExprCalBinary` whose node type is `AST_EXPR_CAL_BINARY` -/
inductive CalType
  | plus
  | minus
  | times
  | slash
  | percent
  | bar
  | ampersand
  | caret
  | mod
  | rshift
  | like
  | notLike
  | regexp
  | notRegexp
  deriving DecidableEq, Repr

/-- `expr_type_` of an `AstExprCalBinary` whose node type is `AST_EXPR_BOOL_BINARY` -/
inductive BoolType
  | and
  | or
  | xor
  deriving DecidableEq, Repr

/-- `expr_type_` of an `AstExprCmpBinary` -/
inductive CmpType
  | less
  | great
  | notEqual
  | equal
  | lessEqual
  | greatEqual
  | nullSafeEqual
  deriving DecidableEq, Repr

/-- Syntax trees of expressions: constants, columns, aggregates, arithmetic, comparisons. -/
inductive AstExpr
  | const (type : ConstType) (data : List Char)
  | column (relation column : List Char)
  | countAll
  | unary (type : UnaryType) (arg0 : AstExpr)
  | calBinary (type : CalType) (arg0 arg1 : AstExpr)
  | boolBinary (type : BoolType) (arg0 arg1 : AstExpr)
  | cmpBinary (type : CmpType) (arg0 arg1 : AstExpr)
  deriving DecidableEq, Repr

def UnaryType.text : UnaryType → List Char
  | .plus => ['+']
  | .minus => ['-']
  | .bang => ['!']
  | .not => "NOT".toList
  | .isNull => "IS_NULL".toList
  | .isNotNull => "IS_NOT_NULL".toList
  | .isBool => "IS_BOOL".toList
  | .isNotBool => "IS_NOT_BOOL".toList
  | .count => "COUNT".toList
  | .sum => "SUM".toList
  | .avg => "AVG".toList
  | .min => "MIN".toList
  | .max => "MAX".toList

def CalType.text : CalType → List Char
  | .plus => ['+']
  | .minus => ['-']
  | .times => ['*']
  | .slash => ['/']
  | .percent => ['%']
  | .bar => ['|']
  | .ampersand => ['&']
  | .caret => ['^']
  | .mod => "MOD".toList
  | .rshift => "RSHIFT".toList
  | .like => "LIKE".toList
  | .notLike => "NOT_LIKE".toList
  | .regexp => "REGEXP".toList
  | .notRegexp => "NOT_REGEXP".toList

def BoolType.text : BoolType → List Char
  | .and => "AND".toList
  | .or => "OR".toList
  | .xor => "XOR".toList

def CmpType.text : CmpType → List Char
  | .less => ['<']
  | .great => ['>']
  | .notEqual => ['!', '=']
  | .equal => ['=']
  | .lessEqual => ['<', '=']
  | .greatEqual => ['>', '=']
  | .nullSafeEqual => ['<', '=', '>']

namespace AstExpr

def isCal : AstExpr → Bool
  | .calBinary .. => true
  | _ => false

def isBool : AstExpr → Bool
  | .boolBinary .. => true
  | _ => false

def isCmp : AstExpr → Bool
  | .cmpBinary .. => true
  | _ => false

/-! ### Names -/

def parenthesize (b : Bool) (name : List Char) : List Char :=
  if b then '(' :: name ++ [')'] else name

/-- `RecoverExprName`; a comparison never puts parentheses around its operands. -/
def recoverExprName : AstExpr → List Char
  | .const _ data => data
  | .column relation name =>
    if relation ≠ "NULL".toList then relation ++ '.' :: name else name
  | .countAll => "COUNT(*)".toList
  | .unary type x => type.text ++ parenthesize true x.recoverExprName
  | .calBinary type x y =>
    parenthesize (x.isBool || x.isCmp) x.recoverExprName ++ type.text ++
      parenthesize (y.isBool || y.isCmp || y.isCal) y.recoverExprName
  | .boolBinary type x y =>
    x.recoverExprName ++ (' ' :: type.text ++ [' ']) ++ parenthesize y.isBool y.recoverExprName
  | .cmpBinary type x y => x.recoverExprName ++ type.text ++ y.recoverExprName

theorem recoverExprName_unary (type : UnaryType) (x : AstExpr) :
    (unary type x).recoverExprName = type.text ++ parenthesize true x.recoverExprName := rfl

theorem recoverExprName_calBinary (type : CalType) (x y : AstExpr) :
    (calBinary type x y).recoverExprName =
      parenthesize (x.isBool || x.isCmp) x.recoverExprName ++ type.text ++
        parenthesize (y.isBool || y.isCmp || y.isCal) y.recoverExprName := rfl

theorem recoverExprName_cmpBinary (type : CmpType) (x y : AstExpr) :
    (cmpBinary type x y).recoverExprName =
      x.recoverExprName ++ type.text ++ y.recoverExprName := rfl

/-- `expr_str_` after `RecoverExprName`, which leaves that of a constant empty. -/
def exprStr : AstExpr → List Char
  | .const _ _ => []
  | e => e.recoverExprName

/-! ### Values -/

/-- What the FROM clause says of a column: its type in the attributes of the plan below. -/
abbrev Scope := List Char → List Char → Option DataType

/-- `AstExprConst::GetLogicalPlan`: the type of a constant; `big` is `atol(data) > INT_MAX`. -/
def constType (big : Bool) : ConstType → DataType
  | .int => if big then .uLong else .int
  | .bool => .boolean
  | .string => .string
  | .double => .double

def atol (data : List Char) : ℤ :=
  let digits (cs : List Char) : ℤ :=
    (cs.takeWhile Char.isDigit).foldl (fun n c => 10 * n + (c.toNat - '0'.toNat : ℕ)) 0
  match data with
  | '-' :: cs => -digits cs
  | '+' :: cs => digits cs
  | cs => digits cs

/-- The operator that `AstExprUnary::GetLogicalPlan` chooses; `none` where it asserts. -/
def unaryOper : UnaryType → Option OperType
  | .plus => none
  | .minus => some .negative
  | .bang => some .not
  | .not => some .not
  | .isNull => some .isNull
  | .isNotNull => some .isNotNull
  | .isBool => none
  | .isNotBool => none
  | .count => some .aggCount
  | .sum => some .aggSum
  | .avg => some .aggAvg
  | .min => some .min
  | .max => some .max

/-- The operator that `AstExprCalBinary::GetLogicalPlan` chooses. -/
def calOper : CalType → OperType
  | .plus => .add
  | .minus => .minus
  | .times => .multiply
  | .slash => .divide
  | .percent => .mod
  | .mod => .mod
  | .bar => .or
  | .caret => .xor
  | .like => .like
  | .notLike => .notLike
  | _ => .none

def boolOper : BoolType → OperType
  | .and => .and
  | .or => .or
  | .xor => .xor

/-- The operator that `AstExprCmpBinary::GetLogicalPlan` chooses. -/
def cmpOper : CmpType → OperType
  | .less => .less
  | .great => .great
  | .equal => .equal
  | .greatEqual => .greatEqual
  | .lessEqual => .lessEqual
  | .notEqual => .notEqual
  | .nullSafeEqual => .notEqual

/-- `COUNT` of anything counts the constant one. -/
def countOne : ExprNode (List Char × List Char) :=
  .unary .uLong .uLong .aggCount (.const .uLong ['1'])

/-- `GetLogicalPlan`; `none` where a column is unknown, a table has no entry or the code asserts. -/
def getLogicalPlan (scope : Scope) : AstExpr → Option (ExprNode (List Char × List Char))
  | .const type data => some (.const (constType (2 ^ 31 - 1 < atol data) type) data)
  | .column relation name => do return .column (← scope relation name) (relation, name)
  | .countAll => some countOne
  | .unary .count _ => some countOne
  | .unary type x => do
    let oper ← unaryOper type
    let arg ← x.getLogicalPlan scope
    let actual := if type = .isNull ∨ type = .isNotNull then .boolean else arg.actualType
    return .unary actual arg.actualType oper arg
  | .calBinary type x y => do
    let left ← x.getLogicalPlan scope
    let right ← y.getLogicalPlan scope
    let common ← typeConversionMatrix left.actualType right.actualType
    let get := if left.actualType = .boolean ∧ right.actualType = .boolean then .smallInt
      else common
    let actual := if type = .like ∨ type = .notLike then .boolean else get
    return .binary actual get (calOper type) left right
  | .boolBinary type x y => do
    return .binary .boolean .boolean (boolOper type) (← x.getLogicalPlan scope)
      (← y.getLogicalPlan scope)
  | .cmpBinary type x y => do
    let left ← x.getLogicalPlan scope
    let right ← y.getLogicalPlan scope
    let get ← typeConversionMatrix left.actualType right.actualType
    return .binary .boolean get (cmpOper type) left right

/-- The nodes that `ReplaceAggregation` collects. -/
def isAggregate : AstExpr → Bool
  | .countAll => true
  | .unary type _ => type ∈ [.count, .sum, .avg, .min, .max]
  | _ => false

/-- What an expression gives on a tuple, an aggregate with the value it has so far. -/
def value {V : Type} (T : Tables V) (scope : Scope) (row : List Char × List Char → V) (last : V)
    (e : AstExpr) : Option V := do
  let plan ← e.getLogicalPlan scope
  if e.isAggregate then evaluateInto T row last plan else evaluate T row plan plan.actualType

end AstExpr
/-! ### Merging -/

/-- The expressions of a SELECT that are merged by name, in the order the analysis meets them. -/
structure Query where
  aggregates : List AstExpr
  groupBys : List AstExpr
  isAggregate : ∀ e ∈ aggregates, e.isAggregate

/-- `GetUniqueAggAttr`: a map keeps the first expression it is given for a name. -/
def getUniqueAggAttr (aggs : List AstExpr) : List AstExpr :=
  aggs.foldl (fun kept e => if kept.any (·.exprStr = e.exprStr) then kept else kept ++ [e]) []

/-- `AddGroupByAttrs`; `none` is the error for an expression without a name. -/
def addGroupByAttrs (attrs : List AstExpr) (node : AstExpr) : Option (List AstExpr) :=
  if attrs ≠ [] ∧ node.exprStr = [] then none
  else if attrs.any (·.exprStr = node.exprStr) then some attrs
  else some (attrs ++ [node])

/-- `kept` stands for `e` after the analysis, because the two have the same name. -/
def Query.Merged (q : Query) (e kept : AstExpr) : Prop :=
  e.exprStr = kept.exprStr ∧
    ((e ∈ q.aggregates ∧ kept ∈ getUniqueAggAttr q.aggregates) ∨
      (e ∈ q.groupBys ∧ ∃ attrs, q.groupBys.foldlM addGroupByAttrs [] = some attrs ∧ kept ∈ attrs))

def Query.Sound {V : Type} (T : Tables V) (q : Query) : Prop :=
  ∀ e kept, q.Merged e kept → ∀ scope row last,
    kept.value T scope row last = e.value T scope row last

variable {e : AstExpr}

theorem mem_of_mem_getUniqueAggAttr :
    ∀ {aggs : List AstExpr}, e ∈ getUniqueAggAttr aggs → e ∈ aggs := by
  suffices h : ∀ (aggs kept : List AstExpr),
      e ∈ aggs.foldl (fun kept e => if kept.any (·.exprStr = e.exprStr) then kept
        else kept ++ [e]) kept → e ∈ kept ∨ e ∈ aggs from
    fun {aggs} he => (h aggs [] he).resolve_left not_mem_nil
  intro aggs
  induction aggs with
  | nil => exact fun kept he => .inl he
  | cons a aggs ih =>
    intro kept he
    rcases ih _ he with he | he
    · dsimp only at he
      split_ifs at he
      · exact .inl he
      · rcases List.mem_append.mp he with he | he
        · exact .inl he
        · exact .inr (by simp [List.mem_singleton.mp he])
    · exact .inr (mem_cons_of_mem _ he)

theorem mem_of_mem_addGroupByAttrs : ∀ (nodes : List AstExpr)
    {attrs attrs' : List AstExpr}, nodes.foldlM addGroupByAttrs attrs = some attrs' →
      e ∈ attrs' → e ∈ attrs ∨ e ∈ nodes := by
  intro nodes
  induction nodes with
  | nil =>
    intro attrs attrs' h he
    cases h
    exact .inl he
  | cons n nodes ih =>
    intro attrs attrs' h he
    rw [foldlM_cons] at h
    obtain ⟨attrs₁, h₁, h₂⟩ := Option.bind_eq_some_iff.mp h
    rcases ih h₂ he with he | he
    · unfold addGroupByAttrs at h₁
      split_ifs at h₁
      · cases h₁
        exact .inl he
      · cases h₁
        rcases List.mem_append.mp he with he | he
        · exact .inl he
        · exact .inr (by simp [List.mem_singleton.mp he])
    · exact .inr (mem_cons_of_mem _ he)

theorem exprStr_ne_nil_of_addGroupByAttrs : ∀ (nodes : List AstExpr) {attrs attrs' : List AstExpr},
    nodes.foldlM addGroupByAttrs attrs = some attrs' → attrs ≠ [] →
      ∀ e ∈ nodes, e.exprStr ≠ [] := by
  intro nodes
  induction nodes with
  | nil => exact fun _ _ e he => absurd he not_mem_nil
  | cons n nodes ih =>
    intro attrs attrs' h hne e he
    rw [foldlM_cons] at h
    obtain ⟨attrs₁, h₁, h₂⟩ := Option.bind_eq_some_iff.mp h
    unfold addGroupByAttrs at h₁
    split_ifs at h₁ with hn hany
    all_goals
      cases h₁
      rcases List.mem_cons.mp he with rfl | he
      · exact fun h => hn ⟨hne, h⟩
      · exact ih h₂ (by simp [hne]) e he

theorem eq_of_exprStr_eq_nil {nodes attrs : List AstExpr} {kept : AstExpr}
    (h : nodes.foldlM addGroupByAttrs [] = some attrs) (he : e ∈ nodes) (hk : kept ∈ nodes)
    (hen : e.exprStr = []) (hkn : kept.exprStr = []) : e = kept := by
  cases nodes with
  | nil => exact absurd he not_mem_nil
  | cons n nodes =>
    rw [foldlM_cons] at h
    obtain ⟨attrs₁, h₁, h₂⟩ := Option.bind_eq_some_iff.mp h
    have hn : attrs₁ = [n] := by
      simpa [addGroupByAttrs] using h₁.symm
    have hrest := exprStr_ne_nil_of_addGroupByAttrs nodes h₂ (by simp [hn])
    have hhead : ∀ f ∈ n :: nodes, f.exprStr = [] → f = n := fun f hf hfn =>
      (List.mem_cons.mp hf).resolve_right fun hf => hrest f hf hfn
    rw [hhead e he hen, hhead kept hk hkn]

/-! ### Legible expressions -/

def isCalChar (c : Char) : Bool := c ∈ ['+', '-', '*', '/', '%', '|', '&', '^']

def isCmpChar (c : Char) : Bool := c ∈ ['<', '>', '=', '!']

def isPlain (c : Char) : Bool := !isCalChar c && !isCmpChar c && c ≠ '(' && c ≠ ')'

def isWord : List Char → Bool
  | [] => false
  | c :: cs => (isPlain c || c = '+' || c = '-') && cs.all isPlain

def CalType.isSymbol : CalType → Bool
  | .plus | .minus | .times | .slash | .percent | .bar | .ampersand | .caret => true
  | _ => false

namespace AstExpr

def leaves : AstExpr → List AstExpr
  | .const type data => [.const type data]
  | .column relation name => [.column relation name]
  | .countAll => []
  | .unary _ x => x.leaves
  | .calBinary _ x y => x.leaves ++ y.leaves
  | .boolBinary _ x y => x.leaves ++ y.leaves
  | .cmpBinary _ x y => x.leaves ++ y.leaves

/-- Leaves are words, operators symbols, and no operand of a comparison is a comparison. -/
def legible : AstExpr → Bool
  | .const _ data => isWord data
  | .column relation name => isWord (recoverExprName (.column relation name))
  | .countAll => true
  | .unary type x => type ≠ .bang && x.legible
  | .calBinary type x y => type.isSymbol && x.legible && y.legible
  | .boolBinary _ _ _ => false
  | .cmpBinary _ x y => !x.isCmp && !y.isCmp && x.legible && y.legible

def skeleton : AstExpr → AstExpr
  | .const _ data => .const .string data
  | .column relation name => .const .string (recoverExprName (.column relation name))
  | .countAll => .countAll
  | .unary type x => .unary type x.skeleton
  | .calBinary type x y => .calBinary type x.skeleton y.skeleton
  | .boolBinary type x y => .boolBinary type x.skeleton y.skeleton
  | .cmpBinary type x y => .cmpBinary type x.skeleton y.skeleton

theorem eq_of_skeleton_eq : ∀ {e f : AstExpr}, e.skeleton = f.skeleton →
    (∀ a ∈ e.leaves, ∀ b ∈ f.leaves, a.recoverExprName = b.recoverExprName → a = b) → e = f := by
  intro e
  induction e with
  | const type data | column relation name =>
    intro f h hl
    cases f <;> simp only [skeleton, reduceCtorEq] at h
    all_goals
      injection h with _ h
      exact hl _ (mem_singleton_self _) _ (mem_singleton_self _) h
  | countAll =>
    intro f h _
    cases f <;> simp only [skeleton, reduceCtorEq] at h
    rfl
  | unary type x ih =>
    intro f h hl
    cases f <;> simp only [skeleton, reduceCtorEq] at h
    injection h with ht hx
    rw [ht, ih hx hl]
  | calBinary type x y ihx ihy | boolBinary type x y ihx ihy | cmpBinary type x y ihx ihy =>
    intro f h hl
    cases f <;> simp only [skeleton, reduceCtorEq] at h
    injection h with ht hx hy
    rw [ht, ihx hx fun a ha b hb => hl a (mem_append_left _ ha) b (mem_append_left _ hb),
      ihy hy fun a ha b hb => hl a (mem_append_right _ ha) b (mem_append_right _ hb)]

end AstExpr

/-! ### Reading a name back -/

def calOf (c : Char) : CalType :=
  ([.plus, .minus, .times, .slash, .percent, .bar, .ampersand].find? (·.text = [c])).getD .caret

def cmpOf (text : List Char) : CmpType :=
  ([.less, .great, .notEqual, .equal, .lessEqual, .greatEqual].find? (·.text = text)).getD
    .nullSafeEqual

def unaryOf (text : List Char) : Option UnaryType :=
  [.plus, .minus, .bang, .not, .isNull, .isNotNull, .isBool, .isNotBool, .count, .sum, .avg, .min,
    .max].find? (·.text = text)

/-- The operators that wait for their right operand, within one pair of parentheses. -/
structure Frame where
  cmp : Option (AstExpr × List Char)
  cal : Option (AstExpr × Char)

inductive Operand
  | start
  | word (text : List Char)
  | done (e : AstExpr)

/-- The reader within some parentheses, each with the word before it. -/
structure Reader where
  frame : Frame
  operand : Operand
  outer : List (Frame × List Char)

def Operand.expr : Operand → AstExpr
  | .start => .countAll
  | .word text => .const .string text
  | .done e => e

def Frame.calExpr (f : Frame) (o : Operand) : AstExpr :=
  match f.cal with
  | none => o.expr
  | some (l, c) => .calBinary (calOf c) l o.expr

def Frame.expr (f : Frame) (o : Operand) : AstExpr :=
  match f.cmp with
  | none => f.calExpr o
  | some (l, text) => .cmpBinary (cmpOf text) l (f.calExpr o)

def apply (word : List Char) (e : AstExpr) : AstExpr :=
  if word = UnaryType.count.text ∧ e = .const .string ['*'] then .countAll
  else match unaryOf word with
    | some type => .unary type e
    | none => e

def read (r : Reader) (c : Char) : Reader :=
  if c = '(' then
    match r.operand with
    | .word text => ⟨⟨none, none⟩, .start, (r.frame, text) :: r.outer⟩
    | _ => ⟨⟨none, none⟩, .start, (r.frame, []) :: r.outer⟩
  else if c = ')' then
    match r.outer with
    | (f, word) :: outer => ⟨f, .done (apply word (r.frame.expr r.operand)), outer⟩
    | [] => r
  else if isCalChar c then
    match r.operand with
    | .start => { r with operand := .word [c] }
    | o => { r with frame := ⟨r.frame.cmp, some (r.frame.calExpr o, c)⟩, operand := .start }
  else if isCmpChar c then
    match r.operand, r.frame.cmp with
    | .start, some (l, text) => { r with frame := ⟨some (l, text ++ [c]), none⟩ }
    | o, _ => { r with frame := ⟨some (r.frame.calExpr o, [c]), none⟩, operand := .start }
  else
    match r.operand with
    | .word text => { r with operand := .word (text ++ [c]) }
    | _ => { r with operand := .word [c] }

theorem read_plain (r : Reader) {c : Char} (h : isPlain c) : read r c =
    match r.operand with
    | .word text => { r with operand := .word (text ++ [c]) }
    | _ => { r with operand := .word [c] } := by
  simp only [isPlain, Bool.and_eq_true, Bool.not_eq_true', decide_eq_true_eq] at h
  obtain ⟨⟨⟨h₁, h₂⟩, h₃⟩, h₄⟩ := h
  simp only [read, h₁, h₂, h₃, h₄, if_false, Bool.false_eq_true]

theorem foldl_read_plain (f : Frame) (st : List (Frame × List Char)) : ∀ (cs text : List Char),
    cs.all isPlain → cs.foldl read ⟨f, .word text, st⟩ = ⟨f, .word (text ++ cs), st⟩ := by
  intro cs
  induction cs with
  | nil => simp
  | cons c cs ih =>
    intro text h
    rw [all_cons, Bool.and_eq_true] at h
    rw [foldl_cons, read_plain _ h.1]
    dsimp only
    rw [ih _ h.2, append_assoc, singleton_append]

theorem foldl_read_word (f : Frame) (st : List (Frame × List Char)) {text : List Char}
    (h : isWord text) : text.foldl read ⟨f, .start, st⟩ = ⟨f, .word text, st⟩ := by
  cases text with
  | nil => simp [isWord] at h
  | cons c cs =>
    simp only [isWord, Bool.and_eq_true, Bool.or_eq_true, decide_eq_true_eq] at h
    have hc : read ⟨f, .start, st⟩ c = ⟨f, .word [c], st⟩ := by
      rcases h.1 with (hc | rfl) | rfl
      · rw [read_plain _ hc]
      · rfl
      · rfl
    rw [foldl_cons, hc, foldl_read_plain _ _ _ _ h.2, singleton_append]

variable {o : Operand} {e f : AstExpr}

theorem foldl_read_cal {type : CalType} (h : type.isSymbol) (f : Frame) (ho : o ≠ .start)
    (st : List (Frame × List Char)) : ∃ c, calOf c = type ∧
      type.text.foldl read ⟨f, o, st⟩ = ⟨⟨f.cmp, some (f.calExpr o, c)⟩, .start, st⟩ := by
  cases o with
  | start => exact absurd rfl ho
  | word text | done e =>
    cases type <;> first | exact absurd h (by decide) | exact ⟨_, by decide, rfl⟩

theorem foldl_read_cmp (type : CmpType) (f : Frame) (ho : o ≠ .start)
    (st : List (Frame × List Char)) : type.text.foldl read ⟨f, o, st⟩ =
      ⟨⟨some (f.calExpr o, type.text), none⟩, .start, st⟩ := by
  cases o with
  | start => exact absurd rfl ho
  | word text => cases type <;> rfl
  | done e => cases type <;> rfl

theorem cmpOf_text (type : CmpType) : cmpOf type.text = type := by cases type <;> rfl

theorem unaryOf_text (type : UnaryType) : unaryOf type.text = some type := by
  cases type <;> decide

theorem isWord_text {t : UnaryType} (h : t ≠ .bang) : isWord t.text := by
  cases t <;> first | exact absurd rfl h | decide

structure Reads (e : AstExpr) : Prop where
  operand : e.isCal = false → e.isCmp = false → ∀ f st, ∃ o, o ≠ .start ∧
    e.recoverExprName.foldl read ⟨f, .start, st⟩ = ⟨f, o, st⟩ ∧ o.expr = e.skeleton
  side : e.isCmp = false → ∀ f st, f.cal = none → ∃ f' o, o ≠ .start ∧
    e.recoverExprName.foldl read ⟨f, .start, st⟩ = ⟨f', o, st⟩ ∧ f'.cmp = f.cmp ∧
      f'.calExpr o = e.skeleton
  whole : ∀ st, ∃ f o, e.recoverExprName.foldl read ⟨⟨none, none⟩, .start, st⟩ = ⟨f, o, st⟩ ∧
    f.expr o = e.skeleton

theorem Reads.of_side {e : AstExpr} (hcal : e.isCal = true)
    (h : ∀ f st, f.cal = none → ∃ f' o, o ≠ .start ∧
      e.recoverExprName.foldl read ⟨f, .start, st⟩ = ⟨f', o, st⟩ ∧ f'.cmp = f.cmp ∧
        f'.calExpr o = e.skeleton) : Reads e where
  operand hn := absurd hcal (by simp [hn])
  side _ := h
  whole st := by
    obtain ⟨f, o, -, hr, hf, he⟩ := h ⟨none, none⟩ st rfl
    refine ⟨f, o, hr, ?_⟩
    rw [Frame.expr, hf, he]

theorem Reads.of_operand {e : AstExpr} (h : ∀ f st, ∃ o, o ≠ .start ∧
      e.recoverExprName.foldl read ⟨f, .start, st⟩ = ⟨f, o, st⟩ ∧ o.expr = e.skeleton) :
    Reads e where
  operand _ _ := h
  side _ f st hf := by
    obtain ⟨o, ho, hr, he⟩ := h f st
    refine ⟨f, o, ho, hr, rfl, ?_⟩
    rw [Frame.calExpr, hf, he]
  whole st := by
    obtain ⟨o, -, hr, he⟩ := h ⟨none, none⟩ st
    exact ⟨⟨none, none⟩, o, hr, he⟩

theorem skeleton_ne_star (h : e.legible) : e.skeleton ≠ .const .string ['*'] := by
  cases e <;> simp only [AstExpr.skeleton, ne_eq, reduceCtorEq, not_false_eq_true,
    AstExpr.const.injEq, true_and]
  case const type data =>
    rintro rfl
    exact absurd h (by simp [AstExpr.legible, isWord, isPlain, isCalChar])
  case column relation name =>
    intro hn
    rw [AstExpr.legible, hn] at h
    exact absurd h (by decide)

theorem apply_nil : apply [] e = e := by
  have h : ¬([] = UnaryType.count.text ∧ e = .const .string ['*']) := fun h => by
    exact absurd h.1 (by decide)
  rw [apply, if_neg h]
  rfl

theorem apply_star : apply UnaryType.count.text (.const .string ['*']) = .countAll :=
  if_pos ⟨rfl, rfl⟩

theorem apply_text (h : e ≠ .const .string ['*']) (type : UnaryType) :
    apply type.text e = .unary type e := by
  rw [apply, if_neg fun hc => h hc.2, unaryOf_text]

theorem Reads.call (h : Reads e) (text : List Char) (f : Frame) (st : List (Frame × List Char)) :
    (AstExpr.parenthesize true e.recoverExprName).foldl read ⟨f, .word text, st⟩ =
      ⟨f, .done (apply text e.skeleton), st⟩ := by
  obtain ⟨f', o, hr, he⟩ := h.whole ((f, text) :: st)
  have hopen : read ⟨f, .word text, st⟩ '(' = ⟨⟨none, none⟩, .start, (f, text) :: st⟩ := rfl
  rw [AstExpr.parenthesize, if_pos rfl, cons_append, foldl_cons, hopen,
    foldl_append, hr, ← he]
  rfl

theorem Reads.group (h : Reads e) (f : Frame) (st : List (Frame × List Char)) :
    (AstExpr.parenthesize true e.recoverExprName).foldl read ⟨f, .start, st⟩ =
      ⟨f, .done e.skeleton, st⟩ := by
  obtain ⟨f', o, hr, he⟩ := h.whole ((f, []) :: st)
  have hopen : read ⟨f, .start, st⟩ '(' = ⟨⟨none, none⟩, .start, (f, []) :: st⟩ := rfl
  have hclose : read ⟨f', o, (f, []) :: st⟩ ')' = ⟨f, .done (apply [] (f'.expr o)), st⟩ := rfl
  rw [AstExpr.parenthesize, if_pos rfl, cons_append, foldl_cons, hopen,
    foldl_append, hr, foldl_cons, hclose, apply_nil, he, foldl_nil]

theorem Reads.left (h : Reads e) (hb : e.isBool = false) (f : Frame) (hf : f.cal = none)
    (st : List (Frame × List Char)) : ∃ f' o, o ≠ .start ∧
      (AstExpr.parenthesize (e.isBool || e.isCmp) e.recoverExprName).foldl read ⟨f, .start, st⟩ =
        ⟨f', o, st⟩ ∧ f'.cmp = f.cmp ∧ f'.calExpr o = e.skeleton := by
  cases hc : e.isCmp with
  | true =>
    rw [hb, Bool.false_or, h.group]
    refine ⟨f, .done e.skeleton, nofun, rfl, rfl, ?_⟩
    rw [Frame.calExpr, hf, Operand.expr]
  | false =>
    rw [hb, Bool.false_or, AstExpr.parenthesize, if_neg Bool.false_ne_true]
    exact h.side hc f st hf

theorem Reads.right (h : Reads e) (hb : e.isBool = false) (f : Frame)
    (st : List (Frame × List Char)) : ∃ o, o ≠ .start ∧
      (AstExpr.parenthesize (e.isBool || e.isCmp || e.isCal) e.recoverExprName).foldl read
        ⟨f, .start, st⟩ = ⟨f, o, st⟩ ∧ o.expr = e.skeleton := by
  cases hc : e.isCmp || e.isCal with
  | true =>
    rw [hb, Bool.false_or, hc, h.group]
    exact ⟨.done e.skeleton, nofun, rfl, rfl⟩
  | false =>
    rw [hb, Bool.false_or, hc, AstExpr.parenthesize, if_neg Bool.false_ne_true]
    rw [Bool.or_eq_false_iff] at hc
    exact h.operand hc.2 hc.1 f st

theorem AstExpr.isBool_of_legible (h : e.legible) : e.isBool = false := by
  cases e <;> first | rfl | exact absurd h (by simp [AstExpr.legible])

theorem reads (h : e.legible) : Reads e := by
  induction e with
  | const type data =>
    refine .of_operand fun f st => ⟨.word data, nofun, ?_, rfl⟩
    exact foldl_read_word f st h
  | column relation name =>
    refine .of_operand fun f st => ⟨.word _, nofun, ?_, rfl⟩
    exact foldl_read_word f st h
  | countAll =>
    have hname : AstExpr.countAll.recoverExprName = UnaryType.count.text ++ ['(', '*', ')'] := by
      decide
    refine .of_operand fun f st => ⟨.done .countAll, nofun, ?_, rfl⟩
    rw [hname, foldl_append, foldl_read_word f st (isWord_text (t := .count) nofun), ← apply_star]
    rfl
  | unary type x ih =>
    simp only [AstExpr.legible, Bool.and_eq_true, decide_eq_true_eq] at h
    refine .of_operand fun f st => ⟨.done (.unary type x.skeleton), nofun, ?_, rfl⟩
    rw [AstExpr.recoverExprName_unary, foldl_append, foldl_read_word f st (isWord_text h.1),
      (ih h.2).call, apply_text (skeleton_ne_star h.2)]
  | calBinary type x y ihx ihy =>
    simp only [AstExpr.legible, Bool.and_eq_true] at h
    obtain ⟨⟨htype, hx⟩, hy⟩ := h
    refine .of_side rfl fun f st hf => ?_
    obtain ⟨f₁, o₁, ho₁, hr₁, hf₁, he₁⟩ :=
      (ihx hx).left (AstExpr.isBool_of_legible hx) f hf st
    obtain ⟨c, hc, hr₂⟩ := foldl_read_cal htype f₁ ho₁ st
    obtain ⟨o, ho, hr, he⟩ :=
      (ihy hy).right (AstExpr.isBool_of_legible hy) ⟨f₁.cmp, some (f₁.calExpr o₁, c)⟩ st
    refine ⟨⟨f₁.cmp, some (f₁.calExpr o₁, c)⟩, o, ho, ?_, hf₁, ?_⟩
    · rw [AstExpr.recoverExprName_calBinary, foldl_append, foldl_append, hr₁, hr₂, hr]
    · rw [Frame.calExpr]
      dsimp only
      rw [hc, he₁, he, AstExpr.skeleton]
  | boolBinary type x y => exact absurd h (by simp [AstExpr.legible])
  | cmpBinary type x y ihx ihy =>
    simp only [AstExpr.legible, Bool.and_eq_true, Bool.not_eq_true'] at h
    obtain ⟨⟨⟨hcx, hcy⟩, hx⟩, hy⟩ := h
    refine ⟨nofun, nofun, fun st => ?_⟩
    obtain ⟨f₁, o₁, ho₁, hr₁, hf₁, he₁⟩ := (ihx hx).side hcx ⟨none, none⟩ st rfl
    obtain ⟨f₂, o₂, ho₂, hr₂, hf₂, he₂⟩ :=
      (ihy hy).side hcy ⟨some (f₁.calExpr o₁, type.text), none⟩ st rfl
    refine ⟨f₂, o₂, ?_, ?_⟩
    · rw [AstExpr.recoverExprName_cmpBinary, foldl_append, foldl_append, hr₁,
        foldl_read_cmp type f₁ ho₁, hr₂]
    · rw [Frame.expr, hf₂]
      dsimp only
      rw [he₁, he₂, cmpOf_text, AstExpr.skeleton]

/-- **Legible expressions with one name**, whose leaves are known by their texts, are equal. -/
theorem eq_of_recoverExprName_eq (he : e.legible) (hf : f.legible)
    (hl : ∀ a ∈ e.leaves, ∀ b ∈ f.leaves, a.recoverExprName = b.recoverExprName → a = b)
    (h : e.recoverExprName = f.recoverExprName) : e = f := by
  refine AstExpr.eq_of_skeleton_eq ?_ hl
  obtain ⟨f₁, o₁, hr₁, he₁⟩ := (reads he).whole []
  obtain ⟨f₂, o₂, hr₂, he₂⟩ := (reads hf).whole []
  rw [h, hr₂] at hr₁
  injection hr₁ with hf ho _
  rw [← he₁, ← he₂, hf, ho]

/-- The expressions are legible, and no two different leaves of theirs are written alike. -/
def AstExpr.Apart (e f : AstExpr) : Prop :=
  (e.legible ∧ f.legible) ∧
    ∀ a ∈ e.leaves, ∀ b ∈ f.leaves, a.recoverExprName = b.recoverExprName → a = b

instance (e f : AstExpr) : Decidable (e.Apart f) := inferInstanceAs (Decidable (_ ∧ _))

/-- Two different expressions of one list are apart; a list of one expression always is legible. -/
def Query.Legible (q : Query) : Prop :=
  (∀ e ∈ q.aggregates, ∀ f ∈ q.aggregates, e ≠ f → e.Apart f) ∧
    ∀ e ∈ q.groupBys, ∀ f ∈ q.groupBys, e ≠ f → e.Apart f

instance (q : Query) : Decidable q.Legible := inferInstanceAs (Decidable (_ ∧ _))

theorem AstExpr.exprStr_eq (h : e.exprStr ≠ []) : e.exprStr = e.recoverExprName := by
  cases e <;> first | rfl | exact absurd rfl h

theorem AstExpr.eq_of_apart (hapart : e ≠ f → e.Apart f)
    (h : e.recoverExprName = f.recoverExprName) : e = f := by
  by_contra hne
  obtain ⟨⟨he, hf⟩, hleaves⟩ := hapart hne
  exact hne (eq_of_recoverExprName_eq he hf hleaves h)

theorem AstExpr.exprStr_ne_nil (h : e.isAggregate) : e.exprStr ≠ [] := by
  cases e with
  | unary type x =>
    change (unary type x).recoverExprName ≠ []
    rw [recoverExprName_unary, parenthesize, if_pos rfl]
    simp
  | countAll => decide
  | _ => exact absurd h Bool.false_ne_true

/-- A value buffer that holds an `int`, a `bool` or a string. -/
inductive Cell
  | number (n : ℤ)
  | truth (b : Bool)
  | chars (text : List Char)
  deriving DecidableEq, Repr

def integerTables : Tables Cell where
  cast
    | .int, .int, .number n => some (.number n)
    | .string, .int, .chars text => some (.number (Int.bmod (AstExpr.atol text) (2 ^ 32)))
    | .boolean, .int, .truth b => some (.number b.toNat)
    | .boolean, .boolean, .truth b => some (.truth b)
    | _, _, _ => none
  oper
    | .int, .add, [.number a, .number b] => some (.number (Int.bmod (a + b) (2 ^ 32)))
    | .int, .equal, [.number a, .number b] => some (.truth (a = b))
    | .int, .aggSum, [.number a, .number b] => some (.number (Int.bmod (a + b) (2 ^ 32)))
    | _, _, _ => none
  text := .chars
  truth
    | .truth b => b
    | _ => false
  bool := .truth

def columnA : AstExpr := .column "NULL".toList ['a']

def columnB : AstExpr := .column "NULL".toList ['b']

def columnC : AstExpr := .column "NULL".toList ['c']

def sumPlusOne (x : AstExpr) : AstExpr := .unary .sum (.calBinary .plus x (.const .int ['1']))

/-- `SELECT SUM(a+1), SUM(b+1), SUM(a+1) FROM t GROUP BY b` -/
def sums : Query where
  aggregates := [sumPlusOne columnA, sumPlusOne columnB, sumPlusOne columnA]
  groupBys := [columnB]
  isAggregate := by decide

def textA : AstExpr := .const .string ['a']

/-- `(a=b)=c` -/
def leftChain : AstExpr := .cmpBinary .equal (.cmpBinary .equal columnA columnB) columnC

/-- `a=(b=c)` -/
def rightChain : AstExpr := .cmpBinary .equal columnA (.cmpBinary .equal columnB columnC)

/-- `SELECT SUM(x+1), SUM(y+1) FROM t` -/
def twoSums (x y : AstExpr) : Query where
  aggregates := [sumPlusOne x, sumPlusOne y]
  groupBys := []
  isAggregate := by simp [sumPlusOne, AstExpr.isAggregate]

def integers : AstExpr.Scope := fun _ _ => some .int

def tuple : List Char × List Char → Cell
  | (_, ['a']) => .number 3
  | (_, ['b']) => .number 2
  | _ => .number 0

end ExprNames
