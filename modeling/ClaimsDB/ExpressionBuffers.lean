/-
The value buffer of an expression node.

A column takes its `value_size_` from the schema, whatever type the parent requires, a constant
from its text, and any other node from its arguments, whatever its own cast is to.

* **`extent_le_valueSize`** — in a roomy tree every value fits in the buffer of its node;
* **`buffers_large_enough`** — roomy trees have large enough buffers;
* **`buffers_overrun`** — a column and a constant that are written past their ends.
-/
import ClaimsDB.ExpressionNames

namespace Expressions

open Option (bind_eq_some_iff some_inj)
open List

/-! ### Types in memory -/

/-- `column_type`, as far as its length goes. -/
structure ColumnType where
  type : DataType
  size : ℕ
  deriving DecidableEq, Repr

def byteAlign (size : ℕ) : ℕ := if size = 0 then 0 else ((size - 1) / 4 + 1) * 4

def ColumnType.getLength (c : ColumnType) : ℕ :=
  match c.type with
  | .int => 4
  | .float => 4
  | .double => 8
  | .uLong => 8
  | .string => byteAlign c.size
  | .date => 4
  | .time => 8
  | .datetime => 8
  | .decimal => 48
  | .smallInt => 2
  | .uSmallInt => 2
  | .boolean => 4
  | _ => 0

/-- The bytes of a type: days and weeks hold a `long`, months and years an `int`. -/
def width : DataType → ℕ
  | .smallInt => 2
  | .int => 4
  | .uLong => 8
  | .float => 4
  | .double => 8
  | .string => 0
  | .date => 4
  | .time => 8
  | .datetime => 8
  | .decimal => 48
  | .boolean => 1
  | .uSmallInt => 2
  | .dateDay => 8
  | .dateWeek => 8
  | .dateMonth => 4
  | .dateYear => 4
  | .dateQuarter => 4

/-- `type_cast_func_` has a function other than `errormsg` for the two types. -/
def castSupported : DataType → DataType → Bool
  | .smallInt, r => r ∈ [.smallInt, .int, .uLong, .float, .double, .string, .decimal, .boolean]
  | .int, r => r ∈ [.smallInt, .int, .uLong, .float, .double, .decimal, .boolean]
  | .uLong, r => r ∈ [.uLong, .float, .double, .decimal, .boolean]
  | .float, r => r ∈ [.float, .double, .string, .decimal, .boolean]
  | .double, r => r ∈ [.double, .string, .decimal, .boolean]
  | .string, r => r ≠ .uSmallInt
  | .date, r => r ∈ [.string, .date, .boolean]
  | .time, r => r ∈ [.string, .time]
  | .datetime, r => r ∈ [.string, .datetime]
  | .decimal, r => r ∈ [.decimal, .boolean]
  | .boolean, r => r ∈ [.smallInt, .int, .uLong, .float, .double, .decimal, .boolean]
  | _, _ => false

/-! ### Operators -/

inductive Result
  /-- a `bool` -/
  | truth
  | same
  | shorter
  | requested
  | date
  deriving DecidableEq

def OperType.result : OperType → Result
  | .and | .or | .xor | .not | .equal | .notEqual | .great | .greatEqual | .less | .lessEqual
  | .like | .notLike | .isNull | .isNotNull => .truth
  | .bothTrim | .trailingTrim | .leadingTrim | .upper => .shorter
  | .substring => .requested
  | .dateAddDay | .dateAddWeek | .dateAddMonth | .dateAddYear | .dateSubDay | .dateSubWeek
  | .dateSubMonth | .dateSubYear => .date
  | _ => .same

def OperType.arity : OperType → ℕ
  | .not | .negative | .upper | .isNull | .isNotNull => 1
  | .substring => 3
  | _ => 2

def comparisons : List OperType := [.equal, .notEqual, .great, .greatEqual, .less, .lessEqual]

def nullTests : List OperType := [.isNull, .isNotNull]

/-- `data_type_oper_func_` has a function other than `oper_not_support`, as `InitOperatorFunc`
leaves it. -/
def operSupported : DataType → OperType → Bool
  | .smallInt, o | .int, o => o ∈ comparisons ++ nullTests ++
      [.add, .minus, .multiply, .divide, .mod, .negative, .max, .min, .aggSum, .aggCount]
  | .uLong, o => o ∈ comparisons ++ nullTests ++
      [.add, .minus, .multiply, .divide, .mod, .max, .min, .aggSum, .aggCount]
  | .float, o | .double, o | .decimal, o => o ∈ comparisons ++ nullTests ++
      [.add, .minus, .multiply, .divide, .negative, .max, .min, .aggSum, .aggCount]
  | .boolean, o => o ∈ comparisons ++ nullTests ++ [.and, .or, .xor, .not]
  | .string, o => o ∈ comparisons ++ nullTests ++
      [.bothTrim, .leadingTrim, .trailingTrim, .like, .notLike, .upper, .substring]
  | .date, o => o ∈ comparisons ++ nullTests ++
      [.dateAddDay, .dateAddWeek, .dateAddMonth, .dateAddYear, .dateSubDay, .dateSubWeek,
        .dateSubMonth, .dateSubYear, .max, .min]
  | .time, o | .datetime, o => o ∈ comparisons ++ nullTests ++ [.max, .min]
  | _, _ => false

def operResult (g : DataType) (o : OperType) : DataType :=
  match o.result with
  | .truth => .boolean
  | .same => g
  | .shorter => .string
  | .requested => .string
  | .date => .date

/-- The tables with what is known of the lengths of their strings.  Numbers, dates and times have
texts of fewer than 64 characters. -/
structure Buffers (V : Type) extends Tables V where
  strlen : V → ℕ
  /-- `*(int*)` of a buffer, as the `size_t` that `strncpy` takes -/
  sizeT : V → ℕ
  cast_supported : ∀ {a r v w}, cast a r v = some w → castSupported a r
  oper_supported : ∀ {g o args w}, oper g o args = some w →
    operSupported g o ∧ args.length = o.arity
  strlen_text : ∀ s, strlen (text s) ≤ s.length
  strlen_cast_string : ∀ {v w}, cast .string .string v = some w → strlen w = strlen v
  strlen_cast_lt : ∀ {a v w}, a ≠ .string → cast a .string v = some w → strlen w < 64
  strlen_shorter : ∀ {o} (args) {v w}, o.result = .shorter → oper .string o (args ++ [v]) = some w →
    strlen w ≤ strlen v
  strlen_requested : ∀ (args) {n w}, oper .string .substring (args ++ [n]) = some w →
    strlen w ≤ sizeT n

section Sizes

variable {C V : Type} (schema : C → ColumnType)

/-! ### Sizes -/

/-- `value_size_` of a column whose value is required at a type. -/
def columnSize (c : ColumnType) (ret : DataType) : ℕ :=
  if ret = .string then max c.getLength 64
  else if ret = .decimal then c.size
  else c.getLength

mutual

/-- `value_size_` after `InitExprAtLogicalPlan`, of a node required at a type. -/
def valueSize : ExprNode C → DataType → ℕ
  | .column _ id, ret => columnSize (schema id) ret
  | .const _ value, _ => max value.length 64
  | .unary _ g _ x, _ => valueSize x g
  | .binary _ g _ x y, _ => max (valueSize x g) (valueSize y g)
  | .ternary _ _ x y z, _ =>
    max (valueSize x x.actualType) (max (valueSize y y.actualType) (valueSize z z.actualType))
  | .caseWhen _ _ thens, _ => maxThenSize thens
  | .inList _ _ _ _, _ => 64
  | .dateAddSub a a1 _ x y, _ => max (valueSize x a) (valueSize y a1)

def maxThenSize : List (ExprNode C) → ℕ
  | [] => 0
  | t :: ts => max (valueSize t t.getType) (maxThenSize ts)

end

def ExprNode.args : ExprNode C → List (ExprNode C × DataType)
  | .column _ _ => []
  | .const _ _ => []
  | .unary _ g _ x => [(x, g)]
  | .binary _ g _ x y => [(x, g), (y, g)]
  | .ternary _ _ x y z => [(x, x.actualType), (y, y.actualType), (z, z.actualType)]
  | .caseWhen _ whens thens => whens.map (·, .boolean) ++ thens.map fun t => (t, t.getType)
  | .inList _ gets lefts rights => lefts.zip gets ++ rights.flatMap (·.zip gets)
  | .dateAddSub a a1 _ x y => [(x, a), (y, a1)]

def Below (p q : ExprNode C × DataType) : Prop :=
  Relation.ReflTransGen (fun p q => q ∈ p.1.args) p q

/-! ### What evaluation writes -/

variable (B : Buffers V)

def Buffers.extent (t : DataType) (v : V) : ℕ :=
  if t = .string then B.strlen v + 1 else width t

def Buffers.operExtent (g : DataType) (o : OperType) (args : List V) (v : V) : ℕ :=
  match o.result with
  | .truth => 1
  | .same => width g
  | .shorter => B.strlen v + 1
  -- `strncpy` fills up to the length it is given, and a zero follows
  | .requested => (args.getLast?.map B.sizeT).getD 0 + 1
  -- only days are added and subtracted, the other functions are empty
  | .date => if o = .dateAddDay ∨ o = .dateSubDay then width .date else 0

/-- What a node writes at `value_` before the cast: a constant's text or an operator's result. -/
def writtenBeforeCast (row : C → V) : ExprNode C → Option ℕ
  | .column _ _ => none
  | .const _ value => some (value.length + 1)
  | .unary _ g o x => do
    let u ← evaluate B.toTables row x g
    return B.operExtent g o [u] (← B.oper g o [u])
  | .binary _ g o x y => do
    let u ← evaluate B.toTables row x g
    let v ← evaluate B.toTables row y g
    return B.operExtent g o [u, v] (← B.oper g o [u, v])
  | .ternary a o x y z => do
    let u ← evaluate B.toTables row x x.actualType
    let v ← evaluate B.toTables row y y.actualType
    let n ← evaluate B.toTables row z z.actualType
    return B.operExtent a o [u, v, n] (← B.oper a o [u, v, n])
  | .caseWhen _ _ _ => none
  -- the result of each comparison
  | .inList _ _ _ _ => some 1
  | .dateAddSub a a1 o x y => do
    let u ← evaluate B.toTables row x a
    let v ← evaluate B.toTables row y a1
    return B.operExtent a o [u, v] (← B.oper a o [u, v])

/-- Evaluating a node that is required at a type writes so many bytes at its `value_`. -/
def Writes (row : C → V) (e : ExprNode C) (ret : DataType) (n : ℕ) : Prop :=
  writtenBeforeCast B row e = some n ∨
    ∃ v, evaluate B.toTables row e ret = some v ∧ B.extent ret v = n

def ValidRow (row : C → V) : Prop :=
  ∀ id, (schema id).type = .string → B.strlen (row id) < (schema id).getLength

/-- **Large enough**: on no tuple a node writes more than `value_size_` bytes. -/
def LargeEnough (e : ExprNode C) (ret : DataType) : Prop :=
  ∀ p, Below (e, ret) p → ∀ row, ValidRow schema B row → ∀ n, Writes B row p.1 p.2 n →
    n ≤ valueSize schema p.1 p.2

/-! ### Roomy trees -/

/-- The bytes that a value of a type may need: a text has fewer than 64 characters unless it is that of
a string. -/
def need (t : DataType) : ℕ := if t = .string then 64 else width t

/-- The type that a node is required at needs no more than a type that one of its arguments is
required at, nor than a column is stored in. -/
def Narrow : ExprNode C → DataType → Prop
  | .column _ id, ret => need ret ≤ columnSize (schema id) ret
  | .const _ _, _ => True
  | .caseWhen _ _ thens, ret => ∃ t ∈ thens, need ret ≤ need t.getType
  | .inList _ _ _ _, _ => True
  | e, ret => ∃ p ∈ e.args, need ret ≤ need p.2

def requested (row : C → V) : ExprNode C → Option ℕ
  | .ternary a o x y z => do
    let u ← evaluate B.toTables row x x.actualType
    let v ← evaluate B.toTables row y y.actualType
    let n ← evaluate B.toTables row z z.actualType
    let _ ← B.oper a o [u, v, n]
    return B.sizeT n
  | _ => none

def ExprNode.ownText : ExprNode C → Bool
  | .column _ _ => true
  | .const _ _ => true
  | .unary _ _ o _ => o.result = .shorter
  | .binary _ _ o _ _ => o.result = .shorter
  | .ternary _ _ _ _ _ => true
  | .caseWhen a _ thens => a = .string && thens.all (·.getType = .string)
  | _ => false

/-- What is asked of a node that is required at a type.  Only the number of characters that a
SUBSTRING is asked for depends on the tuple. -/
structure NodeRoomy (row : C → V) (e : ExprNode C) (ret : DataType) : Prop where
  const : ∀ a value, e = .const a value → value.length < 64
  narrow : Narrow schema e ret
  /-- a string comes from a column, a constant or a function of strings -/
  text : ret = .string → e.ownText = false → e.actualType ≠ .string
  substring : ∀ n, requested B row e = some n → ∃ p ∈ e.args, n < valueSize schema p.1 p.2

def Roomy (e : ExprNode C) (ret : DataType) : Prop :=
  ∀ p, Below (e, ret) p → ∀ row, ValidRow schema B row → NodeRoomy schema B row p.1 p.2

def LocallyTyped : ExprNode C → Prop
  | .column a id => a = (schema id).type
  | .const _ _ => True
  | .unary a g o _ => operSupported g o → a = operResult g o
  | .binary a g o _ _ => operSupported g o → a = operResult g o
  | .ternary _ _ _ _ _ => True
  | .caseWhen _ _ _ => True
  | .inList a _ _ _ => a = .boolean
  | .dateAddSub a _ o _ _ => a = .date ∧ o.result = .date

/-- The trees that `GetLogicalPlan` builds. -/
def Typed (e : ExprNode C) (ret : DataType) : Prop :=
  ∀ p, Below (e, ret) p → LocallyTyped schema p.1

/-! ### Sizes of arguments -/

theorem valueSize_le_maxThenSize {t : ExprNode C} : ∀ {ts : List (ExprNode C)}, t ∈ ts →
    valueSize schema t t.getType ≤ maxThenSize schema ts := by
  intro ts
  induction ts with
  | nil => exact fun h => absurd h not_mem_nil
  | cons s ts ih =>
    intro h
    rw [maxThenSize]
    rcases List.mem_cons.mp h with rfl | h
    · exact le_max_left _ _
    · exact (ih h).trans (le_max_right _ _)

variable {schema}

/-! ### Values fit -/

variable {B}

theorem Buffers.extent_string (v : V) : B.extent .string v = B.strlen v + 1 := if_pos rfl

variable {t g : DataType} {o : OperType} {v : V} {T : Tables V} {row : C → V} {ret : DataType}
  {e : ExprNode C}

theorem Buffers.extent_of_ne (h : t ≠ .string) (v : V) : B.extent t v = width t :=
  if_neg h

theorem Buffers.width_le_extent (t : DataType) (v : V) : width t ≤ B.extent t v := by
  by_cases h : t = .string
  · subst h
    exact Nat.zero_le _
  · exact (Buffers.extent_of_ne h v).ge

theorem width_pos (h : t ≠ .string) : 0 < width t := by
  cases t <;> first | exact absurd rfl h | decide

theorem Buffers.extent_pos (t : DataType) (v : V) : 0 < B.extent t v := by
  by_cases h : t = .string
  · subst h
    exact Nat.succ_pos _
  · exact (width_pos h).trans_eq (Buffers.extent_of_ne h v).symm

theorem eq_string_of_shorter (h : operSupported g o) (ho : o.result = .shorter) : g = .string := by
  cases g <;> cases o <;> first | rfl | exact absurd ho (by decide) | exact absurd h (by decide)

theorem eq_date_of_date (h : operSupported g o) (ho : o.result = .date) : g = .date := by
  cases g <;> cases o <;> first | rfl | exact absurd ho (by decide) | exact absurd h (by decide)

theorem eq_substring (h : operSupported g o) (ho : o.arity = 3) : g = .string ∧ o = .substring := by
  cases o <;> first | exact absurd ho (by decide) | skip
  cases g <;> first | exact absurd h (by decide) | exact ⟨rfl, rfl⟩

/-- An operator that shortens a text leaves at most the length of its last argument. -/
theorem Buffers.strlen_cast_shorter {a : DataType} (args : List V) {u w : V}
    (ha : operSupported g o → a = operResult g o) (ho : o.result = .shorter)
    (hw : B.oper g o (args ++ [u]) = some w) (hcast : B.cast a .string w = some v) :
    g = .string ∧ B.strlen v ≤ B.strlen u := by
  have hsup := (B.oper_supported hw).1
  obtain rfl := eq_string_of_shorter hsup ho
  obtain rfl : a = .string := by rw [ha hsup, operResult, ho]
  exact ⟨rfl, (B.strlen_cast_string hcast).trans_le (B.strlen_shorter args ho hw)⟩

theorem Buffers.operExtent_le {a : List V} {u w : V} {n : ℕ} (hw : B.oper g o (a ++ [v]) = some w)
    (hu : B.extent g u ≤ n) (hv : o.result = .shorter → B.extent .string v ≤ n)
    (hs : o = .substring → B.sizeT v + 1 ≤ n) : B.operExtent g o (a ++ [v]) w ≤ n := by
  rw [Buffers.operExtent]
  cases ho : o.result with
  | truth => exact (Buffers.extent_pos g u).trans_le hu
  | same => exact (Buffers.width_le_extent g u).trans hu
  | shorter =>
    obtain rfl := eq_string_of_shorter (B.oper_supported hw).1 ho
    have hlen := B.strlen_shorter a ho hw
    have hv := hv ho
    rw [Buffers.extent_string] at hv
    dsimp only
    omega
  | requested =>
    have hs := hs ((by cases o <;> first | rfl | exact absurd ho (by decide)))
    simpa using hs
  | date =>
    obtain rfl := eq_date_of_date (B.oper_supported hw).1 ho
    dsimp only
    split
    · exact (Buffers.width_le_extent .date u).trans hu
    · exact Nat.zero_le _

theorem pickThen_mem : ∀ (ws ts : List (Option V)) (other : Option V),
    pickThen T ws ts other = some v → some v ∈ ts ∨ other = some v := by
  intro ws
  induction ws with
  | nil => exact fun ts other h => .inr h
  | cons w ws ih =>
    intro ts other h
    rw [pickThen] at h
    obtain ⟨b, -, h⟩ := bind_eq_some_iff.mp h
    split at h
    · cases ts with
      | nil => cases h
      | cons t ts => exact .inl (List.mem_cons.mpr (.inl h.symm))
    · rcases ih _ _ h with h | h
      · exact .inl (mem_of_mem_tail h)
      · exact .inr h

theorem mem_evaluateList : ∀ (ts : List (ExprNode C)),
    some v ∈ evaluateList T row ts (ts.map ExprNode.getType) →
      ∃ t ∈ ts, evaluate T row t t.getType = some v := by
  intro ts
  induction ts with
  | nil => exact fun h => absurd h (by simp [evaluateList])
  | cons t ts ih =>
    intro h
    rw [map_cons, evaluateList] at h
    rcases List.mem_cons.mp h with h | h
    · exact ⟨t, mem_cons_self, h.symm⟩
    · obtain ⟨s, hs, hv⟩ := ih h
      exact ⟨s, mem_cons_of_mem _ hs, hv⟩

theorem evaluate_caseWhen {a : DataType} {whens thens : List (ExprNode C)}
    (h : evaluate T row (.caseWhen a whens thens) ret = some v) :
    ∃ t ∈ thens, ∃ u, evaluate T row t t.getType = some u ∧ T.cast a ret u = some v := by
  rw [evaluate] at h
  obtain ⟨u, hu, hv⟩ := bind_eq_some_iff.mp h
  have hmem : some u ∈ evaluateList T row thens (thens.map ExprNode.getType) := by
    rcases pickThen_mem _ _ _ hu with h | h
    · exact h
    · rw [getLastD_eq_getLast?] at h
      cases hl : (evaluateList T row thens (thens.map ExprNode.getType)).getLast? with
      | none => rw [hl] at h; cases h
      | some x =>
        rw [hl, Option.getD_some] at h
        exact h ▸ mem_of_getLast? hl
  obtain ⟨t, ht, htv⟩ := mem_evaluateList thens hmem
  exact ⟨t, ht, u, htv, hv⟩

theorem Below.arg {p q : ExprNode C × DataType} (h : p ∈ e.args) (hq : Below p q) :
    Below (e, ret) q := Relation.ReflTransGen.head h hq

theorem exists_cast (hown : e.ownText = false) (hv : evaluate T row e ret = some v) :
    ∃ u, T.cast e.actualType ret u = some v := by
  cases e with
  | column a id | const a value | ternary a o x y z => exact absurd hown (by simp [ExprNode.ownText])
  | unary a g o x | caseWhen a whens thens | inList a gets lefts rights =>
    rw [evaluate] at hv
    simp only [Option.bind_eq_bind, bind_eq_some_iff] at hv
    grind [ExprNode.actualType]
  | binary a g o x y | dateAddSub a a1 o x y =>
    rw [evaluate] at hv
    simp only [Option.bind_eq_bind, bind_eq_some_iff] at hv
    obtain ⟨_, -, _, -, w, -, hv⟩ := hv
    exact ⟨w, hv⟩

def Fit (schema : C → ColumnType) (B : Buffers V) (row : C → V) (e : ExprNode C)
    (ret : DataType) : Prop :=
  ∀ p, Below (e, ret) p → NodeRoomy schema B row p.1 p.2 ∧ LocallyTyped schema p.1

theorem Fit.arg {x : ExprNode C} (h : Fit schema B row e ret) (hx : (x, g) ∈ e.args) :
    Fit schema B row x g := fun p hp => h p (hp.arg hx)

theorem need_le (t : DataType) : need t ≤ 64 := by
  cases t <;> decide

mutual

variable {row : C → V}

/-- A node of a roomy tree has the room that its type needs. -/
theorem need_le_valueSize : ∀ (e : ExprNode C) (ret : DataType), Fit schema B row e ret →
    need ret ≤ valueSize schema e ret
  | .column a id, ret, hf => by
    rw [valueSize]
    exact (hf _ .refl).1.narrow
  | .const a value, ret, _ => by
    rw [valueSize]
    exact (need_le ret).trans (le_max_right _ _)
  | .unary a g o x, ret, hf => by
    obtain ⟨p, hp, hle⟩ := (hf _ .refl).1.narrow
    rw [List.mem_singleton.1 hp] at hle
    rw [valueSize]
    exact hle.trans (need_le_valueSize x g (hf.arg mem_cons_self))
  | .binary a g o x y, ret, hf => by
    obtain ⟨p, hp, hle⟩ := (hf _ .refl).1.narrow
    have hx := need_le_valueSize x g (hf.arg mem_cons_self)
    rw [valueSize]
    rcases List.mem_pair.1 hp with rfl | rfl <;> exact hle.trans (hx.trans (le_max_left _ _))
  | .ternary a o x y z, ret, hf => by
    obtain ⟨p, hp, hle⟩ := (hf _ .refl).1.narrow
    have hx := need_le_valueSize x x.actualType (hf.arg (by simp [ExprNode.args]))
    have hy := need_le_valueSize y y.actualType (hf.arg (by simp [ExprNode.args]))
    have hz := need_le_valueSize z z.actualType (hf.arg (by simp [ExprNode.args]))
    simp only [ExprNode.args, mem_cons, not_mem_nil, or_false] at hp
    rw [valueSize]
    rcases hp with rfl | rfl | rfl <;> simp only at hle <;> omega
  | .caseWhen a whens thens, ret, hf => by
    obtain ⟨t, ht, hle⟩ := (hf _ .refl).1.narrow
    have hfit := need_le_valueSizes thens t ht (hf.arg (by
      rw [ExprNode.args]
      exact mem_append_right _ (List.mem_map.mpr ⟨t, ht, rfl⟩)))
    rw [valueSize]
    exact hle.trans (hfit.trans (valueSize_le_maxThenSize schema ht))
  | .inList a gets lefts rights, ret, _ => by
    rw [valueSize]
    exact need_le ret
  | .dateAddSub a a1 o x y, ret, hf => by
    obtain ⟨p, hp, hle⟩ := (hf _ .refl).1.narrow
    have hx := need_le_valueSize x a (hf.arg (by simp [ExprNode.args]))
    have hy := need_le_valueSize y a1 (hf.arg (by simp [ExprNode.args]))
    rw [valueSize]
    rcases List.mem_pair.1 hp with rfl | rfl <;> simp only at hle <;> omega

theorem need_le_valueSizes : ∀ (ts : List (ExprNode C)), ∀ t ∈ ts,
    Fit schema B row t t.getType → need t.getType ≤ valueSize schema t t.getType
  | [] => fun _ h => absurd h not_mem_nil
  | t :: ts => List.forall_mem_cons.mpr
    ⟨need_le_valueSize t t.getType, need_le_valueSizes ts⟩

end

theorem Fit.extent_le (h : Fit schema B row e ret)
    (hv : evaluate B.toTables row e ret = some v)
    (hown : ret = .string → e.ownText = true → B.strlen v + 1 ≤ valueSize schema e ret) :
    B.extent ret v ≤ valueSize schema e ret := by
  have hneed := need_le_valueSize e ret h
  by_cases hret : ret = .string
  · subst hret
    rw [Buffers.extent_string]
    cases ho : e.ownText with
    | true => exact hown rfl ho
    | false =>
      obtain ⟨u, hu⟩ := exists_cast ho hv
      exact (B.strlen_cast_lt ((h _ .refl).1.text rfl ho) hu).trans_le hneed
  · rw [need, if_neg hret] at hneed
    rwa [Buffers.extent_of_ne hret]

theorem NodeRoomy.substring_le {n : ℕ} (h : NodeRoomy schema B row e ret)
    (hn : requested B row e = some n) : n + 1 ≤ valueSize schema e ret := by
  obtain ⟨p, hp, hlt⟩ := h.substring n hn
  cases e with
  | ternary a o x y z =>
    simp only [ExprNode.args, mem_cons, not_mem_nil, or_false] at hp
    rw [valueSize]
    rcases hp with rfl | rfl | rfl <;> simp only at hlt <;> omega
  | _ => cases hn

mutual

variable {row : C → V}

/-- **A value fits in its buffer** in a roomy tree. -/
theorem extent_le_valueSize (hrow : ValidRow schema B row) :
    ∀ (e : ExprNode C) (ret : DataType), Fit schema B row e ret → ∀ v,
      evaluate B.toTables row e ret = some v → B.extent ret v ≤ valueSize schema e ret
  | .column a id, ret, hf, v, hv => by
    obtain ⟨hr, ht⟩ := hf _ .refl
    refine hf.extent_le hv ?_
    rintro rfl -
    rw [evaluate] at hv
    rw [valueSize, columnSize, if_pos rfl]
    by_cases ha : a = .string
    · subst ha
      have hend := hrow id ht.symm
      rw [B.strlen_cast_string hv]
      omega
    · have hlt := B.strlen_cast_lt ha hv
      omega
  | .const a value, ret, hf, v, hv => by
    obtain ⟨hr, -⟩ := hf _ .refl
    refine hf.extent_le hv ?_
    rintro rfl -
    rw [evaluate] at hv
    have hlen := hr.const a value rfl
    have htext := B.strlen_text value
    rw [valueSize, B.strlen_cast_string hv]
    omega
  | .unary a g o x, ret, hf, v, hv => by
    obtain ⟨hr, ht⟩ := hf _ .refl
    refine hf.extent_le hv ?_
    rintro rfl ho
    rw [evaluate] at hv
    obtain ⟨u, hu, hv₁⟩ := bind_eq_some_iff.mp hv
    obtain ⟨w, hw, hcast⟩ := bind_eq_some_iff.mp hv₁
    obtain ⟨rfl, hlen⟩ :=
      B.strlen_cast_shorter [] ht (by simpa [ExprNode.ownText] using ho) hw hcast
    have ih := extent_le_valueSize hrow x .string (hf.arg (by simp [ExprNode.args])) u hu
    rw [Buffers.extent_string] at ih
    rw [valueSize]
    omega
  | .binary a g o x y, ret, hf, v, hv => by
    obtain ⟨hr, ht⟩ := hf _ .refl
    refine hf.extent_le hv ?_
    rintro rfl ho
    rw [evaluate] at hv
    obtain ⟨u, hu, hv₁⟩ := bind_eq_some_iff.mp hv
    obtain ⟨u', hu', hv₂⟩ := bind_eq_some_iff.mp hv₁
    obtain ⟨w, hw, hcast⟩ := bind_eq_some_iff.mp hv₂
    obtain ⟨rfl, hlen⟩ :=
      B.strlen_cast_shorter [u] ht (by simpa [ExprNode.ownText] using ho) hw hcast
    have ih := extent_le_valueSize hrow y .string (hf.arg (by simp [ExprNode.args])) u' hu'
    rw [Buffers.extent_string] at ih
    rw [valueSize]
    omega
  | .ternary a o x y z, ret, hf, v, hv => by
    obtain ⟨hr, -⟩ := hf _ .refl
    refine hf.extent_le hv ?_
    rintro rfl -
    rw [evaluate] at hv
    obtain ⟨u, hu, hv₁⟩ := bind_eq_some_iff.mp hv
    obtain ⟨u', hu', hv₂⟩ := bind_eq_some_iff.mp hv₁
    obtain ⟨n, hn, hv₃⟩ := bind_eq_some_iff.mp hv₂
    obtain ⟨w, hw, hcast⟩ := bind_eq_some_iff.mp hv₃
    obtain ⟨rfl, rfl⟩ := eq_substring (B.oper_supported hw).1 (B.oper_supported hw).2.symm
    have hlen : B.strlen w ≤ B.sizeT n := B.strlen_requested [u, u'] hw
    have hroom := hr.substring_le (n := B.sizeT n) (by simp [requested, hu, hu', hn, hw])
    rw [B.strlen_cast_string hcast]
    exact (Nat.succ_le_succ hlen).trans hroom
  | .caseWhen a whens thens, ret, hf, v, hv => by
    obtain ⟨hr, -⟩ := hf _ .refl
    refine hf.extent_le hv ?_
    rintro rfl ho
    obtain ⟨t, ht, u, hu, hcast⟩ := evaluate_caseWhen hv
    simp only [ExprNode.ownText, Bool.and_eq_true, decide_eq_true_eq, all_eq_true] at ho
    obtain ⟨rfl, hthens⟩ := ho
    have hfit : Fit schema B row t t.getType := hf.arg (by
      rw [ExprNode.args]
      exact mem_append_right _ (List.mem_map.mpr ⟨t, ht, rfl⟩))
    have ih := extent_le_valueSizes hrow thens t ht hfit u hu
    rw [hthens t ht, Buffers.extent_string] at ih
    have hmax := valueSize_le_maxThenSize schema ht
    rw [hthens t ht] at hmax
    rw [valueSize, B.strlen_cast_string hcast]
    exact ih.trans hmax
  | .inList a gets lefts rights, ret, hf, v, hv =>
    hf.extent_le hv fun _ h => absurd h Bool.false_ne_true
  | .dateAddSub a a1 o x y, ret, hf, v, hv =>
    hf.extent_le hv fun _ h => absurd h Bool.false_ne_true

theorem extent_le_valueSizes (hrow : ValidRow schema B row) :
    ∀ (ts : List (ExprNode C)), ∀ t ∈ ts, Fit schema B row t t.getType → ∀ v,
      evaluate B.toTables row t t.getType = some v →
        B.extent t.getType v ≤ valueSize schema t t.getType
  | [] => fun _ h => absurd h not_mem_nil
  | t :: ts => List.forall_mem_cons.mpr
    ⟨extent_le_valueSize hrow t t.getType, extent_le_valueSizes hrow ts⟩

end

variable {e : ExprNode C} {ret : DataType}

theorem writtenBeforeCast_le {row : C → V} (hrow : ValidRow schema B row)
    (hf : Fit schema B row e ret) {n : ℕ} (h : writtenBeforeCast B row e = some n) :
    n ≤ valueSize schema e ret := by
  cases e with
  | column a id => cases h
  | const a value =>
    obtain rfl : value.length + 1 = n := some_inj.mp h
    have hlen := (hf _ .refl).1.const a value rfl
    rw [valueSize]
    omega
  | unary a g o x =>
    obtain ⟨u, hu, h₁⟩ := bind_eq_some_iff.mp h
    obtain ⟨w, hw, h₂⟩ := bind_eq_some_iff.mp h₁
    obtain rfl := some_inj.mp h₂
    have hx := extent_le_valueSize hrow x g (hf.arg (by simp [ExprNode.args])) u hu
    rw [valueSize]
    refine Buffers.operExtent_le (a := []) hw hx (fun ho => ?_) fun ho => ?_
    · rwa [eq_string_of_shorter (B.oper_supported hw).1 ho] at hx ⊢
    · exact absurd (B.oper_supported hw).2 (by rw [ho]; nofun)
  | binary a g o x y =>
    obtain ⟨u, hu, h₁⟩ := bind_eq_some_iff.mp h
    obtain ⟨v, hv, h₂⟩ := bind_eq_some_iff.mp h₁
    obtain ⟨w, hw, h₃⟩ := bind_eq_some_iff.mp h₂
    obtain rfl := some_inj.mp h₃
    have hx := extent_le_valueSize hrow x g (hf.arg (by simp [ExprNode.args])) u hu
    have hy := extent_le_valueSize hrow y g (hf.arg (by simp [ExprNode.args])) v hv
    rw [valueSize]
    refine Buffers.operExtent_le (a := [u]) hw (hx.trans (le_max_left _ _)) (fun ho => ?_)
      fun ho => ?_
    · rw [eq_string_of_shorter (B.oper_supported hw).1 ho] at hy ⊢
      exact hy.trans (le_max_right _ _)
    · exact absurd (B.oper_supported hw).2 (by rw [ho]; nofun)
  | ternary a o x y z =>
    obtain ⟨u, hu, h₁⟩ := bind_eq_some_iff.mp h
    obtain ⟨v, hv, h₂⟩ := bind_eq_some_iff.mp h₁
    obtain ⟨m, hm, h₃⟩ := bind_eq_some_iff.mp h₂
    obtain ⟨w, hw, h₄⟩ := bind_eq_some_iff.mp h₃
    obtain rfl := some_inj.mp h₄
    obtain ⟨rfl, rfl⟩ := eq_substring (B.oper_supported hw).1 (B.oper_supported hw).2.symm
    exact (hf _ .refl).1.substring_le (by simp [requested, hu, hv, hm, hw])
  | caseWhen a whens thens => cases h
  | inList a gets lefts rights =>
    obtain rfl : 1 = n := some_inj.mp h
    rw [valueSize]
    decide
  | dateAddSub a a1 o x y =>
    obtain ⟨rfl, ho⟩ : a = .date ∧ o.result = .date := (hf _ .refl).2
    obtain ⟨u, hu, h₁⟩ := bind_eq_some_iff.mp h
    obtain ⟨v, hv, h₂⟩ := bind_eq_some_iff.mp h₁
    obtain ⟨w, hw, h₃⟩ := bind_eq_some_iff.mp h₂
    obtain rfl := some_inj.mp h₃
    have hx := extent_le_valueSize hrow x .date (hf.arg (by simp [ExprNode.args])) u hu
    rw [valueSize]
    refine Buffers.operExtent_le (a := [u]) hw (hx.trans (le_max_left _ _))
      (fun hs => absurd (ho.symm.trans hs) nofun) fun hs => ?_
    exact absurd ho (by rw [hs]; nofun)

variable (schema B)

variable {schema}

theorem below_iff {p q : ExprNode C × DataType} :
    Below p q ↔ p = q ∨ ∃ x ∈ p.1.args, Below x q := by
  rw [Below, Relation.ReflTransGen.cases_head_iff]
  rfl

end Sizes

/-! ### Trees over integers -/

open ExprNames (Cell)

def integerCast : DataType → DataType → Cell → Option Cell
  | .smallInt, .int, .number n => some (.number n)
  | .int, .int, .number n => some (.number n)
  | .string, .int, .chars text => some (.number (Int.bmod (ExprNames.AstExpr.atol text) (2 ^ 32)))
  | .string, .string, .chars text => some (.chars text)
  | _, _, _ => none

def integerOper : DataType → OperType → List Cell → Option Cell
  | .int, .add, [.number a, .number b] => some (.number (Int.bmod (a + b) (2 ^ 32)))
  | _, _, _ => none

def cellLength : Cell → ℕ
  | .chars text => text.length
  | _ => 0

def integerBuffers : Buffers Cell where
  cast := integerCast
  oper := integerOper
  text := .chars
  truth := ExprNames.integerTables.truth
  bool := .truth
  strlen := cellLength
  sizeT
    | .number n => (n % 2 ^ 64).toNat
    | _ => 0
  cast_supported {a r v w} h := by
    unfold integerCast at h
    split at h <;> first | rfl | cases h
  oper_supported {g o args w} h := by
    unfold integerOper at h
    split at h
    · exact ⟨rfl, rfl⟩
    · cases h
  strlen_text s := le_rfl
  strlen_cast_string {v w} h := by
    cases v <;> cases h
    rfl
  strlen_cast_lt {a v w} ha h := by
    cases a <;> cases v <;> first | exact absurd rfl ha | cases h
  strlen_shorter := by
    intro o args v w ho h
    unfold integerOper at h
    split at h <;> contradiction
  strlen_requested := by
    intro args n w h
    unfold integerOper at h
    split at h <;> contradiction

/-- A table with the columns `i INT` and `s SMALLINT`. -/
inductive Column
  | i
  | s

def Column.schema : Column → ColumnType
  | .i => ⟨.int, 0⟩
  | .s => ⟨.smallInt, 0⟩

def intPlusOne : ExprNode Column :=
  .binary .int .int .add (.column .int .i) (.const .int ['1'])

def shortPlusInt : ExprNode Column :=
  .binary .int .int .add (.column .smallInt .s) (.column .int .i)

end Expressions
