/-
Comparing numbers of different types.  A negative number becomes a large one as an `unsigned long`,
the cast of an `unsigned long` to a decimal reads its bytes as text, and the cast of a decimal to a
boolean is true for zero.

* **`cast_keeps`** — a cast to a type that absorbs the value's own keeps the number;
* **`keeps_of_cast`** — and not if a negative number becomes an `unsigned long`;
* **`mixed_comparison_of_numbers_iff`** — when the comparison is that of the numbers;
* **`minus_one_greater_than_five`** — where it is not.
-/
import ClaimsDB.DecimalText
import ClaimsDB.Expressions

namespace NumericCasts

open Expressions (DataType typeConversionMatrix)
open Loader (Text showInt toDecimal)
open Columns (strtoDecimal decimalToString)

/-- A value; a decimal is the word of its `TTInt`, in units of `10 ^ -30`. -/
inductive Value
  | smallInt (v : Int16)
  | int (v : Int32)
  | uLong (v : UInt64)
  | decimal (word : ℤ)
  | boolean (v : Bool)
  deriving DecidableEq

def Value.type : Value → DataType
  | .smallInt _ => .smallInt
  | .int _ => .int
  | .uLong _ => .uLong
  | .decimal _ => .decimal
  | .boolean _ => .boolean

def Value.number : Value → ℚ
  | .smallInt v => v.toInt
  | .int v => v.toInt
  | .uLong v => v.toNat
  | .decimal word => word / 10 ^ 30
  | .boolean v => v.toNat

/-- `Decimal(DECIMAL_PSUBS, 0, text)` -/
def toDecimalValue (t : Text) : Run Value := do return .decimal (← strtoDecimal 42 0 t)

/-- The memory of a number as a C string. -/
def textAt (v : UInt64) : Text := (Codec.leBytes 8 v.toNat).takeWhile (· ≠ 0)

/-- The entry of `type_cast_func_` for the type of the value; the missing ones fail. -/
def cast : Value → DataType → Run Value
  | .smallInt v, .smallInt => .ok (.smallInt v)
  | .smallInt v, .int => .ok (.int v.toInt32)
  | .smallInt v, .uLong => .ok (.uLong (.ofNat (v.toInt % 2 ^ 64).toNat))
  | .smallInt v, .decimal => toDecimalValue (showInt v.toInt)
  | .smallInt v, .boolean => .ok (.boolean (v ≠ 0))
  | .int v, .smallInt => .ok (.smallInt v.toInt16)
  | .int v, .int => .ok (.int v)
  | .int v, .uLong => .ok (.uLong (.ofNat (v.toInt % 2 ^ 64).toNat))
  | .int v, .decimal => toDecimalValue (showInt v.toInt)
  | .int v, .boolean => .ok (.boolean (v ≠ 0))
  | .uLong v, .uLong => .ok (.uLong v)
  | .uLong v, .decimal => toDecimalValue (textAt v)
  | .uLong v, .boolean => .ok (.boolean (v ≠ 0))
  | .decimal word, .decimal => .ok (.decimal word)
  | .decimal word, .boolean => .ok (.boolean (word = 0))
  | .boolean v, .smallInt => .ok (.smallInt (.ofInt v.toNat))
  | .boolean v, .int => .ok (.int (.ofInt v.toNat))
  | .boolean v, .uLong => .ok (.uLong (.ofNat v.toNat))
  | .boolean v, .decimal => toDecimalValue (showInt v.toNat)
  | .boolean v, .boolean => .ok (.boolean v)
  | _, _ => .error .assertFailed

inductive Comparison
  | equal
  | less
  | lessEqual
  | great
  | greatEqual
  deriving DecidableEq

def Comparison.holds {α : Type} [LinearOrder α] : Comparison → α → α → Bool
  | .equal, a, b => a = b
  | .less, a, b => a < b
  | .lessEqual, a, b => a ≤ b
  | .great, a, b => b < a
  | .greatEqual, a, b => b ≤ a

/-- The operator of `data_type_oper_func_` for two values of one type. -/
def oper (c : Comparison) : Value → Value → Run Bool
  | .smallInt v, .smallInt w => .ok (c.holds v.toInt w.toInt)
  | .int v, .int w => .ok (c.holds v.toInt w.toInt)
  | .uLong v, .uLong w => .ok (c.holds v.toNat w.toNat)
  | .decimal v, .decimal w => .ok (c.holds v w)
  | .boolean v, .boolean w => .ok (c.holds v.toNat w.toNat)
  | _, _ => .error .assertFailed

/-- A comparison as `AstExprCmpBinary::GetLogicalPlan` and `ExprBinary::ExprEvaluate` do it. -/
def compare (c : Comparison) (v w : Value) : Run Bool :=
  match typeConversionMatrix v.type w.type with
  | none => .error .assertFailed
  | some get => do oper c (← cast v get) (← cast w get)

/-- No negative number becomes an `unsigned long`. -/
def Keeps (v : Value) (get : DataType) : Prop := get = .uLong → 0 ≤ v.number

/-- The bytes of the number are not read as text. -/
def NotAsText (v : Value) (get : DataType) : Prop := get = .decimal → v.type ≠ .uLong

theorem toDecimalValue_showInt {n : ℤ} (h : n.natAbs < 10 ^ 42) :
    toDecimalValue (showInt n) = .ok (.decimal (n * 10 ^ 30)) := by
  have habs : (n * 10 ^ 30).natAbs / 10 ^ 30 = n.natAbs := by
    rw [Int.natAbs_mul, show ((10 : ℤ) ^ 30).natAbs = 10 ^ 30 by decide,
      Nat.mul_div_cancel _ (by norm_num)]
  have hdigits : Columns.integerDigits (n * 10 ^ 30) ≤ 42 := by
    rw [Columns.integerDigits, habs]
    exact (Loader.length_toDecimal_le_iff (by norm_num)).2 h
  have hprinted : decimalToString 0 (n * 10 ^ 30) = .ok (showInt n) := by
    obtain ⟨F, hF, -⟩ := Columns.exists_decimalToString (show 0 ≤ 30 by omega) (n * 10 ^ 30)
    rw [hF, habs, showInt]
    by_cases hn : n < 0
    · rw [if_pos hn, if_pos (by omega)]
      simp
    · rw [if_neg hn, if_neg (by omega)]
      simp
  have hcut : (n * 10 ^ 30).tdiv (10 ^ (30 - 0)) * 10 ^ (30 - 0) = n * 10 ^ 30 :=
    Int.tdiv_mul_cancel (dvd_mul_left _ n)
  rw [toDecimalValue, Columns.strtoDecimal_printed (by omega) 42 hprinted, if_neg (by omega),
    if_neg (by omega), if_pos hdigits, hcut]
  rfl

theorem toNat_ofNat_emod {n : ℤ} (h0 : 0 ≤ n) (h : n < 2 ^ 63) :
    ((UInt64.ofNat (n % 2 ^ 64).toNat).toNat : ℚ) = n := by
  have hcast : ((UInt64.ofNat (n % 2 ^ 64).toNat).toNat : ℤ) = n := by
    rw [UInt64.toNat_ofNat']
    omega
  exact_mod_cast congrArg (Int.cast (R := ℚ)) hcast

/-- **A cast to a type that absorbs its own** keeps the number. -/
theorem cast_keeps {v : Value} {get : DataType} (hget : typeConversionMatrix v.type get = some get)
    (hnum : get ∈ [DataType.smallInt, .int, .uLong, .decimal, .boolean]) (h : Keeps v get)
    (htext : NotAsText v get) :
    ∃ v', cast v get = .ok v' ∧ v'.type = get ∧ v'.number = v.number := by
  have hword : ∀ n : ℤ, n.natAbs < 10 ^ 42 → ∃ v', toDecimalValue (showInt n) = .ok v' ∧
      v'.type = .decimal ∧ v'.number = n := by
    intro n hn
    refine ⟨_, toDecimalValue_showInt hn, rfl, ?_⟩
    rw [Value.number, Int.cast_mul, Int.cast_pow, Int.cast_ofNat]
    exact mul_div_cancel_right₀ _ (by norm_num)
  simp only [List.mem_cons, List.not_mem_nil, or_false] at hnum
  obtain rfl | rfl | rfl | rfl | rfl := hnum
  · cases v with
    | smallInt v => exact ⟨_, rfl, rfl, rfl⟩
    | boolean v => exact ⟨_, rfl, rfl, by cases v <;> rfl⟩
    | _ => cases hget
  · cases v with
    | smallInt v => exact ⟨_, rfl, rfl, congrArg Int.cast v.toInt_toInt32⟩
    | int v => exact ⟨_, rfl, rfl, rfl⟩
    | boolean v => exact ⟨_, rfl, rfl, by cases v <;> rfl⟩
    | _ => cases hget
  · cases v with
    | smallInt v | int v =>
      have hlt := v.toInt_lt
      exact ⟨_, rfl, rfl, toNat_ofNat_emod (Int.cast_nonneg_iff.1 (h rfl)) (by omega)⟩
    | uLong v => exact ⟨_, rfl, rfl, rfl⟩
    | boolean v => exact ⟨_, rfl, rfl, by cases v <;> rfl⟩
    | decimal word => cases hget
  · cases v with
    | smallInt v | int v =>
      have hle := v.le_toInt
      have hlt := v.toInt_lt
      exact hword v.toInt (by omega)
    | boolean v => exact hword v.toNat (by cases v <;> decide)
    | decimal word => exact ⟨_, rfl, rfl, rfl⟩
    | uLong v => exact absurd rfl (htext rfl)
  · cases v with
    | boolean v => exact ⟨_, rfl, rfl, rfl⟩
    | _ => cases hget

/-- What a cast to `unsigned long` gives is not negative. -/
theorem keeps_of_cast {v v' : Value} {get : DataType} (hcast : cast v get = .ok v')
    (h : v'.number = v.number) : Keeps v get := by
  rintro rfl
  rw [← h]
  cases v <;> cases hcast <;> exact Nat.cast_nonneg _

theorem holds_map {α β : Type} [LinearOrder α] [LinearOrder β] {f : α → β} (hf : StrictMono f)
    (c : Comparison) (a b : α) : c.holds (f a) (f b) = c.holds a b := by
  cases c <;> simp [Comparison.holds, hf.lt_iff_lt, hf.le_iff_le, hf.injective.eq_iff]

/-- The numbers are compared as the values of one type are. -/
theorem oper_eq {v w : Value} (c : Comparison) (h : v.type = w.type) :
    oper c v w = .ok (c.holds v.number w.number) := by
  cases v <;> cases w <;> cases h
  case decimal.decimal v w =>
    have hf : StrictMono fun n : ℤ => (n : ℚ) / 10 ^ 30 := fun a b hab =>
      div_lt_div_of_pos_right (Int.cast_lt.2 hab) (by norm_num)
    exact congrArg Except.ok (holds_map hf c v w).symm
  case smallInt.smallInt => exact congrArg Except.ok (holds_map Int.cast_strictMono c _ _).symm
  case int.int => exact congrArg Except.ok (holds_map Int.cast_strictMono c _ _).symm
  case uLong.uLong => exact congrArg Except.ok (holds_map Nat.strictMono_cast c _ _).symm
  case boolean.boolean => exact congrArg Except.ok (holds_map Nat.strictMono_cast c _ _).symm

/-- Both casts keep the numbers, and every comparison is that of the numbers. -/
def ComparesNumbers (v w : Value) (get : DataType) : Prop :=
  (∃ v' w', cast v get = .ok v' ∧ cast w get = .ok w' ∧ v'.number = v.number ∧
    w'.number = w.number) ∧ ∀ c, compare c v w = .ok (c.holds v.number w.number)

theorem comparesNumbers_of_keeps {v w : Value} {get : DataType}
    (hget : typeConversionMatrix v.type w.type = some get) (hv : Keeps v get) (hw : Keeps w get)
    (htv : NotAsText v get) (htw : NotAsText w get) : ComparesNumbers v w get := by
  have hboth : typeConversionMatrix v.type get = some get ∧
      typeConversionMatrix w.type get = some get ∧
      get ∈ [DataType.smallInt, .int, .uLong, .decimal, .boolean] := by
    cases v <;> cases w <;> cases hget <;> exact ⟨rfl, rfl, by decide⟩
  obtain ⟨v', hv', htv, hnv⟩ := cast_keeps hboth.1 hboth.2.2 hv htv
  obtain ⟨w', hw', htw, hnw⟩ := cast_keeps hboth.2.1 hboth.2.2 hw htw
  refine ⟨⟨v', w', hv', hw', hnv, hnw⟩, fun c => ?_⟩
  rw [compare, hget]
  simp only
  rw [hv', hw', Run.bind_ok, Run.bind_ok, oper_eq c (htv.trans htw.symm), hnv, hnw]

theorem cast_boolean_iff (v : Value) :
    cast v .boolean = .ok (.boolean (v.number ≠ 0)) ↔ v.type ≠ .decimal := by
  cases v with
  | smallInt v => simp [cast, Value.type, Value.number, ← Int16.toInt_inj]
  | int v => simp [cast, Value.type, Value.number, ← Int32.toInt_inj]
  | uLong v => simp [cast, Value.type, Value.number, ← UInt64.toNat_inj]
  | decimal word => simp [cast, Value.type, Value.number]
  | boolean v => cases v <;> simp [cast, Value.type, Value.number]

/-- **The comparison is that of the numbers** exactly if no negative number becomes an `unsigned
long`, where no `unsigned long` becomes a decimal; that cast is wrong for some numbers.  The cast to
a boolean is right exactly for the other types than decimal. -/
theorem mixed_comparison_of_numbers_iff (v w : Value) {get : DataType}
    (hget : typeConversionMatrix v.type w.type = some get) :
    (NotAsText v get → NotAsText w get →
      (ComparesNumbers v w get ↔ Keeps v get ∧ Keeps w get)) ∧
      (¬ (NotAsText v get ∧ NotAsText w get) →
        ∃ u v', cast (.uLong u) get = .ok v' ∧ v'.number ≠ (Value.uLong u).number) ∧
      (cast v .boolean = .ok (.boolean (v.number ≠ 0)) ↔ v.type ≠ .decimal) := by
  refine ⟨fun htv htw => ⟨?_, fun h => comparesNumbers_of_keeps hget h.1 h.2 htv htw⟩,
    fun htext => ?_, cast_boolean_iff v⟩
  · rintro ⟨⟨v', w', hv', hw', hnv, hnw⟩, -⟩
    exact ⟨keeps_of_cast hv' hnv, keeps_of_cast hw' hnw⟩
  · obtain rfl : get = .decimal := by
      by_contra hne
      exact htext ⟨fun h => absurd h hne, fun h => absurd h hne⟩
    exact ⟨5, .decimal 0, by decide, by simp [Value.number]⟩

/-- `-3 < 2.5`: an `int` and a decimal. -/
theorem minus_three_less : compare .less (.int (-3)) (.decimal (25 * 10 ^ 29)) = .ok true := by
  have hright := ((mixed_comparison_of_numbers_iff (.int (-3)) (.decimal (25 * 10 ^ 29)) rfl).1
    nofun nofun).2 ⟨nofun, nofun⟩
  rw [hright.2]
  have hneg : (-3 : Int32).toInt = -3 := by decide
  simp only [Comparison.holds, Value.number, hneg]
  norm_num

/-- As an `unsigned long` `-1` is greater than 5, and zero is true as a boolean. -/
theorem minus_one_greater_than_five :
    compare .great (.int (-1)) (.uLong 5) = .ok true ∧
      cast (.decimal 0) .boolean = .ok (.boolean true) := by decide

end NumericCasts
