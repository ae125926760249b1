/-
Where a tuple is stored, and where it is sent to: `getPartitionValue` of the loader and the table
`partition_value_` of the exchange, written separately and apart from `equal`.  `Boost` stands for
that library, of which only the hash of an integer is known, and that a day which is no day of the
calendar has no `julian_day`.

* **`getPartitionValue_of_equal`** — keys that `equal` accepts go together;
* **`colocated`** — loader and exchange agree, and which keys have a partition;
* **`null_date_without_partition`** — a `NULL` in a `DATE` column has none.
-/
import ClaimsDB.Bytes
import ClaimsDB.CSBNode

namespace CSB

def intCodec : Codec CInt :=
  Codec.word 4 (fun x => (x.1 % 2 ^ 32).toNat)
    (fun n => ⟨Int.bmod n (2 ^ 32), by
      have h₁ := Int.le_bmod (x := (n : ℤ)) (m := 2 ^ 32) (by norm_num)
      have h₂ := Int.bmod_lt (x := (n : ℤ)) (m := 2 ^ 32) (by norm_num)
      norm_num at h₁ h₂ ⊢
      omega⟩)
    fun x => by
      obtain ⟨x, h₁, h₂⟩ := x
      apply Subtype.ext
      simp only
      rw [Int.bmod_def]
      omega

end CSB

namespace Partitioning

/-- The bytes from the address of a key on. -/
abbrev Memory := List UInt8

inductive KeyType
  | smallInt
  | int
  | uLong
  | string
  | date
  | time
  | datetime
  | decimal
  | boolean
  | uSmallInt
  deriving DecidableEq, Repr

/-- `neg_infin`, as which a `NULL` in a `DATE` column is stored. -/
def nullDate : UInt32 := 0

structure Boost where
  /-- `hash_value` of a string -/
  hashString : List UInt8 → ℕ
  /-- the seed after `hash_combine` -/
  hashCombine : ℕ → ℕ → ℕ
  /-- `julian_day` of a date, which throws for a special value -/
  julianDay : UInt32 → Run ℕ
  julianDay_nullDate : julianDay nullDate = .error .thrown
  /-- `total_nanoseconds` of a time of day -/
  totalNanoseconds : UInt64 → ℤ
  /-- `to_simple_string` of a point in time -/
  toSimpleString : UInt64 → List UInt8

/-- `boost::hash_value` of an integer, as a `size_t`. -/
def hashInteger (v : ℤ) : ℕ := (v % 2 ^ 64).toNat

/-! ### Keys in memory -/

def intAt (key : Memory) : ℤ := (CSB.intCodec.load 0 key).1

def shortAt (key : Memory) : ℤ := Int.bmod (Codec.uint16.load 0 key).toNat (2 ^ 16)

def uShortAt (key : Memory) : ℤ := (Codec.uint16.load 0 key).toNat

def uLongAt (key : Memory) : ℤ := (Codec.uint64.load 0 key).toNat

def stringAt (key : Memory) : List UInt8 := key.takeWhile (· ≠ 0)

/-- `*(date*)key`, the number of a day. -/
def dateAt (key : Memory) : UInt32 := Codec.uint32.load 0 key

/-- `*(time_duration*)key`, a number of ticks. -/
def timeAt (key : Memory) : UInt64 := Codec.uint64.load 0 key

/-- `*(ptime*)key`, a number of ticks. -/
def datetimeAt (key : Memory) : UInt64 := Codec.uint64.load 0 key

/-- `ttmath::Int<4>`: four words, the lowest first. -/
structure TTInt where
  ul1 : UInt64
  ul2 : UInt64
  ul3 : UInt64
  ul4 : UInt64
  deriving DecidableEq, Repr

/-- The value of a `TTInt` in two's complement. -/
def TTInt.toInt (x : TTInt) : ℤ :=
  Int.bmod (x.ul1.toNat + 2 ^ 64 * (x.ul2.toNat + 2 ^ 64 * (x.ul3.toNat + 2 ^ 64 * x.ul4.toNat)) : ℕ)
    (2 ^ 256)

/-- `((Decimal*)key)->GetTTInt()`: the words stand behind the pointer to the virtual functions and
the sign. -/
def ttIntAt (key : Memory) : TTInt :=
  ⟨Codec.uint64.load 16 key, Codec.uint64.load 24 key, Codec.uint64.load 32 key,
    Codec.uint64.load 40 key⟩

/-! ### Equality of the column operators -/

/-- `strcmp`; memory ends as if a zero followed. -/
def strcmp : Memory → Memory → ℤ
  | [], [] => 0
  | [], b :: _ => -b.toNat
  | a :: _, [] => a.toNat
  | a :: as, b :: bs => if a = b then if a = 0 then 0 else strcmp as bs else a.toNat - b.toNat

def decimalCompare (l r : TTInt) : ℤ :=
  if l = r then 0 else if r.toInt < l.toInt then 1 else -1

def equal : KeyType → Memory → Memory → Bool
  | .smallInt, a, b => shortAt a = shortAt b
  | .int, a, b => intAt a = intAt b
  | .uLong, a, b => uLongAt a = uLongAt b
  | .string, a, b => strcmp a b = 0
  | .date, a, b => dateAt a = dateAt b
  | .time, a, b => timeAt a = timeAt b
  | .datetime, a, b => datetimeAt a = datetimeAt b
  | .decimal, a, b => decimalCompare (ttIntAt a) (ttIntAt b) = 0
  | .boolean, a, b => intAt a = intAt b
  | .uSmallInt, a, b => uShortAt a = uShortAt b

/-! ### The two families of partition functions -/

/-- A hash taken modulo the number of partitions and returned as an `unsigned`. -/
def modulo (hash mod : ℕ) : Run ℕ := .ok (hash % mod % 2 ^ 32)

variable (boost : Boost)

def hashDecimal (x : TTInt) : ℕ :=
  boost.hashCombine (boost.hashCombine (boost.hashCombine x.ul1.toNat x.ul2.toNat) x.ul3.toNat)
    x.ul4.toNat

/-- `Operate…::getPartitionValue(key, mod)` of the operator of a column. -/
def getPartitionValue : KeyType → Memory → ℕ → Run ℕ
  | .smallInt, key, mod => modulo (hashInteger (shortAt key)) mod
  | .int, key, mod => modulo (hashInteger (intAt key)) mod
  | .uLong, key, mod => modulo (hashInteger (uLongAt key)) mod
  | .string, key, mod => modulo (boost.hashString (stringAt key)) mod
  | .date, key, mod => do modulo (hashInteger (← boost.julianDay (dateAt key))) mod
  | .time, key, mod => modulo (hashInteger (boost.totalNanoseconds (timeAt key))) mod
  | .datetime, key, mod => modulo (boost.hashString (boost.toSimpleString (datetimeAt key))) mod
  | .decimal, key, mod => modulo (hashDecimal boost (ttIntAt key)) mod
  | .boolean, key, mod => modulo (hashInteger (intAt key)) mod
  | .uSmallInt, key, mod => modulo (hashInteger (uShortAt key)) mod

def partitionValueInt (addr : Memory) (mod : ℕ) : Run ℕ := modulo (hashInteger (intAt addr)) mod

def partitionValueUlong (addr : Memory) (mod : ℕ) : Run ℕ := modulo (hashInteger (uLongAt addr)) mod

def partitionValueSmallint (addr : Memory) (mod : ℕ) : Run ℕ :=
  modulo (hashInteger (shortAt addr)) mod

def partitionValueUsmallint (addr : Memory) (mod : ℕ) : Run ℕ :=
  modulo (hashInteger (uShortAt addr)) mod

def partitionValueString (addr : Memory) (mod : ℕ) : Run ℕ :=
  modulo (boost.hashString (stringAt addr)) mod

def partitionValueDate (addr : Memory) (mod : ℕ) : Run ℕ := do
  modulo (hashInteger (← boost.julianDay (dateAt addr))) mod

def partitionValueTime (addr : Memory) (mod : ℕ) : Run ℕ :=
  modulo (hashInteger (boost.totalNanoseconds (timeAt addr))) mod

def partitionValueDatetime (addr : Memory) (mod : ℕ) : Run ℕ :=
  modulo (boost.hashString (boost.toSimpleString (datetimeAt addr))) mod

def partitionValueDecimal (addr : Memory) (mod : ℕ) : Run ℕ :=
  modulo (hashDecimal boost (ttIntAt addr)) mod

def partitionValueBool (addr : Memory) (mod : ℕ) : Run ℕ := modulo (hashInteger (intAt addr)) mod

/-- `DataTypeOper::partition_value_[type][0]`, as `InitpartitionValue` fills it. -/
def partitionValue : KeyType → Memory → ℕ → Run ℕ
  | .boolean => partitionValueBool
  | .decimal => partitionValueDecimal boost
  | .datetime => partitionValueDatetime boost
  | .time => partitionValueTime boost
  | .date => partitionValueDate boost
  | .int => partitionValueInt
  | .smallInt => partitionValueSmallint
  | .uSmallInt => partitionValueUsmallint
  | .uLong => partitionValueUlong
  | .string => partitionValueString boost

/-! ### Agreement -/

theorem toNat_eq_zero_iff (x : UInt8) : x.toNat = 0 ↔ x = 0 :=
  ⟨fun h => UInt8.toNat_inj.mp h, fun h => by rw [h]; rfl⟩

theorem strcmp_eq_zero_iff : ∀ a b : Memory, strcmp a b = 0 ↔ stringAt a = stringAt b
  | [], [] => by simp [strcmp]
  | [], b :: bs => by
    by_cases hb : b = 0 <;> simp [strcmp, stringAt, toNat_eq_zero_iff, hb]
  | a :: as, [] => by
    by_cases ha : a = 0 <;> simp [strcmp, stringAt, toNat_eq_zero_iff, ha]
  | a :: as, b :: bs => by
    have ih := strcmp_eq_zero_iff as bs
    by_cases hab : a = b
    · subst hab
      by_cases ha : a = 0
      · simp [strcmp, stringAt, ha]
      · simpa [strcmp, stringAt, ha] using ih
    · -- the strings differ in their first byte
      have hne : (a.toNat : ℤ) - b.toNat ≠ 0 := fun h =>
        hab (UInt8.toNat_inj.mp (by omega))
      have hstr : stringAt (a :: as) ≠ stringAt (b :: bs) := by
        rw [stringAt, stringAt, List.takeWhile_cons, List.takeWhile_cons]
        by_cases ha : a = 0
        · have hb : b ≠ 0 := fun hb => hab (ha.trans hb.symm)
          simp [ha, hb]
        · by_cases hb : b = 0 <;> simp [ha, hb, hab]
      rw [strcmp, if_neg hab]
      exact iff_of_false hne hstr

theorem decimalCompare_eq_zero_iff (l r : TTInt) : decimalCompare l r = 0 ↔ l = r := by
  rw [decimalCompare]
  split_ifs with h
  · simp [h]
  · simp [h]
  · simp [h]

theorem getPartitionValue_of_equal {ty : KeyType} {a b : Memory} (h : equal ty a b = true)
    (mod : ℕ) : getPartitionValue boost ty b mod = getPartitionValue boost ty a mod := by
  cases ty
  all_goals simp only [equal, decide_eq_true_eq] at h
  case string => rw [getPartitionValue, getPartitionValue, (strcmp_eq_zero_iff a b).mp h]
  case decimal => rw [getPartitionValue, getPartitionValue, (decimalCompare_eq_zero_iff _ _).mp h]
  all_goals rw [getPartitionValue, getPartitionValue, h]

theorem modulo_lt {hash mod v : ℕ} (hmod : 0 < mod) (h : modulo hash mod = .ok v) : v < mod := by
  rw [← Except.ok.inj h]
  exact lt_of_le_of_lt (Nat.mod_le _ _) (Nat.mod_lt _ hmod)

theorem getPartitionValue_lt {ty : KeyType} {key : Memory} {mod v : ℕ} (hmod : 0 < mod)
    (h : getPartitionValue boost ty key mod = .ok v) : v < mod := by
  cases ty
  case date =>
    rw [getPartitionValue] at h
    cases hd : boost.julianDay (dateAt key) with
    | error e =>
      rw [hd] at h
      cases h
    | ok d =>
      rw [hd] at h
      exact modulo_lt hmod h
  all_goals exact modulo_lt hmod h

/-- A key has a partition unless it is a date without a `julian_day`. -/
theorem exists_getPartitionValue_iff (ty : KeyType) (key : Memory) (n : ℕ) :
    (∃ v, getPartitionValue boost ty key n = .ok v) ↔
      (ty = .date → ∃ d, boost.julianDay (dateAt key) = .ok d) := by
  by_cases hty : ty = .date
  · subst hty
    rw [getPartitionValue]
    cases boost.julianDay (dateAt key) with
    | error e => exact iff_of_false (by rintro ⟨v, hv⟩; cases hv) (by simp)
    | ok d => exact iff_of_true ⟨_, rfl⟩ (by simp)
  · refine iff_of_true ?_ fun h => absurd h hty
    cases ty
    case date => exact absurd rfl hty
    all_goals exact ⟨_, rfl⟩

/-- **Co-location**: loader and exchange agree on the partition of a key, which is there exactly
where the key is no date without a `julian_day`, and equal keys go together. -/
theorem colocated (ty : KeyType) (key : Memory) {n : ℕ} (hn : 0 < n) :
    partitionValue boost ty key n = getPartitionValue boost ty key n ∧
    (∀ v, getPartitionValue boost ty key n = .ok v → v < n) ∧
    ((∃ v, getPartitionValue boost ty key n = .ok v) ↔
      (ty = .date → ∃ d, boost.julianDay (dateAt key) = .ok d)) ∧
    ∀ key', equal ty key key' = true →
      getPartitionValue boost ty key' n = getPartitionValue boost ty key n := by
  refine ⟨?_, fun v hv => getPartitionValue_lt boost hn hv,
    exists_getPartitionValue_iff boost ty key n, fun key' h => getPartitionValue_of_equal boost h n⟩
  cases ty <;> rfl

/-- A library whose strings are hashed to their lengths. -/
def lengthBoost : Boost where
  hashString := List.length
  hashCombine := Nat.add
  julianDay d := if d = nullDate then .error .thrown else .ok d.toNat
  julianDay_nullDate := rfl
  totalNanoseconds _ := 0
  toSimpleString _ := []

theorem colocated_ab : getPartitionValue lengthBoost .string [97, 98, 0, 7] 3 = .ok 2 ∧
    partitionValue lengthBoost .string [97, 98, 0, 7] 3 = .ok 2 ∧
    getPartitionValue lengthBoost .string [97, 98, 0] 3 = .ok 2 := by
  have hv : getPartitionValue lengthBoost .string [97, 98, 0, 7] 3 = .ok 2 := by decide
  obtain ⟨heq, -, -, hequal⟩ :=
    colocated lengthBoost .string [97, 98, 0, 7] (show 0 < 3 by norm_num)
  exact ⟨hv, heq.trans hv, (hequal [97, 98, 0] (by decide)).trans hv⟩

/-- Two `NULL`s in a `DATE` column are equal, and neither the loader nor the exchange has a
partition for them. -/
theorem null_date_without_partition :
    dateAt [0, 0, 0, 0] = nullDate ∧ equal .date [0, 0, 0, 0] [0, 0, 0, 0] = true ∧
    getPartitionValue lengthBoost .date [0, 0, 0, 0] 3 = .error .thrown ∧
    partitionValue lengthBoost .date [0, 0, 0, 0] 3 = .error .thrown := by
  decide

end Partitioning
