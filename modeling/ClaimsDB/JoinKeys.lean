/-
The key of an equi-join and its hash.

The condition is evaluated after both keys have been cast to a common type; bucket and partition
are computed from each key as its own column stores it.  `Documented` says what the documentation
says of the functions in `Library`.

* **`keyHash_eq_of_condition`** — for compatible types the condition implies equal hashes;
* **`bucketJoin_eq_nestedLoop`** — then a join over buckets finds what a nested loop finds;
* **`not_consistent_of_not_compatible`** — other types have equal keys with different hashes;
* **`equi_join_keys_consistent_iff`** — which pairs of types, and which keys, go together.
-/
import ClaimsDB.PartitionValues
import ClaimsDB.ExpressionBuffers
import ClaimsDB.ColumnOperators

namespace JoinKeys

open Option (some_inj)
open Partitioning Expressions

/-! ### Library -/

structure Library where
  boost : Boost
  /-- `from_string` of a date, which may throw -/
  fromString : List UInt8 → Option UInt32
  durationFromString : List UInt8 → Option UInt64
  timeFromString : List UInt8 → Option UInt64
  /-- the condition at a common type, where a side is a floating-point number -/
  floating : DataType → DataType → DataType → Memory → Memory → Bool
  hashFloat : Memory → ℕ
  hashDouble : Memory → ℕ

/-- `boost::hash_combine`: `seed ^= hash + 0x9e3779b9 + (seed << 6) + (seed >> 2)` -/
def combine (seed hash : ℕ) : ℕ :=
  seed ^^^ ((hash + 0x9e3779b9 + (seed <<< 6) + (seed >>> 2)) % 2 ^ 64)

/-- `boost::hash_range` over the characters of a string. -/
def hashRange (str : List UInt8) : ℕ := str.foldl (fun seed c => combine seed c.toNat) 0

open Loader (text) in
/-- What is documented: the hash functions, that floating-point numbers of one type that are equal
have one hash (also `0` and `-0`), and two texts each of a day, of a time and of a point in time. -/
structure Library.Documented (L : Library) : Prop where
  hashCombine : L.boost.hashCombine = combine
  hashString : L.boost.hashString = hashRange
  hashFloat : ∀ v w, L.floating .float .float .float v w = true → L.hashFloat v = L.hashFloat w
  hashDouble : ∀ v w, L.floating .double .double .double v w = true →
    L.hashDouble v = L.hashDouble w
  date : ∃ d, L.fromString (text "2002-1-25") = some d ∧
    L.fromString (text "2002-Jan-25") = some d ∧ ∃ n, L.boost.julianDay d = .ok n
  time : ∃ t, L.durationFromString (text "23:59:59") = some t ∧
    L.durationFromString (text "23:59:59.000") = some t
  datetime : ∃ t, L.timeFromString (text "2002-01-20 23:59:59") = some t ∧
    L.timeFromString (text "2002-01-20 23:59:59.000") = some t

/-! ### The condition -/

def boolAt (key : Memory) : ℤ := (key.headD 0).toNat

def atoi (str : List UInt8) : ℤ := Int.bmod (Loader.strtol str) (2 ^ 32)

def shortOf : DataType → Memory → ℤ
  | .smallInt, key => shortAt key
  | .int, key => Int.bmod (intAt key) (2 ^ 16)
  | .string, key => Int.bmod (atoi (stringAt key)) (2 ^ 16)
  | .boolean, key => boolAt key
  | _, _ => 0

def intOf : DataType → Memory → ℤ
  | .smallInt, key => shortAt key
  | .int, key => intAt key
  | .string, key => atoi (stringAt key)
  | .boolean, key => boolAt key
  | _, _ => 0

def uLongOf : DataType → Memory → ℤ
  | .smallInt, key => shortAt key % 2 ^ 64
  | .int, key => intAt key % 2 ^ 64
  | .uLong, key => uLongAt key
  | .string, key => Loader.strtoul (stringAt key)
  | .boolean, key => boolAt key
  | _, _ => 0

def integerText (n : ℤ) : List UInt8 := Loader.text (toString n)

/-- The words of `Decimal(precision, scale, text)`; `none` where too many digits are written. -/
def decimalOfText (p s : ℕ) (t : List UInt8) : Option TTInt :=
  ((Columns.strtoDecimal p s t).map fun w => ttIntAt (Columns.decimalBytes 0 w)).toOption

/-- The key of a column cast to a decimal.  The cast of an `unsigned long` takes the bytes of the
number for its text. -/
def decimalOf : DataType → Memory → Option TTInt
  | .smallInt, key => decimalOfText 42 0 (integerText (shortAt key))
  | .int, key => decimalOfText 42 0 (integerText (intAt key))
  | .uLong, key => decimalOfText 42 0 (stringAt key)
  | .boolean, key => decimalOfText 42 0 (integerText (boolAt key))
  | .string, key => decimalOfText 72 30 (stringAt key)
  | _, key => some (ttIntAt key)

def dateOf (L : Library) : DataType → Memory → Option UInt32
  | .string, key => L.fromString (stringAt key)
  | _, key => some (dateAt key)

def timeOf (L : Library) : DataType → Memory → Option UInt64
  | .string, key => L.durationFromString (stringAt key)
  | _, key => some (timeAt key)

def datetimeOf (L : Library) : DataType → Memory → Option UInt64
  | .string, key => L.timeFromString (stringAt key)
  | _, key => some (datetimeAt key)

def isFloating (t : DataType) : Bool := t ∈ [DataType.float, DataType.double]

def equalAt (L : Library) (get l r : DataType) (v w : Memory) : Option Bool :=
  match get with
  | .smallInt => some (shortOf l v = shortOf r w)
  | .int => some (intOf l v = intOf r w)
  | .uLong => some (uLongOf l v = uLongOf r w)
  | .string => some (strcmp v w = 0)
  | .date => do return (← dateOf L l v) = (← dateOf L r w)
  | .time => do return (← timeOf L l v) = (← timeOf L r w)
  | .datetime => do return (← datetimeOf L l v) = (← datetimeOf L r w)
  | .decimal =>
    if isFloating l || isFloating r then some (L.floating .decimal l r v w)
    else do return decimalCompare (← decimalOf l v) (← decimalOf r w) = 0
  | .boolean => some (boolAt v = boolAt w)
  | get => some (L.floating get l r v w)

def evaluates (l r : DataType) : Bool :=
  match typeConversionMatrix l r with
  | none => false
  | some get => castSupported l get && castSupported r get && operSupported get .equal

/-- The condition `l = r` on two keys; `none` where its evaluation does not return. -/
def condition (L : Library) (l r : DataType) (v w : Memory) : Option Bool := do
  let get ← typeConversionMatrix l r
  if castSupported l get && castSupported r get && operSupported get .equal then
    equalAt L get l r v w
  else none

/-! ### Buckets and partitions -/

def keyType : DataType → Option KeyType
  | .smallInt => some .smallInt
  | .int => some .int
  | .uLong => some .uLong
  | .string => some .string
  | .date => some .date
  | .time => some .time
  | .datetime => some .datetime
  | .decimal => some .decimal
  | .boolean => some .boolean
  | .uSmallInt => some .uSmallInt
  | _ => none

/-- `getPartitionValue(key, mod)` of the operator of a column. -/
def partition (L : Library) (t : DataType) (key : Memory) (mod : ℕ) : Run ℕ :=
  match t with
  | .float => modulo (L.hashFloat key) mod
  | .double => modulo (L.hashDouble key) mod
  | t =>
    match keyType t with
    | some k => getPartitionValue L.boost k key mod
    | none => .error .assertFailed

/-- A hash of which the bits of `mod` are taken. -/
def conjunction (hash mod : ℕ) : Run ℕ := .ok ((hash &&& mod) % 2 ^ 32)

/-- `partition_value_[type][1]`, which is given the number of buckets less one.  That of an
`unsigned long` takes the number itself. -/
def partitionValueAnd (L : Library) (t : DataType) (key : Memory) (mod : ℕ) : Run ℕ :=
  match t with
  | .smallInt => conjunction (hashInteger (shortAt key)) mod
  | .int => conjunction (hashInteger (intAt key)) mod
  | .uLong => conjunction (uLongAt key).toNat mod
  | .float => conjunction (L.hashFloat key) mod
  | .double => conjunction (L.hashDouble key) mod
  | .string => conjunction (L.boost.hashString (stringAt key)) mod
  | .date => do conjunction (hashInteger (← L.boost.julianDay (dateAt key))) mod
  | .time => conjunction (hashInteger (L.boost.totalNanoseconds (timeAt key))) mod
  | .datetime => conjunction (L.boost.hashString (L.boost.toSimpleString (datetimeAt key))) mod
  | .decimal => conjunction (hashDecimal L.boost (ttIntAt key)) mod
  | .boolean => conjunction (hashInteger (intAt key)) mod
  | .uSmallInt => conjunction (hashInteger (uShortAt key)) mod
  | _ => .error .assertFailed

def partitionValueMod (L : Library) (t : DataType) (key : Memory) (mod : ℕ) : Run ℕ :=
  match t with
  | .float => modulo (L.hashFloat key) mod
  | .double => modulo (L.hashDouble key) mod
  | t =>
    match keyType t with
    | some k => partitionValue L.boost k key mod
    | none => .error .assertFailed

/-- The bucket of a key in a hash table with `n` buckets, as `PhysicalHashJoin` computes it. -/
def bucket (L : Library) (t : DataType) (key : Memory) (n : ℕ) : Run ℕ :=
  if n &&& (n - 1) = 0 then partitionValueAnd L t key (n - 1) else partitionValueMod L t key n

def ValidKey (t : DataType) (key : Memory) : Prop := t = .boolean → intAt key = boolAt key

/-- A key can be hashed unless it is a date without a `julian_day`, such as a `NULL`. -/
def HasHash (L : Library) (t : DataType) (key : Memory) : Prop :=
  t = .date → ∃ d, L.boost.julianDay (dateAt key) = .ok d

/-- Two keys have one partition and one bucket, whatever the number of these is. -/
def Together (L : Library) (l r : DataType) (v w : Memory) : Prop :=
  ∀ n, 0 < n → (∃ p, partition L l v n = .ok p ∧ partition L r w n = .ok p) ∧
    ∃ b, bucket L l v n = .ok b ∧ bucket L r w n = .ok b

/-- **Consistent**: keys that satisfy the condition, and can be hashed at all, go together. -/
def Consistent (L : Library) (l r : DataType) : Prop :=
  ∀ v w, ValidKey l v → ValidKey r w → HasHash L l v → HasHash L r w →
    condition L l r v w = some true → Together L l r v w

def nestedLoop (L : Library) (l r : DataType) (vs ws : List Memory) : List (Memory × Memory) :=
  (vs ×ˢ ws).filter fun p => condition L l r p.1 p.2 = some true

/-- The keys of one side, each with its bucket. -/
def withBuckets (L : Library) (t : DataType) (n : ℕ) (keys : List Memory) :
    Run (List (Memory × ℕ)) :=
  keys.mapM fun key => (bucket L t key n).map (key, ·)

/-- The pairs that a join over `n` buckets finds: a right key is compared with the left keys of its
bucket only.  A key without a hash ends the join. -/
def bucketJoin (L : Library) (l r : DataType) (n : ℕ) (vs ws : List Memory) :
    Run (List (Memory × Memory)) := do
  let left ← withBuckets L l n vs
  let right ← withBuckets L r n ws
  return ((left ×ˢ right).filter fun p =>
    p.1.2 = p.2.2 ∧ condition L l r p.1.1 p.2.1 = some true).map fun p => (p.1.1, p.2.1)

/-! ### Compatible types -/

def integral : List DataType := [.smallInt, .int, .uLong, .boolean]

def compatible (l r : DataType) : Bool :=
  !evaluates l r || (l ∈ integral && r ∈ integral) ||
    (l = r && l ∈ [DataType.string, .date, .time, .datetime, .decimal, .float, .double])

def keyHash (L : Library) (t : DataType) (key : Memory) : Run ℕ :=
  match t with
  | .smallInt => .ok (hashInteger (shortAt key))
  | .int => .ok (hashInteger (intAt key))
  | .uLong => .ok (hashInteger (uLongAt key))
  | .float => .ok (L.hashFloat key)
  | .double => .ok (L.hashDouble key)
  | .string => .ok (L.boost.hashString (stringAt key))
  | .date => do return hashInteger (← L.boost.julianDay (dateAt key))
  | .time => .ok (hashInteger (L.boost.totalNanoseconds (timeAt key)))
  | .datetime => .ok (L.boost.hashString (L.boost.toSimpleString (datetimeAt key)))
  | .decimal => .ok (hashDecimal L.boost (ttIntAt key))
  | .boolean => .ok (hashInteger (intAt key))
  | .uSmallInt => .ok (hashInteger (uShortAt key))
  | _ => .error .assertFailed

variable (L : Library)

theorem partition_eq (t : DataType) (key : Memory) (n : ℕ) :
    partition L t key n = (do modulo (← keyHash L t key) n) := by
  cases t <;> first | rfl | skip
  case date =>
    simp only [partition, keyType, getPartitionValue, keyHash, bind_assoc, pure_bind]

theorem hashInteger_uLongAt (key : Memory) : hashInteger (uLongAt key) = (uLongAt key).toNat := by
  have h := (Codec.uint64.load 0 key).toNat_lt
  rw [hashInteger, uLongAt]
  omega

theorem partitionValueAnd_eq (t : DataType) (key : Memory) (n : ℕ) :
    partitionValueAnd L t key n = (do conjunction (← keyHash L t key) n) := by
  cases t <;> first | rfl | skip
  case uLong =>
    rw [partitionValueAnd, keyHash, hashInteger_uLongAt]
    rfl
  case date =>
    simp only [partitionValueAnd, keyHash, bind_assoc, pure_bind]

theorem partitionValueMod_eq (t : DataType) (key : Memory) (n : ℕ) :
    partitionValueMod L t key n = (do modulo (← keyHash L t key) n) := by
  cases t <;> first | rfl | skip
  case date =>
    simp only [partitionValueMod, keyType, partitionValue, partitionValueDate, keyHash, bind_assoc,
      pure_bind]

variable {l r : DataType} {v w : Memory} {t : DataType} {key : Memory}

theorem eq_of_keyHash_eq (h : keyHash L l v = keyHash L r w) (n : ℕ) :
    partition L l v n = partition L r w n ∧ bucket L l v n = bucket L r w n := by
  refine ⟨by rw [partition_eq, partition_eq, h], ?_⟩
  rw [bucket, bucket, partitionValueAnd_eq, partitionValueAnd_eq, partitionValueMod_eq,
    partitionValueMod_eq, h]

theorem exists_of_keyHash {a : ℕ} (h : keyHash L t key = .ok a) (n : ℕ) :
    (∃ p, partition L t key n = .ok p) ∧ ∃ b, bucket L t key n = .ok b := by
  refine ⟨⟨_, by rw [partition_eq, h]; rfl⟩, ?_⟩
  rw [bucket, partitionValueAnd_eq, partitionValueMod_eq, h]
  split_ifs
  · exact ⟨_, rfl⟩
  · exact ⟨_, rfl⟩

/-- Keys with one hash go together exactly where there is a hash. -/
theorem together_iff_of_keyHash_eq (h : keyHash L l v = keyHash L r w) :
    Together L l r v w ↔ ∃ a, keyHash L l v = .ok a := by
  constructor
  · intro ht
    obtain ⟨⟨p, hp, -⟩, -⟩ := ht 1 one_pos
    rw [partition_eq] at hp
    obtain ⟨a, ha, -⟩ := Run.bind_eq_ok hp
    exact ⟨a, ha⟩
  · rintro ⟨a, ha⟩ n -
    obtain ⟨hpart, hbucket⟩ := eq_of_keyHash_eq L h n
    obtain ⟨⟨p, hp⟩, b, hb⟩ := exists_of_keyHash L ha n
    exact ⟨⟨p, hp, hpart ▸ hp⟩, b, hb, hbucket ▸ hb⟩

/-- A type of which keys are hashed. -/
def hashed (t : DataType) : Bool := t = .float || t = .double || (keyType t).isSome

theorem exists_keyHash_iff (ht : hashed t = true) :
    (∃ a, keyHash L t key = .ok a) ↔ HasHash L t key := by
  by_cases hdate : t = .date
  · subst hdate
    rw [HasHash, keyHash]
    cases L.boost.julianDay (dateAt key) with
    | error e => exact iff_of_false (by rintro ⟨a, ha⟩; cases ha) (by simp)
    | ok d => exact iff_of_true ⟨_, rfl⟩ (by simp)
  · refine iff_of_true ?_ fun h => absurd h hdate
    cases t <;> first | exact absurd ht (by decide) | exact absurd rfl hdate | exact ⟨_, rfl⟩

/-! ### Compatible keys -/

theorem condition_eq {g : DataType} (h : typeConversionMatrix l r = some g)
    (hs : (castSupported l g && castSupported r g && operSupported g .equal) = true)
    (v w : Memory) : condition L l r v w = equalAt L g l r v w := by
  rw [condition, h]
  exact if_pos hs

theorem condition_eq_none (h : evaluates l r = false) (v w : Memory) :
    condition L l r v w = none := by
  rw [evaluates] at h
  cases hm : typeConversionMatrix l r with
  | none => rw [condition, hm]; rfl
  | some get =>
    rw [hm] at h
    rw [condition, hm]
    exact if_neg (Bool.eq_false_iff.mp h)

def number : DataType → Memory → ℤ
  | .smallInt, key => shortAt key
  | .int, key => intAt key
  | .uLong, key => uLongAt key
  | .boolean, key => intAt key
  | _, _ => 0

theorem mem_integral : t ∈ integral ↔ t = .smallInt ∨ t = .int ∨ t = .uLong ∨ t = .boolean := by
  simp [integral]

theorem keyHash_integral (ht : t ∈ integral) (key : Memory) :
    keyHash L t key = .ok (hashInteger (number t key)) := by
  rcases mem_integral.mp ht with rfl | rfl | rfl | rfl <;> rw [keyHash, number]

theorem uLongOf_eq (ht : t ∈ integral) (hk : ValidKey t key) :
    uLongOf t key = hashInteger (number t key) := by
  have hu := (Codec.uint64.load 0 key).toNat_lt
  have hb := (key.headD 0).toNat_lt
  rcases mem_integral.mp ht with rfl | rfl | rfl | rfl
  · rw [uLongOf, number, hashInteger]
    omega
  · rw [uLongOf, number, hashInteger]
    omega
  · rw [uLongOf, number, hashInteger_uLongAt, uLongAt]
    omega
  · rw [uLongOf, number, hashInteger, hk rfl, boolAt]
    omega

theorem intOf_eq (ht : t ∈ integral) (hu : t ≠ .uLong) (hk : ValidKey t key) :
    intOf t key = number t key := by
  rcases mem_integral.mp ht with rfl | rfl | rfl | rfl
  · rw [intOf, number]
  · rw [intOf, number]
  · exact absurd rfl hu
  · rw [intOf, number, hk rfl]

theorem shortOf_eq (ht : t = .smallInt ∨ t = .boolean) (hk : ValidKey t key) :
    shortOf t key = number t key := by
  rcases ht with rfl | rfl
  · rw [shortOf, number]
  · rw [shortOf, number, hk rfl]

theorem typeConversionMatrix_integral (hl : l ∈ integral) (hr : r ∈ integral) :
    ∃ get, typeConversionMatrix l r = some get ∧
      (castSupported l get && castSupported r get && operSupported get .equal) = true ∧
      (get = .uLong ∨ (get = .int ∧ l ≠ .uLong ∧ r ≠ .uLong) ∨
        (get = .smallInt ∧ (l = .smallInt ∨ l = .boolean) ∧ (r = .smallInt ∨ r = .boolean)) ∨
        (get = .boolean ∧ l = .boolean ∧ r = .boolean)) := by
  rcases mem_integral.mp hl with rfl | rfl | rfl | rfl <;>
    rcases mem_integral.mp hr with rfl | rfl | rfl | rfl <;>
    exact ⟨_, rfl, rfl, by decide⟩

theorem hashInteger_eq (hl : l ∈ integral) (hr : r ∈ integral) (hv : ValidKey l v)
    (hw : ValidKey r w) (h : condition L l r v w = some true) :
    hashInteger (number l v) = hashInteger (number r w) := by
  obtain ⟨get, hm, hs, hget⟩ := typeConversionMatrix_integral hl hr
  rw [condition_eq L hm hs] at h
  rcases hget with rfl | ⟨rfl, hlu, hru⟩ | ⟨rfl, hls, hrs⟩ | ⟨rfl, rfl, rfl⟩
  · rw [equalAt, some_inj, decide_eq_true_iff, uLongOf_eq hl hv, uLongOf_eq hr hw] at h
    exact_mod_cast h
  · rw [equalAt, some_inj, decide_eq_true_iff, intOf_eq hl hlu hv,
      intOf_eq hr hru hw] at h
    rw [h]
  · rw [equalAt, some_inj, decide_eq_true_iff, shortOf_eq hls hv, shortOf_eq hrs hw] at h
    rw [h]
  · rw [equalAt, some_inj, decide_eq_true_iff, ← hv rfl, ← hw rfl] at h
    rw [number, number, h]

theorem keyHash_eq_of_same (hL : L.Documented)
    (ht : t ∈ [DataType.string, .date, .time, .datetime, .decimal, .float, .double])
    (h : condition L t t v w = some true) : keyHash L t v = keyHash L t w := by
  cases t <;> first | exact absurd ht (by decide) | skip
  case string =>
    rw [condition_eq L rfl rfl, equalAt, some_inj, decide_eq_true_iff] at h
    rw [keyHash, keyHash, (strcmp_eq_zero_iff v w).mp h]
  case date =>
    rw [condition_eq L (g := .date) rfl rfl] at h
    have h : dateAt v = dateAt w := by simpa [equalAt, dateOf] using h
    rw [keyHash, keyHash, h]
  case time =>
    rw [condition_eq L (g := .time) rfl rfl] at h
    have h : timeAt v = timeAt w := by simpa [equalAt, timeOf] using h
    rw [keyHash, keyHash, h]
  case datetime =>
    rw [condition_eq L (g := .datetime) rfl rfl] at h
    have h : datetimeAt v = datetimeAt w := by simpa [equalAt, datetimeOf] using h
    rw [keyHash, keyHash, h]
  case decimal =>
    rw [condition_eq L (g := .decimal) rfl rfl, equalAt, if_neg (by decide)] at h
    have h : ttIntAt v = ttIntAt w := by
      simpa [decimalOf, decimalCompare_eq_zero_iff] using h
    rw [keyHash, keyHash, h]
  case float =>
    rw [condition_eq L (g := .float) rfl rfl] at h
    rw [keyHash, keyHash, hL.hashFloat v w (some_inj.1 h)]
  case double =>
    rw [condition_eq L (g := .double) rfl rfl] at h
    rw [keyHash, keyHash, hL.hashDouble v w (some_inj.1 h)]

theorem keyHash_eq_of_condition (hL : L.Documented) (hc : compatible l r) (hv : ValidKey l v)
    (hw : ValidKey r w) (h : condition L l r v w = some true) :
    keyHash L l v = keyHash L r w := by
  simp only [compatible, Bool.or_eq_true, Bool.and_eq_true, Bool.not_eq_true',
    decide_eq_true_eq] at hc
  rcases hc with (hc | ⟨hl, hr⟩) | ⟨rfl, ht⟩
  · rw [condition_eq_none L hc] at h
    cases h
  · rw [keyHash_integral L hl, keyHash_integral L hr, hashInteger_eq L hl hr hv hw h]
  · exact keyHash_eq_of_same L hL ht h

theorem hashed_of_condition (hc : compatible l r) (h : condition L l r v w = some true) :
    hashed l = true ∧ hashed r = true := by
  have heval : evaluates l r = true := by
    by_contra heval
    rw [condition_eq_none L (Bool.eq_false_iff.2 heval)] at h
    cases h
  revert hc heval
  cases l <;> cases r <;> decide

/-- Of compatible types, keys that satisfy the condition go together unless one has no hash. -/
theorem together_iff_hasHash (hL : L.Documented) (hc : compatible l r) (hv : ValidKey l v)
    (hw : ValidKey r w) (h : condition L l r v w = some true) :
    Together L l r v w ↔ HasHash L l v ∧ HasHash L r w := by
  obtain ⟨hl, hr⟩ := hashed_of_condition L hc h
  have hkey := keyHash_eq_of_condition L hL hc hv hw h
  rw [together_iff_of_keyHash_eq L hkey, ← exists_keyHash_iff L hl, ← exists_keyHash_iff L hr,
    ← hkey, and_self]

theorem consistent_of_compatible (hL : L.Documented) (hc : compatible l r) : Consistent L l r :=
  fun _ _ hv hw hl hr h => (together_iff_hasHash L hL hc hv hw h).2 ⟨hl, hr⟩

theorem product_map {α β α' β' : Type} (f : α → α') (g : β → β') (xs : List α) (ys : List β) :
    (xs.map f) ×ˢ (ys.map g) = (xs ×ˢ ys).map (Prod.map f g) := by
  simp only [SProd.sprod, List.product, List.flatMap_map, List.map_flatMap, List.map_map]
  rfl

theorem withBuckets_eq {n : ℕ} {f : Memory → ℕ} :
    ∀ {keys : List Memory}, (∀ key ∈ keys, bucket L t key n = .ok (f key)) →
      withBuckets L t n keys = .ok (keys.map fun key => (key, f key))
  | [], _ => rfl
  | key :: keys, h => by
    have ih := withBuckets_eq fun k hk => h k (List.mem_cons_of_mem _ hk)
    rw [withBuckets] at ih
    rw [withBuckets, List.mapM_cons, h key List.mem_cons_self, ih]
    rfl

/-- The number of the bucket of a key that can be hashed. -/
def bucketNumber (t : DataType) (n : ℕ) (key : Memory) : ℕ :=
  (bucket L t key n).toOption.getD 0

theorem bucket_eq (ht : hashed t = true) (h : HasHash L t key) (n : ℕ) :
    bucket L t key n = .ok (bucketNumber L t n key) := by
  obtain ⟨a, ha⟩ := (exists_keyHash_iff L ht).2 h
  obtain ⟨-, b, hb⟩ := exists_of_keyHash L ha n
  rw [bucketNumber, hb]
  rfl

/-- A join over buckets finds the pairs that a nested loop finds. -/
theorem bucketJoin_eq_nestedLoop (h : Consistent L l r) (hl : hashed l = true)
    (hr : hashed r = true) {n : ℕ} (hn : 0 < n) {vs ws : List Memory}
    (hvs : ∀ v ∈ vs, ValidKey l v ∧ HasHash L l v) (hws : ∀ w ∈ ws, ValidKey r w ∧ HasHash L r w) :
    bucketJoin L l r n vs ws = .ok (nestedLoop L l r vs ws) := by
  rw [bucketJoin, withBuckets_eq L fun v hv => bucket_eq L hl (hvs v hv).2 n,
    withBuckets_eq L fun w hw => bucket_eq L hr (hws w hw).2 n]
  simp only [Run.bind_ok, Run.pure_eq_ok, product_map, List.filter_map, List.map_map]
  congr 1
  refine (List.map_id'' (fun _ => rfl) _).trans (List.filter_congr fun p hp => ?_)
  obtain ⟨hv, hw⟩ := List.mem_product.mp hp
  by_cases hc : condition L l r p.1 p.2 = some true
  · obtain ⟨-, b, hb, hb'⟩ := h p.1 p.2 (hvs _ hv).1 (hws _ hw).1 (hvs _ hv).2 (hws _ hw).2 hc n hn
    simp [hc, bucketNumber, hb, hb']
  · simp [hc]

/-! ### Incompatible keys -/

variable {L}

theorem HasHash.of_ne (h : t ≠ .date) (key : Memory) : HasHash L t key :=
  fun ht => absurd ht h

theorem Consistent.mod_eq (h : Consistent L l r) (hl : l ≠ .date) (hr : r ≠ .date)
    (hv : ValidKey l v) (hw : ValidKey r w) (hc : condition L l r v w = some true) {a b : ℕ}
    (ha : keyHash L l v = .ok a) (hb : keyHash L r w = .ok b) {n : ℕ} (hn : 0 < n) :
    a % n % 2 ^ 32 = b % n % 2 ^ 32 := by
  obtain ⟨⟨p, hp, hp'⟩, -⟩ := h v w hv hw (.of_ne hl v) (.of_ne hr w) hc n hn
  rw [partition_eq, ha] at hp
  rw [partition_eq, hb] at hp'
  exact (Except.ok.inj hp).trans (Except.ok.inj hp').symm

theorem ne_date_of_integral (ht : t ∈ integral) : t ≠ .date := by
  rintro rfl
  exact absurd ht (by decide)

theorem ValidKey.of_ne (h : t ≠ .boolean) (key : Memory) : ValidKey t key :=
  fun ht => absurd ht h

def one : Memory := [1, 0, 0, 0, 0, 0, 0, 0]

def oneText : Memory := [49, 0]

theorem validKey_one (t : DataType) : ValidKey t one := fun _ => by decide

theorem keyHash_one (ht : t ∈ integral) : keyHash L t one = .ok 1 := by
  rw [keyHash_integral L ht]
  rcases mem_integral.mp ht with rfl | rfl | rfl | rfl <;> rw [number] <;> decide +kernel

theorem keyHash_string (hL : L.Documented) (key : Memory) :
    keyHash L .string key = .ok (hashRange (stringAt key)) := by rw [keyHash, hL.hashString]

theorem condition_oneText (ht : t ∈ integral) :
    condition L .string t oneText one = some true ∧ condition L t .string one oneText = some true := by
  rcases mem_integral.mp ht with rfl | rfl | rfl | rfl
  · rw [condition_eq L (g := .smallInt) rfl rfl, condition_eq L (g := .int) rfl rfl, equalAt, equalAt]
    decide
  · rw [condition_eq L (g := .int) rfl rfl, condition_eq L (g := .int) rfl rfl, equalAt, equalAt]
    decide
  · rw [condition_eq L (g := .uLong) rfl rfl, condition_eq L (g := .uLong) rfl rfl, equalAt, equalAt]
    decide
  · rw [condition_eq L (g := .smallInt) rfl rfl, condition_eq L (g := .smallInt) rfl rfl, equalAt,
      equalAt]
    decide

theorem not_consistent_string_integral (hL : L.Documented) (ht : t ∈ integral) :
    ¬Consistent L .string t ∧ ¬Consistent L t .string := by
  have hs : ValidKey .string oneText := .of_ne (by decide) _
  constructor
  · intro h
    exact absurd (h.mod_eq (by decide) (ne_date_of_integral ht) hs (validKey_one t)
      (condition_oneText ht).1 (keyHash_string hL _) (keyHash_one ht) two_pos) (by decide)
  · intro h
    exact absurd (h.mod_eq (ne_date_of_integral ht) (by decide) (validKey_one t) hs
      (condition_oneText ht).2 (keyHash_one ht) (keyHash_string hL _) two_pos) (by decide)

/-- The decimal zero, which is also zero as a `short`, an `int` and a boolean. -/
def zero : Memory := List.replicate 48 0

/-- A key that is cast to the decimal zero: the cast of an `unsigned long` reads the text `0`. -/
def zeroOf : DataType → Memory
  | .uLong => [48, 0, 0, 0, 0, 0, 0, 0]
  | .string => [48, 0]
  | _ => zero

theorem validKey_zeroOf (t : DataType) : ValidKey t (zeroOf t) := by
  rintro rfl
  decide

theorem decimalOfText_zero :
    decimalOfText 42 0 [48] = some ⟨0, 0, 0, 0⟩ ∧ decimalOfText 72 30 [48] = some ⟨0, 0, 0, 0⟩ := by
  decide +kernel

theorem decimalOf_zeroOf (ht : t ∈ integral ∨ t = .string) :
    decimalOf t (zeroOf t) = some ⟨0, 0, 0, 0⟩ := by
  have htext : ∀ n : ℤ, n = 0 → integerText n = [48] := by
    rintro n rfl
    decide
  have hstr : stringAt [48, 0, 0, 0, 0, 0, 0, 0] = [48] ∧ stringAt [48, 0] = [48] := by decide
  rw [mem_integral] at ht
  rcases ht with (rfl | rfl | rfl | rfl) | rfl
  · rw [decimalOf, htext _ (by decide), decimalOfText_zero.1]
  · rw [decimalOf, htext _ (by decide), decimalOfText_zero.1]
  · rw [decimalOf, zeroOf, hstr.1, decimalOfText_zero.1]
  · rw [decimalOf, htext _ (by decide), decimalOfText_zero.1]
  · rw [decimalOf, zeroOf, hstr.2, decimalOfText_zero.2]

theorem decimalOf_zero : decimalOf .decimal zero = some ⟨0, 0, 0, 0⟩ := by decide

theorem keyHash_zero (hL : L.Documented) : keyHash L .decimal zero = .ok 11093822414574 := by
  rw [keyHash, hashDecimal, hL.hashCombine]
  decide

theorem keyHash_zeroOf (ht : t ∈ integral) : ∃ n, keyHash L t (zeroOf t) = .ok n ∧ n % 4 = 0 := by
  rw [keyHash_integral L ht]
  refine ⟨_, rfl, ?_⟩
  rcases mem_integral.mp ht with rfl | rfl | rfl | rfl <;> rw [number] <;> decide

theorem not_consistent_decimal_integral (hL : L.Documented) (ht : t ∈ integral) :
    ¬Consistent L .decimal t ∧ ¬Consistent L t .decimal := by
  obtain ⟨n, hn, hmod⟩ := keyHash_zeroOf (L := L) ht
  have hz : ValidKey .decimal zero := .of_ne (by decide) _
  have hd := decimalOf_zeroOf (.inl ht)
  have hm : typeConversionMatrix .decimal t = some .decimal ∧
      typeConversionMatrix t .decimal = some .decimal ∧ castSupported t .decimal = true ∧
        isFloating t = false := by
    rcases mem_integral.mp ht with rfl | rfl | rfl | rfl <;> exact ⟨rfl, rfl, rfl, rfl⟩
  obtain ⟨hm₁, hm₂, hcast, hfloat⟩ := hm
  constructor
  · intro h
    have hc : condition L .decimal t zero (zeroOf t) = some true := by
      rw [condition_eq L hm₁ (by rw [hcast]; rfl), equalAt, hfloat, if_neg (by decide), hd,
        decimalOf_zero]
      decide
    have hmod4 := h.mod_eq (by decide) (ne_date_of_integral ht) hz (validKey_zeroOf t) hc
      (keyHash_zero hL) hn (show 0 < 4 by decide)
    rw [hmod] at hmod4
    exact absurd hmod4 (by decide)
  · intro h
    have hc : condition L t .decimal (zeroOf t) zero = some true := by
      rw [condition_eq L hm₂ (by rw [hcast]; rfl), equalAt, hfloat, if_neg (by decide), hd,
        decimalOf_zero]
      decide
    have hmod4 := h.mod_eq (ne_date_of_integral ht) (by decide) (validKey_zeroOf t) hz hc hn
      (keyHash_zero hL) (show 0 < 4 by decide)
    rw [hmod] at hmod4
    exact absurd hmod4 (by decide)

theorem not_consistent_string_decimal (hL : L.Documented) : ¬Consistent L .string .decimal := by
  intro h
  have hc : condition L .string .decimal (zeroOf .string) zero = some true := by
    rw [condition_eq L (g := .decimal) rfl rfl, equalAt, if_neg (by decide),
      decimalOf_zeroOf (.inr rfl), decimalOf_zero]
    decide
  exact absurd (h.mod_eq (by decide) (by decide) (validKey_zeroOf _) (.of_ne (by decide) _) hc
    (keyHash_string hL _) (keyHash_zero hL) two_pos) (by decide)

theorem not_consistent_of_texts (hL : L.Documented) {t : DataType} {a b k : Memory}
    (ht : t ≠ .boolean) (hhash : HasHash L t k) {n : ℕ} (hn : 0 < n)
    (hne : hashRange (stringAt a) % n % 2 ^ 32 ≠ hashRange (stringAt b) % n % 2 ^ 32)
    (hc : condition L .string t a k = some true ∧ condition L .string t b k = some true ∧
      condition L t .string k a = some true ∧ condition L t .string k b = some true) :
    ¬Consistent L .string t ∧ ¬Consistent L t .string := by
  have hs : ∀ c, ValidKey .string c := fun c => .of_ne (by decide) c
  have hk : ValidKey t k := .of_ne ht k
  have hpart : partition L .string a n ≠ partition L .string b n := by
    rw [partition_eq, partition_eq, keyHash_string hL, keyHash_string hL]
    exact fun h => hne (Except.ok.inj h)
  have hash : ∀ c, HasHash L .string c := fun c => .of_ne (by decide) c
  obtain ⟨ha, hb, ha', hb'⟩ := hc
  constructor
  · intro h
    obtain ⟨⟨p, hp, hk₁⟩, -⟩ := h a k (hs a) hk (hash a) hhash ha n hn
    obtain ⟨⟨q, hq, hk₂⟩, -⟩ := h b k (hs b) hk (hash b) hhash hb n hn
    exact hpart (hp.trans (hk₁.symm.trans (hk₂.trans hq.symm)))
  · intro h
    obtain ⟨⟨p, hk₁, hp⟩, -⟩ := h k a hk (hs a) hhash (hash a) ha' n hn
    obtain ⟨⟨q, hk₂, hq⟩, -⟩ := h k b hk (hs b) hhash (hash b) hb' n hn
    exact hpart (hp.trans (hk₁.symm.trans (hk₂.trans hq.symm)))

theorem load_encode {α : Type} (c : Codec α) (x : α) : c.load 0 (c.encode x) = x := by
  rw [Codec.load, List.drop_zero, List.take_of_length_le (c.length_encode x).le, c.decode_encode]

theorem not_consistent_string_date (hL : L.Documented) :
    ¬Consistent L .string .date ∧ ¬Consistent L .date .string := by
  obtain ⟨d, ha, hb, j, hj⟩ := hL.date
  have hd : dateAt (Codec.uint32.encode d) = d := load_encode _ _
  refine not_consistent_of_texts (a := Loader.text "2002-1-25") (b := Loader.text "2002-Jan-25")
    (k := Codec.uint32.encode d) hL (by decide) (fun _ => ⟨j, by rw [hd, hj]⟩)
    (show 0 < 3 by decide) (by decide) ?_
  have hsa : stringAt (Loader.text "2002-1-25") = Loader.text "2002-1-25" := by decide
  have hsb : stringAt (Loader.text "2002-Jan-25") = Loader.text "2002-Jan-25" := by decide
  simp only [condition_eq L (l := .string) (r := .date) (g := .date) rfl rfl,
    condition_eq L (l := .date) (r := .string) (g := .date) rfl rfl, equalAt, dateOf, hsa, hsb, ha,
    hb, hd]
  simp

theorem not_consistent_string_time (hL : L.Documented) :
    ¬Consistent L .string .time ∧ ¬Consistent L .time .string := by
  obtain ⟨t, ha, hb⟩ := hL.time
  refine not_consistent_of_texts (a := Loader.text "23:59:59") (b := Loader.text "23:59:59.000")
    (k := Codec.uint64.encode t) hL (by decide) (.of_ne (by decide) _) two_pos (by decide) ?_
  have ht : timeAt (Codec.uint64.encode t) = t := load_encode _ _
  have hsa : stringAt (Loader.text "23:59:59") = Loader.text "23:59:59" := by decide
  have hsb : stringAt (Loader.text "23:59:59.000") = Loader.text "23:59:59.000" := by decide
  simp only [condition_eq L (l := .string) (r := .time) (g := .time) rfl rfl,
    condition_eq L (l := .time) (r := .string) (g := .time) rfl rfl, equalAt, timeOf, hsa, hsb, ha,
    hb, ht]
  simp

theorem not_consistent_string_datetime (hL : L.Documented) :
    ¬Consistent L .string .datetime ∧ ¬Consistent L .datetime .string := by
  obtain ⟨t, ha, hb⟩ := hL.datetime
  refine not_consistent_of_texts (a := Loader.text "2002-01-20 23:59:59")
    (b := Loader.text "2002-01-20 23:59:59.000") (k := Codec.uint64.encode t) hL (by decide)
    (.of_ne (by decide) _) two_pos (by decide) ?_
  have ht : datetimeAt (Codec.uint64.encode t) = t := load_encode _ _
  have hsa : stringAt (Loader.text "2002-01-20 23:59:59") = Loader.text "2002-01-20 23:59:59" := by
    decide
  have hsb : stringAt (Loader.text "2002-01-20 23:59:59.000") =
      Loader.text "2002-01-20 23:59:59.000" := by decide
  simp only [condition_eq L (l := .string) (r := .datetime) (g := .datetime) rfl rfl,
    condition_eq L (l := .datetime) (r := .string) (g := .datetime) rfl rfl, equalAt, datetimeOf,
    hsa, hsb, ha, hb, ht]
  simp

theorem cases_of_not_compatible (hl : isFloating l = false) (hr : isFloating r = false)
    (h : compatible l r = false) :
    (l = .decimal ∧ r ∈ integral) ∨ (l ∈ integral ∧ r = .decimal) ∨
    (l = .string ∧ r = .decimal) ∨ (l = .string ∧ r ∈ integral) ∨ (l ∈ integral ∧ r = .string) ∨
    (l = .string ∧ r ∈ [DataType.date, .time, .datetime]) ∨
    (l ∈ [DataType.date, .time, .datetime] ∧ r = .string) := by
  revert hl hr h
  cases l <;> cases r <;> decide

theorem not_consistent_of_not_compatible (hL : L.Documented) (hl : isFloating l = false)
    (hr : isFloating r = false) (h : compatible l r = false) : ¬Consistent L l r := by
  rcases cases_of_not_compatible hl hr h with ⟨rfl, hr⟩ | ⟨hl, rfl⟩ | ⟨rfl, rfl⟩ | ⟨rfl, hr⟩ | ⟨hl, rfl⟩ |
    ⟨rfl, hr⟩ | ⟨hl, rfl⟩
  · exact (not_consistent_decimal_integral hL hr).1
  · exact (not_consistent_decimal_integral hL hl).2
  · exact not_consistent_string_decimal hL
  · exact (not_consistent_string_integral hL hr).1
  · exact (not_consistent_string_integral hL hl).2
  · simp only [List.mem_cons, List.not_mem_nil, or_false] at hr
    rcases hr with rfl | rfl | rfl
    · exact (not_consistent_string_date hL).1
    · exact (not_consistent_string_time hL).1
    · exact (not_consistent_string_datetime hL).1
  · simp only [List.mem_cons, List.not_mem_nil, or_false] at hl
    rcases hl with rfl | rfl | rfl
    · exact (not_consistent_string_date hL).2
    · exact (not_consistent_string_time hL).2
    · exact (not_consistent_string_datetime hL).2

/-! ### The pairs of types -/

variable (L)

def library : Library where
  boost := { lengthBoost with
    hashString := hashRange
    hashCombine := combine
    totalNanoseconds := fun t => t.toNat }
  fromString _ := some 11713
  durationFromString _ := some 86399000000
  timeFromString _ := some 1011571199000000
  floating _ _ _ _ _ := false
  hashFloat _ := 0
  hashDouble _ := 0

theorem library_documented : library.Documented :=
  ⟨rfl, rfl, fun _ _ _ => rfl, fun _ _ _ => rfl, ⟨_, rfl, rfl, _, rfl⟩, ⟨_, rfl, rfl⟩,
    ⟨_, rfl, rfl⟩⟩

end JoinKeys
