/-
The operators of the column types: text and bytes, `CheckSet`, `NULL` and comparison.

Each type keeps `NULL` as one of its values.  `Library` stands for the date library, the texts of
floating-point numbers, and the undefined conversions of `FLT_MAX` and `DBL_MAX` to `int`.
-/
import ClaimsDB.PartitionValues
import ClaimsDB.NumberText

namespace Columns

open Loader (Text Memory RetCode Operate text cStr isDigit interrupt checkNumber strtol strtoul
  skipSpace digitsValue toDecimal showInt checkSetInt checkSetULong checkSetString byteAlign)
open Partitioning (intAt shortAt uShortAt uLongAt stringAt dateAt timeAt datetimeAt ttIntAt strcmp
  decimalCompare)

/-! ### Types -/

/-- `column_type`: the type with its size, which for a decimal gives precision and scale. -/
inductive ColumnType
  | smallInt
  | int
  | uLong
  | float
  | double
  | string (size : ℕ)
  | date
  | time
  | datetime
  | decimal (precision scale : ℕ)
  | boolean
  | uSmallInt
  deriving DecidableEq, Repr

structure Column where
  type : ColumnType
  nullable : Bool
  deriving DecidableEq, Repr

def ColumnType.getLength : ColumnType → ℕ
  | .int => 4
  | .float => 4
  | .double => 8
  | .uLong => 8
  | .string size => byteAlign size
  | .date => 4
  | .time => 8
  | .datetime => 8
  | .decimal _ _ => 48
  | .smallInt => 2
  | .uSmallInt => 2
  | .boolean => 4

/-- The functions outside the source; floating-point numbers are given by their bits. -/
structure Library where
  atof : Text → UInt64
  /-- the conversion of a `double` to a `float` -/
  toFloat : UInt64 → UInt32
  showFloat : UInt32 → Text
  showDouble : UInt64 → Text
  floatMaxToInt : UInt32
  doubleMaxToInt : UInt32
  /-- `date(neg_infin)`, and the same for times and points in time -/
  negInfinDate : UInt32
  negInfinTime : UInt64
  negInfinDatetime : UInt64
  fromString : Text → Run UInt32
  fromUndelimitedString : Text → Run UInt32
  durationFromString : Text → Run UInt64
  timeFromString : Text → Run UInt64
  /-- `to_iso_extended_string` of a date -/
  dateText : UInt32 → Text
  /-- `to_simple_string` of a time -/
  timeText : UInt64 → Text
  /-- `to_iso_extended_string` of a point in time -/
  datetimeText : UInt64 → Text

/-! ### Floating-point numbers -/

/-- The order of the numbers with the given bits, the sign being the bit of weight `sign`; the two
zeros are the same. -/
def ieeeOrder (sign bits : ℕ) : ℤ := if bits < sign then bits else (sign : ℤ) - bits

def isNaN (sign inf bits : ℕ) : Bool := inf < bits % sign

def ieeeEqual (sign inf a b : ℕ) : Bool :=
  !isNaN sign inf a && !isNaN sign inf b && ieeeOrder sign a = ieeeOrder sign b

def ieeeLess (sign inf a b : ℕ) : Bool :=
  !isNaN sign inf a && !isNaN sign inf b && decide (ieeeOrder sign a < ieeeOrder sign b)

def floatMax : ℕ := 0x7F7FFFFF

def doubleMax : ℕ := 0x7FEFFFFFFFFFFFFF

def floatEqual (a b : ℕ) : Bool := ieeeEqual (2 ^ 31) 0x7F800000 a b

def doubleEqual (a b : ℕ) : Bool := ieeeEqual (2 ^ 63) 0x7FF0000000000000 a b

def doubleLess (a b : ℕ) : Bool := ieeeLess (2 ^ 63) 0x7FF0000000000000 a b

def bits32At (v : Memory) : UInt32 := Codec.uint32.load 0 v

def bits64At (v : Memory) : UInt64 := Codec.uint64.load 0 v

/-! ### Values as text -/

def isSpecialCharactor (c : UInt8) : Bool := c = 13 || c = 10 || c = 32

/-- The first loop of `trimSpecialCharactor`, which leaves the last character. -/
def trimLeft : Text → Text
  | c :: d :: t => if isSpecialCharactor c then trimLeft (d :: t) else c :: d :: t
  | t => t

def trimSpecialCharactor (t : Text) : Text := (trimLeft (trimLeft t).reverse).reverse

/-- `decimal_sign_`, behind the pointer to the virtual functions. -/
def signAt (v : Memory) : UInt8 := (v.drop 8).headD 0

def decimalNan : UInt8 := 2

/-- `Decimal::toString` of a value that is not `NULL`; `erase` can throw. -/
def decimalToString (scale : ℕ) (w : ℤ) : Run Text :=
  let ress := toDecimal w.natAbs
  let ress := List.replicate (31 - ress.length) 48 ++ ress
  if scale ≤ 30 then
    .ok ((if w < 0 then [45] else []) ++ ress.take (ress.length - 30) ++
      if 0 < scale then 46 :: (ress.drop (ress.length - 30)).take scale else [])
  else .error .outOfBounds

variable (L : Library)

def shownAsNull : ColumnType → Memory → Bool
  | .smallInt, v => shortAt v = 2 ^ 15 - 1
  | .int, v => intAt v = 2 ^ 31 - 1
  | .uLong, v => uLongAt v = 2 ^ 64 - 1
  | .float, v => floatEqual (bits32At v).toNat floatMax
  | .double, v => doubleEqual (bits64At v).toNat doubleMax
  | .string _, v => v.head? = some 1
  | .date, v => dateAt v = L.negInfinDate
  | .time, v => timeAt v = L.negInfinTime
  | .datetime, v => datetimeAt v = L.negInfinDatetime
  | .decimal _ _, v => signAt v = decimalNan
  | .boolean, v => intAt v = 2
  | .uSmallInt, v => uShortAt v = 2 ^ 16 - 1

def valueText : ColumnType → Memory → Run Text
  | .smallInt, v => .ok (showInt (shortAt v))
  | .int, v => .ok (showInt (intAt v))
  | .uLong, v => .ok (showInt (uLongAt v))
  | .float, v => .ok (L.showFloat (bits32At v))
  | .double, v => .ok (L.showDouble (bits64At v))
  | .string _, v => .ok (trimSpecialCharactor (stringAt v))
  | .date, v => .ok (L.dateText (dateAt v))
  | .time, v => .ok (L.timeText (timeAt v))
  | .datetime, v => .ok ((L.datetimeText (datetimeAt v)).set 10 32)
  | .decimal _ scale, v => decimalToString scale (ttIntAt v).toInt
  | .boolean, v => .ok (if intAt v = 0 then text "FALSE" else text "TRUE")
  | .uSmallInt, v => .ok (showInt (uShortAt v))

def isDecimal : ColumnType → Bool
  | .decimal _ _ => true
  | _ => false

/-- `toString`; that of a decimal does not ask whether the column can be `NULL`. -/
def Column.toString (c : Column) (v : Memory) : Run Text :=
  if (c.nullable || isDecimal c.type) && shownAsNull L c.type v then .ok (text "NULL")
  else valueText L c.type v

/-! ### `NULL` -/

def testedAsNull : ColumnType → Memory → Bool
  -- the bytes of the number, as an `int`, are compared with the converted number
  | .float, v => bits32At v = L.floatMaxToInt
  | .double, v => bits32At v = L.doubleMaxToInt
  -- `NULL_SMALL_INT`
  | .boolean, v => intAt v = 2 ^ 15 - 1
  | type, v => shownAsNull L type v

def Column.isNull (c : Column) (v : Memory) : Bool := c.nullable && testedAsNull L c.type v

def overwrite (v : Memory) (off : ℕ) (b : Memory) : Memory :=
  v.take off ++ b ++ v.drop (off + b.length)

/-- The bytes of `NULL` in a type that is written as one object. -/
def nullBytes : ColumnType → Memory
  | .smallInt => Codec.leBytes 2 (2 ^ 15 - 1)
  | .int => Codec.leBytes 4 (2 ^ 31 - 1)
  | .uLong => Codec.leBytes 8 (2 ^ 64 - 1)
  | .float => Codec.leBytes 4 floatMax
  | .double => Codec.leBytes 8 doubleMax
  | .string _ => [1]
  | .date => Codec.leBytes 4 L.negInfinDate.toNat
  | .time => Codec.leBytes 8 L.negInfinTime.toNat
  | .datetime => Codec.leBytes 8 L.negInfinDatetime.toNat
  | .decimal _ _ => Codec.leBytes 32 0
  | .boolean => Codec.leBytes 4 2
  | .uSmallInt => Codec.leBytes 2 (2 ^ 16 - 1)

/-- `setNull` of a column that can be `NULL`.  The assignment of a decimal writes its sign and its
words. -/
def setNull : ColumnType → Memory → Memory
  | .decimal p s, v => overwrite (overwrite v 8 [decimalNan]) 16 (nullBytes L (.decimal p s))
  | type, v => overwrite v 0 (nullBytes L type)

/-! ### Equality -/

def equal : ColumnType → Memory → Memory → Bool
  | .smallInt, a, b => shortAt a = shortAt b
  | .int, a, b => intAt a = intAt b
  | .uLong, a, b => uLongAt a = uLongAt b
  | .float, a, b => floatEqual (bits32At a).toNat (bits32At b).toNat
  | .double, a, b => doubleEqual (bits64At a).toNat (bits64At b).toNat
  | .string _, a, b => strcmp a b = 0
  | .date, a, b => dateAt a = dateAt b
  | .time, a, b => timeAt a = timeAt b
  | .datetime, a, b => datetimeAt a = datetimeAt b
  | .decimal _ _, a, b => decimalCompare (ttIntAt a) (ttIntAt b) = 0
  | .boolean, a, b => intAt a = intAt b
  | .uSmallInt, a, b => uShortAt a = uShortAt b

/-! ### Checking texts -/

/-- The `CheckSet` of the small integers: a text out of range is replaced. -/
def checkSetSmall (least greatest : ℤ) (tooSmall tooLarge : String) (nullable : Bool) (str : Text) :
    RetCode × Text :=
  checkNumber nullable str fun str =>
    let (ret, str) := interrupt 0 str
    let value := strtol (cStr str)
    if value < least then (.tooSmallData, text tooSmall)
    else if value > greatest || (value = greatest && nullable) then (.tooLargeData, text tooLarge)
    else (ret, str)

def checkSetSmallInt : Bool → Text → RetCode × Text :=
  checkSetSmall (-2 ^ 15) (2 ^ 15 - 1) "-32767" "32766"

def checkSetUSmallInt : Bool → Text → RetCode × Text := checkSetSmall 0 (2 ^ 16 - 1) "0" "65534"

/-- `OperateFloat::CheckSet`; the bounds are those of a `float` as a `double`. -/
def checkSetFloat (nullable : Bool) (str : Text) : RetCode × Text :=
  match str with
  | [] => (if nullable then .success else .invalidNullData, str)
  | c :: _ =>
    if !isDigit c && c ≠ 45 && c ≠ 46 then (.incorrectData, str)
    else
      let (ret, str) := interrupt 0 str
      let value := (L.atof (cStr str)).toNat
      if doubleLess value 0xC7EFFFFFE0000000 then
        (.tooSmallData, text "-340282346638528859811704183484516925440")
      else if doubleLess 0x47EFFFFFE0000000 value ||
          (doubleEqual value 0x47EFFFFFE0000000 && nullable) then
        (.tooLargeData, text "340282346638528746474908594613031796736")
      else (ret, str)

def doubleMaxText : Text := toDecimal ((2 ^ 53 - 1) * 2 ^ 971)

/-- `OperateDouble::CheckSet`, which counts the characters before the point. -/
def checkSetDouble (nullable : Bool) (str : Text) : RetCode × Text :=
  if str = doubleMaxText && !nullable then (.success, str)
  else checkNumber nullable str fun str =>
    let (ret, str) := interrupt 0 str
    if 309 ≤ (str.takeWhile (· ≠ 46)).length then
      if str.head? = some 45 then (.tooSmallData, 45 :: doubleMaxText)
      else (.tooLargeData, toDecimal ((2 ^ 53 - 1 - 5010420900022) * 2 ^ 971))
    else (ret, str)

/-- A form that the text of a date or a time can have: digits except at the given positions. -/
structure TextForm where
  length : ℕ
  separators : List ℕ
  least : String
  greatest : String

def digitsExcept (separators : List ℕ) (t : Text) : Bool :=
  t.zipIdx.all fun p => isDigit p.1 || p.2 ∈ separators

def clamp (least greatest t : Text) : RetCode × Text :=
  if t < least then (.tooSmallData, least)
  else if greatest < t then (.tooLargeData, greatest)
  else (.success, t)

/-- The `CheckSet` of dates and times. -/
def checkForms (forms : List TextForm) (nullable : Bool) (t : Text) : RetCode × Text :=
  if t = [] then (if nullable then .success else .invalidNullData, t)
  else
    match forms.find? (·.length = t.length) with
    | none => (.incorrectData, t)
    | some form =>
      if digitsExcept form.separators t then clamp (text form.least) (text form.greatest) t
      else (.incorrectData, t)

def dateForms : List TextForm :=
  [⟨8, [], "14000101", "99991231"⟩, ⟨10, [4, 7], "1400-01-01", "9999-12-31"⟩]

def timeForms : List TextForm :=
  [⟨15, [2, 5, 8], "00:00:00.000000", "23:59:59.999999"⟩, ⟨8, [2, 5], "00:00:00", "23:59:59"⟩]

def datetimeForms : List TextForm :=
  [⟨26, [4, 7, 10, 13, 16, 19], "1400-01-01 00:00:00.000000", "9999-12-31 23:59:59.999999"⟩,
    ⟨19, [4, 7, 10, 13, 16], "1400-01-01 00:00:00", "9999-12-31 23:59:59"⟩]

def checkSetDecimal (nullable : Bool) (t : Text) : RetCode × Text :=
  if (t = [] ∨ t = text "NULL") ∧ nullable then (.success, t)
  else if t = [] then (.invalidNullData, t)
  else (.success, t)

def checkSetBool (nullable : Bool) (t : Text) : RetCode × Text :=
  if t = [] then (if nullable then .success else .invalidNullData, t)
  else if t ≠ text "false" ∧ t ≠ text "true" then (.incorrectData, t)
  else (.success, t)

def Column.checkSet (c : Column) : Text → RetCode × Text :=
  match c.type with
  | .smallInt => checkSetSmallInt c.nullable
  | .int => checkSetInt c.nullable
  | .uLong => checkSetULong c.nullable
  | .float => checkSetFloat L c.nullable
  | .double => checkSetDouble c.nullable
  | .string size => checkSetString size c.nullable
  | .date => checkForms dateForms c.nullable
  | .time => checkForms timeForms c.nullable
  | .datetime => checkForms datetimeForms c.nullable
  | .decimal _ _ => checkSetDecimal c.nullable
  | .boolean => checkSetBool c.nullable
  | .uSmallInt => checkSetUSmallInt c.nullable

def Column.setDefault (c : Column) : Text :=
  match c.type with
  | .string _ => if c.nullable then [1] else []
  | .date => text "1400-01-01"
  | .time => text "00:00:00.000000"
  | .datetime => text "1400-01-01 00:00:00.000000"
  | .boolean => text "false"
  | _ => text "0"

/-! ### Reading decimals -/

/-- What the loop of `StrtoDecimal` has read. -/
structure DecimalScan where
  digits : Text
  haveDp : Bool
  dweight : ℤ
  deriving DecidableEq, Repr

def scanDecimal : Text → DecimalScan → Run (Option (DecimalScan × Text))
  | [], r => .ok (some (r, []))
  | c :: cs, r =>
    if isDigit c then
      if r.digits.length < 73 then
        scanDecimal cs
          ⟨r.digits ++ [c], r.haveDp, if r.haveDp then r.dweight else r.dweight + 1⟩
      else .error .outOfBounds
    else if c = 46 then
      if r.haveDp then .ok none else scanDecimal cs { r with haveDp := true }
    else .ok (some (r, c :: cs))

/-- `strtol` with the end of the number, as an `int`; nothing if there are no digits. -/
def readExponent (t : Text) : Option (ℤ × Text) :=
  let digits :=
    match skipSpace t with
    | 45 :: ds => ds
    | 43 :: ds => ds
    | ds => ds
  if digits.takeWhile isDigit = [] then none
  else some (Int.bmod (strtol t) (2 ^ 32), digits.dropWhile isDigit)

def decimalWeight (r : DecimalScan) : Text → Option (ℤ × Text)
  | [] => some (r.dweight, [])
  | c :: cs =>
    if c = 101 ∨ c = 69 then (readExponent cs).map fun e => (r.dweight + e.1, e.2)
    else some (r.dweight, c :: cs)

/-- The end of `StrtoDecimal`: digits cut 30 places behind the point, and rounded at the scale. -/
def decimalWord (s : ℕ) (dweight : ℤ) (negative : Bool) (digits : Text) : Run ℤ :=
  let decdigits := digits ++ List.replicate (73 - digits.length) 48
  let cut := 31 + dweight
  let round := s + dweight + 1
  if 0 ≤ cut ∧ cut < 73 ∧ 0 ≤ round ∧ round < 73 ∧ s ≤ 30 then
    let decdigits := decdigits.set cut.toNat 0
    let c := decdigits.getD round.toNat 0
    let decdigits := decdigits.take round.toNat ++ List.replicate (30 - s) 48 ++
      decdigits.drop (round.toNat + (30 - s))
    let whole : ℤ := digitsValue decdigits
    let fra : ℤ := 10 ^ (30 - s)
    let word := if 53 ≤ c then whole + fra else whole
    .ok (if negative then -word else word)
  else .error .outOfBounds

def decimalSign : Text → Bool × Text
  | 43 :: t => (false, t)
  | 45 :: t => (true, t)
  | t => (false, t)

/-- `StrtoDecimal`: the word of the decimal, which stays zero when the text is refused. -/
def strtoDecimal (p s : ℕ) (t : Text) : Run ℤ := do
  let (negative, body) := decimalSign (skipSpace t)
  match ← scanDecimal body ⟨[], false, -1⟩ with
  | none => .ok 0
  | some (r, rest) =>
    match decimalWeight r rest with
    | none => .ok 0
    | some (dweight, rest) =>
      if (p : ℤ) - s < dweight then .ok 0
      else if skipSpace rest ≠ [] then .ok 0
      else decimalWord s dweight negative r.digits

def decimalBytes (sign : UInt8) (w : ℤ) : Memory :=
  List.replicate 8 0 ++ sign :: List.replicate 7 0 ++ Codec.leBytes 32 (w % 2 ^ 256).toNat

/-! ### Texts as values -/

/-- An empty text is `NULL` in a column that can be `NULL`. -/
def Column.orNull (c : Column) (t : Text) (value : Run Memory) : Run Memory :=
  if c.nullable && cStr t = [] then .ok (nullBytes L c.type) else value

def readDate (t : Text) : Run UInt32 :=
  if t.length = 8 ∧ t.all isDigit then L.fromUndelimitedString t else L.fromString t

/-- The bytes that `toValue` writes. -/
def Column.toValue (c : Column) (t : Text) : Run Memory :=
  match c.type with
  | .smallInt => c.orNull L t (.ok (Codec.leBytes 2 (strtol (cStr t) % 2 ^ 16).toNat))
  | .int => c.orNull L t (.ok (Codec.leBytes 4 (strtol (cStr t) % 2 ^ 32).toNat))
  | .uLong => c.orNull L t (.ok (Codec.leBytes 8 (strtoul (cStr t))))
  | .float => c.orNull L t (.ok (Codec.leBytes 4 (L.toFloat (L.atof (cStr t))).toNat))
  | .double => c.orNull L t (.ok (Codec.leBytes 8 (L.atof (cStr t)).toNat))
  | .string _ => c.orNull L t (.ok (cStr t ++ [0]))
  | .date => c.orNull L t do
    let d ← readDate L (cStr t)
    .ok (Codec.leBytes 4 d.toNat)
  | .time => c.orNull L t do
    let d ← L.durationFromString (cStr t)
    .ok (Codec.leBytes 8 d.toNat)
  | .datetime => c.orNull L t do
    let d ← L.timeFromString (cStr t)
    .ok (Codec.leBytes 8 d.toNat)
  | .decimal p s =>
    if (cStr t = [] ∨ cStr t = text "NULL") ∧ c.nullable then .ok (decimalBytes decimalNan 0)
    else do
      let w ← strtoDecimal p s (cStr t)
      .ok (decimalBytes 0 w)
  | .boolean =>
    .ok (Codec.leBytes 4
      (if cStr t = text "NULL" ∧ c.nullable then 2 else if cStr t = text "FALSE" then 0 else 1))
  | .uSmallInt => c.orNull L t (.ok (Codec.leBytes 2 (strtol (cStr t) % 2 ^ 16).toNat))

/-! ### The operator as `CheckAndToValue` uses it -/

variable {nullable : Bool} {t : Text} {c : Column} {b : Memory}

theorem checkSetSmall_success {least greatest : ℤ} {tooSmall tooLarge : String}
    (h : (checkSetSmall least greatest tooSmall tooLarge nullable t).1 = .success) :
    (checkSetSmall least greatest tooSmall tooLarge nullable t).2 = t := by
  refine Loader.checkNumber_success ?_ h
  intro hc
  simp only at hc ⊢
  split at hc
  · cases hc
  · split at hc
    · cases hc
    · rename_i hmin hmax
      rw [if_neg hmin, if_neg hmax]
      exact Loader.interrupt_success hc

theorem checkSetFloat_success (h : (checkSetFloat L nullable t).1 = .success) :
    (checkSetFloat L nullable t).2 = t := by
  cases t with
  | nil => rfl
  | cons c cs =>
    simp only [checkSetFloat] at h ⊢
    split at h
    · cases h
    · rename_i hfirst
      rw [if_neg hfirst]
      split at h
      · cases h
      · split at h
        · cases h
        · rename_i hmin hmax
          rw [if_neg hmin, if_neg hmax]
          exact Loader.interrupt_success h

theorem checkSetDouble_success (h : (checkSetDouble nullable t).1 = .success) :
    (checkSetDouble nullable t).2 = t := by
  unfold checkSetDouble at h ⊢
  split
  · rfl
  · rename_i hmax
    rw [if_neg hmax] at h
    refine Loader.checkNumber_success ?_ h
    intro hc
    simp only at hc ⊢
    split at hc
    · split at hc <;> cases hc
    · rename_i hlong
      rw [if_neg hlong]
      exact Loader.interrupt_success hc

theorem checkForms_success {forms : List TextForm}
    (h : (checkForms forms nullable t).1 = .success) : (checkForms forms nullable t).2 = t := by
  unfold checkForms at h ⊢
  split
  · rfl
  · rename_i hne
    rw [if_neg hne] at h
    split at h
    · cases h
    · split at h
      · rename_i hdigits
        rw [if_pos hdigits]
        unfold clamp at h ⊢
        split at h
        · cases h
        · split at h
          · cases h
          · rename_i hmin hmax
            rw [if_neg hmin, if_neg hmax]
      · cases h

theorem checkSetDecimal_snd (nullable : Bool) (t : Text) : (checkSetDecimal nullable t).2 = t := by
  unfold checkSetDecimal
  split
  · rfl
  · split <;> rfl

theorem checkSetBool_snd (nullable : Bool) (t : Text) : (checkSetBool nullable t).2 = t := by
  unfold checkSetBool
  split
  · rfl
  · split <;> rfl

theorem Column.checkSet_success (c : Column) (t : Text) (h : (c.checkSet L t).1 = .success) :
    (c.checkSet L t).2 = t := by
  obtain ⟨type, nullable⟩ := c
  cases type with
  | smallInt => exact checkSetSmall_success h
  | int => exact Loader.checkSetInt_success _ _ h
  | uLong => exact Loader.checkSetULong_success _ _ h
  | float => exact checkSetFloat_success L h
  | double => exact checkSetDouble_success h
  | string size => exact Loader.checkSetString_success _ _ _ h
  | date | time | datetime => exact checkForms_success h
  | decimal p s => exact checkSetDecimal_snd _ _
  | boolean => exact checkSetBool_snd _ _
  | uSmallInt => exact checkSetSmall_success h

def ColumnType.isFixed : ColumnType → Bool
  | .string _ => false
  | _ => true

theorem length_decimalBytes (sign : UInt8) (w : ℤ) : (decimalBytes sign w).length = 48 := by
  simp [decimalBytes]

theorem length_nullBytes {type : ColumnType} (hfixed : type.isFixed = true)
    (hdecimal : isDecimal type = false) : (nullBytes L type).length = type.getLength := by
  cases type with
  | string size => cases hfixed
  | decimal p s => cases hdecimal
  | _ => exact Codec.length_leBytes _ _

theorem Column.length_orNull {value : Run Memory} (hfixed : c.type.isFixed = true)
    (hdecimal : isDecimal c.type = false)
    (hvalue : ∀ b, value = .ok b → b.length = c.type.getLength) (h : c.orNull L t value = .ok b) :
    b.length = c.type.getLength := by
  unfold Column.orNull at h
  split at h
  · obtain rfl := Except.ok.inj h
    exact length_nullBytes L hfixed hdecimal
  · exact hvalue b h

theorem Column.length_toValue (hfixed : c.type.isFixed = true) (h : c.toValue L t = .ok b) :
    b.length = c.type.getLength := by
  obtain ⟨type, nullable⟩ := c
  -- a value of `w` bytes, possibly after a library call
  have hle : ∀ {w n : ℕ} {b : Memory}, (.ok (Codec.leBytes w n) : Run Memory) = .ok b →
      b.length = w := fun h => by
    obtain rfl := Except.ok.inj h
    exact Codec.length_leBytes _ _
  cases type with
  | string size => cases hfixed
  | smallInt | int | uLong | float | double | uSmallInt =>
    exact Column.length_orNull L rfl rfl (fun b hb => hle hb) h
  | date | time | datetime =>
    refine Column.length_orNull L rfl rfl (fun b hb => ?_) h
    obtain ⟨d, -, hd⟩ := Run.bind_eq_ok hb
    exact hle hd
  | boolean => exact hle h
  | decimal p s =>
    simp only [Column.toValue] at h
    split at h
    · obtain rfl := Except.ok.inj h
      exact length_decimalBytes _ _
    · obtain ⟨w, -, hw⟩ := Run.bind_eq_ok h
      obtain rfl := Except.ok.inj hw
      exact length_decimalBytes _ _

def Column.value (c : Column) (m : Memory) : Memory :=
  match c.type with
  | .string _ => if Loader.isNullString c.nullable m then [1] else cStr m
  | type => m.take type.getLength

theorem Column.value_of_fixed (h : c.type.isFixed = true) (m : Memory) :
    c.value m = m.take c.type.getLength := by
  obtain ⟨type, nullable⟩ := c
  cases type with
  | string size => cases h
  | _ => rfl

theorem Column.toValue_string (size : ℕ) (nullable : Bool) (t : Text) :
    Column.toValue L ⟨.string size, nullable⟩ t =
      (Loader.operateString size nullable).toValue t := by
  simp only [Column.toValue, Column.orNull, Loader.operateString, nullBytes]
  split <;> rfl

theorem Column.value_toValue (c : Column) (t : Text) (b : Memory) (h : c.toValue L t = .ok b)
    (rest : Memory) : c.value (b ++ rest) = c.value b := by
  cases hfixed : c.type.isFixed with
  | true =>
    have hlength := Column.length_toValue L hfixed h
    rw [Column.value_of_fixed hfixed, Column.value_of_fixed hfixed, List.take_left' hlength,
      List.take_of_length_le hlength.le]
  | false =>
    obtain ⟨type, nullable⟩ := c
    cases type with
    | string size =>
      rw [Column.toValue_string] at h
      exact (Loader.operateString size nullable).value_toValue t b h rest
    | _ => cases hfixed

def Column.operate (c : Column) : Operate where
  length := c.type.getLength
  checkSet := c.checkSet L
  setDefault := c.setDefault
  toValue := c.toValue L
  value := c.value
  checkSet_success := c.checkSet_success L
  value_toValue := c.value_toValue L

theorem Column.operate_string (size : ℕ) (nullable : Bool) :
    Column.operate L ⟨.string size, nullable⟩ = Loader.operateString size nullable := by
  have htoValue : Column.toValue L ⟨.string size, nullable⟩ =
      (Loader.operateString size nullable).toValue := funext (Column.toValue_string L size nullable)
  unfold Column.operate
  simp only [htoValue]
  rfl

theorem ColumnType.getLength_lt (type : ColumnType) : type.getLength < 2 ^ 32 := by
  cases type with
  | string size => exact Nat.mod_lt _ (by decide)
  | _ => simp only [ColumnType.getLength]; omega

def sampleLibrary : Library where
  atof _ := 0
  toFloat _ := 0
  showFloat _ := text "0"
  showDouble _ := text "0"
  floatMaxToInt := 2147483647
  doubleMaxToInt := 2147483647
  negInfinDate := 0
  negInfinTime := 0
  negInfinDatetime := 0
  fromString t := if t = text "2015-06-01" then .ok 1 else .error .indeterminate
  fromUndelimitedString t := if t = text "20150601" then .ok 1 else .error .indeterminate
  durationFromString t := if t = text "12:30:00" then .ok 1 else .error .indeterminate
  timeFromString t := if t = text "2015-06-01 12:30:00" then .ok 1 else .error .indeterminate
  dateText _ := text "2015-06-01"
  timeText _ := text "12:30:00"
  datetimeText _ := text "2015-06-01T12:30:00"

end Columns
