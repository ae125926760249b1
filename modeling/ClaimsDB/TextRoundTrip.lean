/-
Values that are moved as text: DELETE and UPDATE read rows as text and insert the text again.

`NULL` is a word that only decimals read; booleans are printed in capitals and accepted in small
letters; the limit of unsigned numbers looks at the twentieth digit alone; strings lose blanks and
line ends; decimals may have been rounded up to more digits than allowed.
-/
import ClaimsDB.DecimalText

namespace Columns

open List
open Loader (Text Memory RetCode text showInt isDigit isNumeric toDecimal cStr interrupt checkNumber
  strtol strtoul skipSpace decimalValue checkSetInt checkSetULong checkSetString byteAlign)
open Partitioning (intAt shortAt uShortAt uLongAt stringAt dateAt timeAt datetimeAt ttIntAt strcmp
  strcmp_eq_zero_iff decimalCompare_eq_zero_iff TTInt)

/-! ### The date library -/

structure HasForm (forms : List TextForm) (form : TextForm) (t : Text) : Prop where
  ne_nil : t ≠ []
  found : forms.find? (·.length = t.length) = some form
  digits : digitsExcept form.separators t = true
  least : ¬t < text form.least
  terminated : 0 ∉ t

def ticksPerDay : ℕ := 24 * 60 * 60 * 10 ^ 6

/-- The dates and times that columns store, which the library reads as it prints them. -/
structure Calendar (L : Library) where
  isDate : UInt32 → Prop
  isTime : UInt64 → Prop
  isDatetime : UInt64 → Prop
  date_regular : ¬isDate L.negInfinDate
  time_regular : ¬isTime L.negInfinTime
  datetime_regular : ¬isDatetime L.negInfinDatetime
  date_form : ∀ d, isDate d → ∃ form, HasForm dateForms form (L.dateText d) ∧
    ¬text form.greatest < L.dateText d
  date_length : ∀ d, isDate d → (L.dateText d).length = 10
  date_back : ∀ d, isDate d → L.fromString (L.dateText d) = .ok d
  time_form : ∀ d, isTime d → ∃ form, HasForm timeForms form (L.timeText d) ∧
    (¬text form.greatest < L.timeText d ↔ d.toNat < ticksPerDay)
  time_back : ∀ d, isTime d → L.durationFromString (L.timeText d) = .ok d
  datetime_form : ∀ d, isDatetime d → ∃ form,
    HasForm datetimeForms form ((L.datetimeText d).set 10 32) ∧
      ¬text form.greatest < (L.datetimeText d).set 10 32
  datetime_back : ∀ d, isDatetime d → L.timeFromString ((L.datetimeText d).set 10 32) = .ok d

/-! ### Round trips -/

section RoundTrips

variable (L : Library)

def RoundTrips (c : Column) (v : Memory) : Prop :=
  ∃ s b, c.toString L v = .ok s ∧ (c.checkSet L s).1 = .success ∧ c.toValue L s = .ok b ∧
    equal c.type b v = true

variable {L}

def Storable (C : Calendar L) (c : Column) (v : Memory) : Prop :=
  v.length = c.type.getLength ∧
    match c.type with
    | .float => False
    | .double => False
    | .date => (c.nullable = true ∧ dateAt v = L.negInfinDate) ∨ C.isDate (dateAt v)
    | .time => (c.nullable = true ∧ timeAt v = L.negInfinTime) ∨ C.isTime (timeAt v)
    | .datetime =>
      (c.nullable = true ∧ datetimeAt v = L.negInfinDatetime) ∨ C.isDatetime (datetimeAt v)
    | _ => True

variable (L)

def Column.holdsNull (c : Column) (v : Memory) : Bool := c.nullable && shownAsNull L c.type v

def ReadsBack (c : Column) (v : Memory) : Prop :=
  match c.type with
  | .smallInt => c.holdsNull L v = false
  | .int => c.holdsNull L v = false
  | .uSmallInt => c.holdsNull L v = false
  | .uLong => c.holdsNull L v = false ∧ (uLongAt v < 10 ^ 19 ∨ uLongAt v % 10 ≤ 1)
  | .string size =>
    v.head? ≠ some 1 ∧ (stringAt v).length ≤ size ∧ (c.nullable = true → stringAt v ≠ []) ∧
      trimSpecialCharactor (stringAt v) = stringAt v
  | .date => c.holdsNull L v = false
  | .time => c.holdsNull L v = false ∧ (timeAt v).toNat < ticksPerDay
  | .datetime => c.holdsNull L v = false
  | .boolean => False
  | .decimal p s =>
    let n := (ttIntAt v).toInt
    if signAt v = decimalNan then n = 0
    else s ≤ 30 ∧ (n = 0 ∨ ((10 : ℤ) ^ (30 - s) ∣ n ∧ integerDigits n ≤ 42 ∧
      (integerDigits n : ℤ) - 1 ≤ (p : ℤ) - s))
  | .float => False
  | .double => False

variable {L}

theorem roundTrips_iff {c : Column} {v : Memory} {s : Text} (h : c.toString L v = .ok s) :
    RoundTrips L c v ↔ (c.checkSet L s).1 = .success ∧
      ∃ b, c.toValue L s = .ok b ∧ equal c.type b v = true := by
  constructor
  · rintro ⟨s', b, hs', hset, hvalue, hequal⟩
    obtain rfl := Except.ok.inj (h.symm.trans hs')
    exact ⟨hset, b, hvalue, hequal⟩
  · rintro ⟨hset, b, hvalue, hequal⟩
    exact ⟨s, b, h, hset, hvalue, hequal⟩

variable {c : Column} {v : Memory} {s : Text} {n : ℤ} {t : Text} {nullable : Bool}
  {forms : List TextForm} {form : TextForm} {p : ℕ}

theorem Column.toString_of_holdsNull (h : c.holdsNull L v = true) :
    c.toString L v = .ok (text "NULL") := by
  rw [Column.holdsNull, Bool.and_eq_true] at h
  rw [Column.toString, h.1, h.2, Bool.true_or, Bool.and_self, if_pos rfl]

theorem Column.toString_of_value (hdecimal : isDecimal c.type = false)
    (h : c.holdsNull L v = false) : c.toString L v = valueText L c.type v := by
  rw [Column.holdsNull] at h
  rw [Column.toString, hdecimal, Bool.or_false, h, if_neg (by decide)]

theorem checkSet_null {type : ColumnType} (h : isNumber type = true) (nullable : Bool) :
    (Column.checkSet L ⟨type, nullable⟩ (text "NULL")).1 ≠ .success := by
  cases type with
  | string size => cases h
  | decimal p s => cases h
  | double =>
    have hmax : text "NULL" ≠ doubleMaxText := fun heq =>
      toDecimal_append_ne_null ((2 ^ 53 - 1) * 2 ^ 971) [] (by rw [append_nil]; exact heq.symm)
    show (checkSetDouble nullable (text "NULL")).1 ≠ .success
    unfold checkSetDouble
    rw [decide_eq_false hmax, Bool.false_and, if_neg (by decide)]
    cases nullable <;> decide
  | _ =>
    cases nullable with
    | false => intro h; cases h
    | true => intro h; cases h

theorem not_roundTrips_null (hnumber : isNumber c.type = true) (h : c.holdsNull L v = true) :
    ¬RoundTrips L c v := by
  rw [roundTrips_iff (Column.toString_of_holdsNull h)]
  exact fun hset => checkSet_null hnumber c.nullable hset.1

theorem roundTrips_number {c : Column} {v : Memory} {s : Text} {P : Prop}
    (hnumber : isNumber c.type = true) (hs : valueText L c.type v = .ok s)
    (h : c.holdsNull L v = false → (((c.checkSet L s).1 = .success ∧
      ∃ b, c.toValue L s = .ok b ∧ equal c.type b v = true) ↔ P)) :
    RoundTrips L c v ↔ c.holdsNull L v = false ∧ P := by
  have hdecimal : isDecimal c.type = false := by
    cases htype : c.type with
    | decimal p s => rw [htype] at hnumber; cases hnumber
    | _ => rfl
  cases hnull : c.holdsNull L v with
  | true => exact iff_of_false (not_roundTrips_null hnumber hnull) fun h => by cases h.1
  | false =>
    rw [roundTrips_iff ((Column.toString_of_value hdecimal hnull).trans hs), h hnull]
    exact (and_iff_right rfl).symm

theorem roundTrips_of_readBack {b : Memory} (hnumber : isNumber c.type = true)
    (hs : valueText L c.type v = .ok s)
    (hset : c.holdsNull L v = false → (c.checkSet L s).1 = .success)
    (hvalue : c.toValue L s = .ok b) (hequal : equal c.type b v = true) :
    RoundTrips L c v ↔ c.holdsNull L v = false := by
  rw [roundTrips_number (P := True) hnumber hs fun hnull =>
    iff_true_intro ⟨hset hnull, b, hvalue, hequal⟩]
  exact and_iff_left trivial

/-! ### Integers -/

theorem isNumeric_of_mem_showInt : ∀ c ∈ showInt n, isNumeric c = true := by
  intro c hc
  rw [showInt] at hc
  have hdigit : ∀ c ∈ toDecimal n.natAbs, isNumeric c = true := fun c hc => by
    rw [isNumeric, Loader.isDigit_of_mem_toDecimal c hc, Bool.true_or, Bool.true_or]
  split at hc
  · obtain rfl | hc := List.mem_cons.mp hc
    · rfl
    · exact hdigit c hc
  · exact hdigit c hc

theorem exists_showInt_cons (n : ℤ) :
    ∃ c cs, showInt n = c :: cs ∧ (isDigit c = true ∨ c = 45) := by
  rw [showInt]
  split
  · exact ⟨45, _, rfl, .inr rfl⟩
  · obtain ⟨c, cs, hn, hc, -⟩ := Loader.exists_toDecimal_cons n.natAbs
    exact ⟨c, cs, hn, .inl hc⟩

theorem showInt_ne_nil (n : ℤ) : showInt n ≠ [] := by
  obtain ⟨c, cs, hn, -⟩ := exists_showInt_cons n
  rw [hn]
  exact cons_ne_nil _ _

theorem cStr_of_not_mem (h : 0 ∉ t) : cStr t = t := by
  refine List.takeWhile_eq_self_iff.mpr fun c hc => ?_
  rw [decide_eq_true_eq]
  rintro rfl
  exact h hc

theorem cStr_showInt (n : ℤ) : cStr (showInt n) = showInt n := by
  refine cStr_of_not_mem fun hzero => ?_
  cases isNumeric_of_mem_showInt 0 hzero

theorem interrupt_showInt (k : ℕ) (n : ℤ) : interrupt k (showInt n) = (.success, showInt n) :=
  if_pos (List.all_eq_true.mpr fun c hc => isNumeric_of_mem_showInt c (mem_of_mem_drop hc))

theorem checkNumber_showInt (nullable : Bool) (n : ℤ) (check : Text → RetCode × Text) :
    checkNumber nullable (showInt n) check = check (showInt n) := by
  obtain ⟨c, cs, hn, hc⟩ := exists_showInt_cons n
  rw [hn, checkNumber]
  refine if_neg ?_
  obtain hc | rfl := hc
  · simp [hc]
  · decide

theorem strtol_showInt_of_abs (hlow : -2 ^ 32 ≤ n) (hhigh : n ≤ 2 ^ 32) :
    strtol (cStr (showInt n)) = n := by
  rw [cStr_showInt, Loader.strtol_showInt (by omega) (by omega)]

theorem checkSetSmall_showInt {least greatest : ℤ} (hlow : -2 ^ 32 ≤ n) (hhigh : n ≤ 2 ^ 32)
    (hleast : least ≤ n) (hgreatest : n ≤ greatest) (hnull : ¬(n = greatest ∧ nullable = true))
    (tooSmall tooLarge : String) :
    (checkSetSmall least greatest tooSmall tooLarge nullable (showInt n)).1 = .success := by
  rw [checkSetSmall, checkNumber_showInt]
  simp only [interrupt_showInt, strtol_showInt_of_abs hlow hhigh]
  rw [if_neg (by omega), if_neg]
  simp only [Bool.or_eq_true, Bool.and_eq_true, decide_eq_true_eq]
  rintro (hlarge | hmax)
  · omega
  · exact hnull hmax

theorem checkSetInt_showInt (hlow : -2 ^ 31 ≤ n) (hhigh : n ≤ 2 ^ 31 - 1)
    (hnull : ¬(n = 2 ^ 31 - 1 ∧ nullable = true)) :
    (checkSetInt nullable (showInt n)).1 = .success := by
  rw [checkSetInt, checkNumber_showInt]
  simp only [interrupt_showInt, strtol_showInt_of_abs (by omega : -2 ^ 32 ≤ n) (by omega)]
  rw [if_neg (by omega), if_neg]
  simp only [Bool.or_eq_true, Bool.and_eq_true, decide_eq_true_eq]
  rintro (hlarge | hmax)
  · omega
  · exact hnull hmax

theorem ofLe_wrapped (w : ℕ) (n : ℤ) :
    (Codec.ofLe (Codec.leBytes w (n % (256 ^ w : ℕ)).toNat) : ℤ) = n % (256 ^ w : ℕ) := by
  have hpos : (0 : ℤ) < (256 ^ w : ℕ) := by positivity
  have hlow := Int.emod_nonneg n hpos.ne'
  have hhigh := Int.emod_lt_of_pos n hpos
  rw [Codec.ofLe_leBytes, Nat.mod_eq_of_lt (by omega), Int.toNat_of_nonneg hlow]

theorem Column.orNull_of_ne_nil (ht : cStr t ≠ []) (value : Run Memory) :
    c.orNull L t value = value := by
  rw [Column.orNull, decide_eq_false ht, Bool.and_false, if_neg (by decide)]

theorem orNull_showInt (n : ℤ) (value : Run Memory) : c.orNull L (showInt n) value = value :=
  Column.orNull_of_ne_nil (by rw [cStr_showInt]; exact showInt_ne_nil n) value

theorem shortAt_wrapped (n : ℤ) :
    shortAt (Codec.leBytes 2 (n % 2 ^ 16).toNat) = Int.bmod n (2 ^ 16) := by
  unfold shortAt
  rw [bits16_toNat (Codec.length_leBytes _ _)]
  exact (congrArg (Int.bmod · (2 ^ 16)) (ofLe_wrapped 2 n)).trans (Int.emod_bmod n (2 ^ 16))

theorem uShortAt_wrapped (n : ℤ) : uShortAt (Codec.leBytes 2 (n % 2 ^ 16).toNat) = n % 2 ^ 16 := by
  unfold uShortAt
  rw [bits16_toNat (Codec.length_leBytes _ _)]
  exact ofLe_wrapped 2 n

theorem intAt_wrapped (n : ℤ) :
    intAt (Codec.leBytes 4 (n % 2 ^ 32).toNat) = Int.bmod n (2 ^ 32) := by
  rw [intAt_eq (Codec.length_leBytes _ _)]
  exact (congrArg (Int.bmod · (2 ^ 32)) (ofLe_wrapped 4 n)).trans (Int.emod_bmod n (2 ^ 32))

theorem bmod_shortAt (v : Memory) : Int.bmod (shortAt v) (2 ^ 16) = shortAt v := by
  unfold shortAt
  exact Int.bmod_bmod

theorem holdsNull_eq_false_iff :
    c.holdsNull L v = false ↔ ¬(shownAsNull L c.type v = true ∧ c.nullable = true) := by
  rw [Column.holdsNull, ← Bool.not_eq_true, Bool.and_eq_true, and_comm]

theorem roundTrips_smallInt (nullable : Bool) (v : Memory) :
    RoundTrips L ⟨.smallInt, nullable⟩ v ↔ Column.holdsNull L ⟨.smallInt, nullable⟩ v = false := by
  have hlow : -2 ^ 15 ≤ shortAt v := by
    rw [← bmod_shortAt]
    exact Int.le_bmod (by norm_num)
  have hhigh : shortAt v < 2 ^ 15 := by
    rw [← bmod_shortAt]
    exact Int.bmod_lt (by norm_num)
  refine roundTrips_of_readBack rfl rfl (fun hnull => ?_) (orNull_showInt _ _) ?_
  · rw [holdsNull_eq_false_iff, shownAsNull, decide_eq_true_eq] at hnull
    rw [Column.checkSet, checkSetSmallInt]
    exact checkSetSmall_showInt (by omega) (by omega) hlow (by omega) hnull _ _
  · rw [strtol_showInt_of_abs (by omega) (by omega), equal, decide_eq_true_eq, shortAt_wrapped,
      bmod_shortAt]

theorem roundTrips_uSmallInt (nullable : Bool) (v : Memory) :
    RoundTrips L ⟨.uSmallInt, nullable⟩ v ↔
      Column.holdsNull L ⟨.uSmallInt, nullable⟩ v = false := by
  have hlow : 0 ≤ uShortAt v := Int.natCast_nonneg _
  have hhigh : uShortAt v < 2 ^ 16 := by
    have hlt := (Codec.uint16.load 0 v).toNat_lt
    unfold uShortAt
    omega
  refine roundTrips_of_readBack rfl rfl (fun hnull => ?_) (orNull_showInt _ _) ?_
  · rw [holdsNull_eq_false_iff, shownAsNull, decide_eq_true_eq] at hnull
    exact checkSetSmall_showInt (by omega) (by omega) hlow (by omega) hnull _ _
  · rw [strtol_showInt_of_abs (by omega) (by omega), equal, decide_eq_true_eq, uShortAt_wrapped,
      Int.emod_eq_of_lt hlow hhigh]

theorem roundTrips_int (nullable : Bool) (hv : v.length = 4) :
    RoundTrips L ⟨.int, nullable⟩ v ↔ Column.holdsNull L ⟨.int, nullable⟩ v = false := by
  have hbmod : Int.bmod (intAt v) (2 ^ 32) = intAt v := by
    rw [intAt_eq hv]
    exact Int.bmod_bmod
  have hlow : -2 ^ 31 ≤ intAt v := by
    rw [← hbmod]
    exact Int.le_bmod (by norm_num)
  have hhigh : intAt v < 2 ^ 31 := by
    rw [← hbmod]
    exact Int.bmod_lt (by norm_num)
  refine roundTrips_of_readBack rfl rfl (fun hnull => ?_) (orNull_showInt _ _) ?_
  · rw [holdsNull_eq_false_iff, shownAsNull, decide_eq_true_eq] at hnull
    exact checkSetInt_showInt hlow (by omega) hnull
  · rw [strtol_showInt_of_abs (by omega) (by omega), equal, decide_eq_true_eq, intAt_wrapped, hbmod]

/-! ### Unsigned numbers -/

theorem checkSetULong_toDecimal {n : ℕ} (hn : n < 2 ^ 64) (nullable : Bool) :
    (checkSetULong nullable (toDecimal n)).1 = .success ↔ n < 10 ^ 19 ∨ n % 10 ≤ 1 := by
  have hmax : toDecimal n ≠ text "18446744073709551616" := by
    intro heq
    have hvalue := congrArg decimalValue heq
    rw [Loader.decimalValue_toDecimal] at hvalue
    have hconst : decimalValue (text "18446744073709551616") = 2 ^ 64 := by decide
    omega
  have hdigits := Loader.isDigit_of_mem_toDecimal (n := n)
  obtain ⟨c, cs, hcons, hc, -⟩ := Loader.exists_toDecimal_cons n
  have hminus : (toDecimal n).head? ≠ some 45 := by
    rw [hcons, head?_cons, ne_eq, Option.some.injEq]
    exact Loader.ne_of_isDigit hc (by decide)
  have hpoint : (toDecimal n).takeWhile (· ≠ 46) = toDecimal n := by
    refine List.takeWhile_eq_self_iff.mpr fun d hd => ?_
    rw [decide_eq_true_eq]
    exact Loader.ne_of_isDigit (hdigits d hd) (by decide)
  have hshort : (toDecimal n).length ≤ 19 ↔ n < 10 ^ 19 :=
    Loader.length_toDecimal_le_iff (by decide)
  have hlong : (toDecimal n).length ≤ 20 :=
    (Loader.length_toDecimal_le_iff (by decide)).mpr (hn.trans (by norm_num))
  have hcheck : (checkSetULong nullable (toDecimal n)).1 = .success ↔
      ¬(20 ≤ (toDecimal n).length ∧ 49 < (toDecimal n).getD 19 0) := by
    have hnumber := checkNumber_showInt nullable n
    have hwhole := interrupt_showInt 0 n
    rw [Loader.showInt_natCast] at hnumber hwhole
    rw [checkSetULong, decide_eq_false hmax, Bool.false_and, if_neg (by decide), hnumber]
    simp only [hwhole, hpoint]
    rw [if_neg hminus]
    split_ifs with hlarge
    · rw [Bool.and_eq_true, decide_eq_true_eq, decide_eq_true_eq] at hlarge
      exact iff_of_false (fun h => by cases h) fun h => h hlarge
    · rw [Bool.and_eq_true, decide_eq_true_eq, decide_eq_true_eq] at hlarge
      exact iff_of_true rfl hlarge
  rw [hcheck]
  by_cases htwenty : 20 ≤ (toDecimal n).length
  · -- the twentieth digit is the last
    have hlast : (toDecimal n).getD 19 0 = UInt8.ofNat (48 + n % 10) := by
      have hget := Loader.getLast?_toDecimal n
      rw [getLast?_eq_getElem?, show (toDecimal n).length - 1 = 19 by omega] at hget
      rw [getD_eq_getElem?_getD, hget, Option.getD_some]
    have hlt : n % 10 < 10 := Nat.mod_lt _ (by decide)
    have hdigit : (49 : UInt8) < UInt8.ofNat (48 + n % 10) ↔ 1 < n % 10 := by
      rw [UInt8.lt_iff_toNat_lt, UInt8.toNat_ofNat', Nat.mod_eq_of_lt (by omega)]
      exact (by omega : 49 < 48 + n % 10 ↔ 1 < n % 10)
    rw [hlast, hdigit]
    omega
  · exact iff_of_true (fun h => htwenty h.1) (.inl (hshort.mp (by omega)))

theorem load_uint64_leBytes (d : UInt64) : Codec.uint64.load 0 (Codec.leBytes 8 d.toNat) = d := by
  have hread := bits64At_toNat (Codec.length_leBytes 8 d.toNat)
  rw [Codec.ofLe_leBytes, Nat.mod_eq_of_lt (show d.toNat < 256 ^ 8 from d.toNat_lt)] at hread
  exact UInt64.toNat_inj.mp hread

theorem load_uint32_leBytes (d : UInt32) : Codec.uint32.load 0 (Codec.leBytes 4 d.toNat) = d := by
  have hread := bits32At_toNat (Codec.length_leBytes 4 d.toNat)
  rw [Codec.ofLe_leBytes, Nat.mod_eq_of_lt (show d.toNat < 256 ^ 4 from d.toNat_lt)] at hread
  exact UInt32.toNat_inj.mp hread

theorem toValue_uLong {n : ℕ} (hn : n < 2 ^ 64) (nullable : Bool) :
    Column.toValue L ⟨.uLong, nullable⟩ (toDecimal n) = .ok (Codec.leBytes 8 n) := by
  have hcStr : cStr (toDecimal n) = toDecimal n :=
    Loader.cStr_of_digits Loader.isDigit_of_mem_toDecimal
  refine (Column.orNull_of_ne_nil ?_ _).trans ?_
  · rw [hcStr]
    exact Loader.toDecimal_ne_nil n
  · rw [hcStr, Loader.strtoul_toDecimal hn]

theorem roundTrips_uLong (nullable : Bool) (v : Memory) :
    RoundTrips L ⟨.uLong, nullable⟩ v ↔ Column.holdsNull L ⟨.uLong, nullable⟩ v = false ∧
      (uLongAt v < 10 ^ 19 ∨ uLongAt v % 10 ≤ 1) := by
  have hn := (Codec.uint64.load 0 v).toNat_lt
  have hshown : valueText L .uLong v = .ok (toDecimal (Codec.uint64.load 0 v).toNat) :=
    congrArg Except.ok (Loader.showInt_natCast _)
  refine roundTrips_number rfl hshown fun _ => ?_
  have hequal : equal .uLong (Codec.leBytes 8 (Codec.uint64.load 0 v).toNat) v = true := by
    rw [equal, decide_eq_true_eq, uLongAt, uLongAt, load_uint64_leBytes]
  refine (and_iff_left ⟨_, toValue_uLong hn nullable, hequal⟩).trans
    ((checkSetULong_toDecimal hn nullable).trans ?_)
  unfold uLongAt
  omega

/-! ### Strings -/

theorem trimLeft_eq_nil (h : trimLeft t = []) : t = [] := by
  induction t with
  | nil => rfl
  | cons c t ih =>
    cases t with
    | nil => cases h
    | cons d t =>
      rw [trimLeft] at h
      split at h
      · cases ih h
      · cases h

theorem trimSpecialCharactor_eq_nil (h : trimSpecialCharactor t = []) : t = [] := by
  rw [trimSpecialCharactor, reverse_eq_nil_iff] at h
  exact trimLeft_eq_nil (List.reverse_eq_nil_iff.mp (trimLeft_eq_nil h))

theorem trimLeft_suffix (t : Text) : trimLeft t <:+ t := by
  induction t with
  | nil => exact suffix_rfl
  | cons c t ih =>
    cases t with
    | nil => exact suffix_rfl
    | cons d t =>
      rw [trimLeft]
      split
      · exact ih.trans (suffix_cons c _)
      · exact suffix_rfl

theorem mem_of_mem_trim {c : UInt8} (h : c ∈ trimSpecialCharactor t) : c ∈ t := by
  rw [trimSpecialCharactor, mem_reverse] at h
  exact (trimLeft_suffix t).subset (List.mem_reverse.mp ((trimLeft_suffix _).subset h))

theorem trimLeft_of_head {c : UInt8} (h : isSpecialCharactor c = false) :
    trimLeft (c :: t) = c :: t := by
  cases t with
  | nil => rfl
  | cons d t => rw [trimLeft, if_neg (by rw [h]; decide)]

theorem head?_trim {c : UInt8} (h : isSpecialCharactor c = false) (ht : t.head? = some c) :
    (trimSpecialCharactor t).head? = some c := by
  obtain ⟨t, rfl⟩ := List.head?_eq_some_iff.mp ht
  have hprefix : trimSpecialCharactor (c :: t) <+: c :: t := by
    rw [trimSpecialCharactor, trimLeft_of_head h, ← reverse_suffix, reverse_reverse]
    exact trimLeft_suffix _
  cases htrim : trimSpecialCharactor (c :: t) with
  | nil => cases trimSpecialCharactor_eq_nil htrim
  | cons d t' =>
    rw [htrim] at hprefix
    rw [head?_cons, (List.cons_prefix_cons.mp hprefix).1]

theorem zero_not_mem_stringAt (v : Memory) : 0 ∉ stringAt v := by
  intro h
  simpa using mem_takeWhile_imp h

theorem stringAt_terminated (h : 0 ∉ t) : stringAt (t ++ [0]) = t := by
  have hall : ∀ c ∈ t, decide (c ≠ 0) = true := by
    intro c hc
    rw [decide_eq_true_eq]
    rintro rfl
    exact h hc
  rw [stringAt, takeWhile_append_of_pos hall, takeWhile_cons_of_neg (by decide),
    append_nil]

theorem checkSet_string (size : ℕ) (nullable : Bool) (t : Text) :
    Column.checkSet L ⟨.string size, nullable⟩ t =
      if t.head? = some 1 then (if nullable then .success else .invalidNullData, t)
      else if size < t.length then (.tooLongData, t.take size)
      else (.success, t) := rfl

theorem toValue_string (size : ℕ) (nullable : Bool) (t : Text) :
    Column.toValue L ⟨.string size, nullable⟩ t =
      if nullable && cStr t = [] then .ok [1] else .ok (cStr t ++ [0]) := rfl

theorem not_roundTrips_nullString {size : ℕ} (h : v.head? = some 1) :
    ¬RoundTrips L ⟨.string size, nullable⟩ v := by
  have hshown : shownAsNull L (.string size) v = true := decide_eq_true h
  have hhead := (head?_stringAt v).mpr h
  cases nullable with
  | true =>
    -- the word is read as a text
    have htext : Column.toString L ⟨.string size, true⟩ v = .ok (text "NULL") :=
      Column.toString_of_holdsNull (by rw [Column.holdsNull, hshown, Bool.and_self])
    rw [roundTrips_iff htext]
    rintro ⟨-, b, hb, hequal⟩
    obtain rfl : text "NULL" ++ [0] = b := Except.ok.inj hb
    rw [equal, decide_eq_true_eq, strcmp_eq_zero_iff] at hequal
    rw [← hequal] at hhead
    cases hhead
  | false =>
    have htext : Column.toString L ⟨.string size, false⟩ v =
        .ok (trimSpecialCharactor (stringAt v)) := Column.toString_of_value rfl rfl
    rw [roundTrips_iff htext, checkSet_string, if_pos (head?_trim rfl hhead)]
    rintro ⟨hset, -⟩
    cases hset

theorem roundTrips_string (size : ℕ) (nullable : Bool) (v : Memory) :
    RoundTrips L ⟨.string size, nullable⟩ v ↔
      v.head? ≠ some 1 ∧ (stringAt v).length ≤ size ∧ (nullable = true → stringAt v ≠ []) ∧
        trimSpecialCharactor (stringAt v) = stringAt v := by
  by_cases hnull : v.head? = some 1
  · exact iff_of_false (not_roundTrips_nullString hnull) fun h => h.1 hnull
  have htext : Column.toString L ⟨.string size, nullable⟩ v =
      .ok (trimSpecialCharactor (stringAt v)) := by
    refine Column.toString_of_value rfl ?_
    rw [Column.holdsNull, shownAsNull, decide_eq_false hnull, Bool.and_false]
  have hhead : (stringAt v).head? ≠ some 1 := fun h => hnull ((head?_stringAt v).mp h)
  have hzero : 0 ∉ trimSpecialCharactor (stringAt v) := fun h =>
    zero_not_mem_stringAt v (mem_of_mem_trim h)
  have hcStr := cStr_of_not_mem hzero
  rw [roundTrips_iff htext]
  constructor
  · rintro ⟨hset, b, hb, hequal⟩
    rw [equal, decide_eq_true_eq, strcmp_eq_zero_iff] at hequal
    rw [toValue_string, hcStr] at hb
    split at hb
    · obtain rfl : [1] = b := Except.ok.inj hb
      exact absurd (congrArg List.head? hequal).symm hhead
    · rename_i hempty
      obtain rfl := Except.ok.inj hb
      rw [stringAt_terminated hzero] at hequal
      rw [checkSet_string, hequal, if_neg hhead] at hset
      split at hset
      · cases hset
      · rename_i hshort
        rw [hequal] at hempty
        refine ⟨hnull, by omega, fun hnullable hnil => hempty ?_, hequal⟩
        rw [hnil, hnullable]
        rfl
  · rintro ⟨-, hlength, hne, htrim⟩
    rw [htrim] at hcStr ⊢
    refine ⟨?_, stringAt v ++ [0], ?_, ?_⟩
    · rw [checkSet_string, if_neg hhead, if_neg (by omega)]
    · rw [toValue_string, hcStr, if_neg]
      rw [Bool.and_eq_true, decide_eq_true_eq]
      exact fun h => hne h.1 h.2
    · rw [equal, decide_eq_true_eq, strcmp_eq_zero_iff,
        stringAt_terminated (zero_not_mem_stringAt v)]

/-! ### Dates and times -/

theorem checkForms_success_iff (h : HasForm forms form t) (nullable : Bool) :
    (checkForms forms nullable t).1 = .success ↔ ¬text form.greatest < t := by
  unfold checkForms
  rw [if_neg h.ne_nil, h.found]
  simp only
  rw [if_pos h.digits, clamp, if_neg h.least]
  split_ifs with hgreatest
  · exact iff_of_false (fun h => by cases h) fun h => h hgreatest
  · exact iff_of_true rfl hgreatest

theorem orNull_of_hasForm (h : HasForm forms form t) (value : Run Memory) :
    c.orNull L t value = value :=
  Column.orNull_of_ne_nil (by rw [cStr_of_not_mem h.terminated]; exact h.ne_nil) value

theorem roundTrips_date (C : Calendar L)
    (h : (nullable = true ∧ dateAt v = L.negInfinDate) ∨ C.isDate (dateAt v)) :
    RoundTrips L ⟨.date, nullable⟩ v ↔ Column.holdsNull L ⟨.date, nullable⟩ v = false := by
  obtain ⟨rfl, hnull⟩ | hdate := h
  · have hholds : Column.holdsNull L ⟨.date, true⟩ v = true := decide_eq_true hnull
    rw [hholds]
    exact iff_of_false (not_roundTrips_null rfl hholds) (by decide)
  · obtain ⟨form, hform, hgreatest⟩ := C.date_form _ hdate
    have hread : readDate L (cStr (L.dateText (dateAt v))) = .ok (dateAt v) := by
      rw [cStr_of_not_mem hform.terminated, readDate, if_neg, C.date_back _ hdate]
      rw [C.date_length _ hdate]
      exact fun h => absurd h.1 (by decide)
    refine roundTrips_of_readBack rfl rfl (fun _ => ?_) ((orNull_of_hasForm hform _).trans ?_)
      (b := Codec.leBytes 4 (dateAt v).toNat) ?_
    · exact (checkForms_success_iff hform nullable).mpr hgreatest
    · rw [hread]
      rfl
    · exact decide_eq_true (load_uint32_leBytes _)

theorem roundTrips_time (C : Calendar L)
    (h : (nullable = true ∧ timeAt v = L.negInfinTime) ∨ C.isTime (timeAt v)) :
    RoundTrips L ⟨.time, nullable⟩ v ↔ Column.holdsNull L ⟨.time, nullable⟩ v = false ∧
      (timeAt v).toNat < ticksPerDay := by
  obtain ⟨rfl, hnull⟩ | htime := h
  · have hholds : Column.holdsNull L ⟨.time, true⟩ v = true := decide_eq_true hnull
    rw [hholds]
    exact iff_of_false (not_roundTrips_null rfl hholds) fun h => by cases h.1
  · obtain ⟨form, hform, hgreatest⟩ := C.time_form _ htime
    refine roundTrips_number rfl rfl fun _ => ?_
    have hvalue : Column.toValue L ⟨.time, nullable⟩ (L.timeText (timeAt v)) =
        .ok (Codec.leBytes 8 (timeAt v).toNat) := by
      refine (orNull_of_hasForm hform _).trans ?_
      rw [cStr_of_not_mem hform.terminated, C.time_back _ htime]
      rfl
    refine (and_iff_left ⟨_, hvalue, ?_⟩).trans
      ((checkForms_success_iff hform nullable).trans hgreatest)
    rw [equal, decide_eq_true_eq]
    exact load_uint64_leBytes _

theorem roundTrips_datetime (C : Calendar L)
    (h : (nullable = true ∧ datetimeAt v = L.negInfinDatetime) ∨ C.isDatetime (datetimeAt v)) :
    RoundTrips L ⟨.datetime, nullable⟩ v ↔
      Column.holdsNull L ⟨.datetime, nullable⟩ v = false := by
  obtain ⟨rfl, hnull⟩ | hdatetime := h
  · have hholds : Column.holdsNull L ⟨.datetime, true⟩ v = true := decide_eq_true hnull
    rw [hholds]
    exact iff_of_false (not_roundTrips_null rfl hholds) (by decide)
  · obtain ⟨form, hform, hgreatest⟩ := C.datetime_form _ hdatetime
    refine roundTrips_of_readBack rfl rfl (fun _ => ?_) ((orNull_of_hasForm hform _).trans ?_)
      (b := Codec.leBytes 8 (datetimeAt v).toNat) ?_
    · exact (checkForms_success_iff hform nullable).mpr hgreatest
    · rw [cStr_of_not_mem hform.terminated, C.datetime_back _ hdatetime]
      rfl
    · rw [equal, decide_eq_true_eq]
      exact load_uint64_leBytes _

/-! ### Booleans -/

theorem not_roundTrips_boolean (nullable : Bool) (v : Memory) :
    ¬RoundTrips L ⟨.boolean, nullable⟩ v := by
  cases hnull : Column.holdsNull L ⟨.boolean, nullable⟩ v with
  | true => exact not_roundTrips_null rfl hnull
  | false =>
    rw [roundTrips_iff (Column.toString_of_value rfl hnull)]
    rintro ⟨hset, -⟩
    revert hset
    show (checkSetBool nullable (if intAt v = 0 then text "FALSE" else text "TRUE")).1 ≠ .success
    split <;> cases nullable <;> decide

/-! ### Decimals -/

theorem equal_decimalBytes_iff {s : ℕ} {sign : UInt8} {m : ℤ} :
    equal (.decimal p s) (decimalBytes sign m) v = true ↔
      Int.bmod m (2 ^ 256) = (ttIntAt v).toInt := by
  rw [equal, decide_eq_true_eq, decimalCompare_eq_zero_iff, ← Partitioning.TTInt.toInt_inj,
    toInt_decimalBytes]

theorem toValue_decimal (p s : ℕ) (nullable : Bool) (t : Text) :
    Column.toValue L ⟨.decimal p s, nullable⟩ t =
      if (cStr t = [] ∨ cStr t = text "NULL") ∧ nullable then .ok (decimalBytes decimalNan 0)
      else strtoDecimal p s (cStr t) >>= fun w => .ok (decimalBytes 0 w) := rfl

theorem strtoDecimal_null (p s : ℕ) : strtoDecimal p s (text "NULL") = .ok 0 := by
  have hscan : scanDecimal (text "NULL") ⟨[], false, -1⟩ =
      .ok (some (⟨[], false, -1⟩, text "NULL")) := rfl
  show (scanDecimal (text "NULL") ⟨[], false, -1⟩ >>= _) = _
  rw [hscan, Run.bind_ok]
  show (if (p : ℤ) - s < -1 then (.ok 0 : Run ℤ) else
    if skipSpace (text "NULL") ≠ [] then .ok 0 else _) = _
  rw [if_pos (by decide : skipSpace (text "NULL") ≠ []), ite_self]

theorem roundTrips_nullDecimal {s : ℕ} (h : signAt v = decimalNan) :
    RoundTrips L ⟨.decimal p s, nullable⟩ v ↔ (ttIntAt v).toInt = 0 := by
  have htext : Column.toString L ⟨.decimal p s, nullable⟩ v = .ok (text "NULL") := by
    have hshown : shownAsNull L (.decimal p s) v = true := decide_eq_true h
    rw [Column.toString, hshown, isDecimal, Bool.or_true, Bool.and_self, if_pos rfl]
  have hset : (Column.checkSet L ⟨.decimal p s, nullable⟩ (text "NULL")).1 = .success := by
    cases nullable <;> rfl
  obtain ⟨sign, hvalue⟩ : ∃ sign,
      Column.toValue L ⟨.decimal p s, nullable⟩ (text "NULL") = .ok (decimalBytes sign 0) := by
    have hcStr : cStr (text "NULL") = text "NULL" := by decide
    rw [toValue_decimal, hcStr]
    cases nullable with
    | true => exact ⟨_, if_pos ⟨.inr rfl, rfl⟩⟩
    | false => exact ⟨0, by rw [if_neg (by decide), strtoDecimal_null]; rfl⟩
  have hzero : Int.bmod 0 (2 ^ 256) = 0 := rfl
  rw [roundTrips_iff htext]
  constructor
  · rintro ⟨-, b, hb, hequal⟩
    obtain rfl := Except.ok.inj (hvalue.symm.trans hb)
    rw [equal_decimalBytes_iff, hzero] at hequal
    exact hequal.symm
  · intro hn
    exact ⟨hset, _, hvalue, equal_decimalBytes_iff.mpr (hzero.trans hn.symm)⟩

theorem printed_ne {s : ℕ} (hs : s ≤ 30) (ht : decimalToString s n = .ok t) :
    t ≠ [] ∧ t ≠ text "NULL" ∧ cStr t = t := by
  obtain ⟨F, htext, hF, hdigits, -⟩ := exists_decimalToString hs n
  have hnull : t ≠ text "NULL" := by
    rintro rfl
    exact decimalToString_ne_null s n ht
  obtain rfl := Except.ok.inj (htext.symm.trans ht)
  refine ⟨?_, hnull, cStr_of_not_mem ?_⟩
  · intro hnil
    rw [append_eq_nil_iff, append_eq_nil_iff] at hnil
    exact Loader.toDecimal_ne_nil _ hnil.1.2
  · -- signs, digits and the point are no zeros
    have hzero : isDigit 0 = false := rfl
    intro hmem
    rw [mem_append, mem_append] at hmem
    obtain (hmem | hmem) | hmem := hmem
    · split at hmem
      · cases List.mem_singleton.mp hmem
      · cases hmem
    · cases (Loader.isDigit_of_mem_toDecimal 0 hmem).symm.trans hzero
    · split at hmem
      · obtain hmem | hmem := List.mem_cons.mp hmem
        · cases hmem
        · cases (hdigits 0 (mem_of_mem_take hmem)).symm.trans hzero
      · cases hmem

theorem roundTrips_decimal (p s : ℕ) (nullable : Bool) (v : Memory) :
    RoundTrips L ⟨.decimal p s, nullable⟩ v ↔ ReadsBack L ⟨.decimal p s, nullable⟩ v := by
  show _ ↔ if signAt v = decimalNan then _ else _
  by_cases hnan : signAt v = decimalNan
  · rw [if_pos hnan]
    exact roundTrips_nullDecimal hnan
  rw [if_neg hnan]
  have hshown : Column.toString L ⟨.decimal p s, nullable⟩ v =
      decimalToString s (ttIntAt v).toInt := by
    have hfalse : shownAsNull L (.decimal p s) v = false := decide_eq_false hnan
    rw [Column.toString, hfalse, Bool.and_false, if_neg (by decide)]
    rfl
  by_cases hs : s ≤ 30
  · obtain ⟨t, ht⟩ : ∃ t, decimalToString s (ttIntAt v).toInt = .ok t := by
      obtain ⟨F, ht, -⟩ := exists_decimalToString hs (ttIntAt v).toInt
      exact ⟨_, ht⟩
    obtain ⟨hnil, hnull, hcStr⟩ := printed_ne hs ht
    have hset : (Column.checkSet L ⟨.decimal p s, nullable⟩ t).1 = .success := by
      show (checkSetDecimal nullable t).1 = .success
      rw [checkSetDecimal, if_neg (fun h => h.1.elim hnil hnull), if_neg hnil]
    have hvalue : Column.toValue L ⟨.decimal p s, nullable⟩ t =
        strtoDecimal p s t >>= fun w => .ok (decimalBytes 0 w) := by
      rw [toValue_decimal, hcStr, if_neg (fun h => h.1.elim hnil hnull)]
    have hrange : Int.bmod (ttIntAt v).toInt (2 ^ 256) = (ttIntAt v).toInt := Int.bmod_bmod
    rw [roundTrips_iff (hshown.trans ht), and_iff_right hset, hvalue, and_iff_right hs,
      ← strtoDecimal_printed_iff hs p hrange ht]
    constructor
    · rintro ⟨b, hb, hequal⟩
      obtain ⟨m, hm, hb⟩ := Run.bind_eq_ok hb
      obtain rfl := Except.ok.inj hb
      exact ⟨m, hm, equal_decimalBytes_iff.mp hequal⟩
    · rintro ⟨m, hm, hbmod⟩
      exact ⟨_, by rw [hm]; rfl, equal_decimalBytes_iff.mpr hbmod⟩
  · -- `erase` throws
    refine iff_of_false ?_ fun h => hs h.1
    rintro ⟨t, b, ht, -⟩
    rw [hshown] at ht
    simp only [decimalToString] at ht
    rw [if_neg hs] at ht
    cases ht

/-- **A storable value comes back from its text exactly when it is one of those listed.** -/
theorem round_trips_iff (C : Calendar L) (c : Column) (v : Memory) (h : Storable C c v) :
    RoundTrips L c v ↔ ReadsBack L c v := by
  obtain ⟨type, nullable⟩ := c
  obtain ⟨hlength, h⟩ := h
  cases type with
  | float => exact h.elim
  | double => exact h.elim
  | smallInt => exact roundTrips_smallInt nullable v
  | int => exact roundTrips_int nullable hlength
  | uLong => exact roundTrips_uLong nullable v
  | string size => exact roundTrips_string size nullable v
  | date => exact roundTrips_date C h
  | time => exact roundTrips_time C h
  | datetime => exact roundTrips_datetime C h
  | decimal p s => exact roundTrips_decimal p s nullable v
  | boolean => exact iff_of_false (not_roundTrips_boolean nullable v) id
  | uSmallInt => exact roundTrips_uSmallInt nullable v

end RoundTrips

theorem hasForm_sampleDate :
    HasForm dateForms ⟨10, [4, 7], "1400-01-01", "9999-12-31"⟩ (text "2015-06-01") :=
  ⟨by decide, rfl, by decide, by decide, by decide⟩

theorem hasForm_sampleDatetime :
    HasForm datetimeForms ⟨19, [4, 7, 10, 13, 16], "1400-01-01 00:00:00", "9999-12-31 23:59:59"⟩
      ((text "2015-06-01T12:30:00").set 10 32) :=
  ⟨by decide, rfl, by decide, by decide, by decide⟩

theorem exists_sampleCalendar : ∃ C : Calendar sampleLibrary, C.isDate 1 := by
  refine ⟨{
    isDate := fun d => d = 1
    isTime := fun d => d = 1
    isDatetime := fun d => d = 1
    date_regular := by decide
    time_regular := by decide
    datetime_regular := by decide
    date_form := fun _ _ => ⟨_, hasForm_sampleDate, ?_⟩
    date_length := fun _ _ => rfl
    date_back := ?_
    time_form := ?_
    time_back := ?_
    datetime_form := fun _ _ => ⟨_, hasForm_sampleDatetime, ?_⟩
    datetime_back := ?_ }, rfl⟩
  · exact (by decide : ¬text "9999-12-31" < text "2015-06-01")
  · rintro d rfl
    rfl
  · rintro d rfl
    exact ⟨_, ⟨by decide, rfl, by decide, by decide, by decide⟩, by decide⟩
  · rintro d rfl
    rfl
  · exact (by decide : ¬text "9999-12-31 23:59:59" < (text "2015-06-01T12:30:00").set 10 32)
  · rintro d rfl
    rfl

theorem round_trips_date : RoundTrips sampleLibrary ⟨.date, true⟩ [1, 0, 0, 0] := by
  obtain ⟨C, hC⟩ := exists_sampleCalendar
  refine (round_trips_iff C ⟨.date, true⟩ [1, 0, 0, 0] ⟨rfl, .inr hC⟩).mpr ?_
  show Column.holdsNull sampleLibrary ⟨.date, true⟩ [1, 0, 0, 0] = false
  decide

/-- `NULL`, a true boolean, twenty digits, a leading blank, and a decimal rounded to `100.0`. -/
theorem not_moved :
    ¬RoundTrips sampleLibrary ⟨.int, true⟩ (nullBytes sampleLibrary .int) ∧
      ¬RoundTrips sampleLibrary ⟨.boolean, false⟩ [1, 0, 0, 0] ∧
      ¬RoundTrips sampleLibrary ⟨.uLong, false⟩ (Codec.leBytes 8 18446744073709551613) ∧
      ¬RoundTrips sampleLibrary ⟨.string 7, true⟩ (text " a" ++ List.replicate 6 0) ∧
      Column.toValue sampleLibrary ⟨.decimal 2 1, true⟩ (text "99.96") =
        .ok (decimalBytes 0 (100 * 10 ^ 30)) ∧
      ¬RoundTrips sampleLibrary ⟨.decimal 2 1, true⟩ (decimalBytes 0 (100 * 10 ^ 30)) := by
  refine ⟨fun h => ?_, not_roundTrips_boolean _ _, fun h => ?_, fun h => ?_, ?_, fun h => ?_⟩
  · exact absurd ((roundTrips_int true rfl).mp h) (by decide)
  · exact absurd ((roundTrips_uLong false _).mp h).2 (by decide)
  · exact absurd ((roundTrips_string 7 true _).mp h).2.2.2 (by decide)
  · decide
  · -- the number has three digits before the point
    obtain ⟨-, hzero | ⟨-, -, hdigits⟩⟩ := (roundTrips_decimal 2 1 true _).mp h
    · exact absurd hzero (by decide)
    · exact absurd hdigits (by decide)

end Columns
