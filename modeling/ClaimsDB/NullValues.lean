/-
`NULL` among the values of a column.

`isNull` and `toString` test for it, and `setNull` writes it; `equal` knows nothing of it.  For
floating-point types `isNull` compares the bytes with a converted number, for booleans with the
wrong constant; the words of a decimal `NULL` are those of zero.
-/
import ClaimsDB.ColumnOperators

namespace Columns

open List
open Loader (Text Memory RetCode text showInt isDigit toDecimal byteAlign)
open Partitioning (intAt shortAt uShortAt uLongAt stringAt dateAt timeAt datetimeAt ttIntAt strcmp
  strcmp_eq_zero_iff decimalCompare_eq_zero_iff TTInt)

/-! ### Numbers in memory -/

variable {v w : Memory}

theorem bits32At_toNat (h : v.length = 4) : (bits32At v).toNat = Codec.ofLe v := by
  have hlt := Codec.ofLe_lt v
  rw [h] at hlt
  show (UInt32.ofNat (Codec.ofLe ((v.drop 0).take 4))).toNat = _
  rw [drop_zero, take_of_length_le h.le, UInt32.toNat_ofNat']
  omega

theorem bits64At_toNat (h : v.length = 8) : (bits64At v).toNat = Codec.ofLe v := by
  have hlt := Codec.ofLe_lt v
  rw [h] at hlt
  show (UInt64.ofNat (Codec.ofLe ((v.drop 0).take 8))).toNat = _
  rw [drop_zero, take_of_length_le h.le, UInt64.toNat_ofNat']
  omega

theorem bits16_toNat (h : v.length = 2) : (Codec.uint16.load 0 v).toNat = Codec.ofLe v := by
  have hlt := Codec.ofLe_lt v
  rw [h] at hlt
  show (UInt16.ofNat (Codec.ofLe ((v.drop 0).take 2))).toNat = _
  rw [drop_zero, take_of_length_le h.le, UInt16.toNat_ofNat']
  omega

theorem intAt_eq (h : v.length = 4) : intAt v = Int.bmod (Codec.ofLe v) (2 ^ 32) := by
  simp only [intAt, Codec.load, CSB.intCodec, Codec.word, drop_zero]
  rw [take_of_length_le h.le]

variable {n : ℕ} {a : Memory} {type : ColumnType} {b : Memory} {off : ℕ} {c : Memory} {p s : ℕ}

theorem intAt_eq_iff (h : v.length = 4) (hn : n < 2 ^ 31) : intAt v = n ↔ Codec.ofLe v = n := by
  have hlt := Codec.ofLe_lt v
  rw [h] at hlt
  rw [intAt_eq h, Int.bmod_def]
  split <;> omega

theorem shortAt_eq_iff (h : v.length = 2) (hn : n < 2 ^ 15) : shortAt v = n ↔ Codec.ofLe v = n := by
  have hlt := Codec.ofLe_lt v
  rw [h] at hlt
  unfold shortAt
  rw [bits16_toNat h, Int.bmod_def]
  split <;> omega

/-! ### Floating-point numbers -/

theorem ieeeEqual_max_iff {sign inf max a : ℕ} (hmax : 0 < max) (hsign : max < sign)
    (hinf : max ≤ inf) : ieeeEqual sign inf a max = true ↔ a = max := by
  have hmod : max % sign = max := Nat.mod_eq_of_lt hsign
  simp only [ieeeEqual, isNaN, ieeeOrder, hmod, if_pos hsign, Bool.and_eq_true,
    Bool.not_eq_true', decide_eq_false_iff_not, decide_eq_true_eq]
  constructor
  · rintro ⟨-, horder⟩
    split at horder <;> omega
  · rintro rfl
    rw [if_pos hsign, hmod]
    exact ⟨⟨by omega, by omega⟩, rfl⟩

theorem floatEqual_max_iff {a : ℕ} : floatEqual a floatMax = true ↔ a = floatMax :=
  ieeeEqual_max_iff (by decide) (by decide) (by decide)

theorem doubleEqual_max_iff {a : ℕ} : doubleEqual a doubleMax = true ↔ a = doubleMax :=
  ieeeEqual_max_iff (by decide) (by decide) (by decide)

theorem ieeeEqual_comm (sign inf a b : ℕ) : ieeeEqual sign inf a b = ieeeEqual sign inf b a := by
  simp only [ieeeEqual, eq_comm (a := ieeeOrder sign a), Bool.and_comm (!isNaN sign inf a)]

/-! ### The bytes of `NULL` -/

theorem overwrite_zero_eq_iff (b : Memory) : overwrite v 0 b = v ↔ v.take b.length = b := by
  rw [overwrite, take_zero, nil_append, Nat.zero_add]
  constructor
  · intro heq
    rw [← heq, take_left]
  · intro heq
    conv_rhs => rw [← take_append_drop b.length v, heq]

variable (L : Library)

/-- The number whose bytes `setNull` writes. -/
def nullNumber : ColumnType → ℕ
  | .smallInt => 2 ^ 15 - 1
  | .int => 2 ^ 31 - 1
  | .uLong => 2 ^ 64 - 1
  | .float => floatMax
  | .double => doubleMax
  | .date => L.negInfinDate.toNat
  | .time => L.negInfinTime.toNat
  | .datetime => L.negInfinDatetime.toNat
  | .boolean => 2
  | .uSmallInt => 2 ^ 16 - 1
  | .string _ => 0
  | .decimal _ _ => 0

def isNumber : ColumnType → Bool
  | .string _ => false
  | .decimal _ _ => false
  | _ => true

theorem setNull_number (h : isNumber type = true) (hv : v.length = type.getLength) :
    setNull L type v = v ↔ Codec.ofLe v = nullNumber L type := by
  have hkey : ∀ {k n : ℕ}, v.length = k → n < 256 ^ k →
      (overwrite v 0 (Codec.leBytes k n) = v ↔ Codec.ofLe v = n) := by
    intro k n hk hn
    rw [overwrite_zero_eq_iff, Codec.length_leBytes,
      take_of_length_le hk.le, Codec.eq_leBytes_iff hk hn]
  cases type with
  | string size => cases h
  | decimal p s => cases h
  | date => exact hkey hv L.negInfinDate.toNat_lt
  | time => exact hkey hv L.negInfinTime.toNat_lt
  | datetime => exact hkey hv L.negInfinDatetime.toNat_lt
  | _ => exact hkey hv (by decide)

theorem shownAsNull_number (h : isNumber type = true) (hv : v.length = type.getLength) :
    shownAsNull L type v = true ↔ Codec.ofLe v = nullNumber L type := by
  cases type with
  | string size => cases h
  | decimal p s => cases h
  | smallInt => simpa [shownAsNull, nullNumber] using shortAt_eq_iff hv (n := 32767) (by norm_num)
  | int => simpa [shownAsNull, nullNumber] using intAt_eq_iff hv (n := 2147483647) (by norm_num)
  | boolean => simpa [shownAsNull, nullNumber] using intAt_eq_iff hv (n := 2) (by norm_num)
  | uLong =>
    have hread := bits64At_toNat hv
    rw [shownAsNull, nullNumber, decide_eq_true_eq, ← hread, bits64At, uLongAt]
    omega
  | uSmallInt =>
    have hread := bits16_toNat hv
    rw [shownAsNull, nullNumber, decide_eq_true_eq, ← hread, uShortAt]
    omega
  | float => rw [shownAsNull, bits32At_toNat hv, floatEqual_max_iff, nullNumber]
  | double => rw [shownAsNull, bits64At_toNat hv, doubleEqual_max_iff, nullNumber]
  | date =>
    rw [shownAsNull, nullNumber, decide_eq_true_eq, ← bits32At_toNat hv, UInt32.toNat_inj]
    exact Iff.rfl
  | time | datetime =>
    rw [shownAsNull, nullNumber, decide_eq_true_eq, ← bits64At_toNat hv, UInt64.toNat_inj]
    exact Iff.rfl

theorem setNull_eq_iff (hdecimal : isDecimal type = false) (hv : v.length = type.getLength) :
    setNull L type v = v ↔ shownAsNull L type v = true := by
  cases hnumber : isNumber type with
  | true => rw [setNull_number L hnumber hv, shownAsNull_number L hnumber hv]
  | false =>
    cases type with
    | string size =>
      show overwrite v 0 [1] = v ↔ decide (v.head? = some 1) = true
      rw [overwrite_zero_eq_iff, decide_eq_true_eq]
      cases v with
      | nil => simp
      | cons c cs => simp
    | decimal p s => cases hdecimal
    | _ => cases hnumber

/-! ### Decimals -/

theorem exists_decimal_parts (hv : v.length = 48) :
    ∃ pre sign mid w₁ w₂ w₃ w₄, v = pre ++ sign :: (mid ++ (w₁ ++ (w₂ ++ (w₃ ++ w₄)))) ∧
      pre.length = 8 ∧ mid.length = 7 ∧ w₁.length = 8 ∧ w₂.length = 8 ∧ w₃.length = 8 ∧
      w₄.length = 8 := by
  obtain ⟨sign, hsign⟩ : ∃ sign, v.drop 8 = sign :: v.drop 9 :=
    ⟨_, drop_eq_getElem_cons (by omega)⟩
  refine ⟨v.take 8, sign, (v.drop 9).take 7, (v.drop 16).take 8, (v.drop 24).take 8,
    (v.drop 32).take 8, v.drop 40, ?_, ?_⟩
  · have hsplit : ∀ k n, (v.drop n).take k ++ v.drop (n + k) = v.drop n := fun k n => by
      rw [← drop_drop, take_append_drop]
    rw [hsplit 8 32, hsplit 8 24, hsplit 8 16, hsplit 7 9, ← hsign, take_append_drop]
  · simp [hv]

theorem load_uint64_eq_zero_iff (hb : b.length = 8) (h : (v.drop off).take 8 = b) :
    Codec.uint64.load off v = 0 ↔ b = Codec.leBytes 8 0 := by
  have hlt := Codec.ofLe_lt b
  rw [hb] at hlt
  rw [Codec.eq_leBytes_iff hb (by norm_num)]
  show UInt64.ofNat (Codec.ofLe ((v.drop off).take 8)) = 0 ↔ _
  rw [h, ← UInt64.toNat_inj, UInt64.toNat_ofNat', Nat.mod_eq_of_lt (by omega)]
  rfl

theorem overwrite_append {d : Memory} (off : ℕ) (ha : a.length = off) (hb : b.length = d.length) :
    overwrite (a ++ (b ++ c)) off d = a ++ (d ++ c) := by
  rw [overwrite, take_left' ha, ← append_assoc, drop_left' (by simp [ha, hb]),
    append_assoc]

theorem setNull_decimal_eq_iff (hv : v.length = 48) :
    setNull L (.decimal p s) v = v ↔ signAt v = decimalNan ∧ ttIntAt v = ⟨0, 0, 0, 0⟩ := by
  obtain ⟨pre, sign, mid, w₁, w₂, w₃, w₄, rfl, hpre, hmid, h₁, h₂, h₃, h₄⟩ :=
    exists_decimal_parts hv
  have hzeros : Codec.leBytes 32 0 = Codec.leBytes 8 0 ++ (Codec.leBytes 8 0 ++
    (Codec.leBytes 8 0 ++ Codec.leBytes 8 0)) := by decide
  have hset : setNull L (.decimal p s) (pre ++ sign :: (mid ++ (w₁ ++ (w₂ ++ (w₃ ++ w₄))))) =
      pre ++ decimalNan :: (mid ++ Codec.leBytes 32 0) := by
    have hfirst := overwrite_append (c := mid ++ (w₁ ++ (w₂ ++ (w₃ ++ w₄)))) 8 hpre
      (show [sign].length = [decimalNan].length from rfl)
    have hsecond := overwrite_append (a := pre ++ decimalNan :: mid) (c := [])
      (b := w₁ ++ (w₂ ++ (w₃ ++ w₄))) (d := Codec.leBytes 32 0) 16 (by simp [hpre, hmid])
      (by simp [h₁, h₂, h₃, h₄])
    simp only [append_nil, append_assoc, cons_append] at hsecond
    exact (congrArg (overwrite · 16 (Codec.leBytes 32 0)) hfirst).trans hsecond
  have hsign : signAt (pre ++ sign :: (mid ++ (w₁ ++ (w₂ ++ (w₃ ++ w₄))))) = sign := by
    rw [signAt, drop_left' hpre]
    rfl
  have hwords : ttIntAt (pre ++ sign :: (mid ++ (w₁ ++ (w₂ ++ (w₃ ++ w₄))))) = ⟨0, 0, 0, 0⟩ ↔
      w₁ = Codec.leBytes 8 0 ∧ w₂ = Codec.leBytes 8 0 ∧ w₃ = Codec.leBytes 8 0 ∧
        w₄ = Codec.leBytes 8 0 := by
    -- each word stands behind the parts before it
    have hload : ∀ (a b c : Memory) {off : ℕ}, a.length = off → b.length = 8 →
        pre ++ sign :: (mid ++ (w₁ ++ (w₂ ++ (w₃ ++ w₄)))) = a ++ (b ++ c) →
        (Codec.uint64.load off (pre ++ sign :: (mid ++ (w₁ ++ (w₂ ++ (w₃ ++ w₄))))) = 0 ↔
          b = Codec.leBytes 8 0) := fun a b c off ha hb heq =>
      load_uint64_eq_zero_iff hb (by rw [heq, drop_left' ha, take_left' hb])
    rw [ttIntAt, TTInt.mk.injEq]
    exact and_congr
      (hload (pre ++ sign :: mid) w₁ (w₂ ++ (w₃ ++ w₄)) (by simp [hpre, hmid]) h₁ (by simp))
      (and_congr (hload (pre ++ sign :: (mid ++ w₁)) w₂ (w₃ ++ w₄) (by simp [hpre, hmid, h₁]) h₂
        (by simp))
      (and_congr (hload (pre ++ sign :: (mid ++ (w₁ ++ w₂))) w₃ w₄ (by simp [hpre, hmid, h₁, h₂])
        h₃ (by simp))
      (hload (pre ++ sign :: (mid ++ (w₁ ++ (w₂ ++ w₃)))) w₄ [] (by simp [hpre, hmid, h₁, h₂, h₃])
        h₄ (by simp))))
  rw [hset, hsign, hwords, append_cancel_left_eq, List.cons.injEq, append_cancel_left_eq,
    hzeros]
  constructor
  · rintro ⟨hnan, hw⟩
    obtain ⟨hw₁, hw⟩ := append_inj hw h₁.symm
    obtain ⟨hw₂, hw⟩ := append_inj hw h₂.symm
    obtain ⟨hw₃, hw₄⟩ := append_inj hw h₃.symm
    exact ⟨hnan.symm, hw₁.symm, hw₂.symm, hw₃.symm, hw₄.symm⟩
  · rintro ⟨rfl, rfl, rfl, rfl, rfl⟩
    exact ⟨rfl, rfl⟩

/-! ### Equal values -/

theorem head?_stringAt (v : Memory) : (stringAt v).head? = some 1 ↔ v.head? = some 1 := by
  cases v with
  | nil => simp [stringAt]
  | cons c cs =>
    rw [stringAt, takeWhile_cons]
    by_cases hc : c = 0
    · simp [hc]
    · simp [hc]

theorem shownAsNull_of_equal (hdecimal : isDecimal type = false) (h : equal type v w = true) :
    shownAsNull L type v = shownAsNull L type w := by
  cases type with
  | decimal p s => cases hdecimal
  | string size =>
    rw [equal, decide_eq_true_eq, strcmp_eq_zero_iff] at h
    rw [shownAsNull, shownAsNull, decide_eq_decide, ← head?_stringAt, ← head?_stringAt w, h]
  | float =>
    rw [equal] at h
    rw [shownAsNull, shownAsNull, Bool.eq_iff_iff, floatEqual_max_iff, floatEqual_max_iff]
    constructor
    · intro hv
      rw [hv, floatEqual, ieeeEqual_comm] at h
      exact floatEqual_max_iff.mp h
    · intro hw
      rw [hw] at h
      exact floatEqual_max_iff.mp h
  | double =>
    rw [equal] at h
    rw [shownAsNull, shownAsNull, Bool.eq_iff_iff, doubleEqual_max_iff, doubleEqual_max_iff]
    constructor
    · intro hv
      rw [hv, doubleEqual, ieeeEqual_comm] at h
      exact doubleEqual_max_iff.mp h
    · intro hw
      rw [hw] at h
      exact doubleEqual_max_iff.mp h
  | _ =>
    rw [equal, decide_eq_true_eq] at h
    rw [shownAsNull, shownAsNull, h]

/-! ### Texts of values that are not `NULL` -/

structure Library.ShowsValues (L : Library) : Prop where
  showFloat : ∀ x, L.showFloat x ≠ text "NULL"
  showDouble : ∀ x, L.showDouble x ≠ text "NULL"
  dateText : ∀ d, L.dateText d ≠ text "NULL"
  timeText : ∀ d, L.timeText d ≠ text "NULL"
  datetimeText : ∀ d, L.datetimeText d ≠ text "NULL"

theorem ne_null_of_head {c : UInt8} {t : Text} (h : isDigit c = true ∨ c = 45) :
    c :: t ≠ text "NULL" := by
  intro heq
  have hc : c = 78 := (List.cons.inj heq).1
  obtain h | h := h
  · rw [hc] at h
    cases h
  · rw [hc] at h
    cases h

theorem toDecimal_append_ne_null (n : ℕ) (t : Text) : toDecimal n ++ t ≠ text "NULL" := by
  obtain ⟨c, cs, hn, hc, -⟩ := Loader.exists_toDecimal_cons n
  rw [hn]
  exact ne_null_of_head (.inl hc)

theorem showInt_ne_null (n : ℤ) : showInt n ≠ text "NULL" := by
  unfold showInt
  split
  · exact ne_null_of_head (.inr rfl)
  · have h := toDecimal_append_ne_null n.natAbs []
    rwa [append_nil] at h

theorem exists_decimalToString {scale : ℕ} (hscale : scale ≤ 30) (n : ℤ) :
    ∃ F : Text, decimalToString scale n = .ok ((if n < 0 then [45] else []) ++
        toDecimal (n.natAbs / 10 ^ 30) ++ if 0 < scale then 46 :: F.take scale else []) ∧
      F.length = 30 ∧ (∀ c ∈ F, isDigit c = true) ∧
      Loader.decimalValue F = n.natAbs % 10 ^ 30 := by
  obtain ⟨F, hF, hlength, hdigits, hvalue⟩ := Loader.exists_padded 30 n.natAbs
  refine ⟨F, ?_, hlength, hdigits, hvalue⟩
  simp only [decimalToString]
  rw [if_pos hscale, hF, length_append, hlength, Nat.add_sub_cancel, take_left,
    drop_left]

theorem decimalToString_ne_null (scale : ℕ) (n : ℤ) :
    decimalToString scale n ≠ .ok (text "NULL") := by
  intro heq
  by_cases hscale : scale ≤ 30
  · obtain ⟨F, htext, -⟩ := exists_decimalToString hscale n
    have heq := Except.ok.inj (htext.symm.trans heq)
    split at heq
    · exact ne_null_of_head (.inr rfl) heq
    · rw [nil_append] at heq
      exact toDecimal_append_ne_null _ _ heq
  · simp only [decimalToString] at heq
    rw [if_neg hscale] at heq
    cases heq

variable {L}

theorem valueText_ne_null (hL : L.ShowsValues) (h : ∀ size, type ≠ .string size) :
    valueText L type v ≠ .ok (text "NULL") := by
  intro heq
  cases type with
  | string size => exact h size rfl
  | smallInt | int | uLong | uSmallInt => exact showInt_ne_null _ (Except.ok.inj heq)
  | float => exact hL.showFloat _ (Except.ok.inj heq)
  | double => exact hL.showDouble _ (Except.ok.inj heq)
  | date => exact hL.dateText _ (Except.ok.inj heq)
  | time => exact hL.timeText _ (Except.ok.inj heq)
  | datetime =>
    have htext := Except.ok.inj heq
    have hlength := congrArg List.length htext
    rw [length_set] at hlength
    rw [set_eq_of_length_le (hlength.le.trans (by decide))] at htext
    exact hL.datetimeText _ htext
  | decimal p s => exact decimalToString_ne_null _ _ heq
  | boolean =>
    have htext := Except.ok.inj heq
    split at htext <;> revert htext <;> decide

/-! ### Consistency -/

def storesNullText : ColumnType → Memory → Bool
  | .string _, v => stringAt v = text "NULL"
  | _, _ => false

variable (L)

/-- The operators agree on whether a value is `NULL`, and never find it equal to a value that is
different in this. -/
structure NullConsistent (c : Column) (v w : Memory) : Prop where
  bytes : c.isNull L v = true ↔ setNull L c.type v = v
  shown : storesNullText c.type v = false →
    (c.isNull L v = true ↔ c.toString L v = .ok (text "NULL"))
  apart : ¬(setNull L c.type v = v ↔ setNull L c.type w = w) → equal c.type v w = false

def NullSafe : ColumnType → Memory → Memory → Prop
  | .float, v, _ => (bits32At v).toNat = floatMax ↔ bits32At v = L.floatMaxToInt
  | .double, v, _ => (bits64At v).toNat = doubleMax ↔ bits32At v = L.doubleMaxToInt
  | .boolean, v, _ => intAt v ≠ 2 ∧ intAt v ≠ 2 ^ 15 - 1
  | .string _, v, _ =>
    v.head? ≠ some 1 → trimSpecialCharactor (stringAt v) = text "NULL" → stringAt v = text "NULL"
  | .decimal _ _, v, w =>
    (signAt v = decimalNan → ttIntAt v = ⟨0, 0, 0, 0⟩) ∧
      (ttIntAt v = ⟨0, 0, 0, 0⟩ → ttIntAt w = ⟨0, 0, 0, 0⟩ →
        (signAt v = decimalNan ↔ signAt w = decimalNan))
  | _, _, _ => True

variable {L}

theorem isNull_of_nullable (type : ColumnType) (v : Memory) :
    Column.isNull L ⟨type, true⟩ v = testedAsNull L type v := Bool.true_and _

theorem toString_of_nullable (type : ColumnType) (v : Memory) :
    Column.toString L ⟨type, true⟩ v =
      if shownAsNull L type v then .ok (text "NULL") else valueText L type v := by
  rw [Column.toString, Bool.true_or, Bool.true_and]

theorem toString_eq_null_iff (hL : L.ShowsValues) (h : ∀ size, type ≠ .string size) :
    Column.toString L ⟨type, true⟩ v = .ok (text "NULL") ↔ shownAsNull L type v = true := by
  rw [toString_of_nullable]
  split_ifs with hshown
  · exact iff_of_true rfl hshown
  · exact iff_of_false (valueText_ne_null hL h) hshown

theorem equal_of_shownAsNull (hdecimal : isDecimal type = false) (hv : v.length = type.getLength)
    (hw : w.length = type.getLength) (h : ¬(setNull L type v = v ↔ setNull L type w = w)) :
    equal type v w = false := by
  rw [setNull_eq_iff L hdecimal hv, setNull_eq_iff L hdecimal hw] at h
  rw [← Bool.not_eq_true]
  intro hequal
  rw [shownAsNull_of_equal L hdecimal hequal] at h
  exact h Iff.rfl

theorem nullConsistent_number (hL : L.ShowsValues) (h : isNumber type = true)
    (hv : v.length = type.getLength) (hw : w.length = type.getLength) :
    NullConsistent L ⟨type, true⟩ v w ↔
      (testedAsNull L type v = true ↔ shownAsNull L type v = true) := by
  have hstring : ∀ size, type ≠ .string size := by
    rintro size rfl
    cases h
  have hdecimal : isDecimal type = false := by
    cases type with
    | decimal p s => cases h
    | _ => rfl
  rw [← setNull_eq_iff L hdecimal hv]
  constructor
  · intro hc
    have hbytes := hc.bytes
    rwa [isNull_of_nullable] at hbytes
  · intro hagree
    refine ⟨?_, fun _ => ?_, equal_of_shownAsNull hdecimal hv hw⟩
    · rwa [isNull_of_nullable]
    · rw [isNull_of_nullable, hagree, setNull_eq_iff L hdecimal hv, toString_eq_null_iff hL hstring]

theorem nullConsistent_string {size : ℕ} (hv : v.length = byteAlign size)
    (hw : w.length = byteAlign size) :
    NullConsistent L ⟨.string size, true⟩ v w ↔ NullSafe L (.string size) v w := by
  have hbytes : Column.isNull L ⟨.string size, true⟩ v = true ↔ setNull L (.string size) v = v := by
    rw [isNull_of_nullable, setNull_eq_iff L rfl hv]
    exact Iff.rfl
  have hnull : Column.isNull L ⟨.string size, true⟩ v = true ↔ v.head? = some 1 := by
    rw [isNull_of_nullable]
    exact decide_eq_true_iff
  have hshown : Column.toString L ⟨.string size, true⟩ v = .ok (text "NULL") ↔
      v.head? = some 1 ∨ trimSpecialCharactor (stringAt v) = text "NULL" := by
    rw [toString_of_nullable]
    by_cases hhead : v.head? = some 1
    · rw [if_pos (by rwa [shownAsNull, decide_eq_true_eq])]
      exact iff_of_true rfl (.inl hhead)
    · rw [if_neg (by rwa [shownAsNull, decide_eq_true_eq]), valueText, Except.ok.injEq]
      exact (or_iff_right hhead).symm
  constructor
  · intro hc hhead htrim
    by_contra htext
    have hstored : storesNullText (.string size) v = false := decide_eq_false htext
    exact hhead (hnull.mp ((hc.shown hstored).mpr (hshown.mpr (.inr htrim))))
  · intro hsafe
    refine ⟨hbytes, fun hstored => ?_, equal_of_shownAsNull rfl hv hw⟩
    have htext : stringAt v ≠ text "NULL" := of_decide_eq_false hstored
    rw [hnull, hshown]
    refine ⟨.inl, fun h => ?_⟩
    obtain hhead | htrim := h
    · exact hhead
    · by_contra hhead
      exact htext (hsafe hhead htrim)

theorem nullConsistent_decimal (hv : v.length = 48) (hw : w.length = 48) :
    NullConsistent L ⟨.decimal p s, true⟩ v w ↔ NullSafe L (.decimal p s) v w := by
  have hnull : Column.isNull L ⟨.decimal p s, true⟩ v = true ↔ signAt v = decimalNan := by
    rw [isNull_of_nullable]
    exact decide_eq_true_iff
  have hequal : equal (.decimal p s) v w = true ↔ ttIntAt v = ttIntAt w := by
    rw [equal, decide_eq_true_eq, decimalCompare_eq_zero_iff]
  constructor
  · intro hc
    have hbytes := hc.bytes
    rw [hnull, setNull_decimal_eq_iff L hv] at hbytes
    refine ⟨fun hnan => (hbytes.mp hnan).2, fun hzero hzero' => ?_⟩
    by_contra hapart
    have hdifferent := hc.apart (by
      rw [setNull_decimal_eq_iff L hv, setNull_decimal_eq_iff L hw]
      simpa [hzero, hzero'] using hapart)
    rw [hequal.mpr (hzero.trans hzero'.symm)] at hdifferent
    cases hdifferent
  · rintro ⟨hwords, hsame⟩
    refine ⟨?_, fun _ => ?_, fun hapart => ?_⟩
    · rw [hnull, setNull_decimal_eq_iff L hv]
      exact ⟨fun hnan => ⟨hnan, hwords hnan⟩, And.left⟩
    · rw [isNull_of_nullable, toString_of_nullable]
      split_ifs with hshown
      · exact iff_of_true hshown rfl
      · exact iff_of_false hshown (decimalToString_ne_null _ _)
    · rw [← Bool.not_eq_true, hequal]
      intro heq
      rw [setNull_decimal_eq_iff L hv, setNull_decimal_eq_iff L hw, ← heq] at hapart
      refine hapart (and_congr_left fun hzero => hsame hzero (heq ▸ hzero))

/-- **Which values of a nullable column the operators treat consistently.** -/
theorem null_consistent_iff (hL : L.ShowsValues) (type : ColumnType) (v w : Memory)
    (hv : v.length = type.getLength) (hw : w.length = type.getLength) :
    NullConsistent L ⟨type, true⟩ v w ↔ NullSafe L type v w := by
  cases type with
  | string size => exact nullConsistent_string hv hw
  | decimal p s => exact nullConsistent_decimal hv hw
  | float =>
    rw [nullConsistent_number hL rfl hv hw, testedAsNull, shownAsNull, floatEqual_max_iff,
      decide_eq_true_eq]
    exact iff_comm
  | double =>
    rw [nullConsistent_number hL rfl hv hw, testedAsNull, shownAsNull, doubleEqual_max_iff,
      decide_eq_true_eq]
    exact iff_comm
  | boolean =>
    rw [nullConsistent_number hL rfl hv hw, testedAsNull, shownAsNull, decide_eq_true_eq,
      decide_eq_true_eq]
    show _ ↔ intAt v ≠ 2 ∧ intAt v ≠ 2 ^ 15 - 1
    omega
  | _ => exact (nullConsistent_number hL rfl hv hw).trans (iff_of_true Iff.rfl trivial)

theorem sampleLibrary_showsValues : sampleLibrary.ShowsValues where
  showFloat _ := show text "0" ≠ text "NULL" by decide
  showDouble _ := show text "0" ≠ text "NULL" by decide
  dateText _ := show text "2015-06-01" ≠ text "NULL" by decide
  timeText _ := show text "12:30:00" ≠ text "NULL" by decide
  datetimeText _ := show text "2015-06-01T12:30:00" ≠ text "NULL" by decide

theorem null_consistent_true :
    NullConsistent sampleLibrary ⟨.boolean, true⟩ [1, 0, 0, 0] [2, 0, 0, 0] :=
  (null_consistent_iff sampleLibrary_showsValues .boolean [1, 0, 0, 0] [2, 0, 0, 0] rfl rfl).mpr
    ⟨by decide, by decide⟩

/-- A boolean and a `float` that `isNull` does not see; ` NULL`; and `NULL` equal to zero. -/
theorem null_inconsistent :
    (∀ type ∈ [ColumnType.boolean, .float, .double],
      let v := nullBytes sampleLibrary type
      setNull sampleLibrary type v = v ∧
        Column.toString sampleLibrary ⟨type, true⟩ v = .ok (text "NULL") ∧
        Column.isNull sampleLibrary ⟨type, true⟩ v = false) ∧
      (let v := text " NULL" ++ [0, 0, 0]
      Column.toString sampleLibrary ⟨.string 7, true⟩ v = .ok (text "NULL") ∧
        Column.isNull sampleLibrary ⟨.string 7, true⟩ v = false) ∧
      (let v := decimalBytes decimalNan 0
      let w := decimalBytes 0 0
      setNull sampleLibrary (.decimal 10 2) v = v ∧ setNull sampleLibrary (.decimal 10 2) w ≠ w ∧
        equal (.decimal 10 2) v w = true) := by
  decide

end Columns
