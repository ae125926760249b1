/-
A line of text becomes a tuple.  `CheckAndToValue` calls the operators through their common
interface: a column is any `Operate`, of which three are the source's own.
-/
import ClaimsDB.Bytes
import Mathlib.Data.List.TakeWhile

namespace Loader

open Run (bind_ok)
open List

abbrev Text := List UInt8

abbrev Memory := List UInt8

def text (s : String) : Text := s.toList.map fun c => UInt8.ofNat c.toNat

inductive RetCode
  | success
  | failure
  | notSupport
  | tableNotExisted
  | insertNoValue
  | openDiskFileFail
  | tooSmallData
  | tooLargeData
  | tooLongData
  | interruptedData
  | incorrectData
  | invalidNullData
  | invalidInsertData
  | tooFewColumn
  | tooManyColumn
  deriving DecidableEq, Repr

structure Operate where
  length : ℕ
  /-- `CheckSet`: the code and the text as it is left -/
  checkSet : Text → RetCode × Text
  setDefault : Text
  /-- the bytes that `toValue` writes from the address of the column on; it may throw -/
  toValue : Text → Run Memory
  value : Memory → Memory
  checkSet_success : ∀ t, (checkSet t).1 = .success → (checkSet t).2 = t
  value_toValue : ∀ t b, toValue t = .ok b → ∀ rest, value (b ++ rest) = value b

/-! ### Operators of the source -/

def isDigit (c : UInt8) : Bool := 48 ≤ c && c ≤ 57

/-- The characters that do not interrupt a number: digits, `.` and `-`. -/
def isNumeric (c : UInt8) : Bool := isDigit c || c = 46 || c = 45

/-- Cut a text at the first character from position `k` on that interrupts a number. -/
def interrupt (k : ℕ) (str : Text) : RetCode × Text :=
  if (str.drop k).all isNumeric then (.success, str)
  else (.interruptedData, str.take k ++ (str.drop k).takeWhile isNumeric)

/-- `string(c_str())`: a C string ends at the first zero. -/
def cStr (str : Text) : Text := str.takeWhile (· ≠ 0)

def digitsValue (str : Text) : ℕ :=
  (str.takeWhile isDigit).foldl (fun n c => 10 * n + (c.toNat - 48)) 0

def skipSpace (str : Text) : Text := str.dropWhile fun c => c = 32 || (9 ≤ c && c ≤ 13)

/-- `strtol`, which stops at the limits of a `long`. -/
def strtol (str : Text) : ℤ :=
  match skipSpace str with
  | 45 :: ds => max (-(digitsValue ds : ℤ)) (-2 ^ 63)
  | 43 :: ds => min (digitsValue ds : ℤ) (2 ^ 63 - 1)
  | ds => min (digitsValue ds : ℤ) (2 ^ 63 - 1)

/-- `strtoul`, which stops at the limit of an `unsigned long`; a sign negates the result. -/
def strtoul (str : Text) : ℕ :=
  match skipSpace str with
  | 45 :: ds => if 2 ^ 64 ≤ digitsValue ds then 2 ^ 64 - 1 else (2 ^ 64 - digitsValue ds) % 2 ^ 64
  | 43 :: ds => min (digitsValue ds) (2 ^ 64 - 1)
  | ds => min (digitsValue ds) (2 ^ 64 - 1)

/-- An empty text is `NULL`, and a text that does not begin like a number is refused. -/
def checkNumber (nullable : Bool) (str : Text) (check : Text → RetCode × Text) :
    RetCode × Text :=
  match str with
  | [] => (if nullable then .success else .invalidNullData, str)
  | c :: _ => if !isDigit c && c ≠ 45 then (.incorrectData, str) else check str

def checkSetInt (nullable : Bool) (str : Text) : RetCode × Text :=
  checkNumber nullable str fun str =>
    let (ret, str) := interrupt 1 str
    let value := strtol (cStr str)
    if value < -2 ^ 31 then (.tooSmallData, text "-2147483647")
    else if value > 2 ^ 31 - 1 || (value = 2 ^ 31 - 1 && nullable) then
      (.tooLargeData, text "2147483646")
    else (ret, str)

/-- `OperateULong::CheckSet`; the limits come from a `double` and are `2 ^ 64`. -/
def checkSetULong (nullable : Bool) (str : Text) : RetCode × Text :=
  if str = text "18446744073709551616" && !nullable then (.success, str)
  else checkNumber nullable str fun str =>
    let (ret, str) := interrupt 0 str
    if str.head? = some 45 then (.tooSmallData, text "0")
    else if 20 ≤ (str.takeWhile (· ≠ 46)).length && 49 < str.getD 19 0 then
      (.tooLargeData, text "18446744073709551616")
    else (ret, str)

/-- `OperateString::CheckSet` for a column of `size` characters. -/
def checkSetString (size : ℕ) (nullable : Bool) (str : Text) : RetCode × Text :=
  if str.head? = some 1 then (if nullable then .success else .invalidNullData, str)
  else if size < str.length then (.tooLongData, str.take size)
  else (.success, str)

variable {k : ℕ} {str : Text} {off : ℕ} {columns : List Operate} {line : Text} {tuple : Memory}

theorem interrupt_success (h : (interrupt k str).1 = .success) : (interrupt k str).2 = str := by
  unfold interrupt at h ⊢
  split
  · rfl
  · rename_i hall
    rw [if_neg hall] at h
    cases h

theorem checkNumber_success {nullable : Bool} {check : Text → RetCode × Text}
    (hc : (check str).1 = .success → (check str).2 = str)
    (h : (checkNumber nullable str check).1 = .success) :
    (checkNumber nullable str check).2 = str := by
  unfold checkNumber at h ⊢
  split
  · rfl
  · rename_i c cs
    simp only at h
    split
    · rfl
    · rename_i hd
      rw [if_neg hd] at h
      exact hc h

theorem checkSetInt_success (nullable : Bool) (str : Text)
    (h : (checkSetInt nullable str).1 = .success) : (checkSetInt nullable str).2 = str := by
  refine checkNumber_success ?_ h
  intro hc
  simp only at hc ⊢
  split at hc
  · cases hc
  · split at hc
    · cases hc
    · rename_i hmin hmax
      rw [if_neg hmin, if_neg hmax]
      exact interrupt_success hc

theorem checkSetULong_success (nullable : Bool) (str : Text)
    (h : (checkSetULong nullable str).1 = .success) : (checkSetULong nullable str).2 = str := by
  unfold checkSetULong at h ⊢
  split
  · rfl
  · rename_i hmax
    rw [if_neg hmax] at h
    refine checkNumber_success ?_ h
    intro hc
    simp only at hc ⊢
    split at hc
    · cases hc
    · split at hc
      · cases hc
      · rename_i hminus hlong
        rw [if_neg hminus, if_neg hlong]
        exact interrupt_success hc

theorem checkSetString_success (size : ℕ) (nullable : Bool) (str : Text)
    (h : (checkSetString size nullable str).1 = .success) :
    (checkSetString size nullable str).2 = str := by
  unfold checkSetString at h ⊢
  split
  · rfl
  · rename_i hnull
    rw [if_neg hnull] at h
    split
    · rename_i hlong
      rw [if_pos hlong] at h
      cases h
    · rfl

/-- A column of a number of `w` bytes; an empty text is stored as `null`. -/
def operateNumber (w : ℕ) (nullable : Bool) (null : ℕ) (parse : Text → ℕ)
    (checkSet : Text → RetCode × Text)
    (hcheck : ∀ t, (checkSet t).1 = .success → (checkSet t).2 = t) : Operate where
  length := w
  checkSet := checkSet
  setDefault := text "0"
  toValue t := .ok (Codec.leBytes w (if nullable && cStr t = [] then null else parse (cStr t)))
  value m := m.take w
  checkSet_success := hcheck
  value_toValue t b h rest := by
    obtain rfl := Except.ok.inj h
    rw [take_left' (Codec.length_leBytes _ _), take_of_length_le (by simp)]

/-- `OperateInt`: the number is written in two's complement, `NULL` is the largest. -/
def operateInt (nullable : Bool) : Operate :=
  operateNumber 4 nullable (2 ^ 31 - 1) (fun t => (strtol t % 2 ^ 32).toNat)
    (checkSetInt nullable) (checkSetInt_success nullable)

def operateULong (nullable : Bool) : Operate :=
  operateNumber 8 nullable (2 ^ 64 - 1) strtoul
    (checkSetULong nullable) (checkSetULong_success nullable)

/-- The column holds `NULL`: its first character is `NULL_STRING`. -/
def isNullString (nullable : Bool) (m : Memory) : Bool := nullable && m.head? = some 1

/-- `byte_align`, on the values of an `unsigned`. -/
def byteAlign (size : ℕ) : ℕ := ((size + (2 ^ 32 - 1)) % 2 ^ 32 / 4 + 1) * 4 % 2 ^ 32

/-- `OperateString`: a C string, or the single character of `NULL`.  The column takes `size` bytes
rounded up to words. -/
def operateString (size : ℕ) (nullable : Bool) : Operate where
  length := byteAlign size
  checkSet := checkSetString size nullable
  setDefault := if nullable then [1] else []
  toValue t := .ok (if nullable && cStr t = [] then [1] else cStr t ++ [0])
  value m := if isNullString nullable m then [1] else cStr m
  checkSet_success := checkSetString_success size nullable
  value_toValue t b h rest := by
    have hcut : ∀ rest, cStr (cStr t ++ [0] ++ rest) = cStr t := by
      intro rest
      rw [append_assoc, cStr, cStr, takeWhile_append_of_pos
        fun c hc => mem_takeWhile_imp (p := fun c : UInt8 => decide (c ≠ 0)) hc]
      simp
    have hhead : (b ++ rest).head? = b.head? := by
      obtain rfl := Except.ok.inj h
      split <;> simp
    have hnull : isNullString nullable (b ++ rest) = isNullString nullable b := by
      rw [isNullString, hhead, isNullString]
    rw [hnull]
    by_cases hb : isNullString nullable b
    · rw [if_pos hb, if_pos hb]
    · rw [if_neg hb, if_neg hb]
      obtain rfl := Except.ok.inj h
      split
      · rename_i hn
        rw [if_pos hn] at hb
        simp [isNullString, (Bool.and_eq_true _ _ ▸ hn).1] at hb
      · rw [hcut, ← append_nil (cStr t ++ [0]), hcut]

/-! ### Cutting a line -/

/-- `find(separator, prev_pos)` in what stands behind `prev_pos`: the text before the separator
and the text behind it. -/
def find (sep : Text) : Text → Option (Text × Text)
  | [] => if sep = [] then some ([], []) else none
  | c :: cs =>
    if sep.isPrefixOf (c :: cs) then some ([], (c :: cs).drop sep.length)
    else (find sep cs).map fun r => (c :: r.1, r.2)

theorem find_append (s : UInt8) {t : Text} (ht : s ∉ t) (rest : Text) :
    find [s] (t ++ s :: rest) = some (t, rest) := by
  induction t with
  | nil => simp [find]
  | cons c t ih =>
    rw [mem_cons, not_or] at ht
    rw [cons_append, find, if_neg (by simp [ht.1]), ih ht.2]
    rfl

theorem find_eq_some {s : UInt8} {t a rest : Text} (h : find [s] t = some (a, rest)) :
    t = a ++ s :: rest ∧ s ∉ a := by
  by_cases hs : s ∈ t
  · obtain ⟨as, bs, rfl, has⟩ := eq_append_cons_of_mem hs
    rw [find_append s has] at h
    cases h
    exact ⟨rfl, has⟩
  · exfalso
    induction t generalizing a rest with
    | nil => simp [find] at h
    | cons c t ih =>
      rw [mem_cons, not_or] at hs
      rw [find, if_neg (by simp [hs.1]), Option.map_eq_some_iff] at h
      obtain ⟨⟨a', rest'⟩, hr, -⟩ := h
      exact ih hr hs.2

/-! ### `CheckAndToValue` -/

inductive RawDataSource
  | sql
  | file
  deriving DecidableEq, Repr

/-- What was found wrong with a column; the index is `-1` for the line as a whole. -/
structure Validity where
  columnIndex : ℤ
  checkRes : RetCode
  deriving DecidableEq, Repr

structure Reading where
  /-- the text behind `prev_pos` -/
  rest : Text
  /-- `pos != npos` -/
  found : Bool
  tuple : Memory
  validities : List Validity
  deriving DecidableEq, Repr

/-- The codes that `CheckAndToValue` takes for errors. -/
def RetCode.isError (ret : RetCode) : Bool :=
  ret = .incorrectData || ret = .invalidNullData || ret = .invalidInsertData

/-- The text that column `i` is given, or the code with which the loop is left. -/
def columnText (sep : Text) (source : RawDataSource) (i : ℕ) (c : Operate) (r : Reading) :
    Except (RetCode × Reading) (Text × Reading) :=
  if r.found ∧ r.rest = [] then
    -- the first column without data
    let r := { r with found := false, validities := r.validities ++ [⟨-1, .tooFewColumn⟩] }
    match source with
    | .sql => .error (.tooFewColumn, r)
    | .file => .ok (c.setDefault, r)
  else
    match find sep r.rest with
    | none => .ok (c.setDefault, { r with found := false })
    | some (t, rest) =>
      let (ret, t) := c.checkSet t
      let ok := { r with rest := rest, found := true }
      let noted := { ok with validities := r.validities ++ [⟨i, ret⟩] }
      if ret.isError then
        match source with
        | .sql => .error (ret, noted)
        | .file => .ok (c.setDefault, noted)
      else if ret = .tooLongData then .ok (t, noted)
      else if ret ≠ .success then .ok (c.setDefault, noted)
      else .ok (t, ok)

def write (m : Memory) (off : ℕ) (b : Memory) : Run Memory :=
  if off + b.length ≤ m.length then .ok (m.take off ++ b ++ m.drop (off + b.length))
  else .error .outOfBounds

/-- The loop over the columns from the `i`-th on, whose offset is `off`. -/
def checkColumns (sep : Text) (source : RawDataSource) :
    ℕ → ℕ → List Operate → Reading → Run (RetCode × Reading)
  | _, _, [], r => .ok (.success, r)
  | i, off, c :: cs, r =>
    match columnText sep source i c r with
    | .error left => .ok left
    | .ok (t, r) => do
      let b ← c.toValue t
      let tuple ← write r.tuple off b
      checkColumns sep source (i + 1) (off + c.length) cs { r with tuple := tuple }

/-- `SchemaFix::CheckAndToValue`: the code, with the tuple and the validities in the state that is
left. -/
def checkAndToValue (columns : List Operate) (line : Text) (tuple : Memory) (sep : Text)
    (source : RawDataSource) : Run (RetCode × Reading) := do
  let (ret, r) ← checkColumns sep source 0 0 columns ⟨line, true, tuple, []⟩
  if ret = .success ∧ r.rest ≠ [] then
    let r := { r with validities := r.validities ++ [⟨-1, .tooManyColumn⟩] }
    return (match source with | .sql => .tooManyColumn | .file => .success, r)
  else return (ret, r)

/-! ### What one column does -/

def stored (c : Operate) (t : Text) : Option Text :=
  if (c.checkSet t).1.isError then none
  else if (c.checkSet t).1 = .tooLongData ∨ (c.checkSet t).1 = .success then some (c.checkSet t).2
  else some c.setDefault

theorem stored_of_success {c : Operate} {t : Text} (h : (c.checkSet t).1 = .success) :
    stored c t = some t := by
  rw [stored, h, if_neg (by decide), if_pos (Or.inr rfl), c.checkSet_success t h]

variable {s : UInt8} {r r' : Reading} {c : Operate} {t rest : Text}

theorem columnText_of_stored (i : ℕ) {t' : Text} (hfind : find [s] r.rest = some (t, rest))
    (ht : stored c t = some t') :
    ∃ vs, columnText [s] .sql i c r = .ok (t', ⟨rest, true, r.tuple, vs⟩) := by
  have hne : r.rest ≠ [] := by
    rw [(find_eq_some hfind).1]
    simp
  rw [columnText, if_neg (by simp [hne]), hfind]
  simp only
  rw [stored] at ht
  split at ht
  · cases ht
  · rename_i herr
    rw [if_neg herr]
    by_cases hlong : (c.checkSet t).1 = .tooLongData
    · rw [if_pos (Or.inl hlong)] at ht
      rw [if_pos hlong]
      cases ht
      exact ⟨_, rfl⟩
    · rw [if_neg hlong]
      by_cases hok : (c.checkSet t).1 = .success
      · rw [if_pos (Or.inr hok)] at ht
        rw [if_neg (by simp [hok])]
        cases ht
        exact ⟨_, rfl⟩
      · rw [if_neg (by simp [hlong, hok])] at ht
        rw [if_pos hok]
        cases ht
        exact ⟨_, rfl⟩

theorem columnText_ok (i : ℕ) {p : Text × Reading} (hfind : find [s] r.rest = some (t, rest))
    (h : columnText [s] .sql i c r = .ok p) : stored c t = some p.1 := by
  cases ht : stored c t with
  | some t' =>
    obtain ⟨vs, hvs⟩ := columnText_of_stored i hfind ht
    rw [hvs] at h
    cases h
    rfl
  | none =>
    exfalso
    have hne : r.rest ≠ [] := by
      rw [(find_eq_some hfind).1]
      simp
    rw [columnText, if_neg (by simp [hne]), hfind] at h
    simp only at h
    rw [stored] at ht
    split at ht
    · rename_i herr
      rw [if_pos herr] at h
      cases h
    · split at ht <;> cases ht

theorem rest_of_find_none {ret : RetCode} :
    ∀ {cs : List Operate} (i off : ℕ) (r : Reading), r.found = false → find [s] r.rest = none →
      checkColumns [s] .sql i off cs r = .ok (ret, r') → r'.rest = r.rest := by
  intro cs
  induction cs with
  | nil =>
    intro i off r _ _ h
    cases h
    rfl
  | cons c cs ih =>
    intro i off r hfound hfind h
    rw [checkColumns, columnText, if_neg (by simp [hfound]), hfind] at h
    simp only at h
    obtain ⟨b, -, tuple, -, h⟩ := Run.bind₂_eq_ok h
    exact ih _ _ { r with found := false, tuple := tuple } rfl hfind h

theorem checkColumns_cons {i : ℕ} {cs : List Operate} (hfound : r.found = true)
    (h : checkColumns [s] .sql i off (c :: cs) r = .ok (.success, r')) (hend : r'.rest = []) :
    ∃ t rest t' b tuple vs, find [s] r.rest = some (t, rest) ∧ stored c t = some t' ∧
      c.toValue t' = .ok b ∧ write r.tuple off b = .ok tuple ∧
      checkColumns [s] .sql (i + 1) (off + c.length) cs ⟨rest, true, tuple, vs⟩
        = .ok (.success, r') := by
  have hne : r.rest ≠ [] := by
    intro hrest
    rw [checkColumns, columnText, if_pos ⟨hfound, hrest⟩] at h
    cases h
  cases hfind : find [s] r.rest with
  | none =>
    exfalso
    rw [checkColumns, columnText, if_neg (by simp [hne]), hfind] at h
    simp only at h
    obtain ⟨b, -, tuple, -, h⟩ := Run.bind₂_eq_ok h
    exact hne ((rest_of_find_none _ _ { r with found := false, tuple := tuple } rfl hfind
      h).symm.trans hend)
  | some p =>
    obtain ⟨t, rest⟩ := p
    rw [checkColumns] at h
    cases hc : columnText [s] .sql i c r with
    | error left =>
      exfalso
      rw [hc] at h
      have hret : left.1 ≠ .success := by
        rw [columnText, if_neg (by simp [hne]), hfind] at hc
        simp only at hc
        split at hc
        · rename_i herr
          cases hc
          intro heq
          rw [heq] at herr
          cases herr
        · split at hc
          · cases hc
          · split at hc <;> cases hc
      cases h
      exact hret rfl
    | ok p =>
      have ht := columnText_ok i hfind hc
      obtain ⟨vs, hvs⟩ := columnText_of_stored i hfind ht
      rw [hvs] at h
      simp only at h
      obtain ⟨b, hb, tuple, hw, h⟩ := Run.bind₂_eq_ok h
      exact ⟨t, rest, p.1, b, tuple, vs, rfl, ht, hb, hw, h⟩

theorem count_of_checkColumns : ∀ {cs : List Operate} (i off : ℕ) (r : Reading),
    r.found = true → checkColumns [s] .sql i off cs r = .ok (.success, r') → r'.rest = [] →
      r.rest.count s = cs.length := by
  intro cs
  induction cs with
  | nil =>
    intro i off r _ h hend
    cases h
    rw [hend]
    rfl
  | cons c cs ih =>
    intro i off r hfound h hend
    obtain ⟨t, rest, t', b, tuple, vs, hfind, -, -, -, hnext⟩ := checkColumns_cons hfound h hend
    obtain ⟨hrest, hs⟩ := find_eq_some hfind
    have hcount := ih _ _ ⟨rest, true, tuple, vs⟩ rfl hnext hend
    simp only at hcount
    rw [hrest, count_append, count_eq_zero_of_not_mem hs, count_cons_self,
      hcount, length_cons, Nat.zero_add]

theorem checkAndToValue_success :
    checkAndToValue columns line tuple [s] .sql = .ok (.success, r) ↔
      checkColumns [s] .sql 0 0 columns ⟨line, true, tuple, []⟩ = .ok (.success, r) ∧
        r.rest = [] := by
  rw [checkAndToValue]
  cases h : checkColumns [s] .sql 0 0 columns ⟨line, true, tuple, []⟩ with
  | error e => simp [Run.bind_error]
  | ok p =>
    obtain ⟨ret, r'⟩ := p
    rw [bind_ok]
    simp only
    split_ifs with hmany
    · constructor
      · intro heq
        cases heq
      · rintro ⟨heq, hrest⟩
        cases heq
        exact absurd hrest hmany.2
    · constructor
      · intro heq
        cases heq
        exact ⟨rfl, by simpa using hmany⟩
      · rintro ⟨heq, -⟩
        cases heq
        rfl

theorem count_of_success (h : checkAndToValue columns line tuple [s] .sql = .ok (.success, r)) :
    line.count s = columns.length := by
  obtain ⟨hcols, hend⟩ := checkAndToValue_success.mp h
  exact count_of_checkColumns 0 0 ⟨line, true, tuple, []⟩ rfl hcols hend

/-! ### Lines made of pieces -/

def joinPieces (s : UInt8) (ps : List (Operate × Text)) : Text := ps.flatMap fun p => p.2 ++ [s]

/-- The columns of a tuple, from offset `off` on, have the property `R`. -/
def EachColumn (R : Operate → Text → Memory → Prop) : ℕ → List (Operate × Text) → Memory → Prop
  | _, [], _ => True
  | off, (c, t) :: ps, m => R c t (m.drop off) ∧ EachColumn R (off + c.length) ps m

def Shows (c : Operate) (t : Text) (m : Memory) : Prop :=
  ∃ b, c.toValue t = .ok b ∧ c.value m = c.value b

def Keeps (c : Operate) (t : Text) (m : Memory) : Prop := ∃ t', stored c t = some t' ∧ Shows c t' m

/-- `toValue` does not throw on the text that is stored, and its bytes fit in the column.  An accepted
text on which it throws is the DATE `2023-02-31`. -/
def Fits (c : Operate) (t : Text) : Prop :=
  ∀ t', stored c t = some t' → ∃ b, c.toValue t' = .ok b ∧ b.length ≤ c.length

theorem write_ok (m b : Memory) (off : ℕ) (h : off + b.length ≤ m.length) :
    ∃ m', write m off b = .ok m' ∧ m'.length = m.length ∧ b <+: m'.drop off ∧
      m'.take off = m.take off := by
  have hoff : (m.take off).length = off := by
    rw [length_take]
    omega
  refine ⟨_, if_pos h, ?_, ?_, ?_⟩
  · simp only [length_append, length_drop, hoff]
    omega
  · rw [append_assoc, drop_left' hoff]
    exact prefix_append _ _
  · rw [append_assoc, take_left' hoff]

theorem prefix_of_take_eq {m m' b : Memory} (h : m'.take k = m.take k) (hk : off + b.length ≤ k)
    (hb : b <+: m.drop off) : b <+: m'.drop off := by
  have hcut : ∀ m : Memory, (m.drop off).take b.length = ((m.take k).drop off).take b.length := by
    intro m
    rw [drop_take, take_take, Nat.min_eq_left (by omega)]
  rw [prefix_iff_eq_take] at hb ⊢
  rw [hcut m', h, ← hcut m]
  exact hb

def totalsize (columns : List Operate) : ℕ := (columns.map Operate.length).sum

/-- **What the tuple holds.**  Later columns are written behind the earlier ones. -/
theorem keeps_of_checkColumns : ∀ {ps : List (Operate × Text)} (i off : ℕ) (r : Reading),
    (∀ p ∈ ps, s ∉ p.2 ∧ Fits p.1 p.2) → r.found = true → r.rest = joinPieces s ps →
    off + totalsize (ps.map Prod.fst) ≤ r.tuple.length →
    checkColumns [s] .sql i off (ps.map Prod.fst) r = .ok (.success, r') → r'.rest = [] →
      EachColumn Keeps off ps r'.tuple ∧ r'.tuple.take off = r.tuple.take off := by
  intro ps
  induction ps with
  | nil =>
    intro i off r _ _ _ _ h _
    cases h
    exact ⟨trivial, rfl⟩
  | cons p ps ih =>
    intro i off r hps hfound hrest hlen h hend
    obtain ⟨c, t⟩ := p
    obtain ⟨hs, hfits⟩ := hps (c, t) mem_cons_self
    simp only [map_cons, totalsize, sum_cons] at hlen
    obtain ⟨t₁, rest, t', b, tuple, vs, hfind, ht', hb, hw, hnext⟩ :=
      checkColumns_cons hfound h hend
    have hpiece : find [s] r.rest = some (t, joinPieces s ps) := by
      rw [hrest, joinPieces, flatMap_cons, append_assoc, singleton_append]
      exact find_append s hs _
    obtain ⟨rfl, rfl⟩ : t₁ = t ∧ rest = joinPieces s ps := by
      rw [hpiece] at hfind
      cases hfind
      exact ⟨rfl, rfl⟩
    obtain ⟨b', hb', hroom⟩ := hfits t' ht'
    simp only at hroom
    obtain rfl : b = b' := Except.ok.inj (hb.symm.trans hb')
    obtain ⟨tuple', hw', hlen', hpre, htake⟩ := write_ok r.tuple b off (by omega)
    obtain rfl : tuple = tuple' := Except.ok.inj (hw.symm.trans hw')
    obtain ⟨hcols, hkeep⟩ := ih _ _ ⟨joinPieces s ps, true, tuple, vs⟩
      (fun p hp => hps p (mem_cons_of_mem _ hp)) rfl rfl
      (by simp only [totalsize]; omega) hnext hend
    simp only at hkeep
    refine ⟨⟨⟨t', ht', b, hb, ?_⟩, hcols⟩, ?_⟩
    · obtain ⟨tail, htail⟩ := prefix_of_take_eq hkeep (Nat.add_le_add_left hroom off) hpre
      rw [← htail]
      exact c.value_toValue t' b hb tail
    · have hshort := congrArg (List.take off) hkeep
      rw [take_take, take_take, Nat.min_eq_left (Nat.le_add_right _ _)] at hshort
      rw [hshort, htake]

theorem checkColumns_pieces : ∀ {ps : List (Operate × Text)} (i off : ℕ) (r : Reading),
    (∀ p ∈ ps, s ∉ p.2 ∧ Fits p.1 p.2 ∧ (stored p.1 p.2).isSome) → r.found = true →
    r.rest = joinPieces s ps → off + totalsize (ps.map Prod.fst) ≤ r.tuple.length →
      ∃ r', checkColumns [s] .sql i off (ps.map Prod.fst) r = .ok (.success, r') ∧
        r'.rest = [] := by
  intro ps
  induction ps with
  | nil =>
    intro i off r _ _ hrest _
    exact ⟨r, rfl, hrest⟩
  | cons p ps ih =>
    intro i off r hps hfound hrest hlen
    obtain ⟨c, t⟩ := p
    obtain ⟨hs, hfits, hsome⟩ := hps (c, t) mem_cons_self
    simp only [map_cons, totalsize, sum_cons] at hlen
    obtain ⟨t', ht'⟩ := Option.isSome_iff_exists.mp hsome
    obtain ⟨b, hb, hroom⟩ := hfits t' ht'
    simp only at hroom
    have hpiece : find [s] r.rest = some (t, joinPieces s ps) := by
      rw [hrest, joinPieces, flatMap_cons, append_assoc, singleton_append]
      exact find_append s hs _
    obtain ⟨vs, hvs⟩ := columnText_of_stored i hpiece ht'
    obtain ⟨tuple, hw, hlen', -, -⟩ := write_ok r.tuple b off (by omega)
    obtain ⟨r', hr', hend⟩ := ih (i + 1) (off + c.length)
      ⟨joinPieces s ps, true, tuple, vs⟩
      (fun p hp => hps p (mem_cons_of_mem _ hp)) rfl rfl
      (by simp only [totalsize]; omega)
    refine ⟨r', ?_, hend⟩
    rw [map_cons, checkColumns, hvs]
    simp only
    rw [hb, bind_ok, hw, bind_ok]
    exact hr'

/-- **A line made of pieces** is taken exactly when every piece is stored. -/
theorem checkAndToValue_pieces {ps : List (Operate × Text)}
    (hps : ∀ p ∈ ps, s ∉ p.2 ∧ Fits p.1 p.2) (hlen : tuple.length = totalsize (ps.map Prod.fst)) :
    (∀ r, checkAndToValue (ps.map Prod.fst) (joinPieces s ps) tuple [s] .sql = .ok (.success, r) →
      EachColumn Keeps 0 ps r.tuple) ∧
    ((∀ p ∈ ps, (stored p.1 p.2).isSome) →
      ∃ r, checkAndToValue (ps.map Prod.fst) (joinPieces s ps) tuple [s] .sql
        = .ok (.success, r)) := by
  constructor
  · intro r h
    obtain ⟨hcols, hend⟩ := checkAndToValue_success.mp h
    exact (keeps_of_checkColumns 0 0 ⟨joinPieces s ps, true, tuple, []⟩ hps rfl rfl
      (by simp only; omega) hcols hend).1
  · intro hstored
    obtain ⟨r, hr, hend⟩ := checkColumns_pieces (s := s) 0 0
      ⟨joinPieces s ps, true, tuple, []⟩
      (fun p hp => ⟨(hps p hp).1, (hps p hp).2, hstored p hp⟩) rfl rfl (by simp only; omega)
    exact ⟨r, checkAndToValue_success.mpr ⟨hr, hend⟩⟩

end Loader
