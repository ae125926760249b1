/-
When a failed INSERT leaves the table as it was: when it fails before `InsertFromString` looks at
the first line, where every line takes a row id before it is checked.  Without a list of columns,
a value that is not supported is not noticed, or ends the statement with the rows before it.
-/
import ClaimsDB.InsertStatement

namespace Loader

open List

variable {m : Machine} {t : Table}

/-! ### No list of columns -/

theorem allColumns_short : ∀ {n : ℕ} {vs : List InsertVal} {ret : RetCode} {ostr : Text},
    vs.length < n → allColumns n vs ret ostr = none := by
  intro n
  induction n with
  | zero =>
    intro vs ret ostr h
    exact absurd h (Nat.not_lt_zero _)
  | succ n ih =>
    intro vs ret ostr h
    cases vs with
    | nil => rfl
    | cons v vs => exact ih (Nat.lt_of_succ_lt_succ h)

def rowText (vs : List InsertVal) : Text := vs.flatMap fun v => (insertValueToStream v).2 ++ [124]

theorem allColumns_eq : ∀ {n : ℕ} {vs : List InsertVal} {ret : RetCode} {ostr : Text},
    n ≤ vs.length → allColumns n vs ret ostr =
      some ((((vs.take n).getLast?).map fun v => (insertValueToStream v).1).getD ret,
        ostr ++ rowText (vs.take n), vs.drop n) := by
  intro n
  induction n with
  | zero =>
    intro vs ret ostr _
    simp [allColumns, rowText]
  | succ n ih =>
    intro vs ret ostr h
    cases vs with
    | nil => exact absurd h (by simp)
    | cons v vs =>
      rw [allColumns, ih (Nat.le_of_succ_le_succ h), take_succ_cons, drop_succ_cons]
      congr 2
      · rw [getLast?_cons]
        cases (vs.take n).getLast? <;> rfl
      · simp [rowText]

/-- The last of the first `n` values is supported. -/
def LastSupported (n : ℕ) (row : List InsertVal) : Prop :=
  ∀ v, (row.take n).getLast? = some v → v.Supported

def WrongCount (n : ℕ) (rows : List (List InsertVal)) : Prop :=
  ∃ pre row post, rows = pre ++ row :: post ∧
    (∀ r ∈ pre, r.length = n ∧ LastSupported n r) ∧
    (row.length < n ∨ n < row.length ∧ LastSupported n row)

variable {n : ℕ} {row : List InsertVal} {cols : List Text} {tuples : Text}

theorem wrongCount_cons {rows : List (List InsertVal)} :
    WrongCount n (row :: rows) ↔ (row.length < n ∨ n < row.length ∧ LastSupported n row) ∨
      (row.length = n ∧ LastSupported n row) ∧ WrongCount n rows := by
  constructor
  · rintro ⟨pre, r, post, heq, hpre, hr⟩
    cases pre with
    | nil =>
      cases heq
      exact Or.inl hr
    | cons r₀ pre =>
      cases heq
      exact Or.inr ⟨hpre _ mem_cons_self, pre, r, post, rfl,
        fun x hx => hpre x (mem_cons_of_mem _ hx), hr⟩
  · rintro (hr | ⟨hrow, pre, r, post, rfl, hpre, hr⟩)
    · exact ⟨[], row, rows, rfl, by simp, hr⟩
    · exact ⟨row :: pre, r, post, rfl, List.forall_mem_cons.2 ⟨hrow, hpre⟩, hr⟩

theorem lastSupported_iff :
    ((((row.take n).getLast?).map fun v => (insertValueToStream v).1).getD .success = .success) ↔
      LastSupported n row := by
  unfold LastSupported InsertVal.Supported
  cases (row.take n).getLast? <;> simp

theorem renderRows_all_iff : ∀ {rows : List (List InsertVal)} {ostr : Text} {k : ℕ},
    (∃ e, renderRows t [] rows ostr k = .error e) ↔ WrongCount t.attributes.length rows := by
  intro rows
  induction rows with
  | nil =>
    intro ostr k
    constructor
    · rintro ⟨e, he⟩
      cases he
    · rintro ⟨pre, row, post, heq, -, -⟩
      simp at heq
  | cons row rows ih =>
    intro ostr k
    rw [wrongCount_cons, renderRows, if_pos rfl]
    by_cases hshort : row.length < t.attributes.length
    · rw [allColumns_short hshort]
      exact ⟨fun _ => Or.inl (Or.inl hshort), fun _ => ⟨_, rfl⟩⟩
    · rw [allColumns_eq (Nat.le_of_not_lt hshort)]
      simp only
      by_cases hlast : LastSupported t.attributes.length row
      · rw [if_neg (not_not.mpr (lastSupported_iff.mpr hlast))]
        by_cases hlong : t.attributes.length < row.length
        · rw [if_pos (by simpa [drop_eq_nil_iff] using hlong)]
          exact ⟨fun _ => Or.inl (Or.inr ⟨hlong, hlast⟩), fun _ => ⟨_, rfl⟩⟩
        · have hlen : row.length = t.attributes.length := by omega
          rw [if_neg (by simp [drop_eq_nil_iff, hlen]), ih]
          simp [hlen, hlast]
      · rw [if_pos (mt lastSupported_iff.mp hlast)]
        simp [hlast, hshort]

/-! ### A list of columns -/

def fullName (t : Table) (col : Text) : Text := t.tableName ++ [46] ++ col

theorem fullName_injective (t : Table) : Function.Injective (fullName t) :=
  fun _ _ h => append_cancel_left h

def ColumnsExist (t : Table) (cols : List Text) : Prop :=
  cols.Nodup ∧ ∀ col ∈ cols, fullName t col ∈ t.attributes.map Prod.fst

theorem valueFor_isSome (h : row.length = cols.length) (name : Text) :
    (valueFor t cols row name).isSome ↔ name ∈ cols.map (fullName t) := by
  rw [valueFor, Option.isSome_map, find?_isSome]
  constructor
  · rintro ⟨p, hp, hname⟩
    exact List.mem_map.mpr ⟨p.1, (of_mem_zip hp).1, (of_decide_eq_true hname).symm⟩
  · intro hname
    obtain ⟨col, hcol, rfl⟩ := List.mem_map.mp hname
    obtain ⟨k, hk, rfl⟩ := getElem_of_mem hcol
    have hk' : k < (cols.zip row).length := by
      rw [length_zip]
      omega
    refine ⟨(cols.zip row)[k], getElem_mem hk', ?_⟩
    simp [fullName]

theorem valueFor_getElem (h : row.length = cols.length) (hnodup : cols.Nodup) {k : ℕ}
    (hk : k < cols.length) : valueFor t cols row (fullName t cols[k]) = some (row[k]) := by
  rw [valueFor]
  have hk' : k < (cols.zip row).length := by
    rw [length_zip]
    omega
  have hfind : (cols.zip row).find? (fun p => fullName t cols[k] = t.tableName ++ [46] ++ p.1)
      = some (cols.zip row)[k] := by
    refine List.find?_eq_some_iff_getElem.mpr ⟨by simp [fullName], k, hk', rfl, ?_⟩
    intro j hj
    have hne : cols[k] ≠ cols[j] := fun heq =>
      absurd ((hnodup.getElem_inj_iff).mp heq) (by omega)
    simpa [fullName] using hne
  rw [hfind]
  simp

theorem valueFor_mem {name : Text} {v : InsertVal} (h : valueFor t cols row name = some v) :
    v ∈ row := by
  rw [valueFor, Option.map_eq_some_iff] at h
  obtain ⟨p, hp, rfl⟩ := h
  exact (of_mem_zip (mem_of_find?_eq_some hp)).2

def listedText (t : Table) (cols : List Text) (row : List InsertVal)
    (attrs : List (Text × Operate)) : Text :=
  attrs.flatMap fun a =>
    ((valueFor t cols row a.1).map fun v => (insertValueToStream v).2).getD [] ++ [124]

def AllSupported (t : Table) (cols : List Text) (row : List InsertVal)
    (attrs : List (Text × Operate)) : Prop :=
  ∀ a ∈ attrs, ∀ v, valueFor t cols row a.1 = some v → v.Supported

theorem listedColumns_supported :
    ∀ {attrs : List (Text × Operate)} {used : ℕ} {ostr : Text}, AllSupported t cols row attrs →
      listedColumns t cols row attrs used ostr =
        some (used + attrs.countP (fun a => (valueFor t cols row a.1).isSome),
          ostr ++ listedText t cols row attrs) := by
  intro attrs
  induction attrs with
  | nil =>
    intro used ostr _
    simp [listedColumns, listedText]
  | cons a attrs ih =>
    intro used ostr hall
    obtain ⟨name, c⟩ := a
    have hrest : AllSupported t cols row attrs := fun a ha => hall a (mem_cons_of_mem _ ha)
    rw [listedColumns]
    cases hv : valueFor t cols row name with
    | none =>
      simp only
      rw [ih hrest]
      simp [hv, listedText]
    | some v =>
      have hs : (insertValueToStream v).1 = .success := hall _ mem_cons_self v hv
      simp only
      rw [if_neg (not_not.mpr hs), ih hrest]
      simp [hv, listedText, Nat.add_comm 1, Nat.add_assoc]

theorem listedColumns_unsupported :
    ∀ {attrs : List (Text × Operate)} {used : ℕ} {ostr : Text}, ¬AllSupported t cols row attrs →
      listedColumns t cols row attrs used ostr = none := by
  intro attrs
  induction attrs with
  | nil =>
    intro used ostr h
    exact absurd (by simp [AllSupported]) h
  | cons a attrs ih =>
    intro used ostr h
    obtain ⟨name, c⟩ := a
    rw [listedColumns]
    have hrest : (∀ v, valueFor t cols row name = some v → v.Supported) →
        ¬AllSupported t cols row attrs := by
      intro hfirst hall
      refine h fun a ha v hv => ?_
      rcases List.mem_cons.mp ha with rfl | ha
      · exact hfirst v hv
      · exact hall a ha v hv
    cases hv : valueFor t cols row name with
    | none => exact ih (hrest (by simp [hv]))
    | some v =>
      simp only
      by_cases hs : (insertValueToStream v).1 = .success
      · rw [if_neg (not_not.mpr hs)]
        refine ih (hrest fun w hw => ?_)
        obtain rfl : v = w := Option.mem_unique hv hw
        exact hs
      · rw [if_pos hs]

theorem count_eq_iff (h : row.length = cols.length) :
    t.attributes.countP (fun a => (valueFor t cols row a.1).isSome) = cols.length ↔
      ColumnsExist t cols := by
  set used := (t.attributes.map Prod.fst).filter (· ∈ cols.map (fullName t)) with hused
  have hcount : t.attributes.countP (fun a => (valueFor t cols row a.1).isSome) = used.length := by
    rw [hused, ← countP_eq_length_filter, countP_map]
    refine countP_congr fun a _ => ?_
    simpa using valueFor_isSome h a.1
  have hnodup : used.Nodup := t.names_nodup.filter _
  have hsub : used ⊆ cols.map (fullName t) := fun name hname => by
    simpa using (List.mem_filter.mp hname).2
  rw [hcount]
  constructor
  · intro hlen
    have hperm := (subperm_of_subset hnodup hsub).perm_of_length_le (by simp [hlen])
    refine ⟨(nodup_map_iff (fullName_injective t)).mp (hperm.nodup_iff.mp hnodup), ?_⟩
    intro col hcol
    have hmem := hperm.mem_iff.mpr (mem_map_of_mem hcol)
    exact (List.mem_filter.mp hmem).1
  · rintro ⟨hcols, hexist⟩
    have hperm : used.Perm (cols.map (fullName t)) := by
      refine (perm_ext_iff_of_nodup hnodup
        ((nodup_map_iff (fullName_injective t)).mpr hcols)).mpr fun name => ?_
      refine ⟨fun hname => hsub hname, fun hname => List.mem_filter.mpr ⟨?_, by simpa using hname⟩⟩
      obtain ⟨col, hcol, rfl⟩ := List.mem_map.mp hname
      exact hexist col hcol
    rw [hperm.length_eq, length_map]

def BadRow (cols : List Text) (row : List InsertVal) : Prop :=
  row.length ≠ cols.length ∨ ∃ v ∈ row, ¬v.Supported

theorem supported_iff (h : row.length = cols.length) (hcols : ColumnsExist t cols) :
    AllSupported t cols row t.attributes ↔ ∀ v ∈ row, v.Supported := by
  constructor
  · intro hall v hv
    obtain ⟨k, hk, rfl⟩ := getElem_of_mem hv
    have hkc : k < cols.length := by omega
    obtain ⟨a, ha, hname⟩ := List.mem_map.mp (hcols.2 _ (getElem_mem hkc))
    exact hall a ha _ (hname ▸ valueFor_getElem h hcols.1 hkc)
  · intro hall a _ v hv
    exact hall v (valueFor_mem hv)

theorem renderRows_listed_iff (hne : cols ≠ []) :
    ∀ {rows : List (List InsertVal)} {ostr : Text} {k : ℕ},
      (∃ e, renderRows t cols rows ostr k = .error e) ↔
        ∃ row ∈ rows, ¬ColumnsExist t cols ∨ BadRow cols row := by
  intro rows
  induction rows with
  | nil =>
    intro ostr k
    constructor
    · rintro ⟨e, he⟩
      cases he
    · rintro ⟨row, hrow, -⟩
      cases hrow
  | cons row rows ih =>
    intro ostr k
    rw [renderRows, if_neg hne]
    simp only [mem_cons, exists_eq_or_imp]
    by_cases hlen : row.length = cols.length
    · rw [if_neg (not_not.mpr hlen)]
      by_cases hcols : ColumnsExist t cols
      · by_cases hall : ∀ v ∈ row, v.Supported
        · rw [listedColumns_supported ((supported_iff hlen hcols).mpr hall)]
          simp only
          rw [if_neg (by simpa using (count_eq_iff hlen).mpr hcols), ih]
          have hgood : ¬BadRow cols row := by
            rintro (hbad | ⟨v, hv, hbad⟩)
            · exact hbad hlen
            · exact hbad (hall v hv)
          simp [hcols, hgood]
        · rw [listedColumns_unsupported (mt (supported_iff hlen hcols).mp hall)]
          have hbad : BadRow cols row := Or.inr (by simpa using hall)
          simp [hbad]
      · have hused : (0 + t.attributes.countP fun a => (valueFor t cols row a.1).isSome)
            ≠ cols.length := by
          rw [Nat.zero_add]
          exact mt (count_eq_iff hlen).mp hcols
        by_cases hall : AllSupported t cols row t.attributes
        · rw [listedColumns_supported hall]
          simp only
          rw [if_pos hused]
          simp [hcols]
        · rw [listedColumns_unsupported hall]
          simp [hcols]
    · rw [if_pos hlen]
      have hbad : BadRow cols row := Or.inl hlen
      simp [hbad]

/-! ### The row counter -/

theorem checkLine_rowNumber {record : Text} {l : Lines} {p : RetCode × Lines}
    (h : checkLine m t record l = .ok p) : p.2.rowNumber = l.rowNumber + 1 := by
  obtain ⟨⟨ret, r⟩, -, h⟩ := Run.bind_eq_ok h
  simp only at h
  split at h <;> (cases h; rfl)

theorem rowNumber_le_insertLines : ∀ {fuel : ℕ} {prevCur : ℤ} {l : Lines}
    {p : RetCode × Lines}, insertLines m t tuples fuel prevCur l = .ok p →
      l.rowNumber + (if (findLineEnd tuples prevCur).isSome then 1 else 0) ≤ p.2.rowNumber := by
  intro fuel
  induction fuel with
  | zero =>
    intro prevCur l p h
    cases h
  | succ fuel ih =>
    intro prevCur l p h
    rw [insertLines] at h
    cases hfind : findLineEnd tuples prevCur with
    | none =>
      rw [hfind] at h
      cases h
      simp
    | some cur =>
      rw [hfind] at h
      simp only at h
      obtain ⟨⟨ret, l'⟩, hc, h⟩ := Run.bind_eq_ok h
      have hrow := checkLine_rowNumber hc
      simp only at h hrow
      split at h
      · cases h
        simp [hrow]
      · have hle := ih h
        simp only [Option.isSome_some, if_true]
        omega

theorem findLineEnd_zero_isSome (h : 10 ∈ tuples) : (findLineEnd tuples 0).isSome := by
  rw [findLineEnd, if_neg (by decide), Option.isSome_map, findIdx?_isSome]
  simpa using h

def CanOpen (m : Machine) (t : Table) : Prop := t.connector.ref ≠ 0 ∨ m.opens = true

theorem rowNumber_lt_insertFromString {result : ExecutedResult} {out : Outcome}
    (hopen : CanOpen m t) (hline : 10 ∈ tuples) (h : insertFromString m t tuples result = .ok out) :
    t.rowNumber < out.table.rowNumber := by
  rw [insertFromString, if_neg (ne_nil_of_mem hline), Table.openConnector,
    if_pos (show t.connector.ref ≠ 0 ∨ m.opens = true from hopen)] at h
  obtain ⟨⟨ret, l⟩, hl, h⟩ := Run.bind_eq_ok h
  have hrow := rowNumber_le_insertLines hl
  rw [if_pos (findLineEnd_zero_isSome hline)] at hrow
  simp only at h
  split at h
  · cases h
    exact hrow
  · obtain ⟨s, -, h⟩ := Run.bind_eq_ok h
    cases h
    rw [Table.closeConnector]
    split <;> exact hrow

/-! ### Failing without a trace -/

def Rejected (t : Table) (stmt : InsertStmt) : Prop :=
  stmt.rows = [] ∨
  (stmt.colList = [] ∧ WrongCount t.attributes.length stmt.rows) ∨
  (stmt.colList ≠ [] ∧
    ∃ row ∈ stmt.rows, ¬ColumnsExist t stmt.colList ∨ BadRow stmt.colList row)

/-- An error is reported, nothing inserted, and the table is as it was. -/
def FailsCleanly (m : Machine) (t : Table) (stmt : InsertStmt) (result : ExecutedResult) : Prop :=
  ∃ out, execute m t stmt result = .ok out ∧ out.ret ≠ .success ∧ out.result.status = false ∧
    out.table = t ∧ out.inserted = []

theorem renderRows_error_iff {stmt : InsertStmt} (hrows : stmt.rows ≠ []) :
    (∃ e, renderRows t stmt.colList stmt.rows [] 0 = .error e) ↔ Rejected t stmt := by
  by_cases hcols : stmt.colList = []
  · rw [hcols, renderRows_all_iff, Rejected]
    simp [hrows, hcols]
  · rw [renderRows_listed_iff hcols, Rejected]
    simp [hrows, hcols]

/-- **A failed INSERT changes nothing exactly when it is rejected early** or the files cannot be
opened. -/
theorem failed_insert_clean_iff (m : Machine) (t : Table) (stmt : InsertStmt)
    (result : ExecutedResult) :
    FailsCleanly m t stmt result ↔ Rejected t stmt ∨ ¬CanOpen m t := by
  by_cases hrows : stmt.rows = []
  · refine iff_of_true ⟨_, if_pos hrows, nofun, rfl, rfl, rfl⟩ (Or.inl (Or.inl hrows))
  · rw [← renderRows_error_iff hrows, FailsCleanly, execute, if_neg hrows]
    cases hr : renderRows t stmt.colList stmt.rows [] 0 with
    | error e => exact iff_of_true ⟨_, rfl, nofun, rfl, rfl, rfl⟩ (Or.inl ⟨e, rfl⟩)
    | ok p =>
      obtain ⟨ostr, changed⟩ := p
      simp only
      have hnone : ¬∃ e, (Except.ok (ostr, changed) : Except Text (Text × ℕ)) = .error e := by
        rintro ⟨e, he⟩
        cases he
      rw [or_iff_right hnone]
      constructor
      · rintro ⟨out, hout, -, -, htable, -⟩ hopen
        obtain ⟨out₁, hi, hout⟩ := Run.bind_eq_ok hout
        have hrow := rowNumber_lt_insertFromString hopen (by simp) hi
        have hsame : out.table = out₁.table := by
          split at hout <;> (cases hout; rfl)
        rw [← hsame, htable] at hrow
        exact absurd hrow (Nat.lt_irrefl _)
      · intro hopen
        have hi : insertFromString m t (ostr ++ [10]) result
            = .ok ⟨.openDiskFileFail, result, t, []⟩ := by
          rw [insertFromString, if_neg (by simp), Table.openConnector,
            if_neg (show ¬(t.connector.ref ≠ 0 ∨ m.opens = true) from hopen)]
        refine ⟨_, by rw [hi, Run.bind_ok, if_neg (by simp)]; rfl, by simp, rfl, rfl, rfl⟩

/-! ### A table with one column -/

def wholeProjection : Projection Memory where
  getSubTuple := id
  partitionOf _ := 0
  numberOfPartitions := 1
  capacity := 8
  partitionOf_lt _ := Nat.one_pos

def oneColumn (c : Operate) : Table where
  tableName := [116]
  attributes := [([116, 46, 115], c)]
  projections := [wholeProjection]
  rowNumber := 0
  connector := ⟨0, true, by simp⟩
  files _ _ := []
  numberOfBlocks _ _ := 0
  names_nodup := by simp

def workingMachine : Machine := ⟨true, fun _ _ => 0⟩

def ExecutedResult.new : ExecutedResult := ⟨false, [], [], [], 0⟩

def insertOne (v : InsertVal) : InsertStmt := ⟨[], [[v]], by simp⟩

/-- `VALUES (1 + 1)` inserts `NULL`; `VALUES (x)` fails and has used up a row id. -/
theorem failed_insert_leaves_trace :
    (¬InsertVal.exprCalBinary.Supported ∧
      ¬FailsCleanly workingMachine (oneColumn (operateInt true)) (insertOne .exprCalBinary)
        .new) ∧
    ((checkAndToValue (oneColumn (operateInt true)).columns (addRowIdColumn 0 [120])
        (workingMachine.tupleBuffer (oneColumn (operateInt true)) 0) [124] .sql).map Prod.fst
        = .ok .incorrectData ∧
      ¬FailsCleanly workingMachine (oneColumn (operateInt true)) (insertOne (.exprConst [120]))
        .new) := by
  refine ⟨⟨by decide, ?_⟩, by decide, ?_⟩
  · rintro ⟨out, hout, hret, -⟩
    have heval : (execute workingMachine (oneColumn (operateInt true)) (insertOne .exprCalBinary)
        .new).map Outcome.ret = .ok .success := by decide
    rw [hout] at heval
    exact hret (Except.ok.inj heval)
  · rintro ⟨out, hout, -, -, htable, -⟩
    have heval : (execute workingMachine (oneColumn (operateInt true))
        (insertOne (.exprConst [120])) .new).map (fun out => out.table.rowNumber)
        = .ok 1 := by decide
    rw [hout] at heval
    have hrow : out.table.rowNumber = 1 := Except.ok.inj heval
    rw [htable] at hrow
    exact absurd hrow (by decide)

end Loader
