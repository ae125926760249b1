/-
INSERT as the inverse of reading the statement's text.  No character is quoted on the way, and a
column that is not listed is written as an empty text, whatever its default is.
-/
import ClaimsDB.InsertAtomicity
import ClaimsDB.NumberText

namespace Loader

open List

variable {m : Machine} {t : Table}

/-! ### The statement as text -/

def assigned (t : Table) (cols : List Text) (row : List InsertVal) :
    List (Operate × Option Text) :=
  if cols = [] then
    (t.attributes.zip row).map fun p => (p.1.2, some (insertValueToStream p.2).2)
  else
    t.attributes.map fun a =>
      (a.2, (valueFor t cols row a.1).map fun v => (insertValueToStream v).2)

def pieces (t : Table) (cols : List Text) (row : List InsertVal) : List (Operate × Text) :=
  (assigned t cols row).map fun p => (p.1, p.2.getD [])

def rowLine (t : Table) (cols : List Text) (row : List InsertVal) : Text :=
  joinPieces 124 (pieces t cols row)

/-- Every row has a value for each column, the listed columns exist, and the values are
constants. -/
structure WellFormed (t : Table) (stmt : InsertStmt) : Prop where
  rows_ne_nil : stmt.rows ≠ []
  all_columns : stmt.colList = [] → ∀ row ∈ stmt.rows, row.length = t.attributes.length
  columns_exist : stmt.colList ≠ [] → ColumnsExist t stmt.colList
  listed_columns : stmt.colList ≠ [] → ∀ row ∈ stmt.rows, row.length = stmt.colList.length
  constants : ∀ row ∈ stmt.rows, ∀ v ∈ row, ∃ data, v = .exprConst data

theorem rowText_eq_rowLine {row : List InsertVal} (h : row.length = t.attributes.length) :
    rowText row = rowLine t [] row := by
  rw [rowText, rowLine, joinPieces, pieces, assigned, if_pos rfl]
  simp only [map_map, flatMap_map, Function.comp_apply, Option.getD_some]
  calc row.flatMap (fun v => (insertValueToStream v).2 ++ [124])
      = ((t.attributes.zip row).map Prod.snd).flatMap
          fun v => (insertValueToStream v).2 ++ [124] := by rw [map_snd_zip (by omega)]
    _ = _ := by rw [flatMap_map]

theorem listedText_eq_rowLine {cols : List Text} (hne : cols ≠ []) (row : List InsertVal) :
    listedText t cols row t.attributes = rowLine t cols row := by
  rw [listedText, rowLine, joinPieces, pieces, assigned, if_neg hne]
  simp only [map_map, flatMap_map, Function.comp_apply]

theorem map_fst_pieces {cols : List Text} {row : List InsertVal}
    (h : cols = [] → row.length = t.attributes.length) :
    (pieces t cols row).map Prod.fst = t.attributes.map Prod.snd := by
  rw [pieces, assigned]
  split
  · rename_i hcols
    simp only [map_map]
    calc (t.attributes.zip row).map (fun p => p.1.2)
        = ((t.attributes.zip row).map Prod.fst).map Prod.snd := by rw [map_map]; rfl
      _ = _ := by rw [map_fst_zip (by rw [h hcols])]
  · simp only [map_map]
    rfl

def statementText (t : Table) (cols : List Text) (rows : List (List InsertVal)) : Text :=
  rows.flatMap fun row => rowLine t cols row ++ [10]

theorem supported_of_constant {v : InsertVal} (h : ∃ data, v = .exprConst data) :
    (insertValueToStream v).1 = .success := by
  obtain ⟨data, rfl⟩ := h
  rfl

theorem renderRows_cons {cols : List Text} {row : List InsertVal} {rows : List (List InsertVal)}
    {ostr : Text} {k : ℕ} (hall : cols = [] → row.length = t.attributes.length)
    (hcols : cols ≠ [] → ColumnsExist t cols) (hlist : cols ≠ [] → row.length = cols.length)
    (hconst : ∀ v ∈ row, ∃ data, v = .exprConst data) :
    renderRows t cols (row :: rows) ostr k = renderRows t cols rows
      (if rows = [] then ostr ++ rowLine t cols row else ostr ++ rowLine t cols row ++ [10])
      (k + 1) := by
  rw [renderRows]
  by_cases hne : cols = []
  · have hlen := hall hne
    subst hne
    rw [if_pos rfl, allColumns_eq (by omega), take_of_length_le (by omega),
      drop_of_length_le (by omega), rowText_eq_rowLine hlen]
    have hlast : ((row.getLast?.map fun v => (insertValueToStream v).1).getD .success)
        = .success := by
      cases hv : row.getLast? with
      | none => rfl
      | some v => exact supported_of_constant (hconst v (mem_of_getLast? hv))
    simp only
    rw [if_neg (not_not.mpr hlast), if_neg (by simp)]
  · have hsup : AllSupported t cols row t.attributes := fun a _ v hv =>
      supported_of_constant (hconst v (valueFor_mem hv))
    rw [if_neg hne, if_neg (not_not.mpr (hlist hne)), listedColumns_supported hsup,
      listedText_eq_rowLine hne]
    simp only
    rw [if_neg (by simpa using (count_eq_iff (hlist hne)).mpr (hcols hne))]

theorem renderRows_text {cols : List Text} (hcols : cols ≠ [] → ColumnsExist t cols) :
    ∀ {rows : List (List InsertVal)} (ostr : Text) (k : ℕ), rows ≠ [] →
      (∀ row ∈ rows, (cols = [] → row.length = t.attributes.length) ∧
        (cols ≠ [] → row.length = cols.length) ∧ ∀ v ∈ row, ∃ data, v = .exprConst data) →
      ∃ text, renderRows t cols rows ostr k = .ok (text, k + rows.length) ∧
        text ++ [10] = ostr ++ statementText t cols rows := by
  intro rows
  induction rows with
  | nil =>
    intro ostr k hne _
    exact absurd rfl hne
  | cons row rows ih =>
    intro ostr k _ hrows
    obtain ⟨hall, hlist, hconst⟩ := hrows row mem_cons_self
    rw [renderRows_cons hall hcols hlist hconst]
    by_cases hlast : rows = []
    · subst hlast
      exact ⟨_, rfl, by simp [statementText]⟩
    · obtain ⟨text, htext, heq⟩ := ih (ostr ++ rowLine t cols row ++ [10]) (k + 1) hlast
        fun r hr => hrows r (mem_cons_of_mem _ hr)
      refine ⟨text, ?_, ?_⟩
      · rw [if_neg hlast, htext, length_cons]
        congr 2
        omega
      · rw [heq, statementText, statementText, flatMap_cons]
        simp

/-! ### The lines of a text -/

/-- The line without its last character, and for an empty line everything from there on. -/
def records : List Text → List Text
  | [] => []
  | line :: lines =>
    (if line = [] then (line :: lines).flatMap (· ++ [10]) else line.dropLast) :: records lines

@[simp] theorem length_records : ∀ lines, (records lines).length = lines.length
  | [] => rfl
  | _ :: lines => congrArg (· + 1) (length_records lines)

def checkLines (m : Machine) (t : Table) : List Text → Lines → Run (RetCode × Lines)
  | [], l => .ok (.success, l)
  | record :: rest, l => do
    let (ret, l) ← checkLine m t record l
    if ret ≠ .success then return (ret, l) else checkLines m t rest l

theorem findLineEnd_append (pre line rest : Text) (h : 10 ∉ line) :
    findLineEnd (pre ++ (line ++ 10 :: rest)) pre.length = some (pre.length + line.length) := by
  rw [findLineEnd, if_neg (by omega), Int.toNat_natCast, drop_left]
  have hfind : (line ++ 10 :: rest).findIdx? (· = 10) = some line.length := by
    rw [findIdx?_append, List.findIdx?_eq_none_iff.mpr (by
      intro c hc
      simpa using fun heq : c = 10 => h (heq ▸ hc))]
    simp [findIdx?_cons]
  rw [hfind]
  rfl

theorem findLineEnd_end (tuples : Text) : findLineEnd tuples tuples.length = none := by
  rw [findLineEnd, if_neg (by omega), Int.toNat_natCast, drop_length]
  rfl

variable {tuples : Text} {tuple : Memory} {lines : List Text} {stmt : InsertStmt}
  {default : Operate → Text}

theorem insertLines_lines (hsize : tuples.length < 2 ^ 31) :
    ∀ {lines : List Text} {pre : Text} {fuel : ℕ} {l : Lines},
      tuples = pre ++ lines.flatMap (· ++ [10]) → (∀ line ∈ lines, 10 ∉ line) →
      lines.length < fuel →
        insertLines m t tuples fuel pre.length l = checkLines m t (records lines) l := by
  intro lines
  induction lines with
  | nil =>
    intro pre fuel l heq _ hfuel
    obtain ⟨fuel, rfl⟩ := Nat.exists_eq_succ_of_ne_zero (by omega : fuel ≠ 0)
    obtain rfl : tuples = pre := by simpa using heq
    rw [insertLines, findLineEnd_end]
    rfl
  | cons line lines ih =>
    intro pre fuel l heq hlines hfuel
    obtain ⟨fuel, rfl⟩ := Nat.exists_eq_succ_of_ne_zero (by omega : fuel ≠ 0)
    have htext : tuples = pre ++ (line ++ 10 :: lines.flatMap (· ++ [10])) := by
      rw [heq, flatMap_cons, append_assoc, singleton_append]
    have hfind := findLineEnd_append pre line (lines.flatMap (· ++ [10]))
      (hlines line mem_cons_self)
    rw [← htext] at hfind
    have hrecord : substr tuples pre.length (pre.length + line.length)
        = if line = [] then (line :: lines).flatMap (· ++ [10]) else line.dropLast := by
      rw [substr, heq, drop_left]
      by_cases hl : line = []
      · rw [if_pos (by simp [hl]), if_pos hl]
      · have hpos : 0 < line.length := List.length_pos_iff.mpr hl
        rw [if_neg (by omega), if_neg hl, flatMap_cons, append_assoc,
          Nat.add_sub_cancel_left, take_append_of_le_length (by omega),
          dropLast_eq_take]
    have hnext : Int.bmod (((pre.length + line.length : ℕ) : ℤ) + 1) (2 ^ 32)
        = ((pre ++ (line ++ [10])).length : ℕ) := by
      have hlen : pre.length + line.length + 1 ≤ tuples.length := by
        rw [htext]
        simp
      rw [Int.bmod_eq_of_le (by omega) (by omega)]
      simp
      omega
    rw [insertLines, hfind, records, checkLines]
    simp only [Int.toNat_natCast]
    rw [hrecord, hnext]
    refine bind_congr fun p => ?_
    obtain ⟨ret, l'⟩ := p
    simp only
    split
    · rfl
    · exact ih (by rw [heq]; simp) (fun x hx => hlines x (mem_cons_of_mem _ hx))
        (by simp only [length_cons] at hfuel; omega)

def Converted (m : Machine) (t : Table) (record : Text) (tuple : Memory) : Prop :=
  ∃ rowId line r, checkAndToValue t.columns (addRowIdColumn rowId record) (m.tupleBuffer t line)
    [124] .sql = .ok (.success, r) ∧ r.tuple = tuple

theorem checkLine_success {record : Text} {l l' : Lines}
    (h : checkLine m t record l = .ok (.success, l')) :
    ∃ tuple, l'.correctTuples = l.correctTuples ++ [tuple] ∧ Converted m t record tuple := by
  obtain ⟨⟨ret, r⟩, hc, h⟩ := Run.bind_eq_ok h
  simp only at h
  split_ifs at h with hret
  · have heq : ret = .success := congrArg Prod.fst (Except.ok.inj h)
    exact absurd heq hret
  · obtain rfl : ret = .success := not_not.mp hret
    cases h
    exact ⟨r.tuple, rfl, _, _, r, hc, rfl⟩

theorem checkLines_success : ∀ {recs : List Text} {l l' : Lines},
    checkLines m t recs l = .ok (.success, l') →
      ∃ tuples, l'.correctTuples = l.correctTuples ++ tuples ∧
        List.Forall₂ (Converted m t) recs tuples := by
  intro recs
  induction recs with
  | nil =>
    intro l l' h
    cases h
    exact ⟨[], by simp, .nil⟩
  | cons record recs ih =>
    intro l l' h
    obtain ⟨⟨ret, l₁⟩, hc, h⟩ := Run.bind_eq_ok h
    simp only at h
    split_ifs at h with hret
    · exact absurd (congrArg Prod.fst (Except.ok.inj h)) hret
    · obtain rfl : ret = .success := not_not.mp hret
      obtain ⟨tuple, htuple, hconv⟩ := checkLine_success hc
      obtain ⟨tuples, htuples, hall⟩ := ih h
      exact ⟨tuple :: tuples, by rw [htuples, htuple]; simp, .cons hconv hall⟩

theorem checkLines_ok : ∀ {recs : List Text} {l : Lines},
    (∀ record ∈ recs, ∀ rowId line, ∃ r, checkAndToValue t.columns (addRowIdColumn rowId record)
      (m.tupleBuffer t line) [124] .sql = .ok (.success, r)) →
      ∃ l', checkLines m t recs l = .ok (.success, l') := by
  intro recs
  induction recs with
  | nil =>
    intro l _
    exact ⟨l, rfl⟩
  | cons record recs ih =>
    intro l h
    obtain ⟨r, hr⟩ := h record mem_cons_self l.rowNumber l.line
    have hc : ∃ l₁, checkLine m t record l = .ok (.success, l₁) := by
      rw [checkLine, hr, Run.bind_ok]
      exact ⟨_, rfl⟩
    obtain ⟨l₁, hc⟩ := hc
    obtain ⟨l', hl'⟩ := ih (l := l₁) fun x hx => h x (mem_cons_of_mem _ hx)
    refine ⟨l', ?_⟩
    rw [checkLines, hc, Run.bind_ok]
    exact hl'

/-! ### Row ids -/

theorem rowId_piece (n : ℕ) : 124 ∉ toDecimal n ∧ Fits (operateULong true) (toDecimal n) ∧
    (stored (operateULong true) (toDecimal n)).isSome := by
  have hdig := isDigit_of_mem_toDecimal (n := n)
  refine ⟨fun h => absurd (hdig _ h) (by decide), ?_, ?_⟩
  · intro t' _
    exact ⟨_, rfl, (Codec.length_leBytes _ _).le⟩
  · have herr : (checkSetULong true (toDecimal n)).1.isError = false := by
      cases hn : toDecimal n with
      | nil => exact absurd hn (toDecimal_ne_nil n)
      | cons c cs =>
        have hc : isDigit c = true := hdig c (by rw [hn]; exact mem_cons_self)
        rw [checkSetULong, if_neg (by simp), checkNumber, if_neg (by simp [hc])]
        simp only
        split
        · rfl
        · split
          · rfl
          · rw [interrupt]
            split <;> rfl
    rw [stored]
    have heq : (operateULong true).checkSet = checkSetULong true := rfl
    rw [heq, herr, if_neg (by decide)]
    split <;> rfl

/-! ### The round trip -/

variable {cols : List Text} {row : List InsertVal}

theorem columns_eq (h : cols = [] → row.length = t.attributes.length) (rowId : ℕ) :
    t.columns = ((operateULong true, toDecimal rowId) :: pieces t cols row).map Prod.fst := by
  rw [map_cons, map_fst_pieces h, Table.columns]

theorem addRowIdColumn_rowLine (hne : rowLine t cols row ≠ []) (rowId : ℕ) :
    addRowIdColumn rowId (rowLine t cols row).dropLast
      = joinPieces 124 ((operateULong true, toDecimal rowId) :: pieces t cols row) := by
  have hlast : (rowLine t cols row).dropLast ++ [124] = rowLine t cols row := by
    have hgl : (rowLine t cols row).getLast hne = 124 := by
      obtain ⟨ps, p, hps⟩ : ∃ ps p, pieces t cols row = ps ++ [p] := by
        rcases eq_nil_or_concat (pieces t cols row) with h | ⟨ps, p, h⟩
        · exact absurd (by rw [rowLine, h]; rfl) hne
        · exact ⟨ps, p, by rw [h, concat_eq_append]⟩
      simp [rowLine, joinPieces, hps]
    rw [← hgl]
    exact dropLast_append_getLast hne
  rw [addRowIdColumn, append_assoc, hlast, joinPieces, flatMap_cons]
  rfl

def StoresDefault (default : Operate → Text) (c : Operate) : Prop :=
  ∃ t' b b', stored c [] = some t' ∧ c.toValue t' = .ok b ∧ c.toValue (default c) = .ok b' ∧
    c.value b = c.value b'

def Plain (s : Text) : Prop := 124 ∉ s ∧ 10 ∉ s

def expected (default : Operate → Text) (t : Table) (cols : List Text) (row : List InsertVal) :
    List (Operate × Text) :=
  (assigned t cols row).map fun p => (p.1, p.2.getD (default p.1))

/-- The rows are in the inserted tuples, and the files have their sub-tuples. -/
def RoundTrip (default : Operate → Text) (m : Machine) (t : Table) (stmt : InsertStmt)
    (result : ExecutedResult) : Prop :=
  ∃ out, execute m t stmt result = .ok out ∧ out.ret = .success ∧
    List.Forall₂ (fun row tuple => EachColumn Shows 8 (expected default t stmt.colList row) tuple)
      stmt.rows out.inserted ∧
    ∀ i p, t.projections[i]? = some p → ∀ j, j < p.numberOfPartitions →
      (out.table.files i j).flatten
        = (t.files i j).flatten ++ Job.share p j out.inserted

theorem count_joinPieces (s : UInt8) : ∀ ps : List (Operate × Text),
    (joinPieces s ps).count s = (ps.map fun p => p.2.count s).sum + ps.length := by
  intro ps
  induction ps with
  | nil => rfl
  | cons p ps ih =>
    rw [joinPieces] at ih ⊢
    rw [flatMap_cons, count_append, ih, count_append, map_cons, sum_cons,
      length_cons, count_singleton_self]
    omega

theorem plain_of_converted (h : cols = [] → row.length = t.attributes.length)
    (hne : rowLine t cols row ≠ []) (hc : Converted m t (rowLine t cols row).dropLast tuple) :
    ∀ p ∈ pieces t cols row, 124 ∉ p.2 := by
  obtain ⟨rowId, line, r, hr, -⟩ := hc
  rw [columns_eq h rowId, addRowIdColumn_rowLine hne] at hr
  have hcount := count_of_success hr
  rw [count_joinPieces, length_map, map_cons, sum_cons] at hcount
  intro p hp hmem
  have hle := single_le_sum (fun x _ => Nat.zero_le x) _
    (mem_map_of_mem (f := fun p : Operate × Text => p.2.count 124) hp)
  have hpos : 0 < p.2.count 124 := List.count_pos_iff.mpr hmem
  omega

theorem length_tupleBuffer (m : Machine) (t : Table) (line : ℕ) :
    (m.tupleBuffer t line).length = totalsize t.columns := by
  rw [Machine.tupleBuffer, length_map, length_range]

section

variable (h : cols = [] → row.length = t.attributes.length) (hne : rowLine t cols row ≠ [])
  (hp : ∀ p ∈ pieces t cols row, 124 ∉ p.2 ∧ Fits p.1 p.2)

include h hne hp

theorem keeps_of_converted (hc : Converted m t (rowLine t cols row).dropLast tuple) :
    EachColumn Keeps 8 (pieces t cols row) tuple := by
  obtain ⟨rowId, line, r, hr, rfl⟩ := hc
  have hlen := length_tupleBuffer m t line
  rw [columns_eq h rowId] at hr hlen
  rw [addRowIdColumn_rowLine hne] at hr
  have hall := (List.forall_mem_cons (a := (operateULong true, toDecimal rowId))).2
    ⟨⟨(rowId_piece rowId).1, (rowId_piece rowId).2.1⟩, hp⟩
  exact ((checkAndToValue_pieces hall hlen).1 r hr).2

theorem converts (hs : ∀ p ∈ pieces t cols row, (stored p.1 p.2).isSome) (rowId line : ℕ) :
    ∃ r, checkAndToValue t.columns (addRowIdColumn rowId (rowLine t cols row).dropLast)
      (m.tupleBuffer t line) [124] .sql = .ok (.success, r) := by
  have hlen := length_tupleBuffer m t line
  rw [columns_eq h rowId] at hlen ⊢
  rw [addRowIdColumn_rowLine hne]
  have hall := (List.forall_mem_cons (a := (operateULong true, toDecimal rowId))).2
    ⟨⟨(rowId_piece rowId).1, (rowId_piece rowId).2.1⟩, hp⟩
  exact (checkAndToValue_pieces hall hlen).2
    (List.forall_mem_cons.2 ⟨(rowId_piece rowId).2.2, hs⟩)

end

theorem exists_lines : ∀ s : Text, ∃ lines : List Text,
    s ++ [10] = lines.flatMap (· ++ [10]) ∧ ∀ line ∈ lines, 10 ∉ line := by
  intro s
  induction s with
  | nil => exact ⟨[[]], rfl, by simp⟩
  | cons c s ih =>
    obtain ⟨lines, heq, hlines⟩ := ih
    by_cases hc : c = 10
    · refine ⟨[] :: lines, by simp [heq, hc], ?_⟩
      intro line hline
      rcases List.mem_cons.mp hline with rfl | hline
      · simp
      · exact hlines line hline
    · cases lines with
      | nil => simp at heq
      | cons line lines =>
        refine ⟨(c :: line) :: lines, by simpa using heq, ?_⟩
        intro line' hline
        rcases List.mem_cons.mp hline with rfl | hline
        · simpa using ⟨Ne.symm hc, hlines line mem_cons_self⟩
        · exact hlines line' (mem_cons_of_mem _ hline)

theorem count_lines : ∀ {lines : List Text}, (∀ line ∈ lines, 10 ∉ line) →
    (lines.flatMap (· ++ [10])).count 10 = lines.length := by
  intro lines
  induction lines with
  | nil =>
    intro _
    rfl
  | cons line lines ih =>
    intro h
    rw [flatMap_cons, count_append, ih fun l hl => h l (mem_cons_of_mem _ hl),
      count_append, count_eq_zero_of_not_mem (h line mem_cons_self),
      count_singleton_self, length_cons]
    omega

theorem exists_statement_lines (cols : List Text) : ∀ rows : List (List InsertVal),
    ∃ lines : List Text, statementText t cols rows = lines.flatMap (· ++ [10]) ∧
      (∀ line ∈ lines, 10 ∉ line) ∧
      lines.length = rows.length + (rows.map fun row => (rowLine t cols row).count 10).sum := by
  intro rows
  have hsplit : ∃ lines : List Text, statementText t cols rows = lines.flatMap (· ++ [10]) ∧
      ∀ line ∈ lines, 10 ∉ line := by
    induction rows with
    | nil => exact ⟨[], rfl, by simp⟩
    | cons row rows ih =>
      obtain ⟨lines, heq, hlines⟩ := ih
      obtain ⟨first, hfirst, hplain⟩ := exists_lines (rowLine t cols row)
      refine ⟨first ++ lines, ?_, List.forall_mem_append.2 ⟨hplain, hlines⟩⟩
      rw [statementText, flatMap_cons, flatMap_append, ← hfirst, ← heq]
      rfl
  obtain ⟨lines, heq, hlines⟩ := hsplit
  refine ⟨lines, heq, hlines, ?_⟩
  rw [← count_lines hlines, ← heq]
  clear heq hlines
  induction rows with
  | nil => rfl
  | cons row rows ih =>
    rw [statementText] at ih ⊢
    rw [flatMap_cons, count_append, ih, count_append, count_singleton_self,
      map_cons, sum_cons, length_cons]
    omega

theorem insertLines_text (hsize : tuples.length < 2 ^ 31)
    (hlines : tuples = lines.flatMap (· ++ [10])) (hplain : ∀ line ∈ lines, 10 ∉ line) (l : Lines) :
    insertLines m t tuples (tuples.length + 1) 0 l = checkLines m t (records lines) l := by
  have hmany : lines.length ≤ tuples.length := by
    rw [hlines, ← count_lines hplain]
    exact count_le_length
  exact insertLines_lines hsize (show tuples = [] ++ _ from hlines) hplain (by omega)

theorem execute_success {result : ExecutedResult} {out : Outcome} (hw : WellFormed t stmt)
    (hcap : ∀ p ∈ t.projections, 0 < p.capacity)
    (hsize : (statementText t stmt.colList stmt.rows).length < 2 ^ 31)
    (h : execute m t stmt result = .ok out) (hret : out.ret = .success) :
    CanOpen m t ∧
    (∀ lines : List Text,
      statementText t stmt.colList stmt.rows = lines.flatMap (· ++ [10]) →
      (∀ line ∈ lines, 10 ∉ line) →
      List.Forall₂ (Converted m t) (records lines) out.inserted) ∧
    ∀ i p, t.projections[i]? = some p → ∀ j, j < p.numberOfPartitions →
      (out.table.files i j).flatten = (t.files i j).flatten ++ Job.share p j out.inserted := by
  obtain ⟨text, htext, heq⟩ := renderRows_text (t := t) hw.columns_exist [] 0 hw.rows_ne_nil
    fun row hrow => ⟨fun hc => hw.all_columns hc row hrow, fun hc => hw.listed_columns hc row hrow,
      hw.constants row hrow⟩
  rw [nil_append] at heq
  rw [execute, if_neg hw.rows_ne_nil, htext] at h
  simp only at h
  rw [heq] at h
  obtain ⟨out₁, hi, h⟩ := Run.bind_eq_ok h
  obtain ⟨hret₁, htable, hins⟩ :
      out₁.ret = .success ∧ out.table = out₁.table ∧ out.inserted = out₁.inserted := by
    split_ifs at h with hs
    · cases h
      exact ⟨hs, rfl, rfl⟩
    · cases h
      exact absurd hret hs
  rw [htable, hins]
  clear h
  have hne : statementText t stmt.colList stmt.rows ≠ [] := by
    rw [← heq]
    simp
  rw [insertFromString, if_neg hne, Table.openConnector] at hi
  by_cases hopen : t.connector.ref ≠ 0 ∨ m.opens = true
  · rw [if_pos hopen] at hi
    obtain ⟨⟨ret, l⟩, hl, hi⟩ := Run.bind_eq_ok hi
    simp only at hi
    split_ifs at hi with hbad
    · cases hi
      exact absurd hret₁ hbad
    · obtain rfl : ret = .success := not_not.mp hbad
      obtain ⟨s, hs, hi⟩ := Run.bind_eq_ok hi
      cases hi
      refine ⟨hopen, ?_, ?_⟩
      · intro lines hlines hplain
        rw [insertLines_text hsize hlines hplain] at hl
        obtain ⟨tuples, htuples, hall⟩ := checkLines_success hl
        simp only [nil_append] at htuples
        simp only
        rw [htuples]
        exact hall
      · intro i p hp j hj
        obtain ⟨s', hs', -, hfiles⟩ := Job.insertAll_spec (n := fun _ _ => 0) hcap l.correctTuples
          (s := ⟨t.files, t.numberOfBlocks, fun _ _ => []⟩) fun _ _ => rfl
        obtain rfl : s = s' := Except.ok.inj (hs.symm.trans hs')
        have hclosed : ∀ u : Table, u.closeConnector.files = u.files := by
          intro u
          rw [Table.closeConnector]
          split <;> rfl
        simp only [hclosed]
        exact hfiles i p hp j hj
  · rw [if_neg hopen] at hi
    cases hi
    cases hret₁

theorem execute_converts {stmt : InsertStmt} (result : ExecutedResult)
    (hw : WellFormed t stmt) (hcap : ∀ p ∈ t.projections, 0 < p.capacity)
    (hsize : (statementText t stmt.colList stmt.rows).length < 2 ^ 31) (hopen : CanOpen m t)
    {lines : List Text} (hlines : statementText t stmt.colList stmt.rows
      = lines.flatMap (· ++ [10])) (hplain : ∀ line ∈ lines, 10 ∉ line)
    (hconv : ∀ record ∈ records lines, ∀ rowId line, ∃ r, checkAndToValue t.columns
      (addRowIdColumn rowId record) (m.tupleBuffer t line) [124] .sql = .ok (.success, r)) :
    ∃ out, execute m t stmt result = .ok out ∧ out.ret = .success := by
  obtain ⟨text, htext, heq⟩ := renderRows_text (t := t) hw.columns_exist [] 0 hw.rows_ne_nil
    fun row hrow => ⟨fun hc => hw.all_columns hc row hrow, fun hc => hw.listed_columns hc row hrow,
      hw.constants row hrow⟩
  rw [nil_append] at heq
  have hne : statementText t stmt.colList stmt.rows ≠ [] := by
    rw [← heq]
    simp
  obtain ⟨l', hl'⟩ := checkLines_ok (m := m)
    (t := { t with connector := ⟨t.connector.ref + 1, false, by simp⟩ })
    (l := ⟨t.rowNumber, 0, result, []⟩) hconv
  obtain ⟨s, hs, -, -⟩ := Job.insertAll_spec (n := fun _ _ => 0) hcap l'.correctTuples
    (s := ⟨t.files, t.numberOfBlocks, fun _ _ => []⟩) fun _ _ => rfl
  obtain ⟨out, hout, hret⟩ : ∃ out, insertFromString m t
      (statementText t stmt.colList stmt.rows) result = .ok out ∧ out.ret = .success := by
    rw [insertFromString, if_neg hne, Table.openConnector,
      if_pos (show t.connector.ref ≠ 0 ∨ m.opens = true from hopen)]
    simp only
    rw [insertLines_text hsize hlines hplain, hl', Run.bind_ok]
    simp only
    rw [if_neg (by simp), insertTuples]
    simp only
    rw [hs, Run.bind_ok]
    exact ⟨_, rfl, rfl⟩
  rw [execute, if_neg hw.rows_ne_nil, htext]
  simp only
  rw [heq, hout, Run.bind_ok, if_pos hret]
  exact ⟨_, rfl, hret⟩

theorem rowLine_ne_nil (hw : WellFormed t stmt) (hrow : row ∈ stmt.rows) :
    rowLine t stmt.colList row ≠ [] := by
  have hattr : t.attributes ≠ [] := by
    by_cases hc : stmt.colList = []
    · have hlen := hw.all_columns hc row hrow
      have hpos := List.length_pos_iff.mpr (stmt.row_ne_nil row hrow)
      exact List.length_pos_iff.mp (by omega)
    · obtain ⟨col, hcol⟩ := exists_mem_of_ne_nil _ hc
      have hmem := (hw.columns_exist hc).2 col hcol
      rintro hnil
      rw [hnil] at hmem
      cases hmem
  intro hnil
  have hfst := map_fst_pieces fun hc => hw.all_columns hc row hrow
  have hpieces : pieces t stmt.colList row = [] := by
    rw [rowLine, joinPieces, flatMap_eq_nil_iff] at hnil
    by_contra hne
    obtain ⟨p, hp⟩ := exists_mem_of_ne_nil _ hne
    exact absurd (hnil p hp) (by simp)
  rw [hpieces, map_nil] at hfst
  exact hattr (List.map_eq_nil_iff.mp hfst.symm)

theorem records_rowLines (hw : WellFormed t stmt) :
    ∀ {rows : List (List InsertVal)}, (∀ row ∈ rows, row ∈ stmt.rows) →
      records (rows.map (rowLine t stmt.colList))
        = rows.map fun row => (rowLine t stmt.colList row).dropLast := by
  intro rows
  induction rows with
  | nil =>
    intro _
    rfl
  | cons row rows ih =>
    intro h
    rw [map_cons, records, if_neg (rowLine_ne_nil hw (h row mem_cons_self)),
      ih fun r hr => h r (mem_cons_of_mem _ hr)]
    rfl

theorem forall₂_both {α β : Type} {R S : α → β → Prop} : ∀ {as : List α} {bs : List β},
    List.Forall₂ R as bs → List.Forall₂ S as bs → ∀ a ∈ as, ∃ b, R a b ∧ S a b := by
  intro as bs hR
  induction hR with
  | nil =>
    intro _ a ha
    cases ha
  | cons hab _ ih =>
    intro hS a ha
    cases hS with
    | cons hab' hS =>
      rcases List.mem_cons.mp ha with rfl | ha
      · exact ⟨_, hab, hab'⟩
      · exact ih hS a ha

theorem storesDefault_of_shows :
    ∀ {as : List (Operate × Option Text)} {off : ℕ},
      EachColumn Keeps off (as.map fun p => (p.1, p.2.getD [])) tuple →
      EachColumn Shows off (as.map fun p => (p.1, p.2.getD (default p.1))) tuple →
      ∀ p ∈ as, p.2 = none → StoresDefault default p.1 := by
  intro as
  induction as with
  | nil =>
    intro off _ _ p hp
    cases hp
  | cons a as ih =>
    intro off hkeep hshow p hp hnone
    rcases List.mem_cons.mp hp with rfl | hp
    · obtain ⟨t', ht', b, hb, hval⟩ := hkeep.1
      obtain ⟨b', hb', hval'⟩ := hshow.1
      rw [hnone] at ht' hb'
      exact ⟨t', b, b', ht', hb, hb', hval.symm.trans hval'⟩
    · exact ih hkeep.2 hshow.2 p hp hnone

theorem shows_of_keeps :
    ∀ {as : List (Operate × Option Text)} {off : ℕ},
      (∀ p ∈ as, (∀ d, p.2 = some d → (p.1.checkSet d).1 = .success) ∧
        (p.2 = none → StoresDefault default p.1)) →
      EachColumn Keeps off (as.map fun p => (p.1, p.2.getD [])) tuple →
      EachColumn Shows off (as.map fun p => (p.1, p.2.getD (default p.1))) tuple := by
  intro as
  induction as with
  | nil =>
    intro off _ _
    trivial
  | cons a as ih =>
    intro off has hkeep
    obtain ⟨c, d⟩ := a
    obtain ⟨haccept, hdefault⟩ := has (c, d) mem_cons_self
    refine ⟨?_, ih (fun p hp => has p (mem_cons_of_mem _ hp)) hkeep.2⟩
    obtain ⟨t', ht', b, hb, hval⟩ := hkeep.1
    cases d with
    | some d =>
      have hd := stored_of_success (haccept d rfl)
      obtain rfl : d = t' := Option.mem_unique hd ht'
      exact ⟨b, hb, hval⟩
    | none =>
      obtain ⟨t₁, b₁, b', ht₁, hb₁, hb', heq⟩ := hdefault rfl
      obtain rfl : t₁ = t' := Option.mem_unique ht₁ ht'
      obtain rfl : b₁ = b := Except.ok.inj (hb₁.symm.trans hb)
      exact ⟨b', hb', hval.trans heq⟩

/-- **The round trip of an INSERT**: no separators, and defaults that empty texts store. -/
theorem round_trip_iff (default : Operate → Text) (m : Machine) (t : Table) (stmt : InsertStmt)
    (result : ExecutedResult) (hw : WellFormed t stmt)
    (haccept : ∀ row ∈ stmt.rows, ∀ p ∈ assigned t stmt.colList row, ∀ d, p.2 = some d →
      (p.1.checkSet d).1 = .success)
    (hfits : ∀ row ∈ stmt.rows, ∀ p ∈ pieces t stmt.colList row, Fits p.1 p.2)
    (hcap : ∀ p ∈ t.projections, 0 < p.capacity)
    (hsize : (statementText t stmt.colList stmt.rows).length < 2 ^ 31) :
    RoundTrip default m t stmt result ↔
      CanOpen m t ∧ (∀ row ∈ stmt.rows, ∀ p ∈ pieces t stmt.colList row, Plain p.2) ∧
        ∀ row ∈ stmt.rows, ∀ p ∈ assigned t stmt.colList row, p.2 = none →
          StoresDefault default p.1 := by
  have hall : ∀ row ∈ stmt.rows, stmt.colList = [] → row.length = t.attributes.length :=
    fun row hrow hc => hw.all_columns hc row hrow
  constructor
  · rintro ⟨out, hout, hret, hshows, -⟩
    obtain ⟨hopen, hconv, -⟩ := execute_success hw hcap hsize hout hret
    -- more lines than rows would be more tuples than rows
    have hline : ∀ row ∈ stmt.rows, 10 ∉ rowLine t stmt.colList row := by
      obtain ⟨lines, hlines, hplain, hlen⟩ := exists_statement_lines (t := t) stmt.colList stmt.rows
      have hcount := (hconv lines hlines hplain).length_eq
      rw [length_records, ← hshows.length_eq, hlen] at hcount
      intro row hrow hmem
      have hle := single_le_sum (fun x _ => Nat.zero_le x) _
        (mem_map_of_mem (f := fun row => (rowLine t stmt.colList row).count 10) hrow)
      have hpos : 0 < (rowLine t stmt.colList row).count 10 := List.count_pos_iff.mpr hmem
      omega
    have hrows : List.Forall₂
        (fun row tuple => Converted m t (rowLine t stmt.colList row).dropLast tuple)
        stmt.rows out.inserted := by
      have h := hconv _ ((by rw [statementText, flatMap_map])) (by simpa using hline)
      rwa [records_rowLines hw fun _ h => h, forall₂_map_left_iff] at h
    have hplain : ∀ row ∈ stmt.rows, ∀ p ∈ pieces t stmt.colList row, Plain p.2 := by
      intro row hrow p hp
      obtain ⟨tuple, hc, -⟩ := forall₂_both hrows hshows row hrow
      refine ⟨plain_of_converted (hall row hrow) (rowLine_ne_nil hw hrow) hc p hp, fun hmem => ?_⟩
      exact hline row hrow (List.mem_flatMap.mpr ⟨p, hp, mem_append_left _ hmem⟩)
    refine ⟨hopen, hplain, fun row hrow => ?_⟩
    obtain ⟨tuple, hc, hs⟩ := forall₂_both hrows hshows row hrow
    exact storesDefault_of_shows (keeps_of_converted (hall row hrow) (rowLine_ne_nil hw hrow)
      (fun p hp => ⟨(hplain row hrow p hp).1, hfits row hrow p hp⟩) hc) hs
  · rintro ⟨hopen, hplain, hdefault⟩
    have hps : ∀ row ∈ stmt.rows, ∀ p ∈ pieces t stmt.colList row, 124 ∉ p.2 ∧ Fits p.1 p.2 :=
      fun row hrow p hp => ⟨(hplain row hrow p hp).1, hfits row hrow p hp⟩
    have hline : ∀ line ∈ stmt.rows.map (rowLine t stmt.colList), 10 ∉ line := by
      intro line hmem
      obtain ⟨row, hrow, rfl⟩ := List.mem_map.mp hmem
      intro h10
      obtain ⟨p, hp, hin⟩ := List.mem_flatMap.mp h10
      rcases List.mem_append.mp hin with hin | hin
      · exact (hplain row hrow p hp).2 hin
      · exact absurd hin (by decide)
    have hstored : ∀ row ∈ stmt.rows, ∀ p ∈ pieces t stmt.colList row,
        (stored p.1 p.2).isSome := by
      intro row hrow p hp
      obtain ⟨a, ha, rfl⟩ := List.mem_map.mp hp
      obtain ⟨c, d⟩ := a
      cases d with
      | some d => simp [stored_of_success (haccept row hrow _ ha d rfl)]
      | none =>
        obtain ⟨t', b, b', ht', -⟩ := hdefault row hrow _ ha rfl
        simp [ht']
    obtain ⟨out, hout, hret⟩ := execute_converts result hw hcap hsize hopen
      ((by rw [statementText, flatMap_map])) hline (by
        rw [records_rowLines hw fun _ h => h]
        intro record hrec rowId line
        obtain ⟨row, hrow, rfl⟩ := List.mem_map.mp hrec
        exact converts (hall row hrow) (rowLine_ne_nil hw hrow) (hps row hrow) (hstored row hrow)
          rowId line)
    obtain ⟨-, hconv, hfiles⟩ := execute_success hw hcap hsize hout hret
    refine ⟨out, hout, hret, ?_, hfiles⟩
    have h := hconv _ ((by rw [statementText, flatMap_map])) hline
    rw [records_rowLines hw fun _ h => h, forall₂_map_left_iff] at h
    refine List.Forall₂.imp ?_ ((forall₂_and_left stmt.rows _).mpr ⟨fun _ hr => hr, h⟩)
    rintro row tuple ⟨hrow, hc⟩
    exact shows_of_keeps
      (fun p hp => ⟨haccept row hrow p hp, hdefault row hrow p hp⟩)
      (keeps_of_converted (hall row hrow) (rowLine_ne_nil hw hrow) (hps row hrow) hc)

/-- `INSERT INTO t VALUES ('a'), ('b')`. -/
def insertTwo : InsertStmt := ⟨[], [[.exprConst [97]], [.exprConst [98]]], by simp⟩

theorem round_trip_ab : RoundTrip (fun _ => []) workingMachine (oneColumn (operateString 4 true))
    insertTwo .new := by
  have hrow : ∀ row ∈ insertTwo.rows, ∃ c, (c = 97 ∨ c = 98) ∧ row = [.exprConst [c]] := by
    intro row h
    obtain rfl | h := List.mem_cons.mp h
    · exact ⟨97, .inl rfl, rfl⟩
    · exact ⟨98, .inr rfl, List.mem_singleton.mp h⟩
  have hassigned : ∀ c, assigned (oneColumn (operateString 4 true)) insertTwo.colList
      [.exprConst [c]] = [(operateString 4 true, some [c])] := fun c => rfl
  have hpieces : ∀ c, pieces (oneColumn (operateString 4 true)) insertTwo.colList
      [.exprConst [c]] = [(operateString 4 true, [c])] := fun c => rfl
  refine (round_trip_iff _ _ _ _ _ ⟨?_, ?_, ?_, ?_, ?_⟩ ?_ ?_ ?_ ?_).mpr ⟨?_, ?_, ?_⟩
  · exact cons_ne_nil _ _
  · intro _ row h
    obtain ⟨c, -, rfl⟩ := hrow row h
    rfl
  · exact fun h => absurd rfl h
  · exact fun h => absurd rfl h
  · intro row h v hv
    obtain ⟨c, -, rfl⟩ := hrow row h
    exact ⟨[c], List.mem_singleton.mp hv⟩
  · intro row h p hp d hd
    obtain ⟨c, hc, rfl⟩ := hrow row h
    rw [hassigned] at hp
    obtain rfl := List.mem_singleton.mp hp
    cases hd
    obtain rfl | rfl := hc <;> decide
  · intro row h p hp
    obtain ⟨c, hc, rfl⟩ := hrow row h
    rw [hpieces] at hp
    obtain rfl := List.mem_singleton.mp hp
    intro t' ht'
    have hstored : stored (operateString 4 true) [c] = some [c] := by
      obtain rfl | rfl := hc <;> decide
    cases hstored.symm.trans ht'
    obtain rfl | rfl := hc
    · exact ⟨[97, 0], by decide, by decide⟩
    · exact ⟨[98, 0], by decide, by decide⟩
  · intro p hp
    obtain rfl := List.mem_singleton.mp hp
    decide
  · decide
  · exact Or.inr rfl
  · intro row h p hp
    obtain ⟨c, hc, rfl⟩ := hrow row h
    rw [hpieces] at hp
    obtain rfl := List.mem_singleton.mp hp
    obtain rfl | rfl := hc <;> exact ⟨by decide, by decide⟩
  · intro row h p hp hnone
    obtain ⟨c, hc, rfl⟩ := hrow row h
    rw [hassigned] at hp
    obtain rfl := List.mem_singleton.mp hp
    cases hnone

/-- `INSERT INTO t VALUES ('a|b')` is refused, although the column accepts the value. -/
theorem separator_not_inserted :
    ((operateString 4 true).checkSet [97, 124, 98]).1 = .success ∧
      ∀ default, ¬RoundTrip default workingMachine (oneColumn (operateString 4 true))
        (insertOne (.exprConst [97, 124, 98])) .new := by
  refine ⟨by decide, ?_⟩
  rintro default ⟨out, hout, hret, -⟩
  have heval : (execute workingMachine (oneColumn (operateString 4 true))
      (insertOne (.exprConst [97, 124, 98])) .new).map Outcome.ret
      = .ok .tooManyColumn := by decide
  rw [hout] at heval
  have hcode : out.ret = .tooManyColumn := Except.ok.inj heval
  rw [hret] at hcode
  cases hcode

end Loader
