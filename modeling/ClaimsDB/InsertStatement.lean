/-
INSERT ... VALUES.

`Execute` renders the rows as text, and `InsertFromString` cuts the text at the line ends, puts a
row id in front of each line, checks all lines and then inserts the tuples.  The row counter, file
connector and files of the table are part of the state.
-/
import ClaimsDB.ColumnText
import ClaimsDB.ProjectionBuffers

namespace Loader

/-! ### The statement -/

inductive InsertVal
  /-- `AST_EXPR_CONST` -/
  | exprConst (data : Text)
  /-- `AST_COLUMN` -/
  | column (columnName : Text)
  /-- `AST_EXPR_CAL_BINARY` -/
  | exprCalBinary
  | otherExpr
  /-- the keyword `DEFAULT`, for which `value_type_` is 1 -/
  | default
  deriving DecidableEq, Repr

/-- `InsertExec::InsertValueToStream`: the code and what is written. -/
def insertValueToStream : InsertVal → RetCode × Text
  | .exprConst data => (.success, data)
  | .column columnName => (.success, columnName)
  | .exprCalBinary => (.notSupport, [])
  | .otherExpr => (.notSupport, [])
  -- the type of the node is compared with 1 where `value_type_` is meant, so nothing is written
  | .default => (.success, [])

def InsertVal.Supported (v : InsertVal) : Prop := (insertValueToStream v).1 = .success

instance (v : InsertVal) : Decidable v.Supported := inferInstanceAs (Decidable (_ = _))

/-- `AstInsertStmt`; the list of columns is empty when none is given. -/
structure InsertStmt where
  colList : List Text
  rows : List (List InsertVal)
  row_ne_nil : ∀ row ∈ rows, row ≠ []

/-! ### The table -/

/-- `TableFileConnector`: the number of users of the open files.  The table's `update_lock_` is
held as long as they are open. -/
structure Connector where
  ref : ℕ
  isClosed : Bool
  closed_iff : isClosed = true ↔ ref = 0

/-- `TableDescriptor`, without the attribute `row_id` that comes first in every table. -/
structure Table where
  tableName : Text
  /-- the names, which begin with that of the table, and the operators -/
  attributes : List (Text × Operate)
  projections : List (Projection Memory)
  rowNumber : ℕ
  connector : Connector
  files : PerPartition (List (List Memory))
  numberOfBlocks : PerPartition ℕ
  names_nodup : (attributes.map Prod.fst).Nodup

/-- What the machine does: whether the files can be opened, and what stands in the memory that is
allocated for the `n`-th line. -/
structure Machine where
  opens : Bool
  malloc : ℕ → ℕ → UInt8

namespace Table

/-- The columns of the schema: `row_id` and the attributes. -/
def columns (t : Table) : List Operate := operateULong true :: t.attributes.map Prod.snd

def openConnector (opens : Bool) (t : Table) : RetCode × Table :=
  if t.connector.ref ≠ 0 ∨ opens then
    (.success, { t with connector :=
      { ref := t.connector.ref + 1, isClosed := false, closed_iff := by simp } })
  else (.openDiskFileFail, t)

def closeConnector (t : Table) : Table :=
  if t.connector.isClosed then t
  else
    { t with connector :=
      { ref := t.connector.ref - 1, isClosed := t.connector.ref - 1 = 0, closed_iff := by simp } }

def attrName (t : Table) (i : ℤ) : Text :=
  if i = 0 then t.tableName ++ text ".row_id"
  else ((t.attributes[i.toNat - 1]?).map Prod.fst).getD []

end Table

/-! ### The result -/

structure ExecutedResult where
  status : Bool
  errorInfo : Text
  info : Text
  warning : Text
  warningCount : ℕ
  deriving DecidableEq, Repr

namespace ExecutedResult

/-- `SetError`; only the first error is kept. -/
def setError (e : ExecutedResult) (errInfo : Text) : ExecutedResult :=
  { e with status := false, errorInfo := if e.errorInfo = [] then errInfo else e.errorInfo, info := [] }

def setResult (e : ExecutedResult) (info : Text) : ExecutedResult :=
  { e with status := true, info := info }

def appendWarning (e : ExecutedResult) (warningInfo : Text) : ExecutedResult :=
  { e with
    warningCount := e.warningCount + 1
    warning :=
      if e.warningCount + 1 < 64 ∧ e.warning.length + warningInfo.length < 70000 then
        e.warning ++ warningInfo
      else e.warning }

end ExecutedResult

def digits : ℕ → ℕ → Text
  | 0, _ => []
  | fuel + 1, n =>
    if n < 10 then [UInt8.ofNat (48 + n)] else digits fuel (n / 10) ++ [UInt8.ofNat (48 + n % 10)]

def toDecimal (n : ℕ) : Text := digits (n + 1) n

/-- What `GenerateDataValidityInfo` says about a column. -/
def columnInfo (t : Table) (vali : Validity) (line : ℕ) (before : String) : Text :=
  text before ++ t.attrName vali.columnIndex ++ text "' at line: " ++ toDecimal line ++ [10]

/-- `DataInjector::GenerateDataValidityInfo` for a text that comes from no file. -/
def generateDataValidityInfo (t : Table) (vali : Validity) (line : ℕ) : Text :=
  match vali.checkRes with
  | .tooLargeData => columnInfo t vali line "Data larger than range value for column '"
  | .tooSmallData => columnInfo t vali line "Data smaller than range value for column '"
  | .interruptedData => columnInfo t vali line "Data truncated from non-digit for column '"
  | .tooLongData => columnInfo t vali line "Data truncated for column '"
  | .incorrectData => columnInfo t vali line "Incorrect format value for column '"
  | .invalidNullData => columnInfo t vali line "Null Data value is invalid for column '"
  | .tooFewColumn =>
    text "Line: " ++ toDecimal line ++ text " doesn't contain data for all columns" ++ [10]
  | .tooManyColumn =>
    text "Line: " ++ toDecimal line ++
      text " was truncated; it contained more data than there were input columns" ++ [10]
  | .invalidInsertData => columnInfo t vali line "Data value is invalid for column '"
  | _ => text "Unknown ERROR" ++ [10]

/-! ### `InsertFromString` -/

def addRowIdColumn (rowId : ℕ) (record : Text) : Text :=
  toDecimal rowId ++ [124] ++ record ++ [124]

/-- `tuples.find('\n', prev_cur)`; a negative `int` becomes a position behind every text. -/
def findLineEnd (tuples : Text) (prevCur : ℤ) : Option ℕ :=
  if prevCur < 0 then none
  else ((tuples.drop prevCur.toNat).findIdx? (· = 10)).map (prevCur.toNat + ·)

/-- `tuples.substr(prev_cur, cur - prev_cur - 1)`; the length of an empty line wraps round to
`npos`. -/
def substr (tuples : Text) (prevCur cur : ℕ) : Text :=
  if cur = prevCur then tuples.drop prevCur else (tuples.drop prevCur).take (cur - prevCur - 1)

structure Lines where
  rowNumber : ℕ
  line : ℕ
  result : ExecutedResult
  /-- `correct_tuple_buffer` -/
  correctTuples : List Memory

def Machine.tupleBuffer (m : Machine) (t : Table) (line : ℕ) : Memory :=
  (List.range (totalsize t.columns)).map (m.malloc line)

def checkLine (m : Machine) (t : Table) (record : Text) (l : Lines) : Run (RetCode × Lines) := do
  let (ret, r) ← checkAndToValue t.columns (addRowIdColumn l.rowNumber record)
    (m.tupleBuffer t l.line) [124] .sql
  let info := fun v => generateDataValidityInfo t v l.line
  if ret ≠ .success then
    -- the error is the last of the validities
    let result := l.result.setError ((r.validities.getLast?.map info).getD [])
    return (ret, { l with
      rowNumber := l.rowNumber + 1
      result := (r.validities.dropLast.map info).foldl ExecutedResult.appendWarning result
      correctTuples := [] })
  else
    return (.success, {
      rowNumber := l.rowNumber + 1
      line := l.line + 1
      result := (r.validities.map info).foldl ExecutedResult.appendWarning l.result
      correctTuples := l.correctTuples ++ [r.tuple] })

/-- The loop over the lines; the position is an `int`, which wraps round. -/
def insertLines (m : Machine) (t : Table) (tuples : Text) :
    ℕ → ℤ → Lines → Run (RetCode × Lines)
  | 0, _, _ => .error .endless
  | fuel + 1, prevCur, l =>
    match findLineEnd tuples prevCur with
    | none => .ok (.success, l)
    | some cur => do
      let (ret, l) ← checkLine m t (substr tuples prevCur.toNat cur) l
      if ret ≠ .success then return (ret, l)
      else insertLines m t tuples fuel (Int.bmod (cur + 1) (2 ^ 32)) l

/-- What a statement leaves: its code, what the client is told, the table, and the tuples that
were inserted into it. -/
structure Outcome where
  ret : RetCode
  result : ExecutedResult
  table : Table
  inserted : List Memory

def insertTuples (t : Table) (l : Lines) : Run Outcome := do
  let s ← Job.insertAll t.projections l.correctTuples ⟨t.files, t.numberOfBlocks, fun _ _ => []⟩
  return { ret := .success
           result := l.result
           table := Table.closeConnector { t with files := s.files, numberOfBlocks := s.counted }
           inserted := l.correctTuples }

def insertFromString (m : Machine) (t : Table) (tuples : Text) (result : ExecutedResult) :
    Run Outcome :=
  if tuples = [] then .ok ⟨.success, result, t, []⟩
  else
    match t.openConnector m.opens with
    | (.success, t) => do
      let (ret, l) ← insertLines m t tuples (tuples.length + 1) 0 ⟨t.rowNumber, 0, result, []⟩
      let t := { t with rowNumber := l.rowNumber }
      -- the files stay open when a line is refused
      if ret ≠ .success then return ⟨ret, l.result, t, []⟩
      else insertTuples t l
    | (ret, t) => .ok ⟨ret, result, t, []⟩

/-! ### `Execute` -/

/-- Without a list of columns: the code of the last value, the text and the values left over. -/
def allColumns : ℕ → List InsertVal → RetCode → Text → Option (RetCode × Text × List InsertVal)
  | 0, vs, ret, ostr => some (ret, ostr, vs)
  | _ + 1, [], _, _ => none
  | n + 1, v :: vs, _, ostr =>
    allColumns n vs (insertValueToStream v).1 (ostr ++ (insertValueToStream v).2 ++ [124])

def valueFor (t : Table) (cols : List Text) (row : List InsertVal) (attrName : Text) :
    Option InsertVal :=
  ((cols.zip row).find? fun p => attrName = t.tableName ++ [46] ++ p.1).map Prod.snd

/-- With a list of columns: the number of columns used and the text. -/
def listedColumns (t : Table) (cols : List Text) (row : List InsertVal) :
    List (Text × Operate) → ℕ → Text → Option (ℕ × Text)
  | [], used, ostr => some (used, ostr)
  | (attrName, _) :: attrs, used, ostr =>
    match valueFor t cols row attrName with
    | none => listedColumns t cols row attrs used (ostr ++ [124])
    | some v =>
      if (insertValueToStream v).1 ≠ .success then none
      else listedColumns t cols row attrs (used + 1) (ostr ++ (insertValueToStream v).2 ++ [124])

/-- The loop over the rows: the text and the number of rows, or the error with which `Execute`
returns. -/
def renderRows (t : Table) (cols : List Text) :
    List (List InsertVal) → Text → ℕ → Except Text (Text × ℕ)
  | [], ostr, changed => .ok (ostr, changed)
  | row :: rows, ostr, changed =>
    let next := fun ostr => renderRows t cols rows (if rows = [] then ostr else ostr ++ [10])
      (changed + 1)
    if cols = [] then
      match allColumns t.attributes.length row .success ostr with
      | none => .error (text "Value count is too few")
      | some (ret, ostr, left) =>
        -- the loop is left, and the text so far goes on to `InsertFromString`
        if ret ≠ .success then .ok (ostr, changed)
        else if left ≠ [] then .error (text "Value count is too many")
        else next ostr
    else if row.length ≠ cols.length then
      .error (text "Column count doesn't match value count")
    else
      match listedColumns t cols row t.attributes 0 ostr with
      | none => .error (text "Not supported type to insert")
      | some (used, ostr) =>
        if used ≠ cols.length then .error (text "Some columns don't exist") else next ostr

def execute (m : Machine) (t : Table) (stmt : InsertStmt) (result : ExecutedResult) :
    Run Outcome :=
  if stmt.rows = [] then
    .ok ⟨.insertNoValue, result.setError (text "No value!"), t, []⟩
  else
    match renderRows t stmt.colList stmt.rows [] 0 with
    | .error err => .ok ⟨.failure, result.setError err, t, []⟩
    | .ok (ostr, changed) => do
      let out ← insertFromString m t (ostr ++ [10]) result
      let info := text "insert data successfully. " ++ toDecimal changed ++ text " rows changed."
      if out.ret = .success then return { out with result := out.result.setResult info }
      else
        let err := text "failed to insert tuples into table "
        return { out with result := out.result.setError err }

end Loader
