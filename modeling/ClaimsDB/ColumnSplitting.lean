/-
Cutting a row into columns.  `CheckAndToValue` tells from two positions that a row is exhausted:
when text is left that no separator ends, it reports too many columns, however few there are.

* **`encodeColumns_eq_decode`**, **`encodeColumns_unended`** — the loop over the columns;
* **`columns_decoded_from_pieces_iff`** — when the result is the one that the pieces give;
* **`last_column_unended`** — a row whose last column is not ended.
-/
import ClaimsDB.ColumnFrame

namespace Columns

open Run (bind_ok)
open List
open Loader (Text Memory RetCode Operate RawDataSource Reading Validity columnText find write text
  operateInt)

/-- The first pieces of a row, `n` at most, and the text behind them. -/
def rowPieces (sep : Text) : ℕ → Text → List Text × Text
  | 0, line => ([], line)
  | n + 1, line =>
    match find sep line with
    | none => ([], line)
    | some (t, rest) => (t :: (rowPieces sep n rest).1, (rowPieces sep n rest).2)

/-- A column is decoded from its piece if that is valid, else from the default. -/
def store (c : Operate × ℕ) (piece : Option Text) (m : Memory) : Run Memory := do
  let b ← c.1.toValue (givenText c.1 piece)
  write m c.2 b

/-- What columns with offsets are to become, from the `i`-th on, and what is recorded. -/
def decode (source : RawDataSource) : ℕ → List (Operate × ℕ) → List Text → Memory →
    List Validity → Run (RetCode × Memory × List Validity)
  | _, [], _, m, vs => .ok (.success, m, vs)
  | _, c :: cs, [], m, vs =>
    match source with
    | .sql => .ok (.tooFewColumn, m, vs ++ [⟨-1, .tooFewColumn⟩])
    | .file => do
      let m ← (c :: cs).foldlM (fun m c => store c none m) m
      .ok (.success, m, vs ++ [⟨-1, .tooFewColumn⟩])
  | i, c :: cs, t :: ps, m, vs =>
    let ret := (c.1.checkSet t).1
    let vs := if ret = .success then vs else vs ++ [⟨i, ret⟩]
    if ret.isError ∧ source = .sql then .ok (ret, m, vs)
    else do
      let m ← store c (some t) m
      decode source (i + 1) cs ps m vs

def decodeRow (cs : List Operate) (line : Text) (tuple : Memory) (sep : Text)
    (source : RawDataSource) : Run (RetCode × Memory × List Validity) := do
  let (ps, rest) := rowPieces sep cs.length line
  let (ret, m, vs) ← decode source 0 (cs.zip (accumOffsets 0 cs)) ps tuple []
  if ret = .success ∧ ps.length = cs.length ∧ rest ≠ [] then
    .ok (if source = .sql then .tooManyColumn else .success, m, vs ++ [⟨-1, .tooManyColumn⟩])
  else .ok (ret, m, vs)

def seen (p : RetCode × Reading) : RetCode × Memory × List Validity :=
  (p.1, p.2.tuple, p.2.validities)

variable {sep : Text} {source : RawDataSource} {cos : List (Operate × ℕ)} {r : Reading}

theorem find_of_ne_nil {line : Text} (h : line ≠ []) : find [] line = some ([], line) := by
  cases line with
  | nil => exact absurd rfl h
  | cons c line => simp [find]

/-- Behind the end of a row all columns have their defaults. -/
theorem encodeColumns_defaults (i : ℕ) (hfind : find sep r.rest = none) (hfound : r.found = false) :
    encodeColumns sep source i cos r =
      (cos.foldlM (fun m c => store c none m) r.tuple).map
        fun m => (.success, { r with tuple := m }) := by
  induction cos generalizing i r with
  | nil => rfl
  | cons c cos ih =>
    rw [encodeColumns, columnText, if_neg (by simp [hfound]), hfind, foldlM_cons, store, givenText]
    simp only [← hfound]
    cases c.1.toValue c.1.setDefault with
    | error e => rfl
    | ok b =>
      simp only [bind_ok]
      cases write r.tuple c.2 b with
      | error e => rfl
      | ok m => exact ih (i + 1) hfind hfound

/-- What a column does with its piece. -/
theorem columnText_piece (i : ℕ) (c : Operate) {t rest : Text} (hr : r.rest ≠ [])
    (hfind : find sep r.rest = some (t, rest)) :
    columnText sep source i c r =
      let ret := (c.checkSet t).1
      let vs := if ret = .success then r.validities else r.validities ++ [⟨i, ret⟩]
      if ret.isError ∧ source = .sql then .error (ret, ⟨rest, true, r.tuple, vs⟩)
      else .ok (givenText c (some t), ⟨rest, true, r.tuple, vs⟩) := by
  obtain ⟨length, checkSet, setDefault, toValue, value, _, _⟩ := c
  rw [columnText, if_neg (by simp [hr]), hfind, givenText]
  simp only
  rcases checkSet t with ⟨ret, t'⟩
  cases ret <;> cases source <;> rfl

/-- **The loop over the columns** follows the pieces. -/
theorem encodeColumns_eq_decode (source : RawDataSource) (i : ℕ) (cos : List (Operate × ℕ))
    (r : Reading) {ps : List Text} {rest : Text}
    (hps : rowPieces sep cos.length r.rest = (ps, rest)) (hsep : sep = [] → r.rest ≠ [])
    (hfound : r.found = true) (hend : ps.length = cos.length ∨ rest = []) :
    (encodeColumns sep source i cos r).map seen =
        decode source i cos ps r.tuple r.validities ∧
      ∀ r', encodeColumns sep source i cos r = .ok (.success, r') → r'.rest = rest := by
  induction cos generalizing i r ps with
  | nil =>
    cases hps
    refine ⟨rfl, fun r' h => ?_⟩
    cases h
    rfl
  | cons c cos ih =>
    rw [length_cons, rowPieces] at hps
    by_cases hr : r.rest = []
    · have hfind : find sep r.rest = none := by
        rw [hr]
        exact if_neg fun hnil => hsep hnil hr
      rw [hfind] at hps
      cases hps
      rw [encodeColumns, columnText, if_pos ⟨hfound, hr⟩]
      cases source with
      | sql => exact ⟨rfl, fun _ h => by cases h⟩
      | file =>
        rw [decode, foldlM_cons, store, givenText]
        simp only
        cases c.1.toValue c.1.setDefault with
        | error e => exact ⟨rfl, fun _ h => by cases h⟩
        | ok b =>
          simp only [bind_ok]
          cases write r.tuple c.2 b with
          | error e => exact ⟨rfl, fun _ h => by cases h⟩
          | ok m =>
            simp only [bind_ok]
            rw [encodeColumns_defaults (i + 1) (by exact hfind) rfl]
            refine ⟨?_, fun r' h => ?_⟩
            · cases cos.foldlM (fun m c => store c none m) m <;> rfl
            · obtain ⟨m', -, heq⟩ := Run.map_eq_ok h
              cases heq
              exact hr.trans hr.symm
    · cases hfind : find sep r.rest with
      | none =>
        rw [hfind] at hps
        cases hps
        rcases hend with hend | hend
        · cases hend
        · exact absurd hend hr
      | some p =>
        obtain ⟨t, rest'⟩ := p
        rw [hfind] at hps
        cases hps
        rw [encodeColumns, columnText_piece i c.1 hr hfind, decode, store]
        simp only
        by_cases herror : (c.1.checkSet t).1.isError = true ∧ source = .sql
        · rw [if_pos herror, if_pos herror]
          refine ⟨rfl, fun r' h => ?_⟩
          cases herror.1.symm.trans (congrArg (fun p => p.1.isError) (Except.ok.inj h))
        · rw [if_neg herror, if_neg herror]
          simp only
          cases c.1.toValue (givenText c.1 (some t)) with
          | error e => exact ⟨rfl, fun _ h => by cases h⟩
          | ok b =>
            simp only [bind_ok]
            cases write r.tuple c.2 b with
            | error e => exact ⟨rfl, fun _ h => by cases h⟩
            | ok m =>
              refine ih (i + 1) _ rfl (fun hnil => ?_) rfl (hend.imp Nat.succ.inj id)
              rw [hnil, find_of_ne_nil hr] at hfind
              cases hfind
              exact hr

theorem length_zip_accumOffsets (cs : List Operate) :
    (cs.zip (accumOffsets 0 cs)).length = cs.length := by
  rw [length_zip, length_accumOffsets, Nat.min_self]

/-- **Rows that are ended**, or have a piece for each column. -/
theorem decoded_of_ended {cs : List Operate} {line : Text} {tuple : Memory}
    (hend : (rowPieces sep cs.length line).1.length = cs.length ∨
      (rowPieces sep cs.length line).2 = [])
    (hsep : sep = [] → line ≠ []) :
    (checkAndToValue cs line tuple sep source).map seen =
      decodeRow cs line tuple sep source := by
  have hlen := length_zip_accumOffsets cs
  obtain ⟨hrun, hrest⟩ := encodeColumns_eq_decode source 0 (cs.zip (accumOffsets 0 cs))
    ⟨line, true, tuple, []⟩ (by rw [hlen]) hsep rfl (by rwa [hlen])
  rw [checkAndToValue, decodeRow]
  simp only
  rw [← hrun]
  cases hcols : encodeColumns sep source 0 (cs.zip (accumOffsets 0 cs)) ⟨line, true, tuple, []⟩ with
  | error e => rfl
  | ok p =>
    obtain ⟨ret, r⟩ := p
    simp only [Except.map, bind_ok, seen, afterColumns]
    by_cases hret : ret = .success
    · subst hret
      rw [hrest r hcols]
      by_cases hmany : (rowPieces sep cs.length line).2 = []
      · simp [hmany]
      · simp only [true_and, hend.resolve_right hmany]
        rw [if_pos hmany, if_pos hmany]
        cases source <;> rfl
    · rw [if_neg fun h => hret h.1, if_neg fun h => hret h.1]

/-! ### Rows whose last text no separator ends -/

theorem length_rowPieces_le (sep : Text) (n : ℕ) (line : Text) :
    (rowPieces sep n line).1.length ≤ n := by
  induction n generalizing line with
  | zero => exact le_rfl
  | succ n ih =>
    rw [rowPieces]
    split
    · exact Nat.zero_le _
    · exact Nat.succ_le_succ (ih _)

/-- What is done with the columns that have no piece, once those before them are decoded. -/
def withDefaults (cos : List (Operate × ℕ)) (p : RetCode × Memory × List Validity) :
    Run (RetCode × Memory × List Validity) :=
  if p.1 = .success then do
    let m ← cos.foldlM (fun m c => store c none m) p.2.1
    .ok (.success, m, p.2.2)
  else .ok p

theorem rowPieces_nil (sep : Text) (n : ℕ) : (rowPieces sep n []).2 = [] := by
  induction n with
  | zero => rfl
  | succ n ih =>
    by_cases hsep : sep = []
    · simpa [rowPieces, find, hsep] using hsep ▸ ih
    · simp [rowPieces, find, hsep]

/-- **The loop over the columns** when text is left that no separator ends: the other columns get
their defaults, without a record. -/
theorem encodeColumns_unended (source : RawDataSource) (i : ℕ) (cos : List (Operate × ℕ))
    (r : Reading) {ps : List Text} {rest : Text}
    (hps : rowPieces sep cos.length r.rest = (ps, rest)) (hfew : ps.length < cos.length)
    (hrest : rest ≠ []) (hfound : r.found = true) :
    (encodeColumns sep source i cos r).map seen =
        (decode source i (cos.take ps.length) ps r.tuple r.validities >>=
          withDefaults (cos.drop ps.length)) ∧
      ∀ r', encodeColumns sep source i cos r = .ok (.success, r') → r'.rest = rest := by
  induction cos generalizing i r ps with
  | nil => cases hfew
  | cons c cos ih =>
    have hr : r.rest ≠ [] := by
      intro hnil
      rw [hnil] at hps
      exact hrest (by rw [← rowPieces_nil sep (c :: cos).length, hps])
    rw [length_cons, rowPieces] at hps
    cases hfind : find sep r.rest with
    | none =>
      rw [hfind] at hps
      cases hps
      rw [encodeColumns, columnText, if_neg fun h => hr h.2, hfind, length_nil, take_zero, drop_zero,
        decode, bind_ok, withDefaults, if_pos rfl, foldlM_cons, store, givenText]
      simp only
      cases c.1.toValue c.1.setDefault with
      | error e => exact ⟨rfl, fun _ h => by cases h⟩
      | ok b =>
        simp only [bind_ok]
        cases write r.tuple c.2 b with
        | error e => exact ⟨rfl, fun _ h => by cases h⟩
        | ok m =>
          simp only [bind_ok]
          rw [encodeColumns_defaults (i + 1) (by exact hfind) rfl]
          refine ⟨?_, fun r' h => ?_⟩
          · cases cos.foldlM (fun m c => store c none m) m <;> rfl
          · obtain ⟨m', -, heq⟩ := Run.map_eq_ok h
            cases heq
            rfl
    | some p =>
      obtain ⟨t, rest'⟩ := p
      rw [hfind] at hps
      cases hps
      rw [encodeColumns, columnText_piece i c.1 hr hfind, length_cons, take_succ_cons,
        drop_succ_cons, decode, store]
      simp only
      by_cases herror : (c.1.checkSet t).1.isError = true ∧ source = .sql
      · rw [if_pos herror, if_pos herror]
        have hret : (c.1.checkSet t).1 ≠ .success := fun h => by
          rw [h] at herror
          cases herror.1
        refine ⟨?_, fun r' h => ?_⟩
        · simp only [bind_ok, withDefaults, hret, if_false]
          rfl
        · exact absurd (congrArg Prod.fst (Except.ok.inj h)) hret
      · rw [if_neg herror, if_neg herror]
        simp only
        cases c.1.toValue (givenText c.1 (some t)) with
        | error e => exact ⟨rfl, fun _ h => by cases h⟩
        | ok b =>
          simp only [bind_ok]
          cases write r.tuple c.2 b with
          | error e => exact ⟨rfl, fun _ h => by cases h⟩
          | ok m => exact ih (i + 1) _ rfl (Nat.lt_of_succ_lt_succ hfew) rfl

/-- What is recorded, and returned for SQL, when text is left behind the columns. -/
def noteTooMany (source : RawDataSource) (p : RetCode × Memory × List Validity) :
    RetCode × Memory × List Validity :=
  if p.1 = .success then
    (if source = .sql then .tooManyColumn else .success, p.2.1, p.2.2 ++ [⟨-1, .tooManyColumn⟩])
  else p

/-- What a decoding does that lacks pieces. -/
def noteTooFew (source : RawDataSource) (cos : List (Operate × ℕ))
    (p : RetCode × Memory × List Validity) : Run (RetCode × Memory × List Validity) :=
  if p.1 = .success then
    if source = .sql then .ok (.tooFewColumn, p.2.1, p.2.2 ++ [⟨-1, .tooFewColumn⟩])
    else do
      let m ← cos.foldlM (fun m c => store c none m) p.2.1
      .ok (.success, m, p.2.2 ++ [⟨-1, .tooFewColumn⟩])
  else .ok p

theorem decode_few (i : ℕ) {ps : List Text} (hfew : ps.length < cos.length) (m : Memory)
    (vs : List Validity) :
    decode source i cos ps m vs = (decode source i (cos.take ps.length) ps m vs >>=
      noteTooFew source (cos.drop ps.length)) := by
  induction ps generalizing i cos m vs with
  | nil =>
    obtain ⟨c, cos, rfl⟩ := exists_cons_of_length_pos hfew
    cases source <;> rfl
  | cons t ps ih =>
    obtain ⟨c, cos, rfl⟩ := exists_cons_of_length_pos (Nat.zero_lt_of_lt hfew)
    rw [length_cons, take_succ_cons, drop_succ_cons, decode, decode]
    by_cases herror : (c.1.checkSet t).1.isError = true ∧ source = .sql
    · have hret : (c.1.checkSet t).1 ≠ .success := fun h => by
        rw [h] at herror
        cases herror.1
      rw [if_pos herror, if_pos herror, bind_ok]
      exact (if_neg hret).symm
    · rw [if_neg herror, if_neg herror]
      cases store c (some t) m with
      | error e => rfl
      | ok m => exact ih (i + 1) (Nat.lt_of_succ_lt_succ hfew) _ _

/-- The columns that have a piece, with their offsets, and those that have none. -/
def withPiece (cs : List Operate) (line sep : Text) : List (Operate × ℕ) :=
  (cs.zip (accumOffsets 0 cs)).take (rowPieces sep cs.length line).1.length

def withoutPiece (cs : List Operate) (line sep : Text) : List (Operate × ℕ) :=
  (cs.zip (accumOffsets 0 cs)).drop (rowPieces sep cs.length line).1.length

section

variable {cs : List Operate} {line : Text} {tuple : Memory}

variable (hfew : (rowPieces sep cs.length line).1.length < cs.length)

include hfew

theorem checkAndToValue_unended (hrest : (rowPieces sep cs.length line).2 ≠ []) :
    (checkAndToValue cs line tuple sep source).map seen =
      (decode source 0 (withPiece cs line sep) (rowPieces sep cs.length line).1 tuple [] >>=
        withDefaults (withoutPiece cs line sep)).map (noteTooMany source) := by
  have hlen := length_zip_accumOffsets cs
  obtain ⟨hrun, hend⟩ := encodeColumns_unended source 0 (cs.zip (accumOffsets 0 cs))
    ⟨line, true, tuple, []⟩ (by rw [hlen]) (by rwa [hlen]) hrest rfl
  rw [withPiece, withoutPiece, ← hrun, checkAndToValue]
  cases hcols : encodeColumns sep source 0 (cs.zip (accumOffsets 0 cs)) ⟨line, true, tuple, []⟩ with
  | error e => rfl
  | ok p =>
    obtain ⟨ret, r⟩ := p
    simp only [Except.map, seen, afterColumns, noteTooMany]
    by_cases hret : ret = .success
    · subst hret
      rw [if_pos ⟨rfl, hend r hcols ▸ hrest⟩, if_pos rfl]
      cases source <;> rfl
    · rw [if_neg fun h => hret h.1, if_neg hret]

theorem decodeRow_few :
    decodeRow cs line tuple sep source =
      (decode source 0 (withPiece cs line sep) (rowPieces sep cs.length line).1 tuple [] >>=
        noteTooFew source (withoutPiece cs line sep)) := by
  have hlen := length_zip_accumOffsets cs
  rw [decodeRow, withPiece, withoutPiece, ← decode_few 0 (by rwa [hlen])]
  simp only
  cases decode source 0 (cs.zip (accumOffsets 0 cs)) (rowPieces sep cs.length line).1 tuple [] with
  | error e => rfl
  | ok p =>
    simp only [bind_ok]
    exact if_neg fun h => hfew.ne h.2.1

end

/-- The columns that have a piece are decoded without an error at which `CheckAndToValue` returns,
and the defaults of the others can be stored. -/
def PiecesDone (cs : List Operate) (line : Text) (tuple : Memory) (sep : Text)
    (source : RawDataSource) : Prop :=
  ∃ m vs, decode source 0 (withPiece cs line sep) (rowPieces sep cs.length line).1 tuple [] =
      .ok (.success, m, vs) ∧
    (source = .file →
      ∃ m', (withoutPiece cs line sep).foldlM (fun m c => store c none m) m = .ok m')

theorem unended_eq_iff {cs : List Operate} {line : Text} {tuple : Memory}
    (hfew : (rowPieces sep cs.length line).1.length < cs.length)
    (hrest : (rowPieces sep cs.length line).2 ≠ []) :
    (checkAndToValue cs line tuple sep source).map seen = decodeRow cs line tuple sep source ↔
      ¬ PiecesDone cs line tuple sep source := by
  rw [checkAndToValue_unended hfew hrest, decodeRow_few hfew, PiecesDone]
  cases decode source 0 (withPiece cs line sep) (rowPieces sep cs.length line).1 tuple [] with
  | error e => exact ⟨fun _ ⟨_, _, h, _⟩ => (by cases h), fun _ => rfl⟩
  | ok p =>
    obtain ⟨ret, m, vs⟩ := p
    simp only [bind_ok, withDefaults, noteTooFew]
    by_cases hret : ret = .success
    · subst hret
      rw [if_pos rfl, if_pos rfl]
      cases source with
      | sql =>
        refine iff_of_false (fun h => ?_) fun h => h ⟨m, vs, rfl, nofun⟩
        cases hstore : (withoutPiece cs line sep).foldlM (fun m c => store c none m) m with
        | error e =>
          rw [hstore] at h
          cases h
        | ok m' =>
          rw [hstore] at h
          cases h
      | file =>
        cases hstore : (withoutPiece cs line sep).foldlM (fun m c => store c none m) m with
        | error e =>
          refine iff_of_true rfl ?_
          rintro ⟨m₁, vs₁, hok, hfile⟩
          obtain ⟨m', hm'⟩ := hfile rfl
          cases hok
          cases hstore.symm.trans hm'
        | ok m' =>
          refine iff_of_false (fun h => ?_) fun h => h ⟨m, vs, rfl, fun _ => ⟨m', hstore⟩⟩
          have hvs := congrArg (fun p => p.2.2) (Except.ok.inj h)
          simp [noteTooMany] at hvs
    · simp only [hret, if_false, Except.map, noteTooMany, Except.ok.injEq, Prod.mk.injEq, false_and,
        exists_const, not_false_eq_true]

end Columns
