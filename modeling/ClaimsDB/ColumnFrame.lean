/-
The columns of a tuple and the bytes written for them.

Offsets and lengths are computed with `unsigned`.  A string is cut to the size of its column and
written with a zero behind it, so it can take one byte more than the size.
-/
import ClaimsDB.ColumnOperators

namespace Columns

open Run (bind_eq_ok bind_ok)
open List
open Loader (Text Memory RetCode Operate RawDataSource Reading cStr byteAlign columnText find write
  totalsize)

/-! ### The layout -/

/-- `accum_offsets`, from the offset of the first column on. -/
def accumOffsets : ℕ → List Operate → List ℕ
  | _, [] => []
  | off, c :: cs => off :: accumOffsets ((off + c.length) % 2 ^ 32) cs

/-- The loop of `CheckAndToValue` over the columns with their offsets, from the `i`-th on. -/
def encodeColumns (sep : Text) (source : RawDataSource) :
    ℕ → List (Operate × ℕ) → Reading → Run (RetCode × Reading)
  | _, [], r => .ok (.success, r)
  | i, (c, off) :: cs, r =>
    match columnText sep source i c r with
    | .error left => .ok left
    | .ok (t, r) => do
      let b ← c.toValue t
      let tuple ← write r.tuple off b
      encodeColumns sep source (i + 1) cs { r with tuple := tuple }

theorem encodeColumns_eq_checkColumns (sep : Text) (source : RawDataSource) {cs : List Operate}
    (i off : ℕ) (r : Reading) (h : off + totalsize cs < 2 ^ 32) :
    encodeColumns sep source i (cs.zip (accumOffsets off cs)) r =
      Loader.checkColumns sep source i off cs r := by
  induction cs generalizing i off r with
  | nil => rfl
  | cons c cs ih =>
    have htotal : totalsize (c :: cs) = c.length + totalsize cs := by simp [totalsize]
    rw [accumOffsets, zip_cons_cons, encodeColumns, Loader.checkColumns,
      Nat.mod_eq_of_lt (by omega)]
    cases columnText sep source i c r with
    | error left => rfl
    | ok p =>
      simp only
      refine bind_congr fun b => bind_congr fun tuple => ?_
      exact ih _ _ _ (by omega)

/-! ### What is written -/

/-- What the columns from the `i`-th on are encoded to, and what is left to be read; nothing if the
row is refused. -/
def encodings (sep : Text) (source : RawDataSource) :
    ℕ → List Operate → Reading → Run (Option (List Memory × Reading))
  | _, [], r => .ok (some ([], r))
  | i, c :: cs, r =>
    match columnText sep source i c r with
    | .error _ => .ok none
    | .ok (t, r) => do
      let b ← c.toValue t
      let rest ← encodings sep source (i + 1) cs r
      .ok (rest.map fun p => (b :: p.1, p.2))

def writeAll (ws : List (ℕ × Memory)) (m : Memory) : Run Memory :=
  ws.foldlM (fun m w => write m w.1 w.2) m

theorem writeAll_cons (w : ℕ × Memory) (ws : List (ℕ × Memory)) (m : Memory) :
    writeAll (w :: ws) m = write m w.1 w.2 >>= writeAll ws := rfl

variable {sep : Text} {source : RawDataSource} {c : Operate} {cs : List Operate} {i off : ℕ}
  {r r' : Reading} {bs : List Memory}

theorem encodings_cons (h : encodings sep source i (c :: cs) r = .ok (some (bs, r'))) :
    ∃ t r₁ b bs', columnText sep source i c r = .ok (t, r₁) ∧ c.toValue t = .ok b ∧
      encodings sep source (i + 1) cs r₁ = .ok (some (bs', r')) ∧ bs = b :: bs' := by
  rw [encodings] at h
  cases ht : columnText sep source i c r with
  | error left =>
    rw [ht] at h
    cases h
  | ok p =>
    obtain ⟨t, r₁⟩ := p
    rw [ht] at h
    obtain ⟨b, hb, rest, hrest, h⟩ := Run.bind₂_eq_ok h
    obtain ⟨⟨bs', r₂⟩, rfl, heq⟩ := Option.map_eq_some_iff.mp (Except.ok.inj h)
    cases heq
    exact ⟨t, r₁, b, bs', rfl, hb, hrest, rfl⟩

theorem length_accumOffsets (off : ℕ) (cs : List Operate) :
    (accumOffsets off cs).length = cs.length := by
  induction cs generalizing off with
  | nil => rfl
  | cons c cs ih => rw [accumOffsets, length_cons, length_cons, ih]

variable {t : Text} {r₁ : Reading} {m tuple : Memory}

theorem columnText_tuple (tuple : Memory) (h : columnText sep source i c r = .ok (t, r₁)) :
    columnText sep source i c { r with tuple := tuple } = .ok (t, { r₁ with tuple := tuple }) ∧
      r₁.tuple = r.tuple := by
  unfold columnText at h ⊢
  simp only at h ⊢
  split
  · rename_i hmissing
    rw [if_pos hmissing] at h
    cases source with
    | sql => cases h
    | file =>
      cases h
      exact ⟨rfl, rfl⟩
  · rename_i hmissing
    rw [if_neg hmissing] at h
    cases hfind : find sep r.rest with
    | none =>
      rw [hfind] at h
      cases h
      exact ⟨rfl, rfl⟩
    | some p =>
      rw [hfind] at h
      simp only at h ⊢
      split at h
      · rename_i herror
        rw [if_pos herror]
        cases source with
        | sql => cases h
        | file =>
          cases h
          exact ⟨rfl, rfl⟩
      · rename_i herror
        rw [if_neg herror]
        split at h
        · rename_i hlong
          rw [if_pos hlong]
          cases h
          exact ⟨rfl, rfl⟩
        · rename_i hlong
          rw [if_neg hlong]
          split_ifs at h with hsuccess
          · rw [if_pos hsuccess]
            cases h
            exact ⟨rfl, rfl⟩
          · rw [if_neg hsuccess]
            cases h
            exact ⟨rfl, rfl⟩

/-- **The loop as a sequence of writes.** -/
theorem encodeColumns_eq (offs : List ℕ) (tuple : Memory) (hoffs : offs.length = cs.length)
    (h : encodings sep source i cs r = .ok (some (bs, r'))) :
    encodeColumns sep source i (cs.zip offs) { r with tuple := tuple } =
      (writeAll (offs.zip bs) tuple).map fun tuple => (.success, { r' with tuple := tuple }) := by
  induction cs generalizing i r bs offs tuple with
  | nil =>
    cases h
    cases offs with
    | nil => rfl
    | cons off offs => cases hoffs
  | cons c cs ih =>
    obtain ⟨t, r₁, b, bs', ht, hb, hrest, rfl⟩ := encodings_cons h
    cases offs with
    | nil => cases hoffs
    | cons off offs =>
      obtain ⟨ht', -⟩ := columnText_tuple tuple ht
      rw [zip_cons_cons, encodeColumns, ht']
      simp only
      rw [hb, bind_ok, zip_cons_cons, writeAll_cons]
      cases hw : write tuple off b with
      | error e => rfl
      | ok tuple' =>
        rw [bind_ok, bind_ok]
        exact ih offs tuple' (Nat.succ.inj hoffs) hrest

/-! ### Writing one behind the other -/

theorem bounds_of_writeAll {ws : List (ℕ × Memory)} {m' : Memory} (h : writeAll ws m = .ok m') :
    ∀ w ∈ ws, w.1 + w.2.length ≤ m.length := by
  induction ws generalizing m with
  | nil => simp
  | cons w ws ih =>
    rw [writeAll_cons] at h
    obtain ⟨m₁, hw, hrest⟩ := bind_eq_ok h
    have hbound : w.1 + w.2.length ≤ m.length := by
      by_contra hbound
      rw [write, if_neg hbound] at hw
      cases hw
    obtain ⟨m₂, hw₂, hlength, -, -⟩ := Loader.write_ok m w.2 w.1 hbound
    obtain rfl : m₁ = m₂ := Except.ok.inj (hw.symm.trans hw₂)
    exact List.forall_mem_cons.2 ⟨hbound, hlength ▸ ih hrest⟩

abbrev Within (cs : List Operate) (bs : List Memory) : Prop :=
  List.Forall₂ (fun c b => b.length ≤ c.length) cs bs

theorem totalsize_cons (c : Operate) (cs : List Operate) :
    totalsize (c :: cs) = c.length + totalsize cs := by simp [totalsize]

theorem writeAll_within (hwithin : Within cs bs) (off : ℕ) (m : Memory)
    (hroom : off + totalsize cs ≤ m.length) (hsize : off + totalsize cs < 2 ^ 32) :
    ∃ m', writeAll ((accumOffsets off cs).zip bs) m = .ok m' ∧ m'.length = m.length ∧
      m'.take off = m.take off ∧
      ∀ p ∈ (accumOffsets off cs).zip bs, p.2 <+: m'.drop p.1 := by
  induction hwithin generalizing off m with
  | nil => exact ⟨m, rfl, rfl, rfl, by simp [accumOffsets]⟩
  | @cons c b cs bs hb _ ih =>
    rw [totalsize_cons] at hroom hsize
    obtain ⟨m₁, hw, hlength, hpre, htake⟩ := Loader.write_ok m b off (by omega)
    rw [accumOffsets, Nat.mod_eq_of_lt (by omega), zip_cons_cons, writeAll_cons, hw,
      bind_ok]
    obtain ⟨m', hm', hlength', htake', hall⟩ := ih (off + c.length) m₁ (by omega) (by omega)
    refine ⟨m', hm', hlength'.trans hlength, ?_, fun p hp => ?_⟩
    · have hshort := congrArg (List.take off) htake'
      rw [take_take, take_take, Nat.min_eq_left (Nat.le_add_right _ _)] at hshort
      rw [hshort, htake]
    · obtain rfl | hp := List.mem_cons.mp hp
      · exact Loader.prefix_of_take_eq htake' (Nat.add_le_add_left hb off) hpre
      · exact hall p hp

/-! ### Rows and their pieces -/

/-- The pieces of a row, one for each of `n` columns, and nothing where the row has no more. -/
def pieces (sep : Text) : ℕ → Bool → Text → List (Option Text)
  | 0, _, _ => []
  | n + 1, found, rest =>
    if found ∧ rest = [] then none :: pieces sep n false rest
    else
      match find sep rest with
      | none => none :: pieces sep n false rest
      | some (t, rest) => some t :: pieces sep n true rest

def givenText (c : Operate) : Option Text → Text
  | none => c.setDefault
  | some t =>
    if (c.checkSet t).1 = .tooLongData ∨ (c.checkSet t).1 = .success then (c.checkSet t).2
    else c.setDefault

theorem not_given_of_isError {ret : RetCode} (h : ret.isError = true) :
    ¬(ret = .tooLongData ∨ ret = .success) := by
  rintro (rfl | rfl) <;> cases h

theorem columnText_eq (n : ℕ) (h : columnText sep source i c r = .ok (t, r₁)) :
    ∃ piece, pieces sep (n + 1) r.found r.rest = piece :: pieces sep n r₁.found r₁.rest ∧
      t = givenText c piece := by
  unfold columnText at h
  rw [pieces]
  split at h
  · rename_i hmissing
    rw [if_pos hmissing]
    cases source with
    | sql => cases h
    | file =>
      cases h
      exact ⟨none, rfl, rfl⟩
  · rename_i hmissing
    rw [if_neg hmissing]
    cases hfind : find sep r.rest with
    | none =>
      rw [hfind] at h
      cases h
      exact ⟨none, rfl, rfl⟩
    | some p =>
      obtain ⟨piece, rest⟩ := p
      rw [hfind] at h
      simp only at h ⊢
      refine ⟨some piece, ?_⟩
      rw [givenText]
      split at h
      · rename_i herror
        rw [if_neg (not_given_of_isError herror)]
        cases source with
        | sql => cases h
        | file =>
          cases h
          exact ⟨rfl, rfl⟩
      · split at h
        · rename_i hlong
          rw [if_pos (.inl hlong)]
          cases h
          exact ⟨rfl, rfl⟩
        · rename_i hlong
          split_ifs at h with hsuccess
          · rw [if_neg (not_or.mpr ⟨hlong, hsuccess⟩)]
            cases h
            exact ⟨rfl, rfl⟩
          · rw [if_pos (.inr (not_not.mp hsuccess))]
            cases h
            exact ⟨rfl, rfl⟩

/-- The characters written for a string; a piece that begins like `NULL` is not cut. -/
def characters (size : ℕ) (nullable : Bool) : Option Text → ℕ
  | none => if nullable then 1 else 0
  | some t =>
    if t.head? = some 1 then if nullable then (cStr t).length else 0
    else min size (cStr t).length

def HasRoom (c : Column) (piece : Option Text) : Prop :=
  match c.type with
  | .string size => characters size c.nullable piece < byteAlign size
  | _ => True

theorem hasRoom_of_fixed {c : Column} (h : c.type.isFixed = true) (piece : Option Text) :
    HasRoom c piece := by
  obtain ⟨type, nullable⟩ := c
  cases type with
  | string size => cases h
  | _ => exact trivial

theorem getLength_pos {type : ColumnType} (h : type.isFixed = true) : 0 < type.getLength := by
  cases type with
  | string size => cases h
  | _ => simp only [ColumnType.getLength]; omega

theorem length_cStr_take (size : ℕ) (t : Text) :
    (cStr (t.take size)).length = min size (cStr t).length := by
  induction t generalizing size with
  | nil => simp [cStr]
  | cons c t ih =>
    cases size with
    | zero => simp [cStr]
    | succ size =>
      rw [take_succ_cons, cStr, cStr, takeWhile_cons, takeWhile_cons]
      split
      · rw [length_cons, length_cons, Nat.succ_min_succ]
        exact congrArg _ (ih size)
      · simp

variable (L : Library)

theorem length_cStr_givenText (size : ℕ) (nullable : Bool) (piece : Option Text) :
    (cStr (givenText (Column.operate L ⟨.string size, nullable⟩) piece)).length =
      characters size nullable piece := by
  rw [Column.operate_string]
  cases piece with
  | none =>
    rw [givenText, characters]
    cases nullable <;> rfl
  | some t =>
    rw [givenText, characters]
    have hcheck : (Loader.operateString size nullable).checkSet t =
        Loader.checkSetString size nullable t := rfl
    rw [hcheck, Loader.checkSetString]
    by_cases hnull : t.head? = some 1
    · rw [if_pos hnull, if_pos hnull]
      cases nullable with
      | true => rfl
      | false => rfl
    · rw [if_neg hnull, if_neg hnull]
      by_cases hlong : size < t.length
      · rw [if_pos hlong]
        exact length_cStr_take size t
      · rw [if_neg hlong]
        have hshort : (cStr t).length ≤ t.length := ( takeWhile_prefix _).length_le
        simp only [or_true, if_true]
        rw [Nat.min_eq_right (hshort.trans (Nat.le_of_not_lt hlong))]

/-- **How many bytes are written for a column.** -/
theorem length_encoding {c : Column} {piece : Option Text} {b : Memory}
    (h : (c.operate L).toValue (givenText (c.operate L) piece) = .ok b) :
    0 < b.length ∧ (b.length ≤ (c.operate L).length ↔ HasRoom c piece) := by
  have hvalue : c.toValue L (givenText (c.operate L) piece) = .ok b := h
  cases hfixed : c.type.isFixed with
  | true =>
    have hlength := Column.length_toValue L hfixed hvalue
    rw [hlength]
    exact ⟨getLength_pos hfixed, fun _ => hasRoom_of_fixed hfixed piece, fun _ => le_rfl⟩
  | false =>
    obtain ⟨type, nullable⟩ := c
    cases type with
    | string size =>
      have hcharacters := length_cStr_givenText L size nullable piece
      rw [Column.operate_string] at h hcharacters
      have hlength : b.length = characters size nullable piece + 1 := by
        obtain rfl := Except.ok.inj h
        rw [← hcharacters]
        split
        · rename_i hnull
          rw [Bool.and_eq_true, decide_eq_true_eq] at hnull
          rw [hnull.2]
          rfl
        · rw [length_append, length_singleton]
      have hroom : (Column.operate L ⟨.string size, nullable⟩).length = byteAlign size := rfl
      rw [hroom, hlength]
      exact ⟨Nat.succ_pos _, Nat.succ_le_iff⟩
    | _ => cases hfixed

theorem within_iff {cols : List Column}
    (h : encodings sep source i (cols.map (Column.operate L)) r = .ok (some (bs, r'))) :
    (Within (cols.map (Column.operate L)) bs ↔
      ∀ p ∈ cols.zip (pieces sep cols.length r.found r.rest), HasRoom p.1 p.2) ∧
    ∀ b ∈ bs, 0 < b.length := by
  induction cols generalizing i r bs with
  | nil =>
    cases h
    exact ⟨⟨fun _ => by simp, fun _ => .nil⟩, by simp⟩
  | cons c cols ih =>
    obtain ⟨t, r₁, b, bs', ht, hb, hrest, rfl⟩ := encodings_cons h
    obtain ⟨piece, hpieces, rfl⟩ := columnText_eq cols.length ht
    obtain ⟨hpos, hroom⟩ := length_encoding L hb
    obtain ⟨hwithin, hnonempty⟩ := ih hrest
    rw [length_cons, hpieces, map_cons, zip_cons_cons]
    constructor
    · rw [Within, forall₂_cons, forall_mem_cons, hroom]
      exact and_congr Iff.rfl hwithin
    · exact List.forall_mem_cons.mpr ⟨hpos, hnonempty⟩

/-! ### Overflow of the offsets -/

theorem accumOffsets_append (off : ℕ) (pre post : List Operate) (hoff : off < 2 ^ 32) :
    accumOffsets off (pre ++ post) =
      accumOffsets off pre ++ accumOffsets ((off + totalsize pre) % 2 ^ 32) post := by
  induction pre generalizing off with
  | nil =>
    rw [nil_append, accumOffsets, nil_append, totalsize, map_nil, sum_nil,
      Nat.add_zero, Nat.mod_eq_of_lt hoff]
  | cons c pre ih =>
    rw [cons_append, accumOffsets, accumOffsets, ih _ (Nat.mod_lt _ (by decide)),
      totalsize_cons, cons_append, Nat.mod_add_mod, Nat.add_assoc]

theorem exists_overflow {n : ℕ} (off : ℕ) (hoff : off < n) (h : n ≤ off + totalsize cs) :
    ∃ pre c post, cs = pre ++ c :: post ∧ off + totalsize pre < n ∧
      n ≤ off + totalsize pre + c.length := by
  induction cs generalizing off with
  | nil =>
    simp only [totalsize, map_nil, sum_nil] at h
    omega
  | cons c cs ih =>
    rw [totalsize_cons] at h
    by_cases hc : n ≤ off + c.length
    · exact ⟨[], c, cs, rfl, hoff, hc⟩
    · obtain ⟨pre, d, post, rfl, hpre, hd⟩ := ih (off + c.length) (by omega) (by omega)
      refine ⟨c :: pre, d, post, rfl, ?_, ?_⟩
      · rw [totalsize_cons]
        omega
      · rw [totalsize_cons]
        omega

theorem exists_covering (cs : List Operate) (c : Operate) (off : ℕ) {a : ℕ}
    (hsize : off + totalsize cs < 2 ^ 32) (hlow : off ≤ a) (hhigh : a < off + totalsize cs + c.length) :
    ∃ p ∈ (accumOffsets off (cs ++ [c])).zip ((cs ++ [c]).map (·.length)),
      p.1 ≤ a ∧ a < p.1 + p.2 := by
  induction cs generalizing off with
  | nil =>
    refine ⟨(off, c.length), mem_cons_self, hlow, ?_⟩
    simpa [totalsize] using hhigh
  | cons d cs ih =>
    rw [totalsize_cons] at hsize hhigh
    rw [cons_append, accumOffsets, map_cons, zip_cons_cons,
      Nat.mod_eq_of_lt (by omega)]
    by_cases ha : a < off + d.length
    · exact ⟨(off, d.length), mem_cons_self, hlow, ha⟩
    · obtain ⟨p, hp, hcover⟩ := ih (off + d.length) (by omega) (by omega) (by omega)
      exact ⟨p, mem_cons_of_mem _ hp, hcover⟩

def Apart (a b : ℕ × ℕ) : Prop := a.1 + a.2 ≤ b.1 ∨ b.1 + b.2 ≤ a.1

theorem pairwise_apart (off : ℕ) (hsize : off + totalsize cs < 2 ^ 32) :
    ((accumOffsets off cs).zip (cs.map (·.length))).Pairwise Apart ∧
      ∀ p ∈ (accumOffsets off cs).zip (cs.map (·.length)), off ≤ p.1 := by
  induction cs generalizing off with
  | nil => exact ⟨.nil, by simp [accumOffsets]⟩
  | cons c cs ih =>
    rw [totalsize_cons] at hsize
    rw [accumOffsets, map_cons, zip_cons_cons, Nat.mod_eq_of_lt (by omega)]
    obtain ⟨hpairwise, hlow⟩ := ih (off + c.length) (by omega)
    refine ⟨List.pairwise_cons.mpr ⟨fun p hp => .inl (hlow p hp), hpairwise⟩, fun p hp => ?_⟩
    obtain rfl | hp := List.mem_cons.mp hp
    · exact le_rfl
    · exact (Nat.le_add_right _ _).trans (hlow p hp)

/-! ### Rows that are taken -/

/-- The end of `CheckAndToValue`, which looks at what is left of the row. -/
def afterColumns (source : RawDataSource) (p : RetCode × Reading) : RetCode × Reading :=
  if p.1 = .success ∧ p.2.rest ≠ [] then
    (match source with | .sql => .tooManyColumn | .file => .success,
      { p.2 with validities := p.2.validities ++ [⟨-1, .tooManyColumn⟩] })
  else p

theorem tuple_afterColumns (source : RawDataSource) (p : RetCode × Reading) :
    (afterColumns source p).2.tuple = p.2.tuple := by
  unfold afterColumns
  by_cases h : p.1 = .success ∧ p.2.rest ≠ []
  · rw [if_pos h]
  · rw [if_neg h]

/-- `SchemaFix::CheckAndToValue`, with the offsets of the schema. -/
def checkAndToValue (cs : List Operate) (line : Text) (tuple : Memory) (sep : Text)
    (source : RawDataSource) : Run (RetCode × Reading) :=
  (encodeColumns sep source 0 (cs.zip (accumOffsets 0 cs)) ⟨line, true, tuple, []⟩).map
    (afterColumns source)

theorem checkAndToValue_eq (line : Text) (tuple : Memory) (sep : Text) (source : RawDataSource)
    (h : totalsize cs < 2 ^ 32) :
    checkAndToValue cs line tuple sep source =
      Loader.checkAndToValue cs line tuple sep source := by
  rw [checkAndToValue, encodeColumns_eq_checkColumns sep source 0 0 _ (by omega)]
  unfold Loader.checkAndToValue
  cases Loader.checkColumns sep source 0 0 cs ⟨line, true, tuple, []⟩ with
  | error e => rfl
  | ok p =>
    rw [bind_ok]
    simp only [Except.map, afterColumns]
    split <;> rfl

/-- The row is taken, and the columns are encoded to `bs`. -/
def Accepted (cs : List Operate) (sep : Text) (source : RawDataSource) (line : Text)
    (bs : List Memory) : Prop :=
  ∃ r, encodings sep source 0 cs ⟨line, true, [], []⟩ = .ok (some (bs, r)) ∧
    (source = .sql → r.rest = [])

variable {line : Text}

theorem checkAndToValue_of_accepted (h : Accepted cs sep source line bs) (tuple : Memory) :
    ∃ left : Memory → Reading, (∀ m, (left m).tuple = m) ∧
      checkAndToValue cs line tuple sep source =
        (writeAll ((accumOffsets 0 cs).zip bs) tuple).map fun m => (.success, left m) := by
  obtain ⟨r, hr, hend⟩ := h
  have hloop := encodeColumns_eq (accumOffsets 0 cs) tuple (length_accumOffsets 0 cs) hr
  refine ⟨fun m => (afterColumns source (.success, { r with tuple := m })).2, fun m => ?_, ?_⟩
  · exact tuple_afterColumns source _
  · rw [checkAndToValue, hloop]
    cases writeAll ((accumOffsets 0 cs).zip bs) tuple with
    | error e => rfl
    | ok m =>
      simp only [Except.map, afterColumns]
      split
      · cases source with
        | sql =>
          rename_i hmany
          exact absurd (hend rfl) hmany.2
        | file => rfl
      · rfl

/-! ### The columns of a tuple -/

/-- Columns lie apart, and each is read back as it was encoded. -/
structure EncodedApart (cs : List Operate) (bs : List Memory) (run : Run (RetCode × Reading)) :
    Prop where
  within : Within cs bs
  disjoint : ((accumOffsets 0 cs).zip (cs.map (·.length))).Pairwise Apart
  readBack : ∃ r, run = .ok (.success, r) ∧ ∀ p ∈ cs.zip ((accumOffsets 0 cs).zip bs),
    p.1.value (r.tuple.drop p.2.1) = p.1.value p.2.2

theorem mem_zip_of_mem_zip₃ {α β γ : Type} {as : List α} {bs : List β} {cs : List γ}
    {p : α × β × γ} (h : p ∈ as.zip (bs.zip cs)) :
    (p.1, p.2.2) ∈ as.zip cs ∧ p.2 ∈ bs.zip cs := by
  induction as generalizing bs cs with
  | nil => simp at h
  | cons a as ih =>
    cases bs with
    | nil => simp at h
    | cons b bs =>
      cases cs with
      | nil => simp at h
      | cons c cs =>
        obtain rfl | h := List.mem_cons.mp h
        · exact ⟨mem_cons_self, mem_cons_self⟩
        · obtain ⟨hac, hbc⟩ := ih h
          exact ⟨mem_cons_of_mem _ hac, mem_cons_of_mem _ hbc⟩

theorem exists_text_of_encodings (h : encodings sep source i cs r = .ok (some (bs, r'))) :
    ∀ p ∈ cs.zip bs, ∃ t, p.1.toValue t = .ok p.2 := by
  induction cs generalizing i r bs with
  | nil => simp
  | cons c cs ih =>
    obtain ⟨t, r₁, b, bs', -, hb, hrest, rfl⟩ := encodings_cons h
    exact List.forall_mem_cons.mpr ⟨⟨t, hb⟩, ih hrest⟩

theorem encodedApart_of_within (haccepted : Accepted cs sep source line bs)
    (htuple : tuple.length = totalsize cs % 2 ^ 32) (hsize : totalsize cs < 2 ^ 32)
    (hwithin : Within cs bs) : EncodedApart cs bs (checkAndToValue cs line tuple sep source) := by
  obtain ⟨left, hleft, hrun⟩ := checkAndToValue_of_accepted haccepted tuple
  rw [Nat.mod_eq_of_lt hsize] at htuple
  obtain ⟨m, hm, -, -, hprefix⟩ := writeAll_within hwithin 0 tuple (by omega) (by omega)
  refine ⟨hwithin, (pairwise_apart 0 (by omega)).1, left m, ?_, fun p hp => ?_⟩
  · rw [hrun, hm]
    rfl
  · obtain ⟨hcb, hob⟩ := mem_zip_of_mem_zip₃ hp
    obtain ⟨r, hr, -⟩ := haccepted
    obtain ⟨t, ht⟩ := exists_text_of_encodings hr _ hcb
    obtain ⟨rest, hrest⟩ := hprefix _ hob
    rw [hleft, ← hrest]
    exact p.1.value_toValue t _ ht rest

theorem length_pos_of_within (hwithin : Within cs bs) (hpos : ∀ b ∈ bs, 0 < b.length) :
    ∀ c ∈ cs, 0 < c.length := by
  induction hwithin with
  | nil => simp
  | cons hb _ ih =>
    obtain ⟨hb', hpos⟩ := List.forall_mem_cons.mp hpos
    exact List.forall_mem_cons.mpr ⟨hb'.trans_le hb, ih hpos⟩

theorem totalsize_append (pre post : List Operate) :
    totalsize (pre ++ post) = totalsize pre + totalsize post := by simp [totalsize]

theorem totalsize_singleton (c : Operate) : totalsize [c] = c.length := by simp [totalsize]

theorem not_encoded_behind_end {pre : List Operate} (hpre : totalsize pre < 2 ^ 32)
    (htuple : tuple.length ≤ totalsize pre) (hlength : bs.length = (pre ++ [c]).length)
    (hpos : ∀ b ∈ bs, 0 < b.length) :
    writeAll ((accumOffsets 0 (pre ++ [c])).zip bs) tuple ≠ .ok m := by
  intro hm
  have hoff : (accumOffsets 0 (pre ++ [c]))[pre.length]? = some (totalsize pre) := by
    rw [accumOffsets_append 0 pre [c] (by decide), Nat.zero_add, Nat.mod_eq_of_lt hpre,
      getElem?_append_right (length_accumOffsets 0 pre).le, length_accumOffsets, Nat.sub_self]
    rfl
  have hlt : pre.length < bs.length := by
    rw [hlength, length_append, length_singleton]
    exact Nat.lt_succ_self _
  have hmem := mem_of_getElem? (List.getElem?_zip_eq_some.mpr
    ⟨hoff, getElem?_eq_getElem hlt⟩ :
      _ = some (totalsize pre, bs[pre.length]))
  have hbound := bounds_of_writeAll hm _ hmem
  have hb := hpos _ (getElem_mem hlt)
  simp only at hbound
  omega

theorem totalsize_lt (haccepted : Accepted cs sep source line bs)
    (htuple : tuple.length = totalsize cs % 2 ^ 32) (hlengths : ∀ c ∈ cs, c.length < 2 ^ 32)
    (hpos : ∀ b ∈ bs, 0 < b.length)
    (h : EncodedApart cs bs (checkAndToValue cs line tuple sep source)) :
    totalsize cs < 2 ^ 32 := by
  by_contra hsize
  obtain ⟨pre, c, post, rfl, hpre, hc⟩ :=
    @exists_overflow cs (2 ^ 32) 0 (by decide) (by omega)
  rw [Nat.zero_add] at hpre hc
  have hclength := hlengths c (by simp)
  cases post with
  | nil =>
    obtain ⟨left, -, hrun⟩ := checkAndToValue_of_accepted haccepted tuple
    obtain ⟨r, hr, -⟩ := h.readBack
    obtain ⟨m, hm, -⟩ := Run.map_eq_ok (hrun.symm.trans hr)
    rw [totalsize_append, totalsize_singleton] at htuple
    refine not_encoded_behind_end hpre ?_ h.within.length_eq.symm hpos hm
    omega
  | cons d post =>
    -- the next column begins again at a small offset, where there already is a column
    have hd := length_pos_of_within h.within hpos d (by simp)
    have hagain : (0 + (totalsize pre + c.length)) % 2 ^ 32 =
        totalsize pre + c.length - 2 ^ 32 := by omega
    have hoffsets : accumOffsets 0 (pre ++ c :: d :: post) = accumOffsets 0 (pre ++ [c]) ++
        accumOffsets (totalsize pre + c.length - 2 ^ 32) (d :: post) := by
      rw [append_cons pre c (d :: post), accumOffsets_append 0 (pre ++ [c]) _ (by decide),
        totalsize_append, totalsize_singleton, hagain]
    have hdisjoint := h.disjoint
    rw [hoffsets, append_cons pre c (d :: post), map_append,
      zip_append (by rw [length_accumOffsets, length_map]),
      pairwise_append] at hdisjoint
    obtain ⟨p, hp, hlow, hhigh⟩ := exists_covering pre c 0
      (a := totalsize pre + c.length - 2 ^ 32) (by omega) (by omega) (by omega)
    have hapart := hdisjoint.2.2 p hp _ mem_cons_self
    simp only [Apart] at hapart
    omega

/-- **Columns are encoded apart** iff they fit 32 bits and strings have room for their zero. -/
theorem columns_apart_iff {cols : List Column} {tuple : Memory}
    (haccepted : Accepted (cols.map (Column.operate L)) sep source line bs)
    (htuple : tuple.length = totalsize (cols.map (Column.operate L)) % 2 ^ 32) :
    EncodedApart (cols.map (Column.operate L)) bs
        (checkAndToValue (cols.map (Column.operate L)) line tuple sep source) ↔
      totalsize (cols.map (Column.operate L)) < 2 ^ 32 ∧
        ∀ p ∈ cols.zip (pieces sep cols.length true line), HasRoom p.1 p.2 := by
  obtain ⟨r, hr, hend⟩ := haccepted
  obtain ⟨hwithin, hpos⟩ := within_iff L hr
  constructor
  · intro h
    refine ⟨totalsize_lt ⟨r, hr, hend⟩ htuple ?_ hpos h, hwithin.mp h.within⟩
    intro c hc
    obtain ⟨column, -, rfl⟩ := List.mem_map.mp hc
    exact column.type.getLength_lt
  · rintro ⟨hsize, hroom⟩
    exact encodedApart_of_within ⟨r, hr, hend⟩ htuple hsize (hwithin.mpr hroom)

/-- `CREATE TABLE t (a CHAR(3), b INT)`, with the row id in front. -/
def charThreeAndInt : List Column := [⟨.uLong, true⟩, ⟨.string 4, true⟩, ⟨.int, true⟩]

def charThreeAndIntOperate : List Operate := charThreeAndInt.map (Column.operate sampleLibrary)

theorem three_characters_apart :
    EncodedApart charThreeAndIntOperate
      [Codec.leBytes 8 1, Loader.text "abc" ++ [0], Codec.leBytes 4 5]
      (checkAndToValue charThreeAndIntOperate (Loader.text "1|abc|5|") (List.replicate 16 0) [124]
        .sql) := by
  have hpieces : charThreeAndInt.zip (pieces [124] 3 true (Loader.text "1|abc|5|")) =
      [(⟨.uLong, true⟩, some (Loader.text "1")), (⟨.string 4, true⟩, some (Loader.text "abc")),
        (⟨.int, true⟩, some (Loader.text "5"))] := by decide
  have hroom : ∀ p ∈ charThreeAndInt.zip (pieces [124] 3 true (Loader.text "1|abc|5|")),
      HasRoom p.1 p.2 := by
    simp only [hpieces, forall_mem_cons]
    exact ⟨trivial, show 3 < 4 by decide, trivial, by simp⟩
  exact (columns_apart_iff sampleLibrary ⟨_, rfl, fun _ => rfl⟩ rfl).mpr ⟨by decide, hroom⟩

/-- `CHAR(3)` has the size 4; the zero behind four characters is overwritten. -/
theorem zero_in_next_column :
    Accepted charThreeAndIntOperate [124] .sql (Loader.text "1|abcd|5|")
      [Codec.leBytes 8 1, Loader.text "abcd" ++ [0], Codec.leBytes 4 5] ∧
    (∃ r, checkAndToValue charThreeAndIntOperate (Loader.text "1|abcd|5|") (List.replicate 16 0)
        [124] .sql = .ok (.success, r) ∧
      (Column.operate sampleLibrary ⟨.string 4, true⟩).value (r.tuple.drop 8) =
        Loader.text "abcd" ++ [5]) ∧
    ¬EncodedApart charThreeAndIntOperate
      [Codec.leBytes 8 1, Loader.text "abcd" ++ [0], Codec.leBytes 4 5]
      (checkAndToValue charThreeAndIntOperate (Loader.text "1|abcd|5|") (List.replicate 16 0) [124]
        .sql) := by
  refine ⟨⟨_, rfl, fun _ => rfl⟩, ⟨_, rfl, rfl⟩, fun h => ?_⟩
  obtain ⟨-, hwithin⟩ := List.forall₂_cons.mp h.within
  exact absurd (List.forall₂_cons.mp hwithin).1 (by decide)

end Columns
