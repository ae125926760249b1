/-
The column names of a statement.

A `SemanticContext` keeps which table has which column in a multimap.
`AddTableColumn` is meant to add a pair once, but it looks for the name of the
table among the columns.
-/
import Mathlib.Tactic

namespace SemanticContext

open List

abbrev Name := String

inductive RetCode
  | success
  | columnNotExist
  | columnIsAmbiguous
  | tabelHaveNotColumn
  | tableillegal
  | columnIsAmbiguousToExistedColumn
  deriving DecidableEq, Repr

/-- `SemanticContext`; a pair of the multimap is a column with its table. -/
structure Context where
  columnToTable : List (Name × Name)
  tables : List Name
  deriving DecidableEq, Repr

inductive Call
  | addTable (table : Name)
  | addTables (tables : List Name)
  | addTableColumn (table column : Name)
  | addTableColumns (columnToTable : List (Name × Name))

def Call.pairs : Call → List (Name × Name)
  | .addTable _ | .addTables _ => []
  | .addTableColumn table column => [(column, table)]
  | .addTableColumns columnToTable => columnToTable

def Context.equalRange (ctx : Context) (column : Name) : List (Name × Name) :=
  ctx.columnToTable.filter (·.1 = column)

def Context.addTableColumn (ctx : Context) (table column : Name) : RetCode × Context :=
  if table = "NULL" then (.tableillegal, ctx)
  else
    let counts := ((ctx.equalRange table).filter (·.2 = table)).length
    if counts = 0 then
      (.success, { ctx with columnToTable := ctx.columnToTable ++ [(column, table)] })
    else (.success, ctx)

def Context.addTableColumns (ctx : Context) (columnToTable : List (Name × Name)) :
    RetCode × Context :=
  if ctx.columnToTable.any fun p => columnToTable.any fun q => p.1 = q.1 ∧ p.2 = q.2 then
    (.columnIsAmbiguousToExistedColumn, ctx)
  else (.success, { ctx with columnToTable := ctx.columnToTable ++ columnToTable })

def Context.step (ctx : Context) : Call → RetCode × Context
  | .addTable table => (.success, { ctx with tables := ctx.tables.insert table })
  | .addTables tables => (.success, { ctx with tables := ctx.tables ∪ tables })
  | .addTableColumn table column => ctx.addTableColumn table column
  | .addTableColumns columnToTable => ctx.addTableColumns columnToTable

/-- `IsColumnExist`, with the table as it is left. -/
def Context.isColumnExist (ctx : Context) (table column : Name) : RetCode × Name :=
  match ctx.equalRange column with
  | [] => (.columnNotExist, table)
  | [it] =>
    if table = "NULL" then (.success, it.2)
    else if it.2 = table then (.success, table)
    else (.columnNotExist, table)
  | range =>
    if table = "NULL" then (.columnIsAmbiguous, table)
    else if range.any (·.2 = table) then (.success, table)
    else (.tabelHaveNotColumn, table)

/-- A call, beside it the pairs that the calls with success were to add. -/
def perform (s : Context × List (Name × Name)) (call : Call) : Context × List (Name × Name) :=
  ((s.1.step call).2, s.2 ++ if (s.1.step call).1 = .success then call.pairs else [])

def after (calls : List Call) : Context × List (Name × Name) := calls.foldl perform (⟨[], []⟩, [])

/-- The map has every pair once and no other. -/
def Exact (map pairs : List (Name × Name)) : Prop := map.Nodup ∧ ∀ p, p ∈ map ↔ p ∈ pairs

/-- The call adds its pairs, once, to the pairs that there are. -/
def Proper (pairs : List (Name × Name)) : Call → Prop
  | .addTable _ | .addTables _ => True
  | .addTableColumn table column =>
    table = "NULL" ∨ ((table, table) ∈ pairs ↔ (column, table) ∈ pairs)
  | .addTableColumns columnToTable => columnToTable.Nodup ∨ ∃ p ∈ columnToTable, p ∈ pairs

variable {ctx : Context} {map pairs : List (Name × Name)}

theorem exact_append (h : Exact map pairs) (new : List (Name × Name)) :
    Exact (map ++ new) (pairs ++ new) ↔ new.Nodup ∧ ∀ p ∈ new, p ∉ pairs := by
  have hmem : ∀ p, p ∈ map ++ new ↔ p ∈ pairs ++ new := by
    intro p
    rw [mem_append, mem_append, h.2]
  rw [Exact, nodup_append, and_iff_left hmem, and_iff_right h.1]
  refine and_congr_right fun _ => ⟨fun hne p hp hold => ?_, fun hnew p hp q hq heq => ?_⟩
  · exact hne p ((h.2 p).2 hold) p hp rfl
  · exact hnew q hq ((h.2 q).1 (heq ▸ hp))

theorem exact_same (h : Exact map pairs) (new : List (Name × Name)) :
    Exact map (pairs ++ new) ↔ ∀ p ∈ new, p ∈ pairs := by
  rw [Exact, and_iff_right h.1]
  refine forall_congr' fun p => ?_
  rw [h.2, mem_append, iff_self_or]

theorem counts_eq_zero (ctx : Context) (table : Name) :
    ((ctx.equalRange table).filter (·.2 = table)).length = 0 ↔
      (table, table) ∉ ctx.columnToTable := by
  rw [length_eq_zero_iff, Context.equalRange, filter_filter, filter_eq_nil_iff]
  constructor
  · intro h hmem
    exact h _ hmem (by simp)
  · rintro h ⟨c, t⟩ hp heq
    obtain ⟨rfl, rfl⟩ : t = table ∧ c = table := by simpa using heq
    exact h hp

/-- **One call** keeps the map exact iff it is proper. -/
theorem exact_perform_iff (h : Exact ctx.columnToTable pairs) (call : Call) :
    Exact (perform (ctx, pairs) call).1.columnToTable (perform (ctx, pairs) call).2 ↔
      Proper pairs call := by
  have hsame := (exact_same h []).2 (by simp)
  cases call with
  | addTable table | addTables tables => exact iff_of_true hsame trivial
  | addTableColumn table column =>
    simp only [perform, Context.step, Context.addTableColumn, Proper, Call.pairs]
    by_cases hnull : table = "NULL"
    · rw [if_pos hnull]
      exact iff_of_true hsame (.inl hnull)
    · rw [if_neg hnull, or_iff_right hnull]
      by_cases htable : (table, table) ∈ pairs
      · rw [if_neg (by rwa [counts_eq_zero, h.2, not_not]), if_pos rfl, exact_same h]
        simp [htable]
      · rw [if_pos (by rwa [counts_eq_zero, h.2]), if_pos rfl, exact_append h]
        simp [htable]
  | addTableColumns columnToTable =>
    simp only [perform, Context.step, Context.addTableColumns, Proper, Call.pairs]
    have hany : (ctx.columnToTable.any fun p => columnToTable.any fun q => p.1 = q.1 ∧ p.2 = q.2) =
        true ↔ ∃ p ∈ columnToTable, p ∈ pairs := by
      simp only [any_eq_true, decide_eq_true_eq, ← Prod.ext_iff, h.2]
      constructor
      · rintro ⟨p, hp, q, hq, rfl⟩
        exact ⟨p, hq, hp⟩
      · rintro ⟨p, hp, hmem⟩
        exact ⟨p, hmem, p, hp, rfl⟩
    by_cases hold : ∃ p ∈ columnToTable, p ∈ pairs
    · rw [if_pos (hany.2 hold)]
      exact iff_of_true hsame (.inr hold)
    · rw [if_neg (mt hany.1 hold), if_pos rfl, exact_append h, or_iff_left hold]
      exact and_iff_left fun p hp hmem => hold ⟨p, hp, hmem⟩

/-- **A column name** is found iff it denotes one pair. -/
theorem isColumnExist_iff (h : Exact ctx.columnToTable pairs) (table column : Name) :
    ((ctx.isColumnExist table column).1 = .success ↔
        if table = "NULL" then ∃! t, (column, t) ∈ pairs else (column, table) ∈ pairs) ∧
      ((ctx.isColumnExist table column).1 = .success →
        (column, (ctx.isColumnExist table column).2) ∈ pairs) := by
  have hrange : ∀ t, (column, t) ∈ pairs ↔ (column, t) ∈ ctx.equalRange column := by
    intro t
    rw [← h.2, Context.equalRange, mem_filter, and_iff_left (by simp)]
  have hcolumn : ∀ p ∈ ctx.equalRange column, p.1 = column := by
    intro p hp
    simpa using (mem_filter.1 hp).2
  have hnodup : (ctx.equalRange column).Nodup := h.1.filter _
  simp only [hrange, Context.isColumnExist]
  split
  · rename_i hnil
    simp [hnil]
  · rename_i it hone
    obtain ⟨c, t⟩ := it
    obtain rfl : c = column := hcolumn (c, t) (by simp [hone])
    rw [hone]
    by_cases hnull : table = "NULL"
    · simp [hnull]
    · by_cases ht : t = table
      · simp [hnull, ht]
      · simp [hnull, ht, Ne.symm ht]
  · rename_i hmany hsome
    by_cases hnull : table = "NULL"
    · rw [if_pos hnull, if_pos hnull]
      refine ⟨iff_of_false nofun ?_, nofun⟩
      -- two pairs of the range have different tables
      obtain ⟨p, q, rest, hpq⟩ : ∃ p q rest, ctx.equalRange column = p :: q :: rest := by
        match hr : ctx.equalRange column with
        | [] => exact absurd hr hmany
        | [p] => exact absurd hr (hsome p)
        | p :: q :: rest => exact ⟨p, q, rest, rfl⟩
      rw [hpq] at hcolumn hnodup ⊢
      obtain ⟨hp, hq, -⟩ : p.1 = column ∧ q.1 = column ∧ _ := by simpa using hcolumn
      rintro ⟨t, -, hunique⟩
      have heq : p.2 = q.2 := (hunique p.2 (by simp [← hp])).trans
        (hunique q.2 (by simp [← hq])).symm
      exact (nodup_cons.1 hnodup).1 (by simp [Prod.ext_iff, hp, hq, heq])
    · rw [if_neg hnull, if_neg hnull]
      have hany : ((ctx.equalRange column).any (·.2 = table)) = true ↔
          (column, table) ∈ ctx.equalRange column := by
        rw [any_eq_true]
        constructor
        · rintro ⟨⟨c, t⟩, hp, ht⟩
          obtain rfl : c = column := hcolumn _ hp
          obtain rfl : t = table := by simpa using ht
          exact hp
        · exact fun hp => ⟨_, hp, by simp⟩
      split_ifs with hfound
      · exact ⟨iff_of_true rfl (hany.1 hfound), fun _ => hany.1 hfound⟩
      · exact ⟨iff_of_false nofun (mt hany.2 hfound), nofun⟩

theorem after_concat (calls : List Call) (call : Call) :
    after (calls ++ [call]) = perform (after calls) call := foldl_concat ..

/-- **The map is exact after every call** iff every call is proper, and then a column name is
found iff it denotes one pair. -/
theorem column_names_exact_iff (calls : List Call) :
    ((∀ before, before <+: calls → Exact (after before).1.columnToTable (after before).2) ↔
      ∀ before call, before ++ [call] <+: calls → Proper (after before).2 call) ∧
    (Exact (after calls).1.columnToTable (after calls).2 → ∀ table column,
      (((after calls).1.isColumnExist table column).1 = .success ↔
        if table = "NULL" then ∃! t, (column, t) ∈ (after calls).2
        else (column, table) ∈ (after calls).2) ∧
      (((after calls).1.isColumnExist table column).1 = .success →
        (column, ((after calls).1.isColumnExist table column).2) ∈ (after calls).2)) := by
  refine ⟨⟨fun hexact before call hpre => ?_, fun hproper before hpre => ?_⟩, isColumnExist_iff⟩
  · have hcall := hexact _ hpre
    rw [after_concat] at hcall
    exact (exact_perform_iff (hexact before ((prefix_append _ _).trans hpre)) call).1 hcall
  · induction before using reverseRecOn with
    | nil => exact ⟨nodup_nil, fun p => Iff.rfl⟩
    | append_singleton before call ih =>
      rw [after_concat]
      have hbefore := ih ((prefix_append _ _).trans hpre)
      exact (exact_perform_iff hbefore call).2 (hproper before call hpre)

/-- A column that is added twice is ambiguous, although one table has it. -/
theorem column_added_twice :
    (after [.addTableColumn "t" "a", .addTableColumn "t" "a"]).1 =
        ⟨[("a", "t"), ("a", "t")], []⟩ ∧
      (after [.addTableColumn "t" "a", .addTableColumn "t" "a"]).1.isColumnExist "NULL" "a" =
        (.columnIsAmbiguous, "NULL") := by decide

end SemanticContext
