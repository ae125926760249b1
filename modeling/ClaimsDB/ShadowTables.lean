/-
Shadow tables.

Every `CREATE TABLE T` makes a second table, `T_DEL`, which belongs to `T` by its name only.
Statements run one after the other; where a null pointer would be followed or an assertion fails
there is no result.
-/
import ClaimsDB.CatalogStatements

namespace TableCatalog

open List Option

/-! ### Files -/

/-- The file of a partition, `T..G..P..`. -/
structure File where
  tableId : ℕ
  projection : ℕ
  part : ℕ
  deriving DecidableEq

def TableDescriptor.files (t : TableDescriptor) : List File :=
  t.projections.zipIdx.flatMap fun (parts, i) =>
    (List.range parts.length).map fun j => ⟨t.tableId, i, j⟩

theorem tableId_of_mem_files {t : TableDescriptor} {f : File} (h : f ∈ t.files) :
    f.tableId = t.tableId := by
  obtain ⟨⟨parts, i⟩, -, hf⟩ := List.mem_flatMap.mp h
  obtain ⟨j, -, rfl⟩ := List.mem_map.mp hf
  rfl

/-- The catalogue, the files, and the addresses of the two tables of each `CREATE TABLE` that has
reported success. -/
structure World where
  catalog : Catalog
  files : List File
  made : List (ℕ × ℕ)

def World.new : World := ⟨Catalog.new, [], []⟩

/-! ### `CREATE TABLE` -/

def CreateTable.accepted (stmt : CreateTable) (c : Catalog) : Bool :=
  !(stmt.additionalName ≠ [] ∧ stmt.tableName ≠ []) && (c.getTable stmt.tableName).isNone

def shadowColumns : List Name := [rowId, rowId ++ delSuffix]

def CreateTable.describe (stmt : CreateTable) (c : Catalog) : Catalog :=
  (c.newTable stmt.name (rowId :: stmt.columns)).newTable (stmt.name ++ delSuffix) shadowColumns

def CreateTable.base (stmt : CreateTable) (c : Catalog) : TableDescriptor :=
  .new stmt.name c.tableIdCursor (rowId :: stmt.columns)

def CreateTable.del (stmt : CreateTable) (c : Catalog) : TableDescriptor :=
  .new (stmt.name ++ delSuffix) (c.newTable stmt.name (rowId :: stmt.columns)).tableIdCursor
    shadowColumns

def World.createTable (w : World) (stmt : CreateTable) : Bool × World :=
  if stmt.accepted w.catalog then
    let l := w.catalog.heap.length
    let c := stmt.describe w.catalog
    if stmt.supported then
      -- what `add_table` returns is not looked at
      let c₁ := (c.addTable l (stmt.base w.catalog)).2
      let c₂ := (c₁.addTable (l + 1) (stmt.del w.catalog)).2
      (true, { w with catalog := c₂, made := w.made ++ [(l, l + 1)] })
    else (false, { w with catalog := c })
  else (false, w)

theorem CreateTable.describe_heap (stmt : CreateTable) (c : Catalog) :
    (stmt.describe c).heap = c.heap ++ [stmt.base c, stmt.del c] := by
  simp [CreateTable.describe, Catalog.newTable, CreateTable.base, CreateTable.del]

/-! ### `CREATE PROJECTION` -/

/-- What the statement says, and whether the two tables are locked by a load or an insert. -/
structure CreateProjection where
  tableName : Name
  columns : List Name
  partitionAttribute : Name
  partitionNum : ℕ
  locked : Bool
  delLocked : Bool

def TableDescriptor.full (t : TableDescriptor) (column : Name) : Name :=
  t.tableName ++ '.' :: column

def TableDescriptor.addProjection (t : TableDescriptor) (n : ℕ) : TableDescriptor :=
  { t with projections := t.projections ++ [List.replicate n ⟨0, none⟩] }

/-- `addAttribute` with an attribute, which does not look for its name. -/
def TableDescriptor.pushAttribute (t : TableDescriptor) (full : Name) : TableDescriptor :=
  { t with attributes := t.attributes ++ [full] }

namespace Catalog

def modify (c : Catalog) (l : ℕ) (f : TableDescriptor → TableDescriptor) : Catalog :=
  { c with heap := c.heap.modify l f }

/-- `CreateTableProjection`, for columns that are given by their offsets. -/
def createTableProjection (c : Catalog) (name : Name) (columns : List ℕ) (partitionAttribute : Name)
    (n : ℕ) (locked : Bool) : Option (Bool × Catalog) :=
  match c.getTable name with
  | none => some (false, c)
  | some l =>
    c.heap[l]?.bind fun t => (c.getTableById t.tableId).bind fun l' => c.heap[l']?.bind fun t' =>
      -- the assertion of `getAttribute`
      if t'.full partitionAttribute ∉ t'.attributes then none
      else if locked then some (false, c)
      else if columns.any fun i => t'.attributes.length ≤ i then none
      else some (true, c.modify l' fun t => t.addProjection n)

/-- The second half of `CreateProjectionExec::Execute`, for the shadow table. -/
def createDelProjection (c : Catalog) (p : CreateProjection) : Option Catalog :=
  let del := p.tableName ++ delSuffix
  if p.partitionAttribute = rowId then
    (c.createTableProjection del [0, 1] (rowId ++ delSuffix) p.partitionNum p.delLocked).map (·.2)
  else
    (c.getTable del).bind fun l => c.heap[l]?.bind fun t =>
      -- `AddPartitionAttributeToDel`
      let full := del ++ '.' :: p.partitionAttribute
      let c₁ := c.modify l fun t => t.pushAttribute full
      let offset := (t.pushAttribute full).attributes.idxOf full
      (c₁.createTableProjection del [0, 1, offset] p.partitionAttribute p.partitionNum
        p.delLocked).map (·.2)

def createProjection (c : Catalog) (p : CreateProjection) : Option (Bool × Catalog) :=
  match c.getTable p.tableName with
  | none => some (false, c)
  | some l =>
    c.heap[l]?.bind fun t =>
      if p.columns.all fun column => t.full column ∈ t.attributes then
        let offsets := p.columns.map fun column => t.attributes.idxOf (t.full column)
        (c.createTableProjection p.tableName (0 :: offsets) p.partitionAttribute p.partitionNum
          p.locked).bind fun r =>
            if r.1 then (r.2.createDelProjection p).map fun c => (true, c) else some r
      else some (false, c)

end Catalog

def World.createProjection (w : World) (p : CreateProjection) : Option (Bool × World) :=
  (w.catalog.createProjection p).map fun r => (r.1, { w with catalog := r.2 })

/-! ### `DROP TABLE` -/

/-- Which files can be deleted, and whether a missing `return` is read as success. -/
structure DropAnswer where
  deletes : File → Bool
  ret : Bool

def World.deleteTableFiles (w : World) (deletes : File → Bool) (t : TableDescriptor) :
    Bool × World :=
  (t.files.all deletes,
    { w with files := w.files.filter fun f => !(decide (f ∈ t.files) && deletes f) })

def World.find (w : World) (name : Name) : Option TableDescriptor :=
  (w.catalog.getTable name).bind fun l => w.catalog.heap[l]?

def World.dropCall (w : World) (answer : DropAnswer) (name : Name) : Option (Bool × World) :=
  if name = [] then some (false, w)
  else (w.find name).map fun t =>
    let r := w.deleteTableFiles answer.deletes t
    if r.1 then
      (answer.ret, { r.2 with catalog := (w.catalog.dropTable name t.tableId).2 })
    else (false, r.2)

/-- What `Execute` does for one table of the list. -/
def World.dropOne (w : World) (answers : DropCall → DropAnswer) (name : Name) :
    Option (Bool × World) :=
  if w.catalog.checkBaseTbl name then
    (w.dropCall (answers .delTable) (name ++ delSuffix)).bind fun r =>
      if r.1 then r.2.dropCall (answers .baseTable) name
      else (r.2.dropCall (answers .delTableAgain) (name ++ delSuffix)).bind fun r =>
        (r.2.dropCall (answers .baseTableAgain) name).map fun r => (false, r.2)
  else (w.find name).map fun t => w.deleteTableFiles (answers .baseTable).deletes t

def World.dropList : World → List (Name × (DropCall → DropAnswer)) → Option (Bool × World)
  | w, [] => some (true, w)
  | w, (name, answers) :: rest =>
    if name = [] then w.dropList rest
    else (w.dropOne answers name).bind fun r => if r.1 then r.2.dropList rest else some r

def World.dropTable (w : World) (tables : List (Name × (DropCall → DropAnswer))) :
    Option (Bool × World) :=
  if tables = [] ∨ tables.any fun t => t.1 = [] ∨ (w.catalog.getTable t.1).isNone then
    some (false, w)
  else w.dropList tables

/-! ### Descriptors that grow -/

/-- The catalogue `c'` has the tables of `c`, whose descriptors may have got attributes and
projections. -/
structure Catalog.Grows (c c' : Catalog) : Prop where
  cursor : c'.tableIdCursor = c.tableIdCursor
  names : c'.nameToTable = c.nameToTable
  ids : c'.tableidToTable = c.tableidToTable
  heap : ∀ l : ℕ, Option.Rel (fun t t' : TableDescriptor => t'.tableName = t.tableName ∧
    t'.tableId = t.tableId ∧ t.attributes <+: t'.attributes) c.heap[l]? c'.heap[l]?

namespace Catalog

variable {c c' c'' : Catalog}

theorem Grows.refl (c : Catalog) : c.Grows c where
  cursor := rfl
  names := rfl
  ids := rfl
  heap l := by
    cases c.heap[l]? with
    | none => exact .none
    | some t => exact .some ⟨rfl, rfl, prefix_rfl⟩

variable {l : ℕ} {r : Bool × Catalog} {p : CreateProjection}

theorem Grows.of_some (h : c.Grows c') {t' : TableDescriptor} (ht' : c'.heap[l]? = some t') :
    ∃ t, c.heap[l]? = some t ∧ t'.tableName = t.tableName ∧ t'.tableId = t.tableId ∧
      t.attributes <+: t'.attributes := by
  have hrel := h.heap l
  rw [ht'] at hrel
  cases hc : c.heap[l]? with
  | none =>
    rw [hc] at hrel
    cases hrel
  | some t =>
    rw [hc] at hrel
    cases hrel with
    | some hrel => exact ⟨t, rfl, hrel⟩

theorem Grows.some (h : c.Grows c') {t : TableDescriptor} (ht : c.heap[l]? = some t) :
    ∃ t', c'.heap[l]? = some t' ∧ t'.tableName = t.tableName ∧ t'.tableId = t.tableId ∧
      t.attributes <+: t'.attributes := by
  have hrel := h.heap l
  rw [ht] at hrel
  cases hc : c'.heap[l]? with
  | none =>
    rw [hc] at hrel
    cases hrel
  | some t' =>
    rw [hc] at hrel
    cases hrel with
    | some hrel => exact ⟨t', rfl, hrel⟩

theorem Grows.trans (h : c.Grows c') (h' : c'.Grows c'') : c.Grows c'' where
  cursor := h'.cursor.trans h.cursor
  names := h'.names.trans h.names
  ids := h'.ids.trans h.ids
  heap l := by
    cases hc : c.heap[l]? with
    | none =>
      cases hc'' : c''.heap[l]? with
      | none => exact .none
      | some t'' =>
        obtain ⟨t', ht', -⟩ := h'.of_some hc''
        obtain ⟨t, ht, -⟩ := h.of_some ht'
        rw [hc] at ht
        cases ht
    | some t =>
      obtain ⟨t', ht', hn, hi, ha⟩ := h.some hc
      obtain ⟨t'', ht'', hn', hi', ha'⟩ := h'.some ht'
      rw [ht'']
      exact .some ⟨hn'.trans hn, hi'.trans hi, ha.trans ha'⟩

theorem grows_modify (c : Catalog) (l : ℕ) (f : TableDescriptor → TableDescriptor)
    (hf : ∀ t, (f t).tableName = t.tableName ∧ (f t).tableId = t.tableId ∧
      t.attributes <+: (f t).attributes) : c.Grows (c.modify l f) where
  cursor := rfl
  names := rfl
  ids := rfl
  heap j := by
    simp only [modify, getElem?_modify]
    cases c.heap[j]? with
    | none => exact .none
    | some t =>
      refine .some ?_
      split
      · exact hf t
      · exact ⟨rfl, rfl, prefix_rfl⟩

theorem Grows.sound (h : c.Grows c') (hs : c.Sound) : c'.Sound where
  consistent := by
    have hold : ∀ {l : ℕ} {t : TableDescriptor}, c.Holds l t →
        ∃ t', t'.tableName = t.tableName ∧ t'.tableId = t.tableId ∧ c'.Holds l t' := by
      intro l t ht
      obtain ⟨t', ht', hn, hi, -⟩ := h.some ht.desc
      refine ⟨t', hn, hi, ht', ?_, ?_⟩
      · rw [h.names, hn, ht.byName]
      · rw [h.ids, hi, ht.byId]
    constructor
    · intro n p hp
      rw [h.names] at hp
      obtain ⟨l, t, hl, hn, ht⟩ := hs.consistent.named n p hp
      obtain ⟨t', hn', -, ht'⟩ := hold ht
      exact ⟨l, t', hl, hn'.trans hn, ht'⟩
    · intro i p hp
      rw [h.ids] at hp
      obtain ⟨l, t, hl, hi, ht⟩ := hs.consistent.identified i p hp
      obtain ⟨t', -, hi', ht'⟩ := hold ht
      exact ⟨l, t', hl, hi'.trans hi, ht'⟩
    · intro i p hp
      rw [h.ids] at hp
      rw [h.cursor]
      exact hs.consistent.below i p hp
  cursor := by
    rw [h.cursor]
    exact hs.cursor
  below l t' ht' := by
    obtain ⟨t, ht, -, hi, -⟩ := h.of_some ht'
    rw [h.cursor, hi]
    exact hs.below l t ht
  distinct l₁ l₂ t₁' t₂' ht₁' ht₂' hid := by
    obtain ⟨t₁, ht₁, -, hi₁, -⟩ := h.of_some ht₁'
    obtain ⟨t₂, ht₂, -, hi₂, -⟩ := h.of_some ht₂'
    exact hs.distinct l₁ l₂ t₁ t₂ ht₁ ht₂ (by rw [← hi₁, ← hi₂, hid])

theorem createTableProjection_grows {name : Name} {columns : List ℕ} {attr : Name} {n : ℕ}
    {locked : Bool} (h : c.createTableProjection name columns attr n locked = some r) :
    c.Grows r.2 := by
  unfold createTableProjection at h
  split at h
  · cases h
    exact .refl c
  · obtain ⟨t, -, h⟩ := bind_eq_some_iff.mp h
    obtain ⟨l', -, h⟩ := bind_eq_some_iff.mp h
    obtain ⟨t', -, h⟩ := bind_eq_some_iff.mp h
    split at h
    · cases h
    · split at h
      · cases h
        exact .refl c
      · split at h
        · cases h
        · cases h
          exact grows_modify c l' _ fun t => ⟨rfl, rfl, prefix_rfl⟩

theorem createDelProjection_grows (h : c.createDelProjection p = some c') : c.Grows c' := by
  simp only [createDelProjection] at h
  split at h
  · obtain ⟨r, hr, rfl⟩ := map_eq_some_iff.mp h
    exact createTableProjection_grows hr
  · obtain ⟨l, -, h⟩ := bind_eq_some_iff.mp h
    obtain ⟨t, -, h⟩ := bind_eq_some_iff.mp h
    obtain ⟨r, hr, rfl⟩ := map_eq_some_iff.mp h
    refine Grows.trans ?_ (createTableProjection_grows hr)
    exact grows_modify c l _ fun t => ⟨rfl, rfl, prefix_append _ _⟩

theorem createProjection_grows (h : c.createProjection p = some r) : c.Grows r.2 := by
  unfold createProjection at h
  split at h
  · cases h
    exact .refl c
  · obtain ⟨t, -, h⟩ := bind_eq_some_iff.mp h
    split at h
    · obtain ⟨r₁, hr₁, h⟩ := bind_eq_some_iff.mp h
      have hbase := createTableProjection_grows hr₁
      split at h
      · obtain ⟨c', hc', rfl⟩ := map_eq_some_iff.mp h
        exact hbase.trans (createDelProjection_grows hc')
      · cases h
        exact hbase
    · cases h
      exact .refl c

end Catalog

/-! ### Pairs of tables -/

/-- The tables in the catalogue come in pairs, as `CREATE TABLE` statements have made them. -/
structure Owned (w : World) : Prop where
  sound : w.catalog.Sound
  pairs : ∀ b d, (b, d) ∈ w.made → ∃ t td, w.catalog.heap[b]? = some t ∧
    w.catalog.heap[d]? = some td ∧ t.tableName ≠ [] ∧ td.tableName = t.tableName ++ delSuffix ∧
    shadowColumns.map td.full <+: td.attributes
  apart : ∀ b d b' d', (b, d) ∈ w.made → (b', d') ∈ w.made →
    b ≠ d' ∧ (b = b' → d = d') ∧ (d = d' → b = b')
  together : ∀ b d, (b, d) ∈ w.made → (w.catalog.Has b ↔ w.catalog.Has d)
  known : ∀ l, w.catalog.Has l → ∃ b d, (b, d) ∈ w.made ∧ (l = b ∨ l = d)

theorem new_owned : Owned World.new where
  sound := Catalog.new_sound
  pairs _ _ h := by cases h
  apart _ _ _ _ h := by cases h
  together _ _ h := by cases h
  known l h := by
    obtain ⟨n, hn⟩ := h
    cases hn

section

variable {w w' : World}

theorem Owned.grows (h : Owned w) (hg : w.catalog.Grows w'.catalog) (hm : w'.made = w.made) :
    Owned w' where
  sound := hg.sound h.sound
  pairs b d hmem := by
    rw [hm] at hmem
    obtain ⟨t, td, ht, htd, hne, hname, hcols⟩ := h.pairs b d hmem
    obtain ⟨t', ht', hn', -, -⟩ := hg.some ht
    obtain ⟨td', htd', hnd', -, ha'⟩ := hg.some htd
    refine ⟨t', td', ht', htd', by rwa [hn'], by rw [hn', hnd', hname], ?_⟩
    have hfull : td'.full = td.full := by
      funext column
      rw [TableDescriptor.full, TableDescriptor.full, hnd']
    rw [hfull]
    exact hcols.trans ha'
  apart := by
    rw [hm]
    exact h.apart
  together := by
    simp only [hm, Catalog.Has, hg.names]
    exact h.together
  known := by
    simp only [hm, Catalog.Has, hg.names]
    exact h.known

theorem shadowColumns_new (name : Name) (id : ℕ) :
    shadowColumns.map (TableDescriptor.new name id shadowColumns).full =
      (TableDescriptor.new name id shadowColumns).attributes := by
  have hne : name ++ '.' :: (rowId ++ delSuffix) ≠ name ++ '.' :: rowId := by
    intro heq
    have hlen := congrArg List.length heq
    simp [rowId, delSuffix] at hlen
  have hfull : (TableDescriptor.new name id shadowColumns).full = fun c => name ++ '.' :: c := by
    funext c
    rw [TableDescriptor.full, new_tableName]
  rw [hfull]
  simp [TableDescriptor.new, shadowColumns, TableDescriptor.addAttribute, hne]

theorem ne_append_delSuffix (name : Name) : name ++ delSuffix ≠ name := by
  intro heq
  have hlen := congrArg List.length heq
  simp [delSuffix] at hlen

variable {c : Catalog} {b d : ℕ} {answer : DropAnswer} {name : Name} {r : Bool × World}
  {answers : DropCall → DropAnswer} {l : ℕ} {t td : TableDescriptor}

theorem CreateTable.adds (stmt : CreateTable) (h : c.Sound) (hroom : c.tableIdCursor + 2 < 2 ^ 32)
    (hn : c.nameToTable stmt.name = none) (hd : c.nameToTable (stmt.name ++ delSuffix) = none) :
    ∃ c₂, (((stmt.describe c).addTable c.heap.length (stmt.base c)).2.addTable (c.heap.length + 1)
        (stmt.del c)).2 = c₂ ∧ c₂.Sound ∧ c₂.heap = c.heap ++ [stmt.base c, stmt.del c] ∧
      ∀ l, c₂.Has l ↔ l = c.heap.length + 1 ∨ l = c.heap.length ∨ c.Has l := by
  have hcursor := Catalog.newTable_cursor (show c.tableIdCursor + 1 < 2 ^ 32 by omega) stmt.name
    (rowId :: stmt.columns)
  have hs₁ : (c.newTable stmt.name (rowId :: stmt.columns)).Sound := h.newTable (by omega) _ _
  have hs₂ : (stmt.describe c).Sound := hs₁.newTable (by rw [hcursor]; omega) _ _
  have hheap := stmt.describe_heap c
  -- both descriptors are new
  have hbase : (stmt.describe c).heap[c.heap.length]? = some (stmt.base c) := by simp [hheap]
  have hdel : (stmt.describe c).heap[c.heap.length + 1]? = some (stmt.del c) := by simp [hheap]
  have hu : (stmt.describe c).Unused c.heap.length := (h.unused_newTable _ _).newTable _ _
  have hu' : (stmt.describe c).Unused (c.heap.length + 1) := by
    have hnew := hs₁.unused_newTable (stmt.name ++ delSuffix) shadowColumns
    simpa [Catalog.newTable, CreateTable.describe] using hnew
  have hnb : (stmt.describe c).nameToTable (stmt.base c).tableName = none := by
    rw [CreateTable.base, new_tableName]
    exact hn
  obtain ⟨-, hs₃, -, hrest⟩ := hs₂.addTable hbase hnb hu
  have hu₃ := hrest (c.heap.length + 1) (by omega) hu'
  obtain ⟨tb, htb, hib⟩ := hu
  obtain rfl : tb = stmt.base c := mem_unique htb hbase
  have heq := Catalog.addTable_eq (l := c.heap.length) hnb hib
  have hdel₃ : ((stmt.describe c).addTable c.heap.length (stmt.base c)).2.heap[c.heap.length + 1]? =
      some (stmt.del c) := by
    rw [heq]
    exact hdel
  have hnd : ((stmt.describe c).addTable c.heap.length (stmt.base c)).2.nameToTable
      (stmt.del c).tableName = none := by
    rw [heq, CreateTable.del, new_tableName, CreateTable.base, new_tableName]
    exact (Function.update_of_ne (ne_append_delSuffix _) _ _).trans hd
  obtain ⟨-, hs₄, -, -⟩ := hs₃.addTable hdel₃ hnd hu₃
  obtain ⟨td, htd, hid⟩ := hu₃
  obtain rfl : td = stmt.del c := mem_unique htd hdel₃
  refine ⟨_, rfl, hs₄, ?_, fun l => ?_⟩
  · rw [Catalog.addTable_eq hnd hid, heq]
    exact hheap
  · rw [Catalog.has_addTable hnd hid, Catalog.has_addTable hnb hib]
    rfl

def World.roomFor (w : World) (stmt : CreateTable) : Bool :=
  !stmt.accepted w.catalog ||
    decide (w.catalog.tableIdCursor + 2 < 2 ^ 32) && (!stmt.supported || decide (stmt.name ≠ []) &&
      (w.catalog.nameToTable stmt.name).isNone &&
      (w.catalog.nameToTable (stmt.name ++ delSuffix)).isNone)

theorem Owned.lt_length (h : Owned w) (hmem : (b, d) ∈ w.made) :
    b < w.catalog.heap.length ∧ d < w.catalog.heap.length := by
  obtain ⟨t, td, ht, htd, -⟩ := h.pairs b d hmem
  exact ⟨(List.getElem?_eq_some_iff.mp ht).1, (List.getElem?_eq_some_iff.mp htd).1⟩

theorem Owned.pairs_append (h : Owned w) (hmem : (b, d) ∈ w.made) (ts : List TableDescriptor) :
    ∃ t td, (w.catalog.heap ++ ts)[b]? = some t ∧
      (w.catalog.heap ++ ts)[d]? = some td ∧ t.tableName ≠ [] ∧
      td.tableName = t.tableName ++ delSuffix ∧ shadowColumns.map td.full <+: td.attributes := by
  obtain ⟨t, td, ht, htd, hrest⟩ := h.pairs b d hmem
  obtain ⟨hb, hd⟩ := h.lt_length hmem
  exact ⟨t, td, by rwa [getElem?_append_left hb], by rwa [getElem?_append_left hd], hrest⟩

theorem createTable_owned (h : Owned w) {stmt : CreateTable} (hroom : w.roomFor stmt = true) :
    Owned (w.createTable stmt).2 := by
  unfold World.createTable
  split
  · rename_i hacc
    simp only [World.roomFor, hacc, Bool.not_true, Bool.false_or, Bool.and_eq_true,
      decide_eq_true_eq] at hroom
    obtain ⟨hids, hnames⟩ := hroom
    dsimp only
    split
    · rename_i hsup
      simp only [hsup, Bool.not_true, Bool.false_or, Bool.and_eq_true, decide_eq_true_eq,
        isNone_iff_eq_none] at hnames
      obtain ⟨⟨hne, hn⟩, hd⟩ := hnames
      obtain ⟨c₂, hc₂, hsound, hheap, hhas⟩ := stmt.adds h.sound hids hn hd
      rw [hc₂]
      have hlast : ∀ b d, (b, d) ∈ w.made ++ [(w.catalog.heap.length, w.catalog.heap.length + 1)] →
          (b, d) ∈ w.made ∨ b = w.catalog.heap.length ∧ d = w.catalog.heap.length + 1 := by
        intro b d hmem
        simpa using hmem
      refine ⟨hsound, fun b d hmem => ?_, fun b d b' d' hmem hmem' => ?_, fun b d hmem => ?_,
        fun l hl => ?_⟩
      · rw [hheap]
        rcases hlast b d hmem with hold | ⟨rfl, rfl⟩
        · exact h.pairs_append hold _
        · refine ⟨stmt.base w.catalog, stmt.del w.catalog, by simp, by simp, ?_, ?_, ?_⟩
          · rwa [CreateTable.base, new_tableName]
          · rw [CreateTable.base, CreateTable.del, new_tableName, new_tableName]
          · rw [CreateTable.del, shadowColumns_new]
      · -- the new addresses are above those of the older pairs
        rcases hlast b d hmem with hold | ⟨rfl, rfl⟩ <;>
          rcases hlast b' d' hmem' with hold' | ⟨rfl, rfl⟩
        · exact h.apart b d b' d' hold hold'
        · have := h.lt_length hold
          omega
        · have := h.lt_length hold'
          omega
        · omega
      · rw [hhas, hhas]
        rcases hlast b d hmem with hold | ⟨rfl, rfl⟩
        · have hlt := h.lt_length hold
          have htog := h.together b d hold
          constructor
          · rintro (hb | hb | hb)
            · omega
            · omega
            · exact .inr (.inr (htog.mp hb))
          · rintro (hd' | hd' | hd')
            · omega
            · omega
            · exact .inr (.inr (htog.mpr hd'))
        · exact iff_of_true (.inr (.inl rfl)) (.inl rfl)
      · rcases (hhas l).mp hl with hl | hl | hl
        · exact ⟨_, _, mem_append_right _ mem_cons_self, .inr hl⟩
        · exact ⟨_, _, mem_append_right _ mem_cons_self, .inl hl⟩
        · obtain ⟨b, d, hmem, hor⟩ := h.known l hl
          exact ⟨b, d, mem_append_left _ hmem, hor⟩
    · -- the two descriptors are not added
      have hs₁ := h.sound.newTable (show w.catalog.tableIdCursor + 1 < 2 ^ 32 by omega) stmt.name
        (rowId :: stmt.columns)
      have hs₂ : (stmt.describe w.catalog).Sound :=
        hs₁.newTable (by rw [Catalog.newTable_cursor (by omega)]; omega) _ _
      refine ⟨hs₂, fun b d hmem => ?_, h.apart, h.together, h.known⟩
      rw [stmt.describe_heap]
      exact h.pairs_append hmem _
  · exact h

/-! ### Dropping a pair -/

theorem dropCall_cases (h : w.catalog.Sound) (hstep : w.dropCall answer name = some r) :
    r.2.made = w.made ∧ (r.2.catalog = w.catalog ∨ ∃ l t, w.catalog.Holds l t ∧
      t.tableName = name ∧ name ≠ [] ∧
      r.2.catalog = (w.catalog.eraseName name).eraseId t.tableId) := by
  unfold World.dropCall at hstep
  split at hstep
  · cases hstep
    exact ⟨rfl, .inl rfl⟩
  · rename_i hne
    obtain ⟨t, ht, rfl⟩ := map_eq_some_iff.mp hstep
    obtain ⟨l, hl, htl⟩ := bind_eq_some_iff.mp ht
    obtain ⟨t', rfl, hholds⟩ := h.consistent.exists_holds hl
    obtain rfl : t = t' := mem_unique htl hholds.desc
    dsimp only
    split
    · exact ⟨rfl, .inr ⟨l, t, hholds, rfl, hne, by rw [h.dropTable_eq hholds hne]⟩⟩
    · exact ⟨rfl, .inl rfl⟩

theorem dropCall_sound (h : w.catalog.Sound) (hstep : w.dropCall answer name = some r) :
    r.2.catalog.Sound := by
  obtain ⟨-, hsame | ⟨l, t, hholds, rfl, hne, heq⟩⟩ := dropCall_cases h hstep
  · rwa [hsame]
  · have hsound := (h.dropTable hholds hne).1
    rw [h.dropTable_eq hholds hne] at hsound
    rwa [heq]

theorem dropCall_missing (hne : name ≠ []) (hmiss : w.catalog.nameToTable name = none) :
    w.dropCall answer name = none := by
  simp [World.dropCall, hne, World.find, Catalog.getTable, hmiss]

theorem dropCall_still_missing (h : w.catalog.Sound) {other : Name}
    (hmiss : w.catalog.nameToTable name = none) (hstep : w.dropCall answer other = some r) :
    r.2.catalog.nameToTable name = none := by
  obtain ⟨-, hsame | ⟨l, t, -, -, -, heq⟩⟩ := dropCall_cases h hstep
  · rwa [hsame]
  · rw [heq]
    show Function.update w.catalog.nameToTable other none name = none
    by_cases hn : name = other
    · rw [hn, Function.update_self]
    · rwa [Function.update_of_ne hn]

theorem dropOne_missing (h : w.catalog.Sound) (hne : name ≠ [])
    (hmiss : w.catalog.nameToTable name = none) : w.dropOne answers name = none := by
  unfold World.dropOne
  split
  · -- every way through the calls ends with one for this table
    rw [bind_eq_none_iff]
    intro r hr
    have hmiss₁ := dropCall_still_missing h hmiss hr
    split
    · exact dropCall_missing hne hmiss₁
    · rw [bind_eq_none_iff]
      intro r' hr'
      rw [dropCall_missing hne (dropCall_still_missing (dropCall_sound h hr) hmiss₁ hr')]
      rfl
  · simp [World.find, Catalog.getTable, hmiss]

theorem checkBaseTbl_del (h : c.getTable name = some l) :
    c.checkBaseTbl (name ++ delSuffix) = false := by
  simp [Catalog.checkBaseTbl, delSuffix, h]

theorem dropCall_of_holds (h : w.catalog.Sound) (hholds : w.catalog.Holds l t)
    (hne : t.tableName ≠ []) (hdel : t.files.all answer.deletes = true) :
    w.dropCall answer t.tableName = some (answer.ret, { w with
      catalog := (w.catalog.eraseName t.tableName).eraseId t.tableId
      files := w.files.filter fun f => f ∉ t.files }) := by
  have hfind : w.find t.tableName = some t := by
    simp [World.find, Catalog.getTable, hholds.byName, hholds.desc]
  have hfiles : (w.files.filter fun f => !(decide (f ∈ t.files) && answer.deletes f)) =
      w.files.filter fun f => f ∉ t.files := by
    refine filter_congr fun f _ => ?_
    by_cases hf : f ∈ t.files
    · simp [hf, List.all_eq_true.mp hdel f hf]
    · simp [hf]
  simp only [World.dropCall, hne, if_false, hfind, map_some, World.deleteTableFiles, hdel,
    if_true, hfiles, h.dropTable_eq hholds hne]

/-- A user's table is taken for a base table, and the files can be deleted. -/
def World.FairDrop (w : World) (answers : DropCall → DropAnswer) (name : Name) : Prop :=
  ∀ b d, (b, d) ∈ w.made → w.catalog.getTable name = some b →
    w.catalog.checkBaseTbl name = true ∧ (answers .delTable).ret = true ∧
    (∀ t, w.find (name ++ delSuffix) = some t →
      t.files.all (answers .delTable).deletes = true) ∧
    ∀ t, w.find name = some t → t.files.all (answers .baseTable).deletes = true

section

variable (h : Owned w) (hmem : (b, d) ∈ w.made) (ht : w.catalog.Holds b t)

include h hmem ht

theorem Owned.shadow :
    ∃ td, w.catalog.Holds d td ∧ t.tableName ≠ [] ∧
      td.tableName = t.tableName ++ delSuffix ∧ shadowColumns.map td.full <+: td.attributes := by
  obtain ⟨t', td, ht', htd, hrest⟩ := h.pairs b d hmem
  obtain rfl : t = t' := mem_unique ht.desc ht'
  have hd : w.catalog.Has d := (h.together b d hmem).mp ht.has
  exact ⟨td, h.sound.consistent.holds hd htd, hrest⟩

theorem Owned.dropOne (htd : w.catalog.Holds d td) (hfair : w.FairDrop answers t.tableName) :
    w.dropOne answers t.tableName = some ((answers .baseTable).ret, { w with
      catalog := (((w.catalog.eraseName td.tableName).eraseId td.tableId).eraseName
        t.tableName).eraseId t.tableId
      files := (w.files.filter fun f => f ∉ td.files).filter fun f => f ∉ t.files }) := by
  obtain ⟨td', htd', hne, hname, -⟩ := h.shadow hmem ht
  obtain rfl : td = td' := mem_unique htd.desc htd'.desc
  have hned : td.tableName ≠ [] := by simp [hname, hne]
  obtain ⟨hcheck, hret, hdelFiles, hbaseFiles⟩ := hfair b d hmem (by
    rw [Catalog.getTable, ht.byName]
    rfl)
  have hfind : w.find t.tableName = some t := by
    simp [World.find, Catalog.getTable, ht.byName, ht.desc]
  have hfindDel : w.find (t.tableName ++ delSuffix) = some td := by
    rw [← hname]
    simp [World.find, Catalog.getTable, htd.byName, htd.desc]
  have hfirst := dropCall_of_holds h.sound htd hned (hdelFiles td hfindDel)
  -- the base table is still there after the first call
  have hs := (h.sound.dropTable htd hned).1
  rw [h.sound.dropTable_eq htd hned] at hs
  have hbd : b ≠ d := (h.apart b d b d hmem hmem).1
  have hhas := (Catalog.has_eraseName h.sound.consistent htd b td.tableId).mpr ⟨ht.has, hbd⟩
  have hholds : ((w.catalog.eraseName td.tableName).eraseId td.tableId).Holds b t :=
    hs.consistent.holds hhas ht.desc
  have hsecond := dropCall_of_holds (w := { w with
      catalog := (w.catalog.eraseName td.tableName).eraseId td.tableId
      files := w.files.filter fun f => f ∉ td.files }) hs hholds hne (hbaseFiles t hfind)
  rw [World.dropOne, if_pos hcheck, ← hname, hfirst, bind_some, if_pos hret]
  exact hsecond

theorem Owned.erasePair (htd : w.catalog.Holds d td) (files : List File) :
    Owned { w with
      catalog := (((w.catalog.eraseName td.tableName).eraseId td.tableId).eraseName
        t.tableName).eraseId t.tableId
      files := files } := by
  obtain ⟨td', htd', hne, hname, -⟩ := h.shadow hmem ht
  obtain rfl : td = td' := mem_unique htd.desc htd'.desc
  have hned : td.tableName ≠ [] := by simp [hname, hne]
  have hbd : b ≠ d := (h.apart b d b d hmem hmem).1
  have hs₁ := (h.sound.dropTable htd hned).1
  rw [h.sound.dropTable_eq htd hned] at hs₁
  have hhas₁ := Catalog.has_eraseName h.sound.consistent htd (i := td.tableId)
  have hholds := hs₁.consistent.holds ((hhas₁ b).mpr ⟨ht.has, hbd⟩) ht.desc
  have hs₂ := (hs₁.dropTable hholds hne).1
  rw [hs₁.dropTable_eq hholds hne] at hs₂
  -- what is left are the tables of the other pairs
  have hhas₂ : ∀ l, ((((w.catalog.eraseName td.tableName).eraseId td.tableId).eraseName
      t.tableName).eraseId t.tableId).Has l ↔ (w.catalog.Has l ∧ l ≠ d) ∧ l ≠ b := by
    intro l
    rw [Catalog.has_eraseName hs₁.consistent hholds, hhas₁]
  refine ⟨hs₂, h.pairs, h.apart, fun b' d' hmem' => ?_, fun l hl => ?_⟩
  · obtain ⟨hbd', hb, hd⟩ := h.apart b d b' d' hmem hmem'
    obtain ⟨hdb, -, -⟩ := h.apart b' d' b d hmem' hmem
    rw [hhas₂, hhas₂, h.together b' d' hmem']
    constructor
    · rintro ⟨⟨hl, -⟩, hne'⟩
      exact ⟨⟨hl, fun heq => hne' (hd heq.symm).symm⟩, Ne.symm hbd'⟩
    · rintro ⟨⟨hl, hne'⟩, -⟩
      exact ⟨⟨hl, hdb⟩, fun heq => hne' (hb heq.symm).symm⟩
  · exact h.known l ((hhas₂ l).mp hl).1.1

end

theorem dropOne_owned (h : Owned w) (hne : name ≠ []) (hfair : w.FairDrop answers name)
    (hstep : w.dropOne answers name = some r) : Owned r.2 := by
  cases hn : w.catalog.nameToTable name with
  | none =>
    rw [dropOne_missing h.sound hne hn] at hstep
    cases hstep
  | some p =>
    obtain ⟨l, t, rfl, rfl, hholds⟩ := h.sound.consistent.named name p hn
    obtain ⟨b, d, hmem, rfl | rfl⟩ := h.known l hholds.has
    · -- a base table
      obtain ⟨td, htd, -, -, -⟩ := h.shadow hmem hholds
      rw [h.dropOne hmem hholds htd hfair] at hstep
      cases hstep
      exact h.erasePair hmem hholds htd _
    · -- a shadow table, of which only files are deleted
      obtain ⟨tb, td, htb, htd, -, hname, -⟩ := h.pairs b l hmem
      obtain rfl : t = td := mem_unique hholds.desc htd
      have hb := h.sound.consistent.holds ((h.together b l hmem).mpr hholds.has) htb
      have hcheck : w.catalog.checkBaseTbl t.tableName = false := by
        rw [hname]
        refine checkBaseTbl_del (l := b) ?_
        rw [Catalog.getTable, hb.byName]
        rfl
      simp only [World.dropOne, hcheck, Bool.false_eq_true, if_false] at hstep
      obtain ⟨t', -, rfl⟩ := map_eq_some_iff.mp hstep
      exact h.grows (.refl w.catalog) rfl

end

/-! ### Runs of statements -/

/-- What happens, one after the other: the statements, and data that is written to a file. -/
inductive Event
  | createTable (stmt : CreateTable)
  | createProjection (p : CreateProjection)
  | dropTable (tables : List (Name × (DropCall → DropAnswer)))
  | write (f : File)

def World.execute (w : World) : Event → Option World
  | .createTable stmt => some (w.createTable stmt).2
  | .createProjection p => (w.createProjection p).map (·.2)
  | .dropTable tables => (w.dropTable tables).map (·.2)
  | .write f => some { w with files := f :: w.files }

def World.FairDropList : World → List (Name × (DropCall → DropAnswer)) → Prop
  | _, [] => True
  | w, (name, answers) :: rest =>
    w.FairDrop answers name ∧ ∀ r, w.dropOne answers name = some r → r.2.FairDropList rest

def World.Fair (w : World) : Event → Prop
  | .createTable stmt => w.roomFor stmt = true
  | .createProjection _ => True
  | .dropTable tables => w.FairDropList tables
  | .write _ => True

def FairStep (w w' : World) : Prop := ∃ e, w.Fair e ∧ w.execute e = some w'

variable {w w' : World}

theorem dropList_owned (h : Owned w) {tables : List (Name × (DropCall → DropAnswer))}
    (hne : ∀ t ∈ tables, t.1 ≠ []) (hfair : w.FairDropList tables) {r : Bool × World}
    (hstep : w.dropList tables = some r) : Owned r.2 := by
  induction tables generalizing w with
  | nil =>
    cases hstep
    exact h
  | cons table rest ih =>
    obtain ⟨name, answers⟩ := table
    obtain ⟨hdrop, hrest⟩ := hfair
    have hname : name ≠ [] := hne (name, answers) mem_cons_self
    rw [World.dropList, if_neg hname] at hstep
    obtain ⟨r₁, hr₁, hstep⟩ := bind_eq_some_iff.mp hstep
    have h₁ := dropOne_owned h hname hdrop hr₁
    split at hstep
    · exact ih h₁ (fun t ht => hne t (mem_cons_of_mem _ ht)) (hrest r₁ hr₁) hstep
    · cases hstep
      exact h₁

theorem fairStep_owned (h : Owned w) (hstep : FairStep w w') : Owned w' := by
  obtain ⟨e, hfair, he⟩ := hstep
  cases e with
  | createTable stmt =>
    cases he
    exact createTable_owned h hfair
  | createProjection p =>
    obtain ⟨r, hr, rfl⟩ := map_eq_some_iff.mp he
    obtain ⟨r', hr', rfl⟩ := map_eq_some_iff.mp hr
    exact h.grows (Catalog.createProjection_grows hr') rfl
  | dropTable tables =>
    obtain ⟨r, hr, rfl⟩ := map_eq_some_iff.mp he
    unfold World.dropTable at hr
    split at hr
    · cases hr
      exact h
    · rename_i hacc
      refine dropList_owned h (fun t ht hnil => hacc (.inr ?_)) hfair hr
      exact List.any_eq_true.mpr ⟨t, ht, by simp [hnil]⟩
  | write f =>
    cases he
    exact h.grows (.refl w.catalog) rfl

theorem dropTable_singleton {name : Name} {answers : DropCall → DropAnswer} (hne : name ≠ [])
    {l : ℕ} (hl : w.catalog.getTable name = some l) {ret : Bool}
    (hdrop : w.dropOne answers name = some (ret, w')) :
    w.dropTable [(name, answers)] = some (ret, w') := by
  have hacc : ¬([(name, answers)] = [] ∨
      ([(name, answers)].any fun t => t.1 = [] ∨ (w.catalog.getTable t.1).isNone) = true) := by
    simp [hne, hl]
  rw [World.dropTable, if_neg hacc, World.dropList, if_neg hne, hdrop, bind_some]
  cases ret <;> rfl

/-- **Every base table owns its shadow table**, in every fair run. -/
theorem base_tables_own_shadow_tables {w : World} (hrun : Runs.Reaches FairStep World.new w)
    {b d : ℕ} (hmade : (b, d) ∈ w.made) {t : TableDescriptor} (hb : w.catalog.heap[b]? = some t)
    (hthere : w.catalog.getTable t.tableName = some b) :
    ∃ td, w.catalog.heap[d]? = some td ∧
      w.catalog.getTable (t.tableName ++ delSuffix) = some d ∧
      shadowColumns.map td.full <+: td.attributes ∧ (∀ b' d', (b', d') ∈ w.made → b' ≠ d) ∧
      ∀ answers, w.FairDrop answers t.tableName →
        ∃ ret w', w.dropTable [(t.tableName, answers)] = some (ret, w') ∧
          (∀ n, w'.catalog.nameToTable n =
            if n = t.tableName ∨ n = td.tableName then none else w.catalog.nameToTable n) ∧
          (∀ i, w'.catalog.tableidToTable i =
            if i = t.tableId ∨ i = td.tableId then none else w.catalog.tableidToTable i) ∧
          (∀ f, f ∈ w'.files ↔ f ∈ w.files ∧ f ∉ t.files ∧ f ∉ td.files) ∧
          ∀ l' t', l' ≠ b → l' ≠ d → w.catalog.heap[l']? = some t' →
            ∀ f ∈ t'.files, f ∈ w.files → f ∈ w'.files := by
  have h : Owned w := Runs.invariant (I := Owned) (fun _ _ => fairStep_owned) hrun new_owned
  obtain ⟨t₀, -, hholds⟩ := h.sound.consistent.exists_holds hthere
  obtain rfl : t = t₀ := mem_unique hb hholds.desc
  obtain ⟨td, htd, hne, hname, hcols⟩ := h.shadow hmade hholds
  refine ⟨td, htd.desc, ?_, hcols, fun b' d' hmem => (h.apart b' d' b d hmem hmade).1, ?_⟩
  · rw [← hname, Catalog.getTable, htd.byName]
    rfl
  intro answers hfair
  have hfiles : ∀ f, f ∈ (w.files.filter fun f => f ∉ td.files).filter (fun f => f ∉ t.files) ↔
      f ∈ w.files ∧ f ∉ t.files ∧ f ∉ td.files := by
    intro f
    simp only [mem_filter, decide_eq_true_eq]
    tauto
  refine ⟨_, _, dropTable_singleton hne hthere (h.dropOne hmade hholds htd hfair), fun n => ?_,
    fun i => ?_, hfiles, fun l' t' hl' hl'' ht' f hf hfw => (hfiles f).mpr ⟨hfw, ?_, ?_⟩⟩
  · simp only [Catalog.eraseName, Catalog.eraseId, Function.update_apply]
    split <;> split <;> simp_all
  · simp only [Catalog.eraseName, Catalog.eraseId, Function.update_apply]
    split <;> split <;> simp_all
  · -- files of different tables have different ids in their names
    intro hft
    exact hl' (h.sound.distinct l' b t' t ht' hb
      ((tableId_of_mem_files hf).symm.trans (tableId_of_mem_files hft)))
  · intro hft
    exact hl'' (h.sound.distinct l' d t' td ht' htd.desc
      ((tableId_of_mem_files hf).symm.trans (tableId_of_mem_files hft)))

def tableNamed (name : Name) : CreateTable := ⟨name, [], [], true⟩

/-- Two tables are created one after the other; the second one has its own shadow table. -/
theorem shadow_table_of_second_table :
    ∃ w : World, Runs.Reaches FairStep World.new w ∧ w.catalog.getTable ['t'] = some 0 ∧
      w.catalog.getTable ['u'] = some 2 ∧ w.catalog.getTable (['u'] ++ delSuffix) = some 3 := by
  obtain ⟨w, hw⟩ : ∃ w, w = (World.new.createTable (tableNamed ['t'])).2 := ⟨_, rfl⟩
  have hroom : World.new.roomFor (tableNamed ['t']) = true := by decide
  have hroom' : w.roomFor (tableNamed ['u']) = true := by rw [hw]; decide
  have hfirst : Runs.Reaches FairStep World.new w :=
    .single ⟨.createTable (tableNamed ['t']), hroom, by rw [hw]; rfl⟩
  have hrun : Runs.Reaches FairStep World.new (w.createTable (tableNamed ['u'])).2 :=
    hfirst.tail ⟨.createTable (tableNamed ['u']), hroom', rfl⟩
  have hmade : (2, 3) ∈ (w.createTable (tableNamed ['u'])).2.made := by rw [hw]; decide
  have hthere : (w.createTable (tableNamed ['u'])).2.catalog.getTable ['u'] = some 2 := by
    rw [hw]
    decide
  have hbase : (w.createTable (tableNamed ['u'])).2.catalog.heap[2]? =
      some ((tableNamed ['u']).base w.catalog) := by rw [hw]; decide
  obtain ⟨td, -, hdel, -⟩ := base_tables_own_shadow_tables hrun hmade hbase hthere
  exact ⟨_, hrun, by rw [hw]; decide, hthere, hdel⟩

/-- A user creates `x_DEL` and then `x`, whose deletions go to the first. -/
theorem user_table_as_shadow_table :
    let w := (World.new.createTable (tableNamed (['x'] ++ delSuffix))).2
    let r := w.createTable (tableNamed ['x'])
    r.1 = true ∧ r.2.made = [(0, 1), (2, 3)] ∧ r.2.catalog.getTable ['x'] = some 2 ∧
      r.2.catalog.getTable (['x'] ++ delSuffix) = some 0 := by
  decide

end TableCatalog
