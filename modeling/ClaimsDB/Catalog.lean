/-
The catalogue of tables: a map from names and a map from ids to the addresses of descriptors,
which can be null, and a cursor for the next id.  A descriptor that was deleted keeps its content.
-/
import Mathlib.Tactic

namespace TableCatalog

open Option

open Function (update update_of_ne update_self)

abbrev Name : Type := List Char

instance Name.lawfulBEq : LawfulBEq Name := inferInstance

def delSuffix : Name := ['_', 'D', 'E', 'L']

/-- `OneToOnePartitionInfo`; the node is none where `binding_node_id_` is -1. -/
structure PartitionInfo where
  numberOfBlocks : ℕ
  bindingNodeId : Option ℕ
  deriving DecidableEq

structure TableDescriptor where
  tableName : Name
  tableId : ℕ
  attributes : List Name
  projections : List (List PartitionInfo)
  deriving DecidableEq

/-- `TableDescriptor::addAttribute`, which refuses a name that is there already. -/
def TableDescriptor.addAttribute (t : TableDescriptor) (attname : Name) : TableDescriptor :=
  let full := t.tableName ++ '.' :: attname
  if full ∈ t.attributes then t else { t with attributes := t.attributes ++ [full] }

def TableDescriptor.new (name : Name) (id : ℕ) (columns : List Name) : TableDescriptor :=
  columns.foldl TableDescriptor.addAttribute ⟨name, id, [], []⟩

/-- The catalogue and the descriptors that were made so far, each at its position. -/
structure Catalog where
  /-- `table_id_curosr` -/
  tableIdCursor : ℕ
  nameToTable : Name → Option (Option ℕ)
  tableidToTable : ℕ → Option (Option ℕ)
  heap : List TableDescriptor

def Catalog.new : Catalog := ⟨0, fun _ => none, fun _ => none, []⟩

namespace Catalog

/-- `allocate_unique_table_id`, and the new descriptor that gets the id. -/
def newTable (c : Catalog) (name : Name) (columns : List Name) : Catalog :=
  { c with
    tableIdCursor := (c.tableIdCursor + 1) % 2 ^ 32
    heap := c.heap ++ [.new name c.tableIdCursor columns] }

def decreaseTableId (c : Catalog) : Catalog :=
  { c with tableIdCursor := (c.tableIdCursor + (2 ^ 32 - 1)) % 2 ^ 32 }

def getTable (c : Catalog) (name : Name) : Option ℕ := (c.nameToTable name).join

def getTableById (c : Catalog) (id : ℕ) : Option ℕ := (c.tableidToTable id).join

/-- `add_table` for the descriptor `t` at address `l`. -/
def addTable (c : Catalog) (l : ℕ) (t : TableDescriptor) : Bool × Catalog :=
  if (c.nameToTable t.tableName).isSome then (false, c.decreaseTableId)
  else if (c.tableidToTable t.tableId).isSome then (false, c)
  else (true, { c with
    nameToTable := update c.nameToTable t.tableName (some (some l))
    tableidToTable := update c.tableidToTable t.tableId (some (some l)) })

def eraseName (c : Catalog) (name : Name) : Catalog :=
  { c with nameToTable := update c.nameToTable name none }

def eraseId (c : Catalog) (id : ℕ) : Catalog :=
  { c with tableidToTable := update c.tableidToTable id none }

/-- `DropTable`, which puts an entry back if the other one was not there. -/
def dropTable (c : Catalog) (name : Name) (id : ℕ) : Bool × Catalog :=
  let byName := name ≠ []
  let byId := id ≠ 2 ^ 32 - 1
  let isnamedrop := decide byName && (c.nameToTable name).isSome
  let istableIDdrop := decide byId && (c.tableidToTable id).isSome
  let tableDesc :=
    if byId then c.getTableById id else if byName then c.getTable name else none
  let c₁ := if byName then c.eraseName name else c
  let c₂ := if byId then c₁.eraseId id else c₁
  if isnamedrop && istableIDdrop then (true, c₂)
  else
    let c₃ := if isnamedrop then c₂ else
      { c₂ with tableidToTable := update c₂.tableidToTable id (some tableDesc) }
    let c₄ := if istableIDdrop then c₃ else
      { c₃ with nameToTable := update c₃.nameToTable name (some tableDesc) }
    (false, c₄)

/-- The entries that the loops of `GetAllTables` and `GetAllTablesID` visit, with their ids; the
counter of the loops is an `int`. -/
def visited (c : Catalog) : List (ℕ × Option ℕ) :=
  (List.range (min c.tableIdCursor (2 ^ 31))).filterMap fun i =>
    (c.tableidToTable i).map fun p => (i, p)

def hidden (c : Catalog) (name : Name) : Bool :=
  decide (4 ≤ name.length) && decide (name.drop (name.length - 4) = delSuffix) &&
    (c.nameToTable (name.take (name.length - 4))).isSome

/-- `getTableName` of the table at the address; none if it is null. -/
def nameAt (c : Catalog) (p : Option ℕ) : Option Name :=
  (p.bind fun l => c.heap[l]?).map (·.tableName)

def listed (c : Catalog) : Option (List (ℕ × Name)) :=
  let name (e : ℕ × Option ℕ) : Option (ℕ × Name) := (c.nameAt e.2).map fun n => (e.1, n)
  (c.visited.mapM name).map fun ts => ts.filter fun e => !c.hidden e.2

def getAllTables (c : Catalog) : Option (List Name) := c.listed.map fun ts => ts.map (·.2)

def getAllTablesID (c : Catalog) : Option (List ℕ) := c.listed.map fun ts => ts.map (·.1)

/-! ### Consistency -/

/-- The table at address `l` is in both maps, under its own name and id. -/
structure Holds (c : Catalog) (l : ℕ) (t : TableDescriptor) : Prop where
  desc : c.heap[l]? = some t
  byName : c.nameToTable t.tableName = some (some l)
  byId : c.tableidToTable t.tableId = some (some l)

/-- Both maps hold the same tables, each under its own name and id, and ids are below the
cursor. -/
structure Consistent (c : Catalog) : Prop where
  named : ∀ n p, c.nameToTable n = some p → ∃ l t, p = some l ∧ t.tableName = n ∧ c.Holds l t
  identified : ∀ i p, c.tableidToTable i = some p → ∃ l t, p = some l ∧ t.tableId = i ∧ c.Holds l t
  below : ∀ i p, c.tableidToTable i = some p → i < c.tableIdCursor

theorem new_consistent : Catalog.new.Consistent where
  named _ _ h := by cases h
  identified _ _ h := by cases h
  below _ _ h := by cases h

variable {c : Catalog} {l : ℕ} {t : TableDescriptor}

theorem addTable_eq (hn : c.nameToTable t.tableName = none)
    (hi : c.tableidToTable t.tableId = none) :
    c.addTable l t = (true, { c with
      nameToTable := update c.nameToTable t.tableName (some (some l))
      tableidToTable := update c.tableidToTable t.tableId (some (some l)) }) := by
  simp [addTable, hn, hi]

theorem dropTable_eq (h : c.Holds l t) (hname : t.tableName ≠ []) (hid : t.tableId ≠ 2 ^ 32 - 1) :
    c.dropTable t.tableName t.tableId = (true, (c.eraseName t.tableName).eraseId t.tableId) := by
  have hid' : t.tableId ≠ 4294967295 := hid
  simp [dropTable, h.byName, h.byId, hname, hid']

theorem Consistent.addTable (h : c.Consistent) (hd : c.heap[l]? = some t)
    (hn : c.nameToTable t.tableName = none) (hi : c.tableidToTable t.tableId = none)
    (hlt : t.tableId < c.tableIdCursor) : (c.addTable l t).2.Consistent := by
  rw [addTable_eq hn hi]
  -- an entry that was there before is that of a table with another name and id
  have old : ∀ {l' : ℕ} {t' : TableDescriptor}, c.Holds l' t' →
      Holds { c with
        nameToTable := update c.nameToTable t.tableName (some (some l))
        tableidToTable := update c.tableidToTable t.tableId (some (some l)) } l' t' := by
    intro l' t' h'
    have hne : t'.tableName ≠ t.tableName := by
      intro heq
      rw [← heq, h'.byName] at hn
      cases hn
    have hne' : t'.tableId ≠ t.tableId := by
      intro heq
      rw [← heq, h'.byId] at hi
      cases hi
    exact ⟨h'.desc, (update_of_ne hne _ _).trans h'.byName,
      (update_of_ne hne' _ _).trans h'.byId⟩
  have new : Holds { c with
      nameToTable := update c.nameToTable t.tableName (some (some l))
      tableidToTable := update c.tableidToTable t.tableId (some (some l)) } l t :=
    ⟨hd, update_self .., update_self ..⟩
  constructor
  · intro n p hp
    by_cases hnt : n = t.tableName
    · subst hnt
      simp only [update_self, some.injEq] at hp
      exact ⟨l, t, hp.symm, rfl, new⟩
    · simp only [update_of_ne hnt] at hp
      obtain ⟨l', t', hp', hn', hold⟩ := h.named n p hp
      exact ⟨l', t', hp', hn', old hold⟩
  · intro i p hp
    by_cases hit : i = t.tableId
    · subst hit
      simp only [update_self, some.injEq] at hp
      exact ⟨l, t, hp.symm, rfl, new⟩
    · simp only [update_of_ne hit] at hp
      obtain ⟨l', t', hp', hi', hold⟩ := h.identified i p hp
      exact ⟨l', t', hp', hi', old hold⟩
  · intro i p hp
    by_cases hit : i = t.tableId
    · exact hit ▸ hlt
    · simp only [update_of_ne hit] at hp
      exact h.below i p hp

theorem Consistent.dropTable (h : c.Consistent) (ht : c.Holds l t) (hname : t.tableName ≠ [])
    (hid : t.tableId ≠ 2 ^ 32 - 1) : (c.dropTable t.tableName t.tableId).2.Consistent := by
  rw [dropTable_eq ht hname hid]
  -- a table with another name has another address, hence another id, and conversely
  have other : ∀ {l' : ℕ} {t' : TableDescriptor}, c.Holds l' t' →
      (t'.tableName ≠ t.tableName ∨ t'.tableId ≠ t.tableId) →
      ((c.eraseName t.tableName).eraseId t.tableId).Holds l' t' := by
    intro l' t' h' hor
    have hl : l' ≠ l := by
      rintro rfl
      have htt : t' = t := mem_unique h'.desc ht.desc
      subst htt
      exact hor.elim (fun hne => hne rfl) fun hne => hne rfl
    have hne : t'.tableName ≠ t.tableName := by
      intro heq
      have hp := h'.byName
      rw [heq, ht.byName, some.injEq, some.injEq] at hp
      exact hl hp.symm
    have hne' : t'.tableId ≠ t.tableId := by
      intro heq
      have hp := h'.byId
      rw [heq, ht.byId, some.injEq, some.injEq] at hp
      exact hl hp.symm
    exact ⟨h'.desc, (update_of_ne hne _ _).trans h'.byName,
      (update_of_ne hne' _ _).trans h'.byId⟩
  constructor
  · intro n p hp
    by_cases hnt : n = t.tableName
    · subst hnt
      simp [eraseName, eraseId] at hp
    · simp only [eraseName, eraseId, update_of_ne hnt] at hp
      obtain ⟨l', t', hp', hn', hold⟩ := h.named n p hp
      exact ⟨l', t', hp', hn', other hold (.inl (hn' ▸ hnt))⟩
  · intro i p hp
    by_cases hit : i = t.tableId
    · subst hit
      simp [eraseName, eraseId] at hp
    · simp only [eraseName, eraseId, update_of_ne hit] at hp
      obtain ⟨l', t', hp', hi', hold⟩ := h.identified i p hp
      exact ⟨l', t', hp', hi', other hold (.inr (hi' ▸ hit))⟩
  · intro i p hp
    by_cases hit : i = t.tableId
    · subst hit
      simp [eraseName, eraseId] at hp
    · simp only [eraseName, eraseId, update_of_ne hit] at hp
      exact h.below i p hp

theorem Consistent.mem_visited (h : c.Consistent) (hcursor : c.tableIdCursor ≤ 2 ^ 31) {i : ℕ}
    {p : Option ℕ} (hp : c.tableidToTable i = some p) : (i, p) ∈ c.visited := by
  have hlt : i < min c.tableIdCursor (2 ^ 31) := by
    rw [min_eq_left hcursor]
    exact h.below i p hp
  exact List.mem_filterMap.mpr ⟨i, List.mem_range.mpr hlt, by rw [hp, map_some]⟩

end Catalog

/-! ### Descriptors and ids -/

theorem addAttribute_tableName (t : TableDescriptor) (a : Name) :
    (t.addAttribute a).tableName = t.tableName := by
  simp only [TableDescriptor.addAttribute]
  split <;> rfl

theorem addAttribute_tableId (t : TableDescriptor) (a : Name) :
    (t.addAttribute a).tableId = t.tableId := by
  simp only [TableDescriptor.addAttribute]
  split <;> rfl

theorem foldl_addAttribute (columns : List Name) (t : TableDescriptor) :
    (columns.foldl TableDescriptor.addAttribute t).tableName = t.tableName ∧
      (columns.foldl TableDescriptor.addAttribute t).tableId = t.tableId := by
  induction columns generalizing t with
  | nil => exact ⟨rfl, rfl⟩
  | cons a columns ih =>
    obtain ⟨hname, hid⟩ := ih (t.addAttribute a)
    exact ⟨hname.trans (addAttribute_tableName t a), hid.trans (addAttribute_tableId t a)⟩

theorem new_tableName (name : Name) (id : ℕ) (columns : List Name) :
    (TableDescriptor.new name id columns).tableName = name :=
  (foldl_addAttribute columns ⟨name, id, [], []⟩).1

theorem new_tableId (name : Name) (id : ℕ) (columns : List Name) :
    (TableDescriptor.new name id columns).tableId = id :=
  (foldl_addAttribute columns ⟨name, id, [], []⟩).2

namespace Catalog

/-- The catalogue is consistent, and every descriptor has an id of its own below the cursor. -/
structure Sound (c : Catalog) : Prop where
  consistent : c.Consistent
  cursor : c.tableIdCursor < 2 ^ 32
  below : ∀ (l : ℕ) t, c.heap[l]? = some t → t.tableId < c.tableIdCursor
  distinct : ∀ (l l' : ℕ) t t', c.heap[l]? = some t → c.heap[l']? = some t' →
    t.tableId = t'.tableId → l = l'

theorem new_sound : Catalog.new.Sound where
  consistent := new_consistent
  cursor := Nat.two_pow_pos 32
  below l t h := by simp [Catalog.new] at h
  distinct l l' t t' h := by simp [Catalog.new] at h

/-- The descriptor at `l` has been made, and its id is not in use. -/
def Unused (c : Catalog) (l : ℕ) : Prop :=
  ∃ t, c.heap[l]? = some t ∧ c.tableidToTable t.tableId = none

variable {c : Catalog}

variable {l : ℕ} {name : Name} {columns : List Name} {t : TableDescriptor}

theorem Unused.lt_length (h : c.Unused l) : l < c.heap.length := by
  obtain ⟨t, ht, -⟩ := h
  exact (List.getElem?_eq_some_iff.mp ht).1

theorem getElem?_newTable (h : (c.newTable name columns).heap[l]? = some t) :
    c.heap[l]? = some t ∨
      l = c.heap.length ∧ t = .new name c.tableIdCursor columns := by
  simp only [newTable] at h
  rcases Nat.lt_or_ge l c.heap.length with hlt | hge
  · rw [List.getElem?_append_left hlt] at h
    exact .inl h
  · rw [List.getElem?_append_right hge, List.getElem?_singleton] at h
    split at h
    · rename_i hl
      cases h
      exact .inr ⟨by omega, rfl⟩
    · cases h

theorem getElem?_newTable_of_some (h : c.heap[l]? = some t) :
    (c.newTable name columns).heap[l]? = some t := by
  have hlt := (List.getElem?_eq_some_iff.mp h).1
  simp only [newTable]
  rw [List.getElem?_append_left hlt, h]

theorem newTable_cursor (h : c.tableIdCursor + 1 < 2 ^ 32) (name : Name) (columns : List Name) :
    (c.newTable name columns).tableIdCursor = c.tableIdCursor + 1 := by
  simp only [newTable]
  exact Nat.mod_eq_of_lt h

theorem Holds.newTable (h : c.Holds l t) (name : Name) (columns : List Name) :
    (c.newTable name columns).Holds l t :=
  ⟨getElem?_newTable_of_some h.desc, h.byName, h.byId⟩

theorem Sound.newTable (h : c.Sound) (hlt : c.tableIdCursor + 1 < 2 ^ 32) (name : Name)
    (columns : List Name) : (c.newTable name columns).Sound where
  consistent := by
    constructor
    · intro n p hp
      obtain ⟨l, t, hl, hn, hold⟩ := h.consistent.named n p hp
      exact ⟨l, t, hl, hn, hold.newTable name columns⟩
    · intro i p hp
      obtain ⟨l, t, hl, hi, hold⟩ := h.consistent.identified i p hp
      exact ⟨l, t, hl, hi, hold.newTable name columns⟩
    · intro i p hp
      rw [newTable_cursor hlt]
      exact Nat.lt_succ_of_lt (h.consistent.below i p hp)
  cursor := by
    rw [newTable_cursor hlt]
    exact hlt
  below l t ht := by
    rw [newTable_cursor hlt]
    rcases getElem?_newTable ht with hold | ⟨-, rfl⟩
    · exact Nat.lt_succ_of_lt (h.below l t hold)
    · rw [new_tableId]
      exact Nat.lt_succ_self _
  distinct l l' t t' ht ht' hid := by
    -- the new id is that of the cursor, which is above all others
    rcases getElem?_newTable ht with hold | ⟨hl, rfl⟩ <;>
      rcases getElem?_newTable ht' with hold' | ⟨hl', rfl⟩
    · exact h.distinct l l' t t' hold hold' hid
    · rw [new_tableId] at hid
      exact absurd (h.below l t hold) (by omega)
    · rw [new_tableId] at hid
      exact absurd (h.below l' t' hold') (by omega)
    · rw [hl, hl']

theorem Unused.newTable (h : c.Unused l) (name : Name) (columns : List Name) :
    (c.newTable name columns).Unused l := by
  obtain ⟨t, ht, hi⟩ := h
  exact ⟨t, getElem?_newTable_of_some ht, hi⟩

theorem Sound.unused_newTable (h : c.Sound) (name : Name) (columns : List Name) :
    (c.newTable name columns).Unused c.heap.length := by
  refine ⟨.new name c.tableIdCursor columns, ?_, ?_⟩
  · simp [Catalog.newTable]
  · rw [new_tableId]
    show c.tableidToTable c.tableIdCursor = none
    cases hp : c.tableidToTable c.tableIdCursor with
    | none => rfl
    | some p => exact absurd (h.consistent.below _ p hp) (Nat.lt_irrefl _)

theorem Sound.addTable (h : c.Sound) (ht : c.heap[l]? = some t)
    (hn : c.nameToTable t.tableName = none) (hu : c.Unused l) :
    (c.addTable l t).1 = true ∧ (c.addTable l t).2.Sound ∧
      (c.addTable l t).2.tableIdCursor = c.tableIdCursor ∧
      ∀ l', l' ≠ l → c.Unused l' → (c.addTable l t).2.Unused l' := by
  obtain ⟨t₀, ht₀, hi⟩ := hu
  obtain rfl : t₀ = t := mem_unique ht₀ ht
  have hcons := h.consistent.addTable ht hn hi (h.below l _ ht)
  rw [addTable_eq hn hi] at hcons ⊢
  refine ⟨rfl, ⟨hcons, h.cursor, h.below, h.distinct⟩, rfl, fun l' hl' ⟨t', ht', hi'⟩ => ?_⟩
  have hne : t'.tableId ≠ t₀.tableId := fun heq => hl' (h.distinct l' l t' t₀ ht' ht heq)
  exact ⟨t', ht', (update_of_ne hne _ _).trans hi'⟩

theorem Sound.tableId_ne (h : c.Sound) (ht : c.heap[l]? = some t) : t.tableId ≠ 2 ^ 32 - 1 := by
  have hlt := h.below l t ht
  have hcursor := h.cursor
  omega

theorem Sound.dropTable_eq (h : c.Sound) (ht : c.Holds l t) (hname : t.tableName ≠ []) :
    c.dropTable t.tableName t.tableId = (true, (c.eraseName t.tableName).eraseId t.tableId) :=
  Catalog.dropTable_eq ht hname (h.tableId_ne ht.desc)

theorem Sound.dropTable (h : c.Sound) (ht : c.Holds l t) (hname : t.tableName ≠ []) :
    (c.dropTable t.tableName t.tableId).2.Sound ∧
      (c.dropTable t.tableName t.tableId).2.tableIdCursor = c.tableIdCursor ∧
      ∀ l', c.Unused l' → (c.dropTable t.tableName t.tableId).2.Unused l' := by
  have hcons := h.consistent.dropTable ht hname (h.tableId_ne ht.desc)
  rw [h.dropTable_eq ht hname] at hcons ⊢
  refine ⟨⟨hcons, h.cursor, h.below, h.distinct⟩, rfl, fun l' ⟨t', ht', hi'⟩ => ⟨t', ht', ?_⟩⟩
  show update c.tableidToTable t.tableId none t'.tableId = none
  by_cases heq : t'.tableId = t.tableId
  · rw [heq, update_self]
  · rw [update_of_ne heq, hi']

/-! ### Which tables are there -/

def Has (c : Catalog) (l : ℕ) : Prop := ∃ n, c.nameToTable n = some (some l)

theorem Holds.has (h : c.Holds l t) : c.Has l := ⟨_, h.byName⟩

theorem Consistent.holds (h : c.Consistent) (hl : c.Has l) (ht : c.heap[l]? = some t) :
    c.Holds l t := by
  obtain ⟨n, hn⟩ := hl
  obtain ⟨l', t', hl', -, hholds⟩ := h.named n _ hn
  obtain rfl : l = l' := some.inj hl'
  obtain rfl : t = t' := mem_unique ht hholds.desc
  exact hholds

theorem Consistent.exists_holds (h : c.Consistent) {n : Name} (hl : c.getTable n = some l) :
    ∃ t, t.tableName = n ∧ c.Holds l t := by
  obtain ⟨l', t, hl', hn, hholds⟩ := h.named n _ (join_eq_some_iff.mp hl)
  obtain rfl : l = l' := some.inj hl'
  exact ⟨t, hn, hholds⟩

theorem has_addTable (hn : c.nameToTable t.tableName = none)
    (hi : c.tableidToTable t.tableId = none) (l' : ℕ) :
    (c.addTable l t).2.Has l' ↔ l' = l ∨ c.Has l' := by
  rw [addTable_eq hn hi]
  constructor
  · rintro ⟨n, hn'⟩
    by_cases hnt : n = t.tableName
    · subst hnt
      simp only [update_self, some.injEq] at hn'
      exact .inl hn'.symm
    · simp only [update_of_ne hnt] at hn'
      exact .inr ⟨n, hn'⟩
  · rintro (rfl | ⟨n, hn'⟩)
    · exact ⟨t.tableName, update_self ..⟩
    · have hnt : n ≠ t.tableName := by
        rintro rfl
        rw [hn] at hn'
        cases hn'
      exact ⟨n, (update_of_ne hnt _ _).trans hn'⟩

theorem has_eraseName (h : c.Consistent) (ht : c.Holds l t) (l' i : ℕ) :
    ((c.eraseName t.tableName).eraseId i).Has l' ↔ c.Has l' ∧ l' ≠ l := by
  constructor
  · rintro ⟨n, hn⟩
    by_cases hnt : n = t.tableName
    · subst hnt
      simp [eraseName, eraseId] at hn
    · simp only [eraseName, eraseId, update_of_ne hnt] at hn
      refine ⟨⟨n, hn⟩, ?_⟩
      rintro rfl
      -- the table at this address has one name
      obtain ⟨l₁, t₁, hl₁, hn₁, hholds⟩ := h.named n _ hn
      obtain rfl := some.inj hl₁
      obtain rfl : t = t₁ := mem_unique ht.desc hholds.desc
      exact hnt hn₁.symm
  · rintro ⟨⟨n, hn⟩, hne⟩
    have hnt : n ≠ t.tableName := by
      rintro rfl
      rw [ht.byName, some.injEq, some.injEq] at hn
      exact hne hn.symm
    exact ⟨n, (update_of_ne hnt _ _).trans hn⟩

end Catalog

end TableCatalog
