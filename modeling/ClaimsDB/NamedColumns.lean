/-
Rows with named columns.  A name is looked up in the last column that has it; `select` takes the
values at given positions, and `Narrows` says that it keeps what the needed names mean.
-/
import Mathlib.Data.List.GetD
import Mathlib.Tactic

namespace NamedColumns

open List
open Option (bind_some getD_some join_some map_none map_some none_or some)

variable {N V : Type} [DecidableEq N]

def idOf : List N → N → Option ℕ
  | [], _ => none
  | c :: cols, n =>
    match idOf cols n with
    | some i => some (i + 1)
    | none => if c = n then some 0 else none

variable {cols : List N} {n : N} {i : ℕ} {ids ids' : List ℕ}

theorem idOf_isSome_iff : (idOf cols n).isSome ↔ n ∈ cols := by
  induction cols with
  | nil => simp [idOf]
  | cons c cols ih =>
    rw [idOf, mem_cons, ← ih]
    cases h : idOf cols n with
    | some i => simp
    | none =>
      by_cases hc : c = n
      · simp [hc]
      · simp [hc, Ne.symm hc]

theorem exists_idOf (h : n ∈ cols) : ∃ i, idOf cols n = some i :=
  Option.isSome_iff_exists.1 (idOf_isSome_iff.2 h)

theorem idOf_eq_none (h : n ∉ cols) : idOf cols n = none := by
  rw [← Option.not_isSome_iff_eq_none, idOf_isSome_iff]
  exact h

theorem getElem?_of_idOf (h : idOf cols n = some i) : cols[i]? = some n := by
  induction cols generalizing i with
  | nil => cases h
  | cons c cols ih =>
    rw [idOf] at h
    split at h
    · rename_i k hk
      cases h
      exact ih hk
    · split at h
      · rename_i hc
        cases h
        simp [hc]
      · cases h

theorem idOf_lt (h : idOf cols n = some i) : i < cols.length :=
  (List.getElem?_eq_some_iff.1 (getElem?_of_idOf h)).1

theorem idOf_append (a b : List N) (n : N) :
    idOf (a ++ b) n = ((idOf b n).map (a.length + ·)).or (idOf a n) := by
  induction a with
  | nil => cases h : idOf b n <;> simp [idOf, h]
  | cons c a ih =>
    rw [cons_append, idOf, ih]
    cases h : idOf b n with
    | some j => simp [Nat.add_right_comm]
    | none => simp [idOf]

theorem idOf_map {M : Type} [DecidableEq M] {f : N → M}
    (hf : ∀ x ∈ cols, ∀ y ∈ cols, f x = f y → x = y) (hn : n ∈ cols) :
    idOf (cols.map f) (f n) = idOf cols n := by
  induction cols with
  | nil => cases hn
  | cons c cols ih =>
    rw [map_cons, idOf, idOf]
    have hf' : ∀ x ∈ cols, ∀ y ∈ cols, f x = f y → x = y := fun x hx y hy =>
      hf x (mem_cons_of_mem c hx) y (mem_cons_of_mem c hy)
    by_cases hmem : n ∈ cols
    · rw [ih hf' hmem]
      obtain ⟨i, hi⟩ := exists_idOf hmem
      simp only [hi]
    · obtain rfl : n = c := (List.mem_cons.1 hn).resolve_right hmem
      have hnone : idOf (cols.map f) (f n) = none := by
        refine idOf_eq_none fun h => ?_
        obtain ⟨x, hx, hfx⟩ := List.mem_map.1 h
        exact hmem (hf x (mem_cons_of_mem n hx) n mem_cons_self hfx ▸ hx)
      simp [hnone, idOf_eq_none hmem]

def find (null : V) (cols : List N) (n : N) : Option (List V → V) :=
  (idOf cols n).map fun i row => row.getD i null

theorem find_isSome_iff {null : V} : (find null cols n).isSome ↔ n ∈ cols := by
  rw [find, Option.isSome_map, idOf_isSome_iff]

def select (null : V) (ids : List ℕ) (row : List V) : List V := ids.map (row.getD · null)

@[simp] theorem length_select (null : V) (ids : List ℕ) (row : List V) :
    (select null ids row).length = ids.length := length_map ..

theorem select_getD (null : V) (row : List V) {j : ℕ} (h : ids[j]? = some i) :
    (select null ids row).getD j null = row.getD i null := by
  simp [select, getD_eq_getElem?_getD, h]

theorem select_range (null : V) (row : List V) : select null (List.range row.length) row = row := by
  refine ext_getElem (by simp) fun i hi hi' => ?_
  simp [select, hi']

theorem select_replicate (null : V) (ids : List ℕ) (n : ℕ) :
    select null ids (List.replicate n null) = List.replicate ids.length null := by
  refine List.eq_replicate_iff.2 ⟨by simp, fun v hv => ?_⟩
  obtain ⟨i, -, rfl⟩ := List.mem_map.1 hv
  rw [getD_eq_getElem?_getD, getElem?_replicate]
  split <;> rfl

theorem select_select (null : V) (h : ∀ j ∈ ids', j < ids.length) (row : List V) :
    select null ids' (select null ids row) = select null (ids'.map (ids.getD · 0)) row := by
  simp only [select, map_map]
  refine map_congr_left fun j hj => ?_
  have hget : ids[j]? = some (ids.getD j 0) := by
    rw [getD_eq_getElem?_getD, getElem?_eq_getElem (h j hj), getD_some]
  exact select_getD null row hget

theorem select_append (null : V) {l r : List V} (h : ∀ i ∈ ids, i < l.length) :
    select null (ids ++ ids'.map (l.length + ·)) (l ++ r) =
      select null ids l ++ select null ids' r := by
  simp only [select, map_append, map_map]
  congr 1
  · refine map_congr_left fun i hi => ?_
    rw [getD_append _ _ _ _ (h i hi)]
  · refine map_congr_left fun i _ => ?_
    rw [Function.comp_apply, getD_append_right _ _ _ _ (Nat.le_add_right _ _),
      Nat.add_sub_cancel_left]

/-- The columns at `ids` are named `cols'`, with those of `needed` where they are looked up. -/
structure Narrows (needed : Set N) (cols cols' : List N) (ids : List ℕ) : Prop where
  length : ids.length = cols'.length
  lt : ∀ i ∈ ids, i < cols.length
  subset : cols' ⊆ cols
  kept : ∀ n ∈ needed, n ∈ cols → n ∈ cols'
  found : ∀ n ∈ needed, n ∈ cols → (idOf cols' n).bind (ids[·]?) = idOf cols n

namespace Narrows

variable {needed needed' : Set N} {cols cols' : List N} {ids : List ℕ}

theorem mono (h : Narrows needed cols cols' ids) (hn : needed' ⊆ needed) :
    Narrows needed' cols cols' ids :=
  ⟨h.length, h.lt, h.subset, fun n hmem => h.kept n (hn hmem), fun n hmem => h.found n (hn hmem)⟩

theorem refl (needed : Set N) (cols : List N) :
    Narrows needed cols cols (List.range cols.length) where
  length := length_range
  lt i hi := List.mem_range.1 hi
  subset := List.Subset.refl cols
  kept _ _ hn := hn
  found n _ hn := by
    obtain ⟨j, hj⟩ := exists_idOf hn
    rw [hj, bind_some, getElem?_range (idOf_lt hj)]

theorem names {names : List N} (h : names ⊆ cols) (hn : ∀ n ∈ needed, n ∈ cols → n ∈ names) :
    Narrows needed cols names (names.map fun n => (idOf cols n).getD 0) where
  length := length_map ..
  lt i hi := by
    obtain ⟨n, hn, rfl⟩ := List.mem_map.1 hi
    obtain ⟨j, hj⟩ := exists_idOf (h hn)
    rw [hj]
    exact idOf_lt hj
  subset := h
  kept := hn
  found n hneeded hcols := by
    obtain ⟨j, hj⟩ := exists_idOf (hn n hneeded hcols)
    obtain ⟨i, hi⟩ := exists_idOf hcols
    rw [hj, bind_some, getElem?_map, getElem?_of_idOf hj, map_some, hi,
      getD_some]

variable {ids' : List ℕ}

theorem trans {cols'' : List N} (h : Narrows needed cols cols' ids)
    (h' : Narrows needed cols' cols'' ids') :
    Narrows needed cols cols'' (ids'.map (ids.getD · 0)) where
  length := by rw [length_map, h'.length]
  lt i hi := by
    obtain ⟨j, hj, rfl⟩ := List.mem_map.1 hi
    have hlt : j < ids.length := h.length ▸ h'.lt j hj
    rw [getD_eq_getElem _ _ hlt]
    exact h.lt _ (getElem_mem hlt)
  subset := List.Subset.trans h'.subset h.subset
  kept n hn hcols := h'.kept n hn (h.kept n hn hcols)
  found n hn hcols := by
    have hcols' := h.kept n hn hcols
    obtain ⟨k, hk⟩ := exists_idOf (h'.kept n hn hcols')
    obtain ⟨j, hj⟩ := exists_idOf hcols'
    have hids' := h'.found n hn hcols'
    rw [hk, bind_some, hj] at hids'
    have hids := h.found n hn hcols
    rw [hj, bind_some] at hids
    have hlt : j < ids.length := h.length ▸ idOf_lt hj
    rw [hk, bind_some, getElem?_map, hids', map_some, ← hids,
      getD_eq_getElem _ _ hlt, getElem?_eq_getElem hlt]

theorem append {a a' b b' : List N} (h : Narrows needed a a' ids) (h' : Narrows needed b b' ids') :
    Narrows needed (a ++ b) (a' ++ b') (ids ++ ids'.map (a.length + ·)) where
  length := by simp [h.length, h'.length]
  lt i hi := by
    rcases List.mem_append.1 hi with hi | hi
    · have := h.lt i hi
      simp only [length_append]
      omega
    · obtain ⟨j, hj, rfl⟩ := List.mem_map.1 hi
      have := h'.lt j hj
      simp only [length_append]
      omega
  subset := List.append_subset.2 ⟨fun _ hn => mem_append_left b (h.subset hn),
    fun _ hn => mem_append_right a (h'.subset hn)⟩
  kept n hn hcols := by
    rcases List.mem_append.1 hcols with hn' | hn'
    · exact mem_append_left b' (h.kept n hn hn')
    · exact mem_append_right a' (h'.kept n hn hn')
  found n hn hcols := by
    rw [idOf_append, idOf_append]
    -- a name that both sides have is looked up on the right
    by_cases hb : n ∈ b
    · obtain ⟨j, hj⟩ := exists_idOf (h'.kept n hn hb)
      have hfound := h'.found n hn hb
      rw [hj, bind_some] at hfound
      obtain ⟨i, hi⟩ := exists_idOf hb
      rw [hj, map_some, Option.some_or, bind_some, ← h.length,
        getElem?_append_right (Nat.le_add_right _ _), Nat.add_sub_cancel_left,
        getElem?_map, hfound, hi]
      rfl
    · have ha : n ∈ a := (List.mem_append.1 hcols).resolve_right hb
      have hb' : n ∉ b' := fun hmem => hb (h'.subset hmem)
      obtain ⟨j, hj⟩ := exists_idOf (h.kept n hn ha)
      have hfound := h.found n hn ha
      rw [hj, bind_some] at hfound
      rw [idOf_eq_none hb, idOf_eq_none hb', map_none, none_or, map_none,
        none_or, hj, bind_some,
        getElem?_append_left (h.length ▸ idOf_lt hj), hfound]

theorem map {M : Type} [DecidableEq M] {f : N → M} {needed : Set M}
    (h : Narrows {n | f n ∈ needed} cols cols' ids)
    (hf : ∀ x ∈ cols, ∀ y ∈ cols, f x = f y → x = y) :
    Narrows needed (cols.map f) (cols'.map f) ids where
  length := by rw [length_map, h.length]
  lt i hi := by
    rw [length_map]
    exact h.lt i hi
  subset := map_subset f h.subset
  kept m hm hcols := by
    obtain ⟨n, hn, rfl⟩ := List.mem_map.1 hcols
    exact mem_map_of_mem (h.kept n hm hn)
  found m hm hcols := by
    obtain ⟨n, hn, rfl⟩ := List.mem_map.1 hcols
    have hf' : ∀ x ∈ cols', ∀ y ∈ cols', f x = f y → x = y := fun x hx y hy =>
      hf x (h.subset hx) y (h.subset hy)
    rw [idOf_map hf' (h.kept n hm hn), idOf_map hf hn, h.found n hm hn]

/-- **What a needed name means in a narrowed row** is what it means in the whole row. -/
theorem find_eq (h : Narrows needed cols cols' ids) (null : V) {n : N} (hn : n ∈ needed) :
    (find null cols' n).map (fun g row => g (select null ids row)) = find null cols n := by
  by_cases hcols : n ∈ cols
  · obtain ⟨j, hj⟩ := exists_idOf (h.kept n hn hcols)
    have hfound := h.found n hn hcols
    obtain ⟨i, hi⟩ := exists_idOf hcols
    rw [hj, bind_some, hi] at hfound
    simp only [find, hj, hi, map_some]
    exact congrArg some (funext fun row => select_getD null row hfound)
  · have hcols' : n ∉ cols' := fun hmem => hcols (h.subset hmem)
    simp only [find, idOf_eq_none hcols, idOf_eq_none hcols', map_none]

end Narrows

end NamedColumns
