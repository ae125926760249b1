/-
The flags of the push-down: a conjunct goes to the first node that finds its flag down and all its
tables there.

* **`pushDown_grows`** — what a push-down does to the flags.
-/
import ClaimsDB.FromClause

namespace PushDown

open List

variable {V : Type}

structure Known (infos : List (SubExprInfo V)) (h : Flags) : Prop where
  nodup : (infos.map (·.id)).Nodup
  lt_next : ∀ c ∈ infos, c.id < h.next

def Flags.Valid (h : Flags) : Prop := ∀ i ∈ h.isSet, i < h.next

/-- From `h` to `h'` flags were raised, of old conjuncts only those offered. -/
structure Grows (infos : List (SubExprInfo V)) (h h' : Flags) : Prop where
  next_le : h.next ≤ h'.next
  valid : h'.Valid
  subset : h.isSet ⊆ h'.isSet
  old : ∀ i ∈ h'.isSet, i < h.next → i ∈ h.isSet ∨ ∃ c ∈ infos, c.id = i

variable {h : Flags} {infos : List (SubExprInfo V)} {h' : Flags} {c : SubExprInfo V}
  {T : Finset String} {e : Option (Expr V)} {infos' : List (SubExprInfo V)}

theorem Grows.trans {h'' : Flags} (h1 : Grows infos h h') (h2 : Grows infos h' h'') :
    Grows infos h h'' where
  next_le := h1.next_le.trans h2.next_le
  valid := h2.valid
  subset := h1.subset.trans h2.subset
  old := fun i hi hlt => by
    obtain hi' | hc := h2.old i hi (hlt.trans_le h1.next_le)
    · exact h1.old i hi' hlt
    · exact .inr hc

theorem Known.mono (hk : Known infos h) (hle : h.next ≤ h'.next) : Known infos h' :=
  ⟨hk.nodup, fun c hc => (hk.lt_next c hc).trans_le hle⟩

theorem Known.eq_of_id_eq (hk : Known infos h) {d : SubExprInfo V} (hc : c ∈ infos)
    (hd : d ∈ infos) (hid : c.id = d.id) : c = d :=
  inj_on_of_nodup_map hk.nodup hc hd hid

/-! ### One node -/

def taken (fromTables : Finset String) (infos : List (SubExprInfo V)) (h : Flags) :
    List (SubExprInfo V) :=
  infos.filter fun i => i.id ∉ h.isSet ∧ i.subExpr.getRefTable ⊆ fromTables

theorem mem_taken :
    c ∈ taken T infos h ↔ c ∈ infos ∧ c.id ∉ h.isSet ∧ c.subExpr.getRefTable ⊆ T := by
  simp [taken]

def sorted (cs : List (SubExprInfo V)) : Conditions V :=
  ⟨cs.filter fun i => i.subExpr.type = .isEqualCondition,
    cs.filter fun i => ¬ i.subExpr.type = .isEqualCondition⟩

theorem sorted_cons (i : SubExprInfo V) (cs : List (SubExprInfo V)) :
    sorted (i :: cs) = (sorted cs).push i := by
  by_cases hi : i.subExpr.type = .isEqualCondition <;> simp [sorted, Conditions.push, hi]

def Flags.raise (h : Flags) (cs : List (SubExprInfo V)) : Flags :=
  { h with isSet := h.isSet ∪ (cs.map (·.id)).toFinset }

@[simp] theorem mem_raise {cs : List (SubExprInfo V)} {i : ℕ} :
    i ∈ (h.raise cs).isSet ↔ i ∈ h.isSet ∨ ∃ c ∈ cs, c.id = i := by
  simp [Flags.raise]

theorem setCondition_spec (T : Finset String) (infos : List (SubExprInfo V)) (h : Flags)
    (hnd : (infos.map (·.id)).Nodup) :
    setCondition T infos h = (sorted (taken T infos h), h.raise (taken T infos h)) := by
  induction infos generalizing h with
  | nil => simp [setCondition, taken, sorted, Conditions.none, Flags.raise]
  | cons i is ih =>
    obtain ⟨hni, hnd⟩ := nodup_cons.1 hnd
    by_cases hi : i.id ∉ h.isSet ∧ i.subExpr.getRefTable ⊆ T
    · -- the flag just raised is none of the rest, so the rest is taken as before
      have hrest : taken T is { h with isSet := insert i.id h.isSet } = taken T is h := by
        refine filter_congr fun c hc => ?_
        have hne : c.id ≠ i.id :=
          fun he => hni (mem_map.2 ⟨c, hc, he⟩)
        simp [hne]
      have htaken : taken T (i :: is) h = i :: taken T is h := by simp [taken, hi]
      rw [setCondition, if_pos hi, ih _ hnd, hrest, htaken, sorted_cons]
      simp [Flags.raise, Finset.insert_union, Finset.union_insert]
    · have htaken : taken T (i :: is) h = taken T is h := filter_cons_of_neg (by simpa using hi)
      rw [setCondition, if_neg hi, ih h hnd, htaken]

theorem grows_raise (hv : h.Valid) (hk : Known infos h) :
    Grows infos h (h.raise (taken T infos h)) where
  next_le := le_rfl
  valid := fun i hi => by
    obtain hi | ⟨c, hc, rfl⟩ := mem_raise.1 hi
    · exact hv i hi
    · exact hk.lt_next c (mem_taken.1 hc).1
  subset := fun i hi => mem_raise.2 (.inl hi)
  old := fun i hi _ => by
    obtain hi | ⟨c, hc, rfl⟩ := mem_raise.1 hi
    · exact .inl hi
    · exact .inr ⟨c, (mem_taken.1 hc).1, rfl⟩

/-! ### New conjuncts -/

theorem map_subExpr_getSubExprInfo (e : Option (Expr V)) (h : Flags) :
    (getSubExprInfo e h).1.map (·.subExpr) = conjuncts e := by
  rw [getSubExprInfo]
  refine ext_getElem? fun i => ?_
  simp [Function.comp_def]

theorem mem_getSubExprInfo (hc : c ∈ (getSubExprInfo e h).1) :
    c.subExpr ∈ conjuncts e ∧ h.next ≤ c.id ∧ c.id < (getSubExprInfo e h).2.next := by
  obtain ⟨i, hi, rfl⟩ := mem_mapIdx.1 hc
  exact ⟨getElem_mem _, Nat.le_add_right _ _, Nat.add_lt_add_left hi _⟩

theorem nodup_getSubExprInfo (e : Option (Expr V)) (h : Flags) :
    ((getSubExprInfo e h).1.map (·.id)).Nodup := by
  have hids : (getSubExprInfo e h).1.map (·.id)
      = (range (conjuncts e).length).map (h.next + ·) := by
    rw [getSubExprInfo]
    refine ext_getElem? fun i => ?_
    by_cases hi : i < (conjuncts e).length
    · simp [hi]
    · simp [hi]
  rw [hids]
  exact nodup_range.map fun a b hab => Nat.add_left_cancel hab

theorem Known.fresh (e : Option (Expr V)) (h : Flags) :
    Known (getSubExprInfo e h).1 (getSubExprInfo e h).2 :=
  ⟨nodup_getSubExprInfo e h, fun _ hc => (mem_getSubExprInfo hc).2.2⟩

theorem Flags.Valid.getSubExprInfo (hv : h.Valid) (e : Option (Expr V)) :
    (getSubExprInfo e h).2.Valid :=
  fun i hi => (hv i hi).trans_le (Nat.le_add_right _ _)

theorem Known.with_fresh (hk : Known infos h) (e : Option (Expr V)) :
    Known (infos ++ (getSubExprInfo e h).1) (getSubExprInfo e h).2 where
  nodup := by
    rw [map_append]
    refine hk.nodup.append (nodup_getSubExprInfo e h) ?_
    intro i hi hi'
    obtain ⟨c, hc, rfl⟩ := mem_map.1 hi
    obtain ⟨d, hd, hcd⟩ := mem_map.1 hi'
    have := hk.lt_next c hc
    have := (mem_getSubExprInfo hd).2.1
    omega
  lt_next := forall_mem_append.2
    ⟨fun c hc => (hk.lt_next c hc).trans_le (Nat.le_add_right _ _),
      fun _ hc => (mem_getSubExprInfo hc).2.2⟩

theorem fresh_not_set (hv : h.Valid) (hc : c ∈ (getSubExprInfo e h).1) :
    c.id ∉ (getSubExprInfo e h).2.isSet := by
  intro hset
  have := hv c.id hset
  have := (mem_getSubExprInfo hc).2.1
  omega

theorem Grows.before_fresh
    (hg : Grows (infos ++ (getSubExprInfo e h).1) (getSubExprInfo e h).2 h') :
    Grows infos h h' where
  next_le := (Nat.le_add_right _ _).trans hg.next_le
  valid := hg.valid
  subset := hg.subset
  old := fun i hi hlt => by
    obtain hi | ⟨c, hc, rfl⟩ := hg.old i hi (hlt.trans_le (Nat.le_add_right _ _))
    · exact .inl hi
    · obtain hc | hc := mem_append.1 hc
      · exact .inr ⟨c, hc, rfl⟩
      · exact absurd hlt (Nat.not_lt.2 (mem_getSubExprInfo hc).2.1)

theorem Grows.mono (hg : Grows infos h h') (hsub : ∀ c ∈ infos, c ∈ infos') :
    Grows infos' h h' where
  next_le := hg.next_le
  valid := hg.valid
  subset := hg.subset
  old := fun i hi hlt => (hg.old i hi hlt).imp_right fun ⟨c, hc, hid⟩ => ⟨c, hsub c hc, hid⟩

/-! ### The whole push-down -/

theorem setCondition_grows (hv : h.Valid) (hk : Known infos h) (T : Finset String) :
    Grows infos h (setCondition T infos h).2 := by
  rw [setCondition_spec T infos h hk.nodup]
  exact grows_raise hv hk

theorem placeOuter_grows {t : JoinType} {left : Placed V × Finset String × Flags} {right : From V}
    (hg : Grows (getSubExprInfo e h).1 (getSubExprInfo e h).2 left.2.2) :
    Grows infos' h (placeOuter t left right (getSubExprInfo e h).1 infos).2.2 := by
  have hset := setCondition_grows hg.valid ((Known.fresh e h).mono hg.next_le)
    (left.2.1 ∪ tableAliasOf right)
  have hall := hg.trans hset
  exact (hall.mono fun c hc => mem_append_right infos' hc).before_fresh

theorem pushDown_grows (f : From V) (hv : h.Valid) (hk : Known infos h) :
    Grows infos h (pushDown f infos h).2.2 := by
  induction f generalizing infos h with
  | table a rows => exact setCondition_grows hv hk {a}
  | subquery a f w finish ih =>
    -- the conjuncts of the subquery are all new
    have hinner := ((ih (hv.getSubExprInfo w) (Known.fresh w h)).mono fun c hc =>
      mem_append_right infos hc).before_fresh
    exact hinner.trans (setCondition_grows hinner.valid (hk.mono hinner.next_le) {a})
  | join t l r on ihl ihr =>
    cases t with
    | inner =>
      have hk' := hk.with_fresh on
      have hl := ihl (hv.getSubExprInfo on) hk'
      have hr := ihr hl.valid (hk'.mono hl.next_le)
      have hlr := hl.trans hr
      have hset := setCondition_grows hlr.valid (hk'.mono hlr.next_le)
      exact (hlr.trans (hset _)).before_fresh
    | straight => exact ⟨le_rfl, hv, subset_rfl, fun i hi _ => .inl hi⟩
    | left => exact placeOuter_grows (ihr (hv.getSubExprInfo on) (Known.fresh on h))
    | right | full => exact placeOuter_grows (ihl (hv.getSubExprInfo on) (Known.fresh on h))
  | fromList a n iha ihn =>
    have ha := iha hv hk
    have hn := ihn ha.valid (hk.mono ha.next_le)
    have han := ha.trans hn
    exact han.trans (setCondition_grows han.valid (hk.mono han.next_le) _)
  | lastFrom a ih =>
    have ha := ih hv hk
    exact ha.trans (setCondition_grows ha.valid (hk.mono ha.next_le) _)

end PushDown
