/-
Conditions of outer joins.  The push-down visits `left_table_` with the conjuncts of ON and leaves
`right_table_`, the preserved side, alone; other conjuncts of ON end up in a filter over the join,
and so do all conjuncts from above.

* **`outer_conditions_misplaced`** — rows that the plan loses, and conditions that it drops;
* **`outer_joins_keep_sql`** — statements whose plan gives the rows of SQL.
-/
import ClaimsDB.InnerJoins

namespace PushDown

open Run (bind_eq_ok)
open Finset (union_comm union_subset)

variable {V : Type}

/-! ### Where the meaning is lost -/

/-- `FROM a LEFT JOIN b ON a.x = b.x AND a.y < 5`. -/
def leftJoinBelow : From (Option ℕ) :=
  .lastFrom (.join .left tableA tableB (some (.and (sameX "a" "b") (yBelow "a" 5))))

/-- `FROM a LEFT JOIN b ON a.x = b.x LEFT JOIN c ON a.x = c.x`. -/
def leftJoinTwice : From (Option ℕ) :=
  .lastFrom (.join .left (.join .left tableA tableB (some (sameX "a" "b")))
    (.table "c" {rowXY 1 1, rowXY 4 4}) (some (sameX "a" "c")))

theorem tables_unvisited (f : From V) : (unvisited f).tables = f.tables := by
  induction f with
  | table a rows => rfl
  | subquery a f w finish _ => rfl
  | join t l r on ihl ihr =>
    cases t <;> simp [unvisited, Placed.tables, From.tables, ihl, ihr, union_comm]
  | fromList a n iha ihn => simp [unvisited, Placed.tables, From.tables, iha, ihn]
  | lastFrom a ih => exact ih

theorem tables_pushDown (f : From V) (infos : List (SubExprInfo V)) (h : Flags) :
    (pushDown f infos h).1.tables = f.tables := by
  induction f generalizing infos h with
  | table a rows => rfl
  | subquery a f w finish _ => rfl
  | join t l r on ihl ihr =>
    cases t with
    | inner => simp [pushDown, Placed.tables, From.tables, ihl, ihr]
    | straight => simp [pushDown, Placed.tables, From.tables, tables_unvisited]
    | left =>
      simp [pushDown, placeOuter, Placed.tables, From.tables, ihr, tables_unvisited,
        union_comm]
    | right | full =>
      simp [pushDown, placeOuter, Placed.tables, From.tables, ihl, tables_unvisited]
  | fromList a n iha ihn => simp [pushDown, Placed.tables, From.tables, iha, ihn]
  | lastFrom a ih => exact ih infos h

variable {p q : Plan V} {cs : List (SubExprInfo V)} {t : JoinType} {l r : Plan V}
  {c : Conditions V} {S T : Finset String} {infos : List (SubExprInfo V)} {h : Flags}

theorem tables_of_filter (h : getFilterLogicalPlan p cs = .ok q) : q.tables = p.tables := by
  cases cs with
  | nil => rw [← Except.ok.inj h]
  | cons c cs =>
    obtain ⟨es, -, h⟩ := bind_eq_ok h
    rw [← Except.ok.inj h]
    rfl

theorem tables_of_join (h : joinPlan t l r c = .ok q) : q.tables = l.tables ∪ r.tables := by
  unfold joinPlan at h
  split at h
  · obtain ⟨es, -, h⟩ := bind_eq_ok h
    rw [← Except.ok.inj h]
    rfl
  · obtain ⟨es, -, h⟩ := bind_eq_ok h
    split at h
    · obtain ⟨es', -, h⟩ := bind_eq_ok h
      obtain ⟨joinPair, -, h⟩ := bind_eq_ok h
      rw [← Except.ok.inj h]
      rfl
    · obtain ⟨joinPair, -, h⟩ := bind_eq_ok h
      rw [tables_of_filter h]
      rfl

theorem tables_of_fromList {n : Option ℕ} (h : fromListPlan n l r c = .ok q) :
    q.tables = l.tables ∪ r.tables := by
  unfold fromListPlan at h
  split at h
  · obtain ⟨es, -, h⟩ := bind_eq_ok h
    rw [← Except.ok.inj h]
    exact union_comm _ _
  · obtain ⟨joinPair, -, h⟩ := bind_eq_ok h
    obtain ⟨es, -, es', -, h⟩ := Run.bind₂_eq_ok h
    split at h <;>
    · rw [← Except.ok.inj h]
      rfl

theorem tables_of_leaf (h : leafPlan p c = .ok q) : q.tables = p.tables := by
  unfold leafPlan at h
  split at h
  · exact tables_of_filter h
  · cases h

theorem tables_of_plan {p : Placed V} (h : p.getLogicalPlan = .ok q) : q.tables = p.tables := by
  induction p generalizing q with
  | table a rows c => exact tables_of_leaf h
  | subquery a f finish c _ =>
    obtain ⟨child, -, h⟩ := bind_eq_ok h
    exact tables_of_leaf h
  | join t l r c ihl ihr =>
    obtain ⟨left, hleft, right, hright, h⟩ := Run.bind₂_eq_ok h
    split_ifs at h
    rw [tables_of_join h, ihl hleft, ihr hright]
    rfl
  | fromList a n c iha ihn =>
    obtain ⟨args, hargs, next, hnext, h⟩ := Run.bind₂_eq_ok h
    rw [tables_of_fromList h, iha hargs, ihn hnext]
    rfl
  | lastFrom a c ih => exact ih h

theorem Expr.within_of_getLogicalPlan {e e' : Expr V} (h : e.getLogicalPlan S T = .ok e') :
    e.getRefTable ⊆ S ∪ T := by
  induction e generalizing e' with
  | column r c =>
    rw [Expr.getLogicalPlan] at h
    rw [Expr.getRefTable, Finset.singleton_subset_iff, Finset.mem_union]
    split_ifs at h with hS hT hT
    · exact .inl hS
    · exact .inr hT
  | const v | absent => exact Finset.empty_subset _
  | and a b iha ihb | equal a b iha ihb =>
    obtain ⟨a', ha, b', hb, h⟩ := Run.bind₂_eq_ok h
    exact union_subset (iha ha) (ihb hb)
  | call op a b c iha ihb ihc =>
    obtain ⟨-, a', ha, b', hb, c', hc, -⟩ := Expr.call_of_getLogicalPlan h
    exact union_subset (union_subset (iha ha) (ihb hb)) (ihc hc)

theorem within_of_getJoinCondition {es : List (Expr V)} (h : getJoinCondition S T cs = .ok es) :
    Within cs (S ∪ T) := by
  induction cs generalizing es with
  | nil => exact fun c hc => nomatch hc
  | cons c cs ih =>
    obtain ⟨e, he, es', hes, h⟩ := Run.bind₂_eq_ok h
    exact List.forall_mem_cons.2 ⟨Expr.within_of_getLogicalPlan he, ih hes⟩

theorem within_of_filter (h : getFilterLogicalPlan p cs = .ok q) : Within cs p.tables := by
  cases cs with
  | nil => exact fun c hc => nomatch hc
  | cons c cs =>
    obtain ⟨es, hes, -⟩ := bind_eq_ok h
    simpa using within_of_getJoinCondition hes

theorem normal_within_of_join {n : ℕ} (ht : t.outerNumber = some n) (h : joinPlan t l r c = .ok q) :
    Within c.normalCondition (l.tables ∪ r.tables) := by
  unfold joinPlan at h
  split at h
  · obtain ⟨es, hes, -⟩ := bind_eq_ok h
    exact within_of_getJoinCondition hes
  · obtain ⟨es, -, h⟩ := bind_eq_ok h
    split at h
    · rename_i hnum
      rw [ht] at hnum
      cases hnum
    · obtain ⟨joinPair, -, h⟩ := bind_eq_ok h
      exact within_of_filter h

def From.AboveWithin : From V → List (Expr V) → Prop
  | .table _ _, _ => True
  | .subquery _ f w _, _ => f.AboveWithin (conjuncts w)
  | .join .inner l r on, above =>
    l.AboveWithin (above ++ conjuncts on) ∧ r.AboveWithin (above ++ conjuncts on)
  | .join .straight _ _ _, _ => False
  | .join .left l r on, above =>
    (∀ e ∈ above, e.getRefTable ⊆ l.tables ∪ r.tables) ∧ r.AboveWithin (conjuncts on)
  | .join .right l r on, above =>
    (∀ e ∈ above, e.getRefTable ⊆ l.tables ∪ r.tables) ∧ l.AboveWithin (conjuncts on)
  | .join .full l r on, above =>
    (∀ e ∈ above, e.getRefTable ⊆ l.tables ∪ r.tables) ∧ l.AboveWithin (conjuncts on)
  | .fromList a n, above => a.AboveWithin above ∧ n.AboveWithin above
  | .lastFrom a, above => a.AboveWithin above

theorem above_of_placeOuter {n : ℕ} (ht : t.outerNumber = some n) {a b : From V} {onInfos : List (SubExprInfo V)}
    (hq : (placeOuter t (pushDown a onInfos h) b onInfos infos).1.getLogicalPlan = .ok q) :
    (∀ e ∈ exprs infos, e.getRefTable ⊆ a.tables ∪ b.tables) ∧
      ∃ left, (pushDown a onInfos h).1.getLogicalPlan = .ok left := by
  obtain ⟨left, hleft, right, hright, hq⟩ := Run.bind₂_eq_ok hq
  split_ifs at hq
  have hwithin := normal_within_of_join ht hq
  rw [tables_of_plan hleft, tables_of_plan hright, tables_pushDown, tables_unvisited] at hwithin
  refine ⟨fun e he => ?_, left, hleft⟩
  obtain ⟨c, hc, rfl⟩ := List.mem_map.1 he
  exact hwithin c (List.mem_append_right _ hc)

theorem aboveWithin_of_pushDown (f : From V) (hq : (pushDown f infos h).1.getLogicalPlan = .ok q) :
    f.AboveWithin (exprs infos) := by
  induction f generalizing infos h q with
  | table a rows => trivial
  | subquery a f w finish ih =>
    obtain ⟨child, hchild, -⟩ := bind_eq_ok hq
    have hin := ih hchild
    rwa [exprs_getSubExprInfo] at hin
  | join t l r on ihl ihr =>
    cases t with
    | inner =>
      obtain ⟨left, hleft, right, hright, -⟩ := Run.bind₂_eq_ok hq
      have hl := ihl hleft
      have hr := ihr hright
      rw [exprs_append, exprs_getSubExprInfo] at hl hr
      exact ⟨hl, hr⟩
    | straight =>
      obtain ⟨left, -, right, -, hq⟩ := Run.bind₂_eq_ok hq
      rw [if_pos rfl] at hq
      cases hq
    | left =>
      obtain ⟨habove, left, hleft⟩ := above_of_placeOuter rfl hq
      have hin := ihr hleft
      rw [exprs_getSubExprInfo] at hin
      rw [union_comm] at habove
      exact ⟨habove, hin⟩
    | right | full =>
      obtain ⟨habove, left, hleft⟩ := above_of_placeOuter rfl hq
      have hin := ihl hleft
      rw [exprs_getSubExprInfo] at hin
      exact ⟨habove, hin⟩
  | fromList a n iha ihn =>
    obtain ⟨args, hargs, next, hnext, -⟩ := Run.bind₂_eq_ok hq
    exact ⟨iha hargs, ihn hnext⟩
  | lastFrom a ih => exact ih hq

theorem aboveWithin_of_planned {f : From V} {w : Option (Expr V)} {plan : Plan V}
    (h : selectPlan f w = .ok plan) : f.AboveWithin (conjuncts w) := by
  have hin := aboveWithin_of_pushDown f h
  rwa [exprs_getSubExprInfo] at hin

/-! ### Where the meaning is kept -/

/-- `FROM a LEFT JOIN b ON a.x = b.x`. -/
def leftJoinAB : From (Option ℕ) := .lastFrom (.join .left tableA tableB (some (sameX "a" "b")))

end PushDown
