/-
Plans over well placed conditions: `GetLogicalPlan` succeeds when every operator of the conditions
can be planned, and what it builds tests exactly these conditions.

* **`Expr.getLogicalPlan_ok`** — an expression over the tables of the plans is planned;
* **`leafPlan_spec`**, **`joinPlan_inner_spec`**, **`fromListPlan_spec`** — the plan of a node tests
  its conditions.
-/
import ClaimsDB.FromClause

namespace PushDown

open List Finset

variable {V : Type}

/-! ### Expressions -/

variable {S T : Finset String} {e : Expr V} {M : Meaning V} {cs : List (SubExprInfo V)}
  {x : Rows.Joined String (Row V)}

theorem Expr.getLogicalPlan_ok (hd : Disjoint S T) (h : e.getRefTable ⊆ S ∪ T)
    (hs : e.supported = true) : e.getLogicalPlan S T = .ok e := by
  induction e with
  | column r c =>
    have hr : r ∈ S ∪ T := h (by simp [Expr.getRefTable])
    rw [Expr.getLogicalPlan]
    by_cases hS : r ∈ S
    · rw [if_pos hS, if_neg (disjoint_left.1 hd hS)]
    · rw [if_neg hS, if_pos ((mem_union.1 hr).resolve_left hS)]
  | const v => rfl
  | absent => rfl
  | and a b iha ihb | equal a b iha ihb =>
    obtain ⟨ha, hb⟩ := union_subset_iff.1 h
    obtain ⟨hsa, hsb⟩ := Bool.and_eq_true_iff.1 hs
    simp [Expr.getLogicalPlan, iha ha hsa, ihb hb hsb]
  | call op a b c iha ihb ihc =>
    obtain ⟨hab, hc⟩ := union_subset_iff.1 h
    obtain ⟨ha, hb⟩ := union_subset_iff.1 hab
    simp only [Expr.supported, Bool.and_eq_true, Option.isNone_iff_eq_none] at hs
    obtain ⟨hop, ⟨hsa, hsb⟩, hsc⟩ := hs
    simp [Expr.getLogicalPlan, hop, iha ha hsa, ihb hb hsb, ihc hc hsc]

def exprs (cs : List (SubExprInfo V)) : List (Expr V) := cs.map (·.subExpr)

@[simp] theorem exprs_append (cs ds : List (SubExprInfo V)) :
    exprs (cs ++ ds) = exprs cs ++ exprs ds := map_append

theorem holdsAll_exprs_iff :
    holdsAll M (exprs cs) x = true ↔ ∀ c ∈ cs, holds M c.subExpr x = true := by
  simp [holdsAll_iff, exprs]

/-- Every conjunct refers to tables of `T` only. -/
def Within (cs : List (SubExprInfo V)) (T : Finset String) : Prop :=
  ∀ c ∈ cs, c.subExpr.getRefTable ⊆ T

theorem Within.reads (h : Within cs T) (M : Meaning V) : Rows.Reads T (holdsAll M (exprs cs)) := by
  refine reads_holdsAll M fun e he => ?_
  obtain ⟨c, hc, rfl⟩ := List.mem_map.1 he
  exact h c hc

/-- Every operator of every expression can be planned. -/
def Supported (es : List (Expr V)) : Prop := ∀ e ∈ es, e.supported = true

theorem Supported.of_mem {ds : List (SubExprInfo V)} (h : Supported (exprs cs))
    (hsub : ∀ c ∈ ds, c ∈ cs) : Supported (exprs ds) := by
  intro e he
  obtain ⟨c, hc, rfl⟩ := List.mem_map.1 he
  exact h _ (mem_map_of_mem (hsub c hc))

theorem getJoinCondition_ok (hd : Disjoint S T) (h : Within cs (S ∪ T))
    (hs : Supported (exprs cs)) : getJoinCondition S T cs = .ok (exprs cs) := by
  induction cs with
  | nil => rfl
  | cons c cs ih =>
    rw [getJoinCondition, Expr.getLogicalPlan_ok hd (h c mem_cons_self) (hs _ mem_cons_self),
      ih (fun d hd => h d (mem_cons_of_mem _ hd)) fun e he => hs e (mem_cons_of_mem _ he)]
    rfl

/-! ### Equalities of two tables -/

def Spans (e : Expr V) (S T : Finset String) : Prop :=
  e.type = .isEqualCondition ∧ ¬ e.getRefTable ⊆ S ∧ ¬ e.getRefTable ⊆ T

theorem Expr.exists_columns (h : e.type = .isEqualCondition) :
    ∃ r0 c0 r1 c1, e = .equal (.column r0 c0) (.column r1 c1) := by
  have heq : e.isEqualJoinCondition = true := by
    unfold Expr.type getSubExprType at h
    split_ifs at h with _ _ h2
    exact h2.2
  unfold Expr.isEqualJoinCondition at heq
  split at heq
  · exact ⟨_, _, _, _, rfl⟩
  · cases heq

theorem equalJoinPair_spec (h : Spans e S T) (href : e.getRefTable ⊆ S ∪ T) :
    ∃ p, equalJoinPair S T e = .ok p ∧
      ∀ (M : Meaning V) (x : Rows.Joined String (Row V)), holds M e x = true →
        M.sameKey (columnValue M p.1.1 p.1.2 x) (columnValue M p.2.1 p.2.2 x) = true := by
  obtain ⟨htype, hS, hT⟩ := h
  obtain ⟨r0, c0, r1, c1, rfl⟩ := Expr.exists_columns htype
  have hrefs : (Expr.equal (V := V) (.column r0 c0) (.column r1 c1)).getRefTable = {r0, r1} := rfl
  rw [hrefs] at href hS hT
  simp only [insert_subset_iff, singleton_subset_iff, mem_union] at href hS hT
  by_cases h01 : r0 ∈ S ∧ r1 ∈ T
  · refine ⟨((r0, c0), (r1, c1)), by rw [equalJoinPair, if_pos h01], fun M x hx => ?_⟩
    exact (M.sameKey_of_equal _ _ hx).1
  · have h10 : r1 ∈ S ∧ r0 ∈ T := by tauto
    refine ⟨((r1, c1), (r0, c0)), by rw [equalJoinPair, if_neg h01, if_pos h10], fun M x hx => ?_⟩
    exact (M.sameKey_of_equal _ _ hx).2

theorem getEqualJoinPair_spec (h : ∀ c ∈ cs, Spans c.subExpr S T) (href : Within cs (S ∪ T)) :
    ∃ joinPair, getEqualJoinPair S T cs = .ok joinPair ∧
      ∀ (M : Meaning V) (x : Rows.Joined String (Row V)), holdsAll M (exprs cs) x = true →
        keysAgree M joinPair x = true := by
  induction cs with
  | nil => exact ⟨[], rfl, fun _ _ _ => rfl⟩
  | cons c cs ih =>
    obtain ⟨p, hp, hkey⟩ := equalJoinPair_spec (h c mem_cons_self) (href c mem_cons_self)
    obtain ⟨ps, hps, hkeys⟩ := ih (fun d hd => h d (mem_cons_of_mem _ hd))
      fun d hd => href d (mem_cons_of_mem _ hd)
    refine ⟨p :: ps, by rw [getEqualJoinPair, hp, hps]; rfl, fun M x hx => ?_⟩
    rw [holdsAll_exprs_iff] at hx
    have hrest : keysAgree M ps x = true :=
      hkeys M x (holdsAll_exprs_iff.2 fun d hd => hx d (mem_cons_of_mem _ hd))
    rw [keysAgree, all_cons, Bool.and_eq_true]
    exact ⟨hkey M x (hx c mem_cons_self), hrest⟩

theorem pairMatches_eq {joinPair : List (Column × Column)} {condition : List (Expr V)}
    (h : holdsAll M condition x = true → keysAgree M joinPair x = true) :
    pairMatches M joinPair condition x = holdsAll M condition x := by
  rw [pairMatches]
  cases hc : holdsAll M condition x with
  | false => simp
  | true => simp [h hc]

/-! ### Operators -/

def Plan.conditions : Plan V → List (Expr V)
  | .scan _ _ => []
  | .subquery _ p _ => p.conditions
  | .filter p c => p.conditions ++ c
  | .equalJoin _ l r c => l.conditions ++ r.conditions ++ c
  | .outerJoin _ l r _ c => l.conditions ++ r.conditions ++ c
  | .crossJoin l r c => l.conditions ++ r.conditions ++ c

theorem allOver_denote (M : Meaning V) (p : Plan V) : Rows.AllOver p.tables (denote M p) := by
  induction p with
  | scan a rows => exact Rows.allOver_map_single a rows
  | subquery a p finish _ => exact Rows.allOver_map_single a _
  | filter p c ih => exact ih.select _
  | equalJoin joinPair l r c ihl ihr => exact (ihl.product ihr).select _
  | outerJoin joinPair l r n c ihl ihr =>
    rw [denote]
    split_ifs with hn
    · exact Rows.allOver_fullOuter ihl ihr (Rows.over_padded _ _) (Rows.over_padded _ _)
    · exact Rows.allOver_rightOuter ihl ihr (Rows.over_padded _ _)
  | crossJoin l r c ihl ihr => exact (ihl.product ihr).select _

def Conditions.all (c : Conditions V) : List (SubExprInfo V) :=
  c.equalJoinCondition ++ c.normalCondition

/-- A plan for `cs` over given rows: it covers the tables `T`, tests `cs` after
`before`, and yields the rows that satisfy `cs`. -/
structure Tests (M : Meaning V) (plan : Plan V) (T : Finset String) (before : List (Expr V))
    (cs : List (SubExprInfo V)) (rows : Multiset (Rows.Joined String (Row V))) : Prop where
  tables : plan.tables = T
  conditions : plan.conditions.Perm (before ++ exprs cs)
  denotes : denote M plan = Rows.select (holdsAll M (exprs cs)) rows

theorem getFilterLogicalPlan_spec (M : Meaning V) (plan : Plan V) (h : Within cs plan.tables)
    (hs : Supported (exprs cs)) :
    ∃ q, getFilterLogicalPlan plan cs = .ok q ∧
      Tests M q plan.tables plan.conditions cs (denote M plan) := by
  cases cs with
  | nil =>
    refine ⟨plan, rfl, rfl, by simp [exprs], ?_⟩
    exact (Rows.select_eq_self fun _ _ => rfl).symm
  | cons c cs =>
    have hcond : getJoinCondition plan.tables ∅ (c :: cs) = .ok (exprs (c :: cs)) :=
      getJoinCondition_ok (disjoint_empty_right _) (by simpa using h) hs
    refine ⟨.filter plan (exprs (c :: cs)), ?_, rfl, List.Perm.refl _, rfl⟩
    rw [getFilterLogicalPlan, hcond]
    rfl

theorem leafPlan_spec (M : Meaning V) (plan : Plan V) {c : Conditions V}
    (hequal : c.equalJoinCondition = []) (h : Within c.normalCondition plan.tables)
    (hs : Supported (exprs c.normalCondition)) :
    ∃ q, leafPlan plan c = .ok q ∧
      Tests M q plan.tables plan.conditions c.all (denote M plan) := by
  rw [leafPlan, hequal, Conditions.all, hequal, nil_append]
  exact getFilterLogicalPlan_spec M plan h hs

section Joins

variable {M : Meaning V} {l r : Plan V} {c : Conditions V}

theorem matched_pairs (hcond : Within c.all (l.tables ∪ r.tables))
    (hspan : ∀ d ∈ c.equalJoinCondition, Spans d.subExpr l.tables r.tables) :
    ∃ joinPair, getEqualJoinPair l.tables r.tables c.equalJoinCondition = .ok joinPair ∧
      ∀ M, denote M (.equalJoin joinPair l r (exprs c.all))
        = Rows.matched (holdsAll M (exprs c.all)) (denote M l) (denote M r) := by
  obtain ⟨joinPair, hpair, hkeys⟩ := getEqualJoinPair_spec hspan
    fun d hd => hcond d (mem_append_left _ hd)
  refine ⟨joinPair, hpair, fun M => Rows.select_congr fun x _ => pairMatches_eq fun hx => ?_⟩
  rw [Conditions.all, exprs_append, holdsAll_append, Bool.and_eq_true] at hx
  exact hkeys M x hx.1

section

variable (hd : Disjoint l.tables r.tables) (hcond : Within c.all (l.tables ∪ r.tables))
  (hs : Supported (exprs c.all))
  (hspan : ∀ d ∈ c.equalJoinCondition, Spans d.subExpr l.tables r.tables)

include hd hcond hs hspan

theorem joinPlan_inner_spec :
    ∃ q, joinPlan .inner l r c = .ok q ∧
      Tests M q (l.tables ∪ r.tables) (l.conditions ++ r.conditions) c.all
        (Rows.product (denote M l) (denote M r)) := by
  have hnormal := getJoinCondition_ok hd (fun d hd => hcond d (mem_append_right _ hd))
    (hs.of_mem fun _ => mem_append_right _)
  have hequal := getJoinCondition_ok hd (fun d hd => hcond d (mem_append_left _ hd))
    (hs.of_mem fun _ => mem_append_left _)
  cases heq : c.equalJoinCondition with
  | nil =>
    have hall : c.all = c.normalCondition := by rw [Conditions.all, heq, nil_append]
    refine ⟨.crossJoin l r (exprs c.all), ?_, rfl, List.Perm.refl _, rfl⟩
    rw [joinPlan, heq, hall]
    simp [hnormal]
  | cons d ds =>
    obtain ⟨joinPair, hpair, hden⟩ := matched_pairs hcond hspan
    refine ⟨.equalJoin joinPair l r (exprs c.all), ?_, rfl, List.Perm.refl _, hden M⟩
    rw [heq] at hequal hpair
    rw [joinPlan, heq]
    simp [hequal, hnormal, hpair, JoinType.outerNumber, Conditions.all, heq, exprs]

theorem fromListPlan_spec {n : Option ℕ} (hn : n = none ∨ c.equalJoinCondition = []) :
    ∃ q, fromListPlan n l r c = .ok q ∧
      Tests M q (l.tables ∪ r.tables) (l.conditions ++ r.conditions) c.all
        (Rows.product (denote M l) (denote M r)) := by
  have hcond' : Within c.all (r.tables ∪ l.tables) := by rwa [union_comm]
  have hnormal := getJoinCondition_ok hd.symm (fun d hd => hcond' d (mem_append_right _ hd))
    (hs.of_mem fun _ => mem_append_right _)
  have hequal := getJoinCondition_ok hd.symm (fun d hd => hcond' d (mem_append_left _ hd))
    (hs.of_mem fun _ => mem_append_left _)
  cases heq : c.equalJoinCondition with
  | nil =>
    -- the cross join has its inputs the other way round
    have hall : c.all = c.normalCondition := by rw [Conditions.all, heq, nil_append]
    refine ⟨.crossJoin r l (exprs c.all), ?_, union_comm _ _, ?_, ?_⟩
    · rw [fromListPlan, heq, hall]
      simp [hnormal]
    · exact List.perm_append_comm.append_right _
    · rw [Rows.product_comm (allOver_denote M l) (allOver_denote M r) hd]
      rfl
  | cons d ds =>
    obtain rfl := hn.resolve_right (by simp [heq])
    obtain ⟨joinPair, hpair, hden⟩ := matched_pairs hcond hspan
    refine ⟨.equalJoin joinPair l r (exprs c.all), ?_, rfl, List.Perm.refl _, hden M⟩
    rw [heq] at hequal hpair
    rw [fromListPlan, heq]
    simp [hequal, hnormal, hpair, Conditions.all, heq, exprs]

end

end Joins

end PushDown
