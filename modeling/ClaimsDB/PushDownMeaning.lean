/-
The rows that the plan of a FROM clause denotes: those that SQL gives to the node, cut down by some
of the conjuncts offered (`Outcome.applied`).  A conjunct whose flag the node raised is among them,
and one whose flag is still down was tested below an outer join.

* **`pushDown_outcome`** — the outcome of every node, by induction over the tree;
* **`selectPlan_denotes`** — the plan of a whole statement denotes the rows of SQL.
-/
import ClaimsDB.PushDownFlags
import ClaimsDB.PushDownPlans

namespace PushDown

open List
open Rows (Joined product)

variable {V : Type}

/-- The conjuncts of all clauses. -/
def From.clauses : From V → List (Expr V)
  | .table _ _ => []
  | .subquery _ f w _ => conjuncts w ++ f.clauses
  | .join _ l r on => conjuncts on ++ (l.clauses ++ r.clauses)
  | .fromList a n => a.clauses ++ n.clauses
  | .lastFrom a => a.clauses

/-! ### The outer joins that are planned right -/

def From.FlatInner : From V → Prop
  | .table _ _ => True
  | .subquery _ _ _ _ => True
  | .join t l r _ => t = .inner ∧ l.FlatInner ∧ r.FlatInner
  | .fromList a n => a.FlatInner ∧ n.FlatInner
  | .lastFrom a => a.FlatInner

def From.IsTable : From V → Prop
  | .table _ _ => True
  | _ => False

/-- `b` is a table, `a` has no outer join, and all conjuncts are about this join alone. -/
structure OuterKept (t : JoinType) (a b : From V) (on : Option (Expr V))
    (above : List (Expr V)) (joined : Bool) : Prop where
  isTable : b.IsTable
  flatInner : a.FlatInner
  hasEquality : ∃ e ∈ conjuncts on, Spans e a.tables b.tables
  onConjuncts : ∀ e ∈ conjuncts on,
    Spans e a.tables b.tables ∨ t ≠ .full ∧ e.getRefTable ⊆ a.tables
  aboveWithin : ∀ e ∈ above, e.getRefTable ⊆ a.tables ∪ b.tables
  aboveNormal : joined = true → ∀ e ∈ above, e.type ≠ .isEqualCondition

def From.Kept : From V → List (Expr V) → Bool → Prop
  | .table _ _, _, _ => True
  | .subquery _ f w _, _, _ => f.Kept (conjuncts w) false
  | .join .inner l r on, above, _ =>
    l.Kept (above ++ conjuncts on) true ∧ r.Kept (above ++ conjuncts on) true
  | .join .straight _ _ _, _, _ => False
  | .join .left l r on, above, joined =>
    OuterKept .left r l on above joined ∧ r.Kept (conjuncts on) true
  | .join .right l r on, above, joined =>
    OuterKept .right l r on above joined ∧ l.Kept (conjuncts on) true
  | .join .full l r on, above, joined =>
    OuterKept .full l r on above joined ∧ l.Kept (conjuncts on) true
  | .fromList a n, above, _ => a.Kept above true ∧ n.Kept above true
  | .lastFrom a, above, _ => a.Kept above false

/-! ### What the push-down into a node leads to -/

/-- The plan of a node that was offered `infos`, and the conjuncts that it
tests. -/
structure Outcome (M : Meaning V) (f : From V) (infos : List (SubExprInfo V)) (h : Flags)
    (joined : Bool) (plan : Plan V) (applied : List (SubExprInfo V)) : Prop where
  planned : (pushDown f infos h).1.getLogicalPlan = .ok plan
  tables : (pushDown f infos h).2.1 = f.tables
  planTables : plan.tables = f.tables
  appliedMem : ∀ c ∈ applied, c ∈ infos
  appliedWithin : Within applied f.tables
  denotes : denote M plan = Rows.select (holdsAll M (exprs applied)) (sql M f)
  of_set : ∀ c ∈ infos, c.id ∉ h.isSet → c.id ∈ (pushDown f infos h).2.2.isSet → c ∈ applied
  of_unset : ∀ c ∈ infos, c.id ∉ (pushDown f infos h).2.2.isSet →
    c.subExpr.getRefTable ⊆ f.tables →
    ¬ f.FlatInner ∧ c ∈ applied ∧ (joined = true → c.subExpr.type ≠ .isEqualCondition)

variable {cs : List (SubExprInfo V)} {c : SubExprInfo V} {a : String} {f : From V}
  {infos : List (SubExprInfo V)} {h : Flags}

theorem mem_sorted_all : c ∈ (sorted cs).all ↔ c ∈ cs := by
  by_cases hc : c.subExpr.type = .isEqualCondition <;> simp [sorted, Conditions.all, hc]

theorem mem_sorted_equal :
    c ∈ (sorted cs).equalJoinCondition ↔ c ∈ cs ∧ c.subExpr.type = .isEqualCondition := by
  simp [sorted]

theorem holdsAll_exprs_congr (M : Meaning V) {ds : List (SubExprInfo V)}
    (h : ∀ c, c ∈ cs ↔ c ∈ ds) (x : Joined String (Row V)) :
    holdsAll M (exprs cs) x = holdsAll M (exprs ds) x := by
  rw [Bool.eq_iff_iff, holdsAll_exprs_iff, holdsAll_exprs_iff]
  exact forall_congr' fun c => by rw [h c]

theorem exprs_getSubExprInfo (e : Option (Expr V)) (h : Flags) :
    exprs (getSubExprInfo e h).1 = conjuncts e := map_subExpr_getSubExprInfo e h

theorem holdsClause_eq_exprs (M : Meaning V) (e : Option (Expr V)) (h : Flags)
    (x : Joined String (Row V)) :
    holdsClause M e x = holdsAll M (exprs (getSubExprInfo e h).1) x := by
  rw [holdsClause_eq_all, exprs_getSubExprInfo]

theorem within_taken (T : Finset String) (infos : List (SubExprInfo V)) (h : Flags) :
    Within (taken T infos h) T := fun _ hc => (mem_taken.1 hc).2.2

theorem Expr.card_getRefTable {e : Expr V} (h : e.type = .isEqualCondition) :
    e.getRefTable.card = 2 := by
  unfold Expr.type getSubExprType at h
  split_ifs at h with _ _ h2
  exact h2.1

theorem sorted_equal_of_single (h : Within cs {a}) : (sorted cs).equalJoinCondition = [] := by
  refine List.eq_nil_iff_forall_not_mem.2 fun c hc => ?_
  obtain ⟨hc, htype⟩ := mem_sorted_equal.1 hc
  have hcard := Finset.card_le_card (h c hc)
  rw [Expr.card_getRefTable htype, Finset.card_singleton] at hcard
  omega

/-! ### Tables and subqueries -/

theorem supported_sorted_taken (hs : Supported (exprs infos)) (T : Finset String) (h : Flags) :
    Supported (exprs (sorted (taken T infos h)).all) :=
  hs.of_mem fun _ hc => (mem_taken.1 (mem_sorted_all.1 hc)).1

theorem leaf_outcome (M : Meaning V) {p : Plan V} (hp : p.tables = {a})
    {infos : List (SubExprInfo V)} (hs : Supported (exprs infos)) (h : Flags) :
    ∃ plan, leafPlan p (sorted (taken {a} infos h)) = .ok plan ∧ plan.tables = {a} ∧
      denote M plan
        = Rows.select (holdsAll M (exprs (taken {a} infos h))) (denote M p) := by
  have hwithin : Within (sorted (taken {a} infos h)).normalCondition p.tables := by
    rw [hp]
    exact fun c hc => within_taken _ _ _ c (mem_sorted_all.1 (mem_append_right _ hc))
  obtain ⟨plan, hplan, htests⟩ := leafPlan_spec M p
    (sorted_equal_of_single (within_taken {a} infos h)) hwithin
    ((supported_sorted_taken hs {a} h).of_mem fun _ => mem_append_right _)
  refine ⟨plan, hplan, htests.tables.trans hp, ?_⟩
  rw [htests.denotes]
  exact Rows.select_congr fun x _ => holdsAll_exprs_congr M (fun _ => mem_sorted_all) x

theorem table_outcome (M : Meaning V) (a : String) (rows : Multiset (Row V)) (hk : Known infos h)
    (hs : Supported (exprs infos)) (joined : Bool) :
    ∃ plan applied, Outcome M (.table a rows) infos h joined plan applied := by
  obtain ⟨plan, hplan, htables, hden⟩ := leaf_outcome M (p := .scan a rows) rfl hs h
  have hset := setCondition_spec {a} infos h hk.nodup
  refine ⟨plan, taken {a} infos h, ?_, rfl, htables, fun c hc => (mem_taken.1 hc).1,
    within_taken _ _ _, hden, ?_, ?_⟩
  · rw [pushDown, hset]
    exact hplan
  · intro c hc hunset hraised
    rw [pushDown, hset] at hraised
    obtain hold | ⟨d, hd, hid⟩ := mem_raise.1 hraised
    · exact absurd hold hunset
    · rwa [← hk.eq_of_id_eq (mem_taken.1 hd).1 hc hid]
  · intro c hc hunset href
    rw [pushDown, hset] at hunset
    refine absurd (mem_raise.2 (.inr ⟨c, mem_taken.2 ⟨hc, fun hold => ?_, href⟩, rfl⟩)) hunset
    exact hunset (mem_raise.2 (.inl hold))

theorem subquery_outcome (M : Meaning V) {w : Option (Expr V)}
    {finish : Multiset (Joined String (Row V)) → Multiset (Row V)} (hv : h.Valid)
    (hk : Known infos h) (hs : Supported (exprs infos)) (joined : Bool) {q : Plan V}
    (hq : (pushDownSelect f w h).1.getLogicalPlan = .ok q) (hden : denote M q = sqlSelect M f w) :
    ∃ plan applied, Outcome M (.subquery a f w finish) infos h joined plan applied := by
  obtain ⟨h', hh'⟩ : ∃ h', h' = (pushDownSelect f w h).2.2 := ⟨_, rfl⟩
  have hgrows : Grows infos h h' := by
    rw [hh']
    exact ((pushDown_grows f (hv.getSubExprInfo w) (Known.fresh w h)).mono fun c hc =>
      mem_append_right infos hc).before_fresh
  -- the conjuncts from above keep their flags while the subquery is visited
  have hsame : ∀ c ∈ infos, c.id ∉ h.isSet → c.id ∉ h'.isSet := by
    intro c hc hunset hset
    have hinner := pushDown_grows f (hv.getSubExprInfo w) (Known.fresh w h)
    rw [hh'] at hset
    have hlt := hk.lt_next c hc
    obtain hold | ⟨d, hd, hid⟩ :=
      hinner.old c.id hset (hlt.trans_le (Nat.le_add_right _ _))
    · exact hunset hold
    · have := (mem_getSubExprInfo hd).2.1
      omega
  have hk' := hk.mono hgrows.next_le
  obtain ⟨plan, hplan, htables, hleaf⟩ :=
    leaf_outcome M (p := .subquery a q finish) (a := a) rfl hs h'
  have hset := setCondition_spec {a} infos h' hk'.nodup
  have hpush : pushDown (.subquery a f w finish) infos h
      = (.subquery a (pushDownSelect f w h).1 finish (setCondition {a} infos h').1, {a},
          (setCondition {a} infos h').2) := by
    rw [pushDown, hh']
    rfl
  refine ⟨plan, taken {a} infos h', ?_, ?_, htables, fun c hc => (mem_taken.1 hc).1,
    within_taken _ _ _, ?_, ?_, ?_⟩
  · rw [hpush, hset, Placed.getLogicalPlan, hq]
    exact hplan
  · rw [hpush]
    rfl
  · rw [hleaf, denote, hden]
    rfl
  · intro c hc hunset hraised
    rw [hpush, hset] at hraised
    obtain hold | ⟨d, hd, hid⟩ := mem_raise.1 hraised
    · exact absurd hold (hsame c hc hunset)
    · rwa [← hk.eq_of_id_eq (mem_taken.1 hd).1 hc hid]
  · intro c hc hunset href
    rw [hpush, hset] at hunset
    refine absurd (mem_raise.2 (.inr ⟨c, mem_taken.2 ⟨hc, fun hold => ?_, href⟩, rfl⟩)) hunset
    exact hunset (mem_raise.2 (.inl hold))

/-! ### Two operands -/

section Pair

variable {M : Meaning V} {l r : From V} {cur : List (SubExprInfo V)} {h : Flags}
  {pl pr : Plan V} {al ar : List (SubExprInfo V)}

def flagsAfter (l r : From V) (cur : List (SubExprInfo V)) (h : Flags) : Flags :=
  (pushDown r cur (pushDown l cur h).2.2).2.2

def pairTaken (l r : From V) (cur : List (SubExprInfo V)) (h : Flags) : List (SubExprInfo V) :=
  taken (l.tables ∪ r.tables) cur (flagsAfter l r cur h)

theorem pair_grows (hv : h.Valid) (hk : Known cur h) : Grows cur h (flagsAfter l r cur h) := by
  have hl := pushDown_grows l hv hk
  exact hl.trans (pushDown_grows r hl.valid (hk.mono hl.next_le))

theorem pair_spans (hv : h.Valid) (hk : Known cur h) (hl : Outcome M l cur h true pl al)
    (hr : Outcome M r cur (pushDown l cur h).2.2 true pr ar) {d : SubExprInfo V}
    (hd : d ∈ (sorted (pairTaken l r cur h)).equalJoinCondition) :
    Spans d.subExpr l.tables r.tables := by
  obtain ⟨hd, htype⟩ := mem_sorted_equal.1 hd
  obtain ⟨hcur, hunset, -⟩ := mem_taken.1 hd
  have hgl := pushDown_grows l hv hk
  refine ⟨htype, fun href => ?_, fun href => ?_⟩
  · have hunset' : d.id ∉ (pushDown l cur h).2.2.isSet :=
      fun hset => hunset ((pushDown_grows r hgl.valid (hk.mono hgl.next_le)).subset hset)
    exact (hl.of_unset d hcur hunset' href).2.2 rfl htype
  · exact (hr.of_unset d hcur hunset href).2.2 rfl htype

variable {c : SubExprInfo V}

theorem pair_of_set (hk : Known cur h) (hl : Outcome M l cur h true pl al)
    (hr : Outcome M r cur (pushDown l cur h).2.2 true pr ar) (hc : c ∈ cur)
    (hunset : c.id ∉ h.isSet)
    (hset : c.id ∈ ((flagsAfter l r cur h).raise (pairTaken l r cur h)).isSet) :
    c ∈ al ++ ar ++ pairTaken l r cur h := by
  obtain hset | ⟨d, hd, hid⟩ := mem_raise.1 hset
  · by_cases hleft : c.id ∈ (pushDown l cur h).2.2.isSet
    · exact mem_append_left _ (mem_append_left _ (hl.of_set c hc hunset hleft))
    · exact mem_append_left _ (mem_append_right _ (hr.of_set c hc hleft hset))
  · rw [← hk.eq_of_id_eq (mem_taken.1 hd).1 hc hid]
    exact mem_append_right _ hd

theorem pair_complete (hc : c ∈ cur) (href : c.subExpr.getRefTable ⊆ l.tables ∪ r.tables) :
    c.id ∈ ((flagsAfter l r cur h).raise (pairTaken l r cur h)).isSet := by
  by_cases hset : c.id ∈ (flagsAfter l r cur h).isSet
  · exact mem_raise.2 (.inl hset)
  · exact mem_raise.2 (.inr ⟨c, mem_taken.2 ⟨hc, hset, href⟩, rfl⟩)

section

variable (hl : Outcome M l cur h true pl al)
  (hr : Outcome M r cur (pushDown l cur h).2.2 true pr ar)

include hl hr

theorem pair_appliedMem (hc : c ∈ al ++ ar ++ pairTaken l r cur h) : c ∈ cur := by
  obtain hc | hc := List.mem_append.1 hc
  · obtain hc | hc := List.mem_append.1 hc
    · exact hl.appliedMem c hc
    · exact hr.appliedMem c hc
  · exact (mem_taken.1 hc).1

theorem pair_within : Within (al ++ ar ++ pairTaken l r cur h) (l.tables ∪ r.tables) := by
  exact List.forall_mem_append.2 ⟨List.forall_mem_append.2
    ⟨fun c hc => (hl.appliedWithin c hc).trans Finset.subset_union_left,
      fun c hc => (hr.appliedWithin c hc).trans Finset.subset_union_right⟩,
    fun _ hc => (mem_taken.1 hc).2.2⟩

end

theorem pair_denotes (hd : Disjoint l.tables r.tables) (hl : Outcome M l cur h true pl al)
    (hr : Outcome M r cur (pushDown l cur h).2.2 true pr ar) (ts : List (SubExprInfo V)) :
    Rows.select (holdsAll M (exprs ts)) (product (denote M pl) (denote M pr))
      = Rows.select (holdsAll M (exprs (al ++ ar ++ ts))) (product (sql M l) (sql M r)) := by
  have hover : Rows.AllOver l.tables (Rows.select (holdsAll M (exprs al)) (sql M l)) :=
    (allOver_sql M l).select _
  rw [hl.denotes, hr.denotes,
    Rows.product_select_right (hr.appliedWithin.reads M) hover hd,
    Rows.product_select_left (hl.appliedWithin.reads M) (allOver_sql M l),
    Rows.select_select, Rows.select_select]
  refine Rows.select_congr fun x _ => ?_
  rw [exprs_append, exprs_append, holdsAll_append, holdsAll_append]
  ac_rfl

end Pair

/-! ### Lists -/

theorem pushDown_fromList {a n : From V} {infos : List (SubExprInfo V)} {h : Flags} (hv : h.Valid)
    (hk : Known infos h) (ha : (pushDown a infos h).2.1 = a.tables)
    (hn : (pushDown n infos (pushDown a infos h).2.2).2.1 = n.tables) :
    pushDown (.fromList a n) infos h
      = (.fromList (pushDown a infos h).1 (pushDown n infos (pushDown a infos h).2.2).1
          (sorted (pairTaken a n infos h)), a.tables ∪ n.tables,
          (flagsAfter a n infos h).raise (pairTaken a n infos h)) := by
  have hgrows := pair_grows (l := a) (r := n) hv hk
  have hset := setCondition_spec (a.tables ∪ n.tables) infos (flagsAfter a n infos h)
    (hk.mono hgrows.next_le).nodup
  rw [pushDown, ha, hn]
  exact congrArg (fun s => (Placed.fromList _ _ s.1, a.tables ∪ n.tables, s.2)) hset

theorem fromList_outcome {M : Meaning V} {a n : From V} {infos : List (SubExprInfo V)}
    {h : Flags} (hv : h.Valid) (hk : Known infos h) (hs : Supported (exprs infos))
    (hd : Disjoint a.tables n.tables)
    (joined : Bool) {pa pn : Plan V} {aa an : List (SubExprInfo V)}
    (ha : Outcome M a infos h true pa aa)
    (hn : Outcome M n infos (pushDown a infos h).2.2 true pn an)
    (houter : (pushDown a infos h).1.outerNumber = none ∨
      ∀ c ∈ infos, c.subExpr.type ≠ .isEqualCondition) :
    ∃ plan applied, Outcome M (.fromList a n) infos h joined plan applied := by
  have hpush := pushDown_fromList hv hk ha.tables hn.tables
  have hwithin : Within (sorted (pairTaken a n infos h)).all (pa.tables ∪ pn.tables) := by
    rw [ha.planTables, hn.planTables]
    exact fun c hc => within_taken _ _ _ c (mem_sorted_all.1 hc)
  obtain ⟨plan, hplan, htests⟩ := fromListPlan_spec (M := M) (l := pa) (r := pn)
    (c := sorted (pairTaken a n infos h)) (n := (pushDown a infos h).1.outerNumber)
    (by rwa [ha.planTables, hn.planTables]) hwithin (supported_sorted_taken hs _ _)
    (fun d hd => by rw [ha.planTables, hn.planTables]; exact pair_spans hv hk ha hn hd)
    (houter.imp_right fun hnone => List.eq_nil_iff_forall_not_mem.2 fun c hc => by
      obtain ⟨hc, htype⟩ := mem_sorted_equal.1 hc
      exact hnone c (mem_taken.1 hc).1 htype)
  refine ⟨plan, aa ++ an ++ pairTaken a n infos h, ?_, ?_, ?_, fun c hc =>
    pair_appliedMem ha hn hc, pair_within ha hn, ?_, ?_, ?_⟩
  · rw [hpush, Placed.getLogicalPlan, ha.planned, hn.planned]
    exact hplan
  · rw [hpush]
    rfl
  · rw [htests.tables, ha.planTables, hn.planTables]
    rfl
  · rw [htests.denotes, sql, ← pair_denotes hd ha hn]
    exact Rows.select_congr fun x _ => holdsAll_exprs_congr M (fun _ => mem_sorted_all) x
  · intro c hc hunset hraised
    rw [hpush] at hraised
    exact pair_of_set hk ha hn hc hunset hraised
  · intro c hc hunset href
    rw [hpush] at hunset
    exact absurd (pair_complete hc href) hunset

variable {M : Meaning V} {a : From V} {infos : List (SubExprInfo V)} {h : Flags}

theorem lastFrom_outcome (hv : h.Valid) (hk : Known infos h) (joined : Bool) {plan : Plan V}
    {applied : List (SubExprInfo V)} (ha : Outcome M a infos h false plan applied) :
    Outcome M (.lastFrom a) infos h joined plan applied := by
  have hgrows := pushDown_grows a hv hk
  have hset := setCondition_spec a.tables infos (pushDown a infos h).2.2
    (hk.mono hgrows.next_le).nodup
  have hpush : (pushDown (.lastFrom a) infos h).2.2
      = (pushDown a infos h).2.2.raise (taken a.tables infos (pushDown a infos h).2.2) := by
    rw [pushDown, ha.tables]
    exact congrArg Prod.snd hset
  refine ⟨ha.planned, ha.tables, ha.planTables, ha.appliedMem, ha.appliedWithin, ha.denotes,
    ?_, ?_⟩
  · intro c hc hunset hraised
    rw [hpush] at hraised
    obtain hold | ⟨d, hd, hid⟩ := mem_raise.1 hraised
    · exact ha.of_set c hc hunset hold
    · obtain rfl := hk.eq_of_id_eq (mem_taken.1 hd).1 hc hid
      exact (ha.of_unset d hc (mem_taken.1 hd).2.1 (mem_taken.1 hd).2.2).2.1
  · intro c hc hunset href
    rw [hpush] at hunset
    refine absurd (mem_raise.2 (.inr ⟨c, mem_taken.2 ⟨hc, fun hold => ?_, href⟩, rfl⟩)) hunset
    exact hunset (mem_raise.2 (.inl hold))

/-! ### Inner joins -/

theorem pushDown_innerJoin {l r : From V} {on : Option (Expr V)}
    {infos cur : List (SubExprInfo V)} {h h1 : Flags} (hv : h.Valid) (hk : Known infos h)
    (hcur : cur = infos ++ (getSubExprInfo on h).1) (hh1 : h1 = (getSubExprInfo on h).2)
    (hl : (pushDown l cur h1).2.1 = l.tables)
    (hr : (pushDown r cur (pushDown l cur h1).2.2).2.1 = r.tables) :
    Known cur h1 ∧ h1.Valid ∧ pushDown (.join .inner l r on) infos h
      = (.join .inner (pushDown l cur h1).1 (pushDown r cur (pushDown l cur h1).2.2).1
          (sorted (pairTaken l r cur h1)), l.tables ∪ r.tables,
          (flagsAfter l r cur h1).raise (pairTaken l r cur h1)) := by
  have hk1 : Known cur h1 := by
    rw [hcur, hh1]
    exact hk.with_fresh on
  have hv1 : h1.Valid := by
    rw [hh1]
    exact hv.getSubExprInfo on
  have hgrows := pair_grows (l := l) (r := r) hv1 hk1
  have hset := setCondition_spec (l.tables ∪ r.tables) cur (flagsAfter l r cur h1)
    (hk1.mono hgrows.next_le).nodup
  refine ⟨hk1, hv1, ?_⟩
  rw [pushDown, ← hcur, ← hh1, hl, hr]
  exact congrArg (fun s => (Placed.join .inner _ _ s.1, l.tables ∪ r.tables, s.2)) hset

theorem innerJoin_outcome {M : Meaning V} {l r : From V} {on : Option (Expr V)}
    {infos : List (SubExprInfo V)} {h : Flags} (hv : h.Valid) (hk : Known infos h)
    (hs : Supported (exprs (infos ++ (getSubExprInfo on h).1)))
    (hd : Disjoint l.tables r.tables)
    (hon : ∀ e ∈ conjuncts on, e.getRefTable ⊆ l.tables ∪ r.tables) (joined : Bool)
    {pl pr : Plan V} {al ar : List (SubExprInfo V)}
    (hl : Outcome M l (infos ++ (getSubExprInfo on h).1) (getSubExprInfo on h).2 true pl al)
    (hr : Outcome M r (infos ++ (getSubExprInfo on h).1)
      (pushDown l (infos ++ (getSubExprInfo on h).1) (getSubExprInfo on h).2).2.2 true pr ar) :
    ∃ plan applied, Outcome M (.join .inner l r on) infos h joined plan applied := by
  obtain ⟨cur, hcur⟩ : ∃ cur, cur = infos ++ (getSubExprInfo on h).1 := ⟨_, rfl⟩
  obtain ⟨h1, hh1⟩ : ∃ h1, h1 = (getSubExprInfo on h).2 := ⟨_, rfl⟩
  rw [← hcur, ← hh1] at hl hr
  rw [← hcur] at hs
  obtain ⟨hk1, hv1, hpush⟩ := pushDown_innerJoin hv hk hcur hh1 hl.tables hr.tables
  have hwithin : Within (sorted (pairTaken l r cur h1)).all (pl.tables ∪ pr.tables) := by
    rw [hl.planTables, hr.planTables]
    exact fun c hc => within_taken _ _ _ c (mem_sorted_all.1 hc)
  obtain ⟨plan, hplan, htests⟩ := joinPlan_inner_spec (M := M) (l := pl) (r := pr)
    (c := sorted (pairTaken l r cur h1)) (by rwa [hl.planTables, hr.planTables]) hwithin
    (supported_sorted_taken hs _ _)
    fun d hd => by rw [hl.planTables, hr.planTables]; exact pair_spans hv1 hk1 hl hr hd
  -- every conjunct of ON is among those tested
  have honTested : ∀ c ∈ (getSubExprInfo on h).1, c ∈ al ++ ar ++ pairTaken l r cur h1 := by
    intro c hc
    have hcCur : c ∈ cur := by
      rw [hcur]
      exact mem_append_right _ hc
    have hunset : c.id ∉ h1.isSet := by
      rw [hh1]
      exact fresh_not_set hv hc
    exact pair_of_set hk1 hl hr hcCur hunset
      (pair_complete hcCur (hon _ (mem_getSubExprInfo hc).1))
  obtain ⟨old, hold⟩ : ∃ old, old
      = (al ++ ar ++ pairTaken l r cur h1).filter fun c => c.id < h.next := ⟨_, rfl⟩
  have hmemOld : ∀ c, c ∈ old ↔ c ∈ al ++ ar ++ pairTaken l r cur h1 ∧ c ∈ infos := by
    intro c
    rw [hold, mem_filter, decide_eq_true_eq]
    refine and_congr_right fun hc => ⟨fun hlt => ?_, fun hc => hk.lt_next c hc⟩
    have hcCur := pair_appliedMem hl hr hc
    rw [hcur] at hcCur
    refine (List.mem_append.1 hcCur).resolve_right fun hnew => ?_
    have := (mem_getSubExprInfo hnew).2.1
    omega
  refine ⟨plan, old, ?_, ?_, ?_, fun c hc => ((hmemOld c).1 hc).2,
    fun c hc => pair_within hl hr c ((hmemOld c).1 hc).1, ?_, ?_, ?_⟩
  · rw [hpush, Placed.getLogicalPlan, hl.planned, hr.planned]
    exact hplan
  · rw [hpush]
    rfl
  · rw [htests.tables, hl.planTables, hr.planTables]
    rfl
  · -- the conjuncts tested are those from above and those of ON
    have hsplit : ∀ x, holdsAll M (exprs (al ++ ar ++ pairTaken l r cur h1)) x
        = (holdsAll M (exprs old) x && holdsClause M on x) := by
      intro x
      rw [holdsClause_eq_exprs M on h, ← holdsAll_append, ← exprs_append]
      refine holdsAll_exprs_congr M (fun c => ⟨fun hc => ?_, fun hc => ?_⟩) x
      · have hcCur := pair_appliedMem hl hr hc
        rw [hcur] at hcCur
        obtain hc' | hc' := List.mem_append.1 hcCur
        · exact mem_append_left _ ((hmemOld c).2 ⟨hc, hc'⟩)
        · exact mem_append_right _ hc'
      · obtain hc | hc := List.mem_append.1 hc
        · exact ((hmemOld c).1 hc).1
        · exact honTested c hc
    rw [htests.denotes, sql, Rows.matched, Rows.select_select]
    rw [← Rows.select_congr (fun x _ => hsplit x), ← pair_denotes hd hl hr]
    exact Rows.select_congr fun x _ => holdsAll_exprs_congr M (fun _ => mem_sorted_all) x
  · intro c hc hunset hraised
    rw [hpush] at hraised
    refine (hmemOld c).2 ⟨pair_of_set hk1 hl hr ?_ ?_ hraised, hc⟩
    · rw [hcur]
      exact mem_append_left _ hc
    · rw [hh1]
      exact hunset
  · intro c hc hunset href
    rw [hpush] at hunset
    refine absurd (pair_complete ?_ href) hunset
    rw [hcur]
    exact mem_append_left _ hc

/-! ### Outer joins -/

section Outer

variable {M : Meaning V} {t : JoinType} {a b : From V} {on : Option (Expr V)}
  {infos : List (SubExprInfo V)} {h : Flags} {joined : Bool} {pa : Plan V}
  {aa : List (SubExprInfo V)}

/-- The rows that SQL gives to the join of `a` with the preserved `b`. -/
def outerRows (M : Meaning V) (t : JoinType) (a b : From V) (on : Option (Expr V)) :
    Multiset (Joined String (Row V)) :=
  if t = .full then
    Rows.fullOuter (holdsClause M on) (Rows.padded (nullRow M) a.tables)
      (Rows.padded (nullRow M) b.tables) (sql M a) (sql M b)
  else Rows.rightOuter (holdsClause M on) (Rows.padded (nullRow M) a.tables) (sql M a) (sql M b)

def onTaken (a b : From V) (on : Option (Expr V)) (h : Flags) : List (SubExprInfo V) :=
  taken (a.tables ∪ b.tables) (getSubExprInfo on h).1
    (pushDown a (getSubExprInfo on h).1 (getSubExprInfo on h).2).2.2

section

variable (hv : h.Valid) (hon : ∀ e ∈ conjuncts on, e.getRefTable ⊆ a.tables ∪ b.tables)

include hv hon

theorem mem_onTaken (hkept : OuterKept t a b on (exprs infos) joined)
    (ha : Outcome M a (getSubExprInfo on h).1 (getSubExprInfo on h).2 true pa aa)
    {c : SubExprInfo V} :
    c ∈ onTaken a b on h ↔
      c ∈ (getSubExprInfo on h).1 ∧ Spans c.subExpr a.tables b.tables := by
  rw [onTaken, mem_taken]
  refine and_congr_right fun hc => ⟨fun ⟨hunset, _⟩ => ?_, fun hspan => ⟨fun hset => ?_, ?_⟩⟩
  · obtain hspan | ⟨-, href⟩ := hkept.onConjuncts _ (mem_getSubExprInfo hc).1
    · exact hspan
    · exact absurd hkept.flatInner (ha.of_unset c hc hunset href).1
  · exact hspan.2.1 (ha.appliedWithin c (ha.of_set c hc (fresh_not_set hv hc) hset))
  · exact hon _ (mem_getSubExprInfo hc).1

theorem on_split (ha : Outcome M a (getSubExprInfo on h).1 (getSubExprInfo on h).2 true pa aa)
    (x : Joined String (Row V)) :
    (holdsAll M (exprs (onTaken a b on h)) x && holdsAll M (exprs aa) x)
      = holdsClause M on x := by
  rw [holdsClause_eq_exprs M on h, ← holdsAll_append, ← exprs_append]
  refine holdsAll_exprs_congr M (fun c => ⟨fun hc => ?_, fun hc => ?_⟩) x
  · obtain hc | hc := List.mem_append.1 hc
    · exact (mem_taken.1 hc).1
    · exact ha.appliedMem c hc
  · by_cases hset : c.id ∈ (pushDown a (getSubExprInfo on h).1 (getSubExprInfo on h).2).2.2.isSet
    · exact mem_append_right _ (ha.of_set c hc (fresh_not_set hv hc) hset)
    · exact mem_append_left _
        (mem_taken.2 ⟨hc, hset, hon _ (mem_getSubExprInfo hc).1⟩)

end

theorem applied_full (hkept : OuterKept .full a b on (exprs infos) joined)
    (ha : Outcome M a (getSubExprInfo on h).1 (getSubExprInfo on h).2 true pa aa) : aa = [] := by
  refine List.eq_nil_iff_forall_not_mem.2 fun c hc => ?_
  have hmem := (mem_getSubExprInfo (ha.appliedMem c hc)).1
  obtain hspan | ⟨hne, -⟩ := hkept.onConjuncts _ hmem
  · exact hspan.2.1 (ha.appliedWithin c hc)
  · exact hne rfl

variable {n : ℕ}

theorem outerJoin_denotes (hn : t.outerNumber = some n) (hv : h.Valid)
    (hon : ∀ e ∈ conjuncts on, e.getRefTable ⊆ a.tables ∪ b.tables)
    (hkept : OuterKept t a b on (exprs infos) joined)
    (ha : Outcome M a (getSubExprInfo on h).1 (getSubExprInfo on h).2 true pa aa) {pb : Plan V}
    (hpb : denote M pb = sql M b) (hpbt : pb.tables = b.tables)
    {joinPair : List (Column × Column)}
    (hkeys : ∀ x, holdsAll M (exprs (onTaken a b on h)) x = true → keysAgree M joinPair x = true) :
    denote M (.outerJoin joinPair pa pb n (exprs (onTaken a b on h)))
      = outerRows M t a b on := by
  have hmatch : ∀ x, pairMatches M joinPair (exprs (onTaken a b on h)) x
      = holdsAll M (exprs (onTaken a b on h)) x := fun x => pairMatches_eq (hkeys x)
  have hsplit := on_split hv hon ha
  rw [denote, ha.planTables, hpbt, hpb, outerRows]
  by_cases hfull : t = .full
  · subst hfull
    obtain rfl : n = 2 := (Option.some.inj hn).symm
    have haa := applied_full hkept ha
    have hself : denote M pa = sql M a := by
      rw [ha.denotes, haa]
      exact Rows.select_eq_self fun _ _ => rfl
    rw [if_pos rfl, if_pos rfl, hself]
    refine Rows.fullOuter_congr fun x _ y _ => ?_
    rw [hmatch, ← hsplit, haa]
    exact (Bool.and_true _).symm
  · have hn2 : n ≠ 2 := by
      rintro rfl
      cases t <;> simp_all [JoinType.outerNumber]
    rw [if_neg hn2, if_neg hfull, ha.denotes,
      Rows.rightOuter_select_left (ha.appliedWithin.reads M) (allOver_sql M a)]
    refine Rows.rightOuter_congr fun x _ y _ => ?_
    rw [hmatch, hsplit]

theorem placeOuter_plan (hn : t.outerNumber = some n) (hv : h.Valid)
    (hs : Supported (exprs infos)) (hson : Supported (conjuncts on))
    (hd : Disjoint a.tables b.tables)
    (hon : ∀ e ∈ conjuncts on, e.getRefTable ⊆ a.tables ∪ b.tables)
    (hkept : OuterKept t a b on (exprs infos) joined)
    (ha : Outcome M a (getSubExprInfo on h).1 (getSubExprInfo on h).2 true pa aa) :
    ∃ plan, (placeOuter t (pushDown a (getSubExprInfo on h).1 (getSubExprInfo on h).2) b
        (getSubExprInfo on h).1 infos).1.getLogicalPlan = .ok plan ∧
      (placeOuter t (pushDown a (getSubExprInfo on h).1 (getSubExprInfo on h).2) b
        (getSubExprInfo on h).1 infos).2.1 = a.tables ∪ b.tables ∧
      plan.tables = a.tables ∪ b.tables ∧
      denote M plan = Rows.select (holdsAll M (exprs infos)) (outerRows M t a b on) := by
  obtain ⟨name, rows, rfl⟩ : ∃ name rows, b = .table name rows := by
    have hb := hkept.isTable
    cases b with
    | table name rows => exact ⟨name, rows, rfl⟩
    | _ => exact hb.elim
  have hgrows := pushDown_grows a (hv.getSubExprInfo on) (Known.fresh on h)
  have hset := setCondition_spec (a.tables ∪ {name}) (getSubExprInfo on h).1
    (pushDown a (getSubExprInfo on h).1 (getSubExprInfo on h).2).2.2
    ((Known.fresh on h).mono hgrows.next_le).nodup
  obtain ⟨ts, hts⟩ : ∃ ts, ts = onTaken a (.table name rows) on h := ⟨_, rfl⟩
  have hmem : ∀ c, c ∈ ts ↔ c ∈ (getSubExprInfo on h).1 ∧
      Spans c.subExpr a.tables {name} := by
    intro c
    rw [hts]
    exact mem_onTaken hv hon hkept ha
  -- every conjunct the join takes is an equality, and there is one
  have hsorted : sorted ts = ⟨ts, []⟩ := by
    have hall : ∀ c ∈ ts, c.subExpr.type = .isEqualCondition := fun c hc => ((hmem c).1 hc).2.1
    rw [sorted, List.filter_eq_self.2 (by simpa using hall),
      List.filter_eq_nil_iff.2 (by simpa using hall)]
  obtain ⟨c0, hc0⟩ : ∃ c, c ∈ ts := by
    obtain ⟨e, he, hspan⟩ := hkept.hasEquality
    rw [← map_subExpr_getSubExprInfo on h] at he
    obtain ⟨c, hc, rfl⟩ := List.mem_map.1 he
    exact ⟨c, (hmem c).2 ⟨hc, hspan⟩⟩
  have hpush : placeOuter t (pushDown a (getSubExprInfo on h).1 (getSubExprInfo on h).2)
      (.table name rows) (getSubExprInfo on h).1 infos
      = (.join t (pushDown a (getSubExprInfo on h).1 (getSubExprInfo on h).2).1
          (.table name rows .none) ⟨ts, infos⟩, a.tables ∪ {name},
          ((pushDown a (getSubExprInfo on h).1 (getSubExprInfo on h).2).2.2).raise ts) := by
    rw [placeOuter, ha.tables, tableAliasOf, hset]
    rw [show taken (a.tables ∪ {name}) (getSubExprInfo on h).1
      (pushDown a (getSubExprInfo on h).1 (getSubExprInfo on h).2).2.2 = ts from hts.symm, hsorted]
    rfl
  have hwithin : Within ts (a.tables ∪ {name}) :=
    fun c hc => hon _ (mem_getSubExprInfo ((hmem c).1 hc).1).1
  obtain ⟨joinPair, hpair, hkeys⟩ := getEqualJoinPair_spec (fun c hc => ((hmem c).1 hc).2) hwithin
  have hcond := getJoinCondition_ok (S := a.tables) (T := {name}) hd hwithin (by
    rw [← exprs_getSubExprInfo on h] at hson
    exact hson.of_mem fun c hc => ((hmem c).1 hc).1)
  obtain ⟨outer, houter⟩ : ∃ outer, outer
      = Plan.outerJoin joinPair pa (.scan name rows) n (exprs ts) := ⟨_, rfl⟩
  have houterTables : outer.tables = a.tables ∪ {name} := by
    rw [houter, Plan.tables, ha.planTables]
    rfl
  have hfilter : Within infos outer.tables := by
    rw [houterTables]
    exact fun c hc => hkept.aboveWithin _ (mem_map_of_mem hc)
  obtain ⟨plan, hplan, htests⟩ := getFilterLogicalPlan_spec M outer hfilter hs
  have hstraight : t ≠ .straight := by
    rintro rfl
    cases hn
  refine ⟨plan, ?_, ?_, ?_, ?_⟩
  · have hjoin : joinPlan t pa (.scan name rows) ⟨ts, infos⟩ = .ok plan := by
      cases hcs : ts with
      | nil => simp [hcs] at hc0
      | cons d ds =>
        rw [hcs] at hcond hpair houter
        rw [joinPlan, ha.planTables]
        simp only [Plan.tables, hcond, hn, hpair, Run.bind_ok]
        rw [← houter]
        exact hplan
    rw [hpush, Placed.getLogicalPlan, ha.planned]
    exact (if_neg hstraight).trans hjoin
  · rw [hpush]
    rfl
  · rw [htests.tables, houterTables]
    rfl
  · rw [htests.denotes, houter, hts]
    rw [outerJoin_denotes hn hv hon hkept ha rfl rfl fun x => by rw [← hts]; exact hkeys M x]

theorem outer_outcome {f : From V} {n : ℕ} (hn : t.outerNumber = some n) (hv : h.Valid)
    (hk : Known infos h) (hs : Supported (exprs infos)) (hson : Supported (conjuncts on))
    (hd : Disjoint a.tables b.tables)
    (hon : ∀ e ∈ conjuncts on, e.getRefTable ⊆ a.tables ∪ b.tables)
    (hkept : OuterKept t a b on (exprs infos) joined)
    (ha : Outcome M a (getSubExprInfo on h).1 (getSubExprInfo on h).2 true pa aa)
    (hpush : pushDown f infos h
      = placeOuter t (pushDown a (getSubExprInfo on h).1 (getSubExprInfo on h).2) b
          (getSubExprInfo on h).1 infos)
    (hflat : ¬ f.FlatInner) (htables : f.tables = a.tables ∪ b.tables)
    (hsql : sql M f = outerRows M t a b on) :
    ∃ plan applied, Outcome M f infos h joined plan applied := by
  obtain ⟨plan, hplan, hfrom, hplanTables, hden⟩ := placeOuter_plan hn hv hs hson hd hon hkept ha
  have hgrows : Grows ([] : List (SubExprInfo V)) h (pushDown f infos h).2.2 := by
    rw [hpush]
    exact placeOuter_grows (pushDown_grows a (hv.getSubExprInfo on) (Known.fresh on h))
  refine ⟨plan, infos, ?_, ?_, ?_, fun _ hc => hc, ?_, ?_, ?_, ?_⟩
  · rw [hpush]
    exact hplan
  · rw [hpush, hfrom, htables]
  · rw [hplanTables, htables]
  · rw [htables]
    exact fun c hc => hkept.aboveWithin _ (mem_map_of_mem hc)
  · rw [hden, hsql]
  · -- no flag of a conjunct from above has changed
    intro c hc hunset hset
    obtain hold | ⟨d, hd, -⟩ := hgrows.old c.id hset (hk.lt_next c hc)
    · exact absurd hold hunset
    · cases hd
  · exact fun c hc _ _ =>
      ⟨hflat, hc, fun hj => hkept.aboveNormal hj _ (mem_map_of_mem hc)⟩

end Outer

/-! ### The whole tree -/

variable {f : From V} {h : Flags} {joined : Bool} {infos : List (SubExprInfo V)}

theorem Outcome.denotes_where {M : Meaning V} {w : Option (Expr V)} {plan : Plan V}
    {applied : List (SubExprInfo V)} (hv : h.Valid)
    (ho : Outcome M f (getSubExprInfo w h).1 (getSubExprInfo w h).2 joined plan applied)
    (hscope : ∀ e ∈ conjuncts w, e.getRefTable ⊆ f.tables) : denote M plan = sqlSelect M f w := by
  have hall : ∀ c, c ∈ applied ↔ c ∈ (getSubExprInfo w h).1 := by
    refine fun c => ⟨ho.appliedMem c, fun hc => ?_⟩
    by_cases hset : c.id ∈ (pushDown f (getSubExprInfo w h).1 (getSubExprInfo w h).2).2.2.isSet
    · exact ho.of_set c hc (fresh_not_set hv hc) hset
    · exact (ho.of_unset c hc hset (hscope _ (mem_getSubExprInfo hc).1)).2.1
  rw [ho.denotes, sqlSelect]
  refine Rows.select_congr fun x _ => ?_
  rw [holdsAll_exprs_congr M hall, ← holdsClause_eq_exprs]

theorem outerNumber_pushDown (hkept : f.Kept (exprs infos) true) :
    (pushDown f infos h).1.outerNumber = none ∨
      ∀ c ∈ infos, c.subExpr.type ≠ .isEqualCondition := by
  cases f with
  | join t l r on =>
    cases t with
    | inner => exact .inl rfl
    | straight => exact hkept.elim
    | left | right | full => exact .inr fun c hc => hkept.1.aboveNormal rfl _ (mem_map_of_mem hc)
  | _ => exact .inl rfl

/-- **Push-down, by induction over the tree.** -/
theorem pushDown_outcome (M : Meaning V) (f : From V) (hwf : f.WellFormed) (hv : h.Valid)
    (hk : Known infos h) (hkept : f.Kept (exprs infos) joined) (hs : Supported (exprs infos))
    (hclauses : Supported f.clauses) :
    ∃ plan applied, Outcome M f infos h joined plan applied := by
  induction f generalizing infos h joined with
  | table a rows => exact table_outcome M a rows hk hs joined
  | subquery a f w finish ih =>
    obtain ⟨hwf, hscope⟩ := hwf
    have hkept' : f.Kept (exprs (getSubExprInfo w h).1) false := by
      rw [exprs_getSubExprInfo]
      exact hkept
    obtain ⟨hw, hf⟩ := List.forall_mem_append.1 hclauses
    obtain ⟨q, applied, hq⟩ := ih hwf (hv.getSubExprInfo w) (Known.fresh w h) hkept'
      (by rwa [exprs_getSubExprInfo]) hf
    exact subquery_outcome M hv hk hs joined hq.planned (hq.denotes_where hv hscope)
  | join t l r on ihl ihr =>
    obtain ⟨hwl, hwr, hd, hon⟩ := hwf
    obtain ⟨hson, hslr⟩ := List.forall_mem_append.1 hclauses
    obtain ⟨hsl, hsr⟩ := List.forall_mem_append.1 hslr
    have hfresh : Supported (exprs (getSubExprInfo on h).1) := by rwa [exprs_getSubExprInfo]
    have hon' : ∀ e ∈ conjuncts on, e.getRefTable ⊆ r.tables ∪ l.tables := by
      rwa [Finset.union_comm]
    have hside : ∀ a : From V, a.Kept (conjuncts on) true →
        a.Kept (exprs (getSubExprInfo on h).1) true := fun a => by
      rw [exprs_getSubExprInfo]
      exact id
    cases t with
    | inner =>
      have happ : exprs (infos ++ (getSubExprInfo on h).1) = exprs infos ++ conjuncts on := by
        rw [exprs_append, exprs_getSubExprInfo]
      have hk' := hk.with_fresh on
      have hs' : Supported (exprs (infos ++ (getSubExprInfo on h).1)) := by
        rw [exprs_append]
        exact List.forall_mem_append.2 ⟨hs, hfresh⟩
      have hkl : l.Kept (exprs (infos ++ (getSubExprInfo on h).1)) true := by
        rw [happ]
        exact hkept.1
      have hkr : r.Kept (exprs (infos ++ (getSubExprInfo on h).1)) true := by
        rw [happ]
        exact hkept.2
      obtain ⟨pl, al, hl⟩ := ihl hwl (hv.getSubExprInfo on) hk' hkl hs' hsl
      have hgl := pushDown_grows l (hv.getSubExprInfo on) hk'
      obtain ⟨pr, ar, hr⟩ := ihr hwr hgl.valid (hk'.mono hgl.next_le) hkr hs' hsr
      exact innerJoin_outcome hv hk hs' hd hon joined hl hr
    | straight => exact hkept.elim
    | left =>
      obtain ⟨pa, aa, ha⟩ := ihr hwr (hv.getSubExprInfo on) (Known.fresh on h) (hside r hkept.2)
        hfresh hsr
      refine outer_outcome (n := 0) rfl hv hk hs hson hd.symm hon' hkept.1 ha rfl
        (fun hflat => nomatch hflat.1) (Finset.union_comm _ _) ?_
      exact Rows.leftOuter_eq_rightOuter (allOver_sql M l) (allOver_sql M r)
        (Rows.over_padded _ _) hd
    | right =>
      obtain ⟨pa, aa, ha⟩ := ihl hwl (hv.getSubExprInfo on) (Known.fresh on h) (hside l hkept.2)
        hfresh hsl
      exact outer_outcome (n := 1) rfl hv hk hs hson hd hon hkept.1 ha rfl
        (fun hflat => nomatch hflat.1) rfl rfl
    | full =>
      obtain ⟨pa, aa, ha⟩ := ihl hwl (hv.getSubExprInfo on) (Known.fresh on h) (hside l hkept.2)
        hfresh hsl
      exact outer_outcome (n := 2) rfl hv hk hs hson hd hon hkept.1 ha rfl
        (fun hflat => nomatch hflat.1) rfl rfl
  | fromList a n iha ihn =>
    obtain ⟨hwa, hwn, hd⟩ := hwf
    obtain ⟨hsa, hsn⟩ := List.forall_mem_append.1 hclauses
    obtain ⟨pa, aa, ha⟩ := iha hwa hv hk hkept.1 hs hsa
    have hga := pushDown_grows a hv hk
    obtain ⟨pn, an, hn⟩ := ihn hwn hga.valid (hk.mono hga.next_le) hkept.2 hs hsn
    exact fromList_outcome hv hk hs hd joined ha hn (outerNumber_pushDown hkept.1)
  | lastFrom a ih =>
    obtain ⟨plan, applied, ha⟩ := ih hwf hv hk hkept hs hclauses
    exact ⟨plan, applied, lastFrom_outcome hv hk joined ha⟩

theorem selectPlan_denotes (M : Meaning V) (f : From V) (w : Option (Expr V))
    (hwf : f.WellFormed) (hscope : ∀ e ∈ conjuncts w, e.getRefTable ⊆ f.tables)
    (hkept : f.Kept (conjuncts w) false) (hs : Supported (conjuncts w ++ f.clauses)) :
    ∃ plan, selectPlan f w = .ok plan ∧ denote M plan = sqlSelect M f w := by
  have hv : Flags.Valid ⟨0, ∅⟩ := fun i hi => absurd hi (Finset.notMem_empty i)
  have hkept' : f.Kept (exprs (getSubExprInfo w ⟨0, ∅⟩).1) false := by
    rw [exprs_getSubExprInfo]
    exact hkept
  obtain ⟨plan, applied, ho⟩ := pushDown_outcome M f hwf (hv.getSubExprInfo w)
    (Known.fresh w ⟨0, ∅⟩) hkept' (by
      rw [exprs_getSubExprInfo]
      exact (List.forall_mem_append.1 hs).1) (List.forall_mem_append.1 hs).2
  exact ⟨plan, ho.planned, ho.denotes_where hv hscope⟩

end PushDown
