/-
Conditions of inner joins: the push-down hangs every conjunct at one node, over tables that the
node has, and the plan tests every one of them, if there is a plan.

* **`inner_conditions_planned_iff`** — where the conjuncts go, when there is a plan, and its rows;
* **`conditions_without_plan`** — statements on whose conditions planning ends in a fault.
-/
import ClaimsDB.PushDownMeaning

namespace PushDown

open Run (bind_eq_ok)
open List Except
open Rows (Joined product)

variable {V : Type}

def From.Inner : From V → Prop
  | .table _ _ => True
  | .subquery _ f _ _ => f.Inner
  | .join t l r _ => t = .inner ∧ l.Inner ∧ r.Inner
  | .fromList a n => a.Inner ∧ n.Inner
  | .lastFrom a => a.Inner

variable {f : From V} {S T : Finset String} {cs : List (SubExprInfo V)} {p q : Plan V}
  {c : Conditions V} {h h' : Flags} {infos : List (SubExprInfo V)} {l r : From V}
  {w : Option (Expr V)} {a : From V}

theorem From.Inner.kept (hf : f.Inner) (above : List (Expr V)) (joined : Bool) :
    f.Kept above joined := by
  induction f generalizing above joined with
  | table a rows => trivial
  | subquery a f w finish ih => exact ih hf _ _
  | join t l r on ihl ihr =>
    obtain ⟨rfl, hl, hr⟩ := hf
    exact ⟨ihl hl _ _, ihr hr _ _⟩
  | fromList a n iha ihn => exact ⟨iha hf.1 _ _, ihn hf.2 _ _⟩
  | lastFrom a ih => exact ih hf _ _

/-! ### The conditions of the nodes -/

def Placed.attached : Placed V → List (SubExprInfo V)
  | .table _ _ c => c.all
  | .subquery _ f _ c => f.attached ++ c.all
  | .join _ l r c => l.attached ++ r.attached ++ c.all
  | .fromList a n c => a.attached ++ n.attached ++ c.all
  | .lastFrom a c => a.attached ++ c.all

def Placed.tables : Placed V → Finset String
  | .table a _ _ => {a}
  | .subquery a _ _ _ => {a}
  | .join _ l r _ => l.tables ∪ r.tables
  | .fromList a n _ => a.tables ∪ n.tables
  | .lastFrom a _ => a.tables

def Placed.Covered : Placed V → Prop
  | .table a _ c => Within c.all {a}
  | .subquery a f _ c => f.Covered ∧ Within c.all {a}
  | .join _ l r c => l.Covered ∧ r.Covered ∧ Within c.all (l.tables ∪ r.tables)
  | .fromList a n c => a.Covered ∧ n.Covered ∧ Within c.all (a.tables ∪ n.tables)
  | .lastFrom a c => a.Covered ∧ Within c.all a.tables

def Placed.Plain : Placed V → Prop
  | .table _ _ _ => True
  | .subquery _ f _ _ => f.Plain
  | .join t l r _ => t = .inner ∧ l.Plain ∧ r.Plain
  | .fromList a n _ => a.Plain ∧ n.Plain ∧ a.outerNumber = none
  | .lastFrom a c => a.Plain ∧ c.all = []

/-! ### A plan tests the conditions of its nodes -/

/-- A call that was planned: its operator is supported, and so were its arguments planned. -/
theorem Expr.call_of_getLogicalPlan {op : String} {a b c e' : Expr V}
    (h : (Expr.call op a b c).getLogicalPlan S T = .ok e') :
    operatorFault op b = none ∧ ∃ a', a.getLogicalPlan S T = .ok a' ∧
      ∃ b', b.getLogicalPlan S T = .ok b' ∧ ∃ c', c.getLogicalPlan S T = .ok c' ∧
        e' = .call op a' b' c' := by
  rw [Expr.getLogicalPlan] at h
  split at h
  · cases h
  · rename_i hop
    obtain ⟨a', ha, b', hb, h⟩ := Run.bind₂_eq_ok h
    obtain ⟨c', hc, h⟩ := bind_eq_ok h
    exact ⟨hop, a', ha, b', hb, c', hc, (ok.inj h).symm⟩

theorem Expr.of_getLogicalPlan {e e' : Expr V} (h : e.getLogicalPlan S T = .ok e') :
    e' = e ∧ e.supported = true := by
  induction e generalizing e' with
  | column r c =>
    rw [Expr.getLogicalPlan] at h
    split_ifs at h <;> exact ⟨(ok.inj h).symm, rfl⟩
  | const v | absent => exact ⟨(ok.inj h).symm, rfl⟩
  | and a b iha ihb | equal a b iha ihb =>
    obtain ⟨a', ha, b', hb, he⟩ := Run.bind₂_eq_ok h
    obtain ⟨rfl, hsa⟩ := iha ha
    obtain ⟨rfl, hsb⟩ := ihb hb
    exact ⟨(ok.inj he).symm, Bool.and_eq_true_iff.2 ⟨hsa, hsb⟩⟩
  | call op a b c iha ihb ihc =>
    obtain ⟨hop, a', ha, b', hb, c', hc, rfl⟩ := Expr.call_of_getLogicalPlan h
    obtain ⟨rfl, hsa⟩ := iha ha
    obtain ⟨rfl, hsb⟩ := ihb hb
    obtain ⟨rfl, hsc⟩ := ihc hc
    exact ⟨rfl, by simp [Expr.supported, hop, hsa, hsb, hsc]⟩

theorem of_getJoinCondition {es : List (Expr V)} (h : getJoinCondition S T cs = .ok es) :
    es = exprs cs ∧ Supported (exprs cs) := by
  induction cs generalizing es with
  | nil => exact ⟨(ok.inj h).symm, fun e he => absurd he not_mem_nil⟩
  | cons c cs ih =>
    obtain ⟨e, he, es', hes, h⟩ := Run.bind₂_eq_ok h
    obtain ⟨rfl, hc⟩ := Expr.of_getLogicalPlan he
    obtain ⟨rfl, hcs⟩ := ih hes
    exact ⟨(ok.inj h).symm, List.forall_mem_cons.2 ⟨hc, hcs⟩⟩

theorem Supported.append {es es' : List (Expr V)} (h : Supported es) (h' : Supported es') :
    Supported (es ++ es') := List.forall_mem_append.2 ⟨h, h'⟩

theorem conditions_of_filter (h : getFilterLogicalPlan p cs = .ok q) :
    q.conditions = p.conditions ++ exprs cs ∧ Supported (exprs cs) := by
  cases cs with
  | nil =>
    rw [← ok.inj h]
    exact ⟨by simp [exprs], fun e he => absurd he not_mem_nil⟩
  | cons c cs =>
    obtain ⟨es, hes, h⟩ := bind_eq_ok h
    obtain ⟨rfl, hs⟩ := of_getJoinCondition hes
    rw [← ok.inj h]
    exact ⟨rfl, hs⟩

theorem conditions_of_leaf (h : leafPlan p c = .ok q) :
    q.conditions = p.conditions ++ exprs c.all ∧ Supported (exprs c.all) := by
  unfold leafPlan at h
  split at h
  · rename_i hnil
    rw [Conditions.all, hnil, nil_append]
    exact conditions_of_filter h
  · cases h

theorem conditions_of_join {l r : Plan V} (h : joinPlan .inner l r c = .ok q) :
    q.conditions = l.conditions ++ r.conditions ++ exprs c.all ∧ Supported (exprs c.all) := by
  unfold joinPlan at h
  split at h
  · rename_i hnil
    obtain ⟨es, hes, h⟩ := bind_eq_ok h
    obtain ⟨rfl, hs⟩ := of_getJoinCondition hes
    rw [← ok.inj h, Conditions.all, hnil, nil_append]
    exact ⟨rfl, hs⟩
  · obtain ⟨es, hes, h⟩ := bind_eq_ok h
    obtain ⟨es', hes', joinPair, -, h⟩ := Run.bind₂_eq_ok h
    obtain ⟨rfl, hs⟩ := of_getJoinCondition hes
    obtain ⟨rfl, hs'⟩ := of_getJoinCondition hes'
    rw [← ok.inj h, Conditions.all, exprs_append]
    exact ⟨rfl, hs.append hs'⟩

theorem conditions_of_fromList {a n : Plan V} (h : fromListPlan none a n c = .ok q) :
    q.conditions.Perm (a.conditions ++ n.conditions ++ exprs c.all) ∧
      Supported (exprs c.all) := by
  unfold fromListPlan at h
  split at h
  · rename_i hnil
    obtain ⟨es, hes, h⟩ := bind_eq_ok h
    obtain ⟨rfl, hs⟩ := of_getJoinCondition hes
    rw [← ok.inj h, Conditions.all, hnil, nil_append]
    exact ⟨List.perm_append_comm.append_right _, hs⟩
  · obtain ⟨joinPair, -, h⟩ := bind_eq_ok h
    obtain ⟨es, hes, es', hes', h⟩ := Run.bind₂_eq_ok h
    obtain ⟨rfl, hs⟩ := of_getJoinCondition hes
    obtain ⟨rfl, hs'⟩ := of_getJoinCondition hes'
    rw [← ok.inj h, Conditions.all, exprs_append]
    exact ⟨List.Perm.refl _, hs.append hs'⟩

/-- A plan tests the conditions of its nodes, all of which can be planned. -/
theorem conditions_of_plan {p : Placed V} (hp : p.Plain) (h : p.getLogicalPlan = .ok q) :
    q.conditions.Perm (exprs p.attached) ∧ Supported (exprs p.attached) := by
  induction p generalizing q with
  | table a rows c =>
    obtain ⟨hq, hs⟩ := conditions_of_leaf h
    exact ⟨.of_eq hq, hs⟩
  | subquery a f finish c ih =>
    obtain ⟨child, hchild, h⟩ := bind_eq_ok h
    obtain ⟨hq, hs⟩ := conditions_of_leaf h
    obtain ⟨hperm, hs'⟩ := ih hp hchild
    rw [hq, Placed.attached, exprs_append]
    exact ⟨hperm.append_right _, hs'.append hs⟩
  | join t l r c ihl ihr =>
    obtain ⟨rfl, hl, hr⟩ := hp
    obtain ⟨left, hleft, right, hright, h⟩ := Run.bind₂_eq_ok h
    rw [if_neg (by simp)] at h
    obtain ⟨hq, hs⟩ := conditions_of_join h
    obtain ⟨hperml, hsl⟩ := ihl hl hleft
    obtain ⟨hpermr, hsr⟩ := ihr hr hright
    rw [hq, Placed.attached, exprs_append, exprs_append]
    exact ⟨(hperml.append hpermr).append_right _, (hsl.append hsr).append hs⟩
  | fromList a n c iha ihn =>
    obtain ⟨ha, hn, hnum⟩ := hp
    obtain ⟨args, hargs, next, hnext, h⟩ := Run.bind₂_eq_ok h
    rw [hnum] at h
    obtain ⟨hq, hs⟩ := conditions_of_fromList h
    obtain ⟨hperma, hsa⟩ := iha ha hargs
    obtain ⟨hpermn, hsn⟩ := ihn hn hnext
    rw [Placed.attached, exprs_append, exprs_append]
    exact ⟨hq.trans ((hperma.append hpermn).append_right _), (hsa.append hsn).append hs⟩
  | lastFrom a c ih =>
    rw [Placed.attached, hp.2, append_nil]
    exact ih hp.1 h

/-! ### Where conjuncts go -/

/-- The conjuncts whose flags were raised on the way from `h` to `h'`. -/
def newly (infos : List (SubExprInfo V)) (h h' : Flags) : List (SubExprInfo V) :=
  infos.filter fun c => c.id ∉ h.isSet ∧ c.id ∈ h'.isSet

theorem newly_trans (infos : List (SubExprInfo V)) {h'' : Flags} (h1 : h.isSet ⊆ h'.isSet)
    (h2 : h'.isSet ⊆ h''.isSet) :
    (newly infos h h'').Perm (newly infos h h' ++ newly infos h' h'') := by
  refine (filter_append_perm (fun c => decide (c.id ∈ h'.isSet)) _).symm.trans ?_
  refine List.Perm.of_eq ?_
  congr 1
  · rw [newly, newly, filter_filter]
    refine filter_congr fun c _ => ?_
    by_cases hc : c.id ∈ h'.isSet
    · simp [hc, h2 hc]
    · simp [hc]
  · rw [newly, newly, filter_filter]
    refine filter_congr fun c _ => ?_
    by_cases hc : c.id ∈ h'.isSet
    · simp [hc]
    · have hc' : c.id ∉ h.isSet := fun hmem => hc (h1 hmem)
      simp [hc, hc']

theorem newly_append (infos new : List (SubExprInfo V)) (h h' : Flags) :
    newly (infos ++ new) h h' = newly infos h h' ++ newly new h h' := filter_append _ _

theorem newly_raise (hk : Known infos h) :
    newly infos h (h.raise (taken T infos h)) = taken T infos h := by
  refine filter_congr fun c hc => ?_
  rw [decide_eq_decide]
  refine ⟨fun ⟨hunset, hset⟩ => ?_, fun htaken => ⟨htaken.1, ?_⟩⟩
  · obtain hold | ⟨d, hd, hid⟩ := mem_raise.1 hset
    · exact absurd hold hunset
    · obtain rfl := hk.eq_of_id_eq (mem_taken.1 hd).1 hc hid
      exact (mem_taken.1 hd).2
  · exact mem_raise.2 (.inr ⟨c, mem_taken.2 ⟨hc, htaken⟩, rfl⟩)

theorem newly_eq_self (hunset : ∀ c ∈ infos, c.id ∉ h.isSet) (hset : ∀ c ∈ infos, c.id ∈ h'.isSet) :
    newly infos h h' = infos :=
  List.filter_eq_self.2 fun c hc => by simp [hunset c hc, hset c hc]

theorem newly_eq_nil (hsame : ∀ c ∈ infos, c.id ∉ h.isSet → c.id ∉ h'.isSet) :
    newly infos h h' = [] :=
  List.filter_eq_nil_iff.2 fun c hc => by simpa using hsame c hc

/-- The conditions are the conjuncts whose flags were raised, and those of the tree's clauses. -/
structure InnerPlaced (f : From V) (infos : List (SubExprInfo V)) (h : Flags) : Prop where
  tables : (pushDown f infos h).2.1 = f.tables
  placedTables : (pushDown f infos h).1.tables = f.tables
  covered : (pushDown f infos h).1.Covered
  plain : (pushDown f infos h).1.Plain
  notOuter : (pushDown f infos h).1.outerNumber = none
  attached : (exprs (pushDown f infos h).1.attached).Perm
    (exprs (newly infos h (pushDown f infos h).2.2) ++ f.clauses)
  complete : ∀ c ∈ infos, c.subExpr.getRefTable ⊆ f.tables →
    c.id ∈ (pushDown f infos h).2.2.isSet

theorem perm_sorted_all (cs : List (SubExprInfo V)) : (sorted cs).all.Perm cs := by
  have h := filter_append_perm
    (fun i : SubExprInfo V => decide (i.subExpr.type = .isEqualCondition)) cs
  simpa [sorted, Conditions.all] using h

theorem perm_exprs {ds : List (SubExprInfo V)} (h : cs.Perm ds) :
    (exprs cs).Perm (exprs ds) := h.map _

theorem raise_complete {c : SubExprInfo V} (hc : c ∈ infos) (href : c.subExpr.getRefTable ⊆ T) :
    c.id ∈ (h.raise (taken T infos h)).isSet := by
  by_cases hset : c.id ∈ h.isSet
  · exact mem_raise.2 (.inl hset)
  · exact mem_raise.2 (.inr ⟨c, mem_taken.2 ⟨hc, hset, href⟩, rfl⟩)

theorem within_sorted (T : Finset String) (infos : List (SubExprInfo V)) (h : Flags) :
    Within (sorted (taken T infos h)).all T :=
  fun c hc => within_taken T infos h c (mem_sorted_all.1 hc)

theorem pair_attached {cur : List (SubExprInfo V)} (hv : h.Valid) (hk : Known cur h)
    (hl : InnerPlaced l cur h) (hr : InnerPlaced r cur (pushDown l cur h).2.2) :
    (exprs ((pushDown l cur h).1.attached ++
        (pushDown r cur (pushDown l cur h).2.2).1.attached ++
        (sorted (pairTaken l r cur h)).all)).Perm
      (exprs (newly cur h ((flagsAfter l r cur h).raise (pairTaken l r cur h))) ++
        (l.clauses ++ r.clauses)) := by
  have hgl := pushDown_grows l hv hk
  have hgr : Grows cur (pushDown l cur h).2.2 (flagsAfter l r cur h) :=
    pushDown_grows r hgl.valid (hk.mono hgl.next_le)
  have hphases : (newly cur h ((flagsAfter l r cur h).raise (pairTaken l r cur h))).Perm
      (newly cur h (pushDown l cur h).2.2 ++ newly cur (pushDown l cur h).2.2
        (flagsAfter l r cur h) ++ pairTaken l r cur h) := by
    refine (newly_trans cur (hgl.subset.trans hgr.subset)
      fun i hi => mem_raise.2 (.inl hi)).trans ?_
    refine (newly_trans cur hgl.subset hgr.subset).append (List.Perm.of_eq ?_)
    exact newly_raise (hk.mono (hgl.next_le.trans hgr.next_le))
  have hrAttached : (exprs (pushDown r cur (pushDown l cur h).2.2).1.attached).Perm
      (exprs (newly cur (pushDown l cur h).2.2 (flagsAfter l r cur h)) ++ r.clauses) :=
    hr.attached
  refine List.Perm.trans ?_ ((perm_exprs hphases).symm.append_right _)
  rw [exprs_append, exprs_append, exprs_append, exprs_append]
  refine ((hl.attached.append hrAttached).append
    (perm_exprs (perm_sorted_all (pairTaken l r cur h)))).trans ?_
  rw [← Multiset.coe_eq_coe]
  simp only [← Multiset.coe_add]
  abel

theorem InnerPlaced.attached_where (hv : h.Valid)
    (hscope : ∀ e ∈ conjuncts w, e.getRefTable ⊆ f.tables)
    (hf : InnerPlaced f (getSubExprInfo w h).1 (getSubExprInfo w h).2) :
    (exprs (pushDownSelect f w h).1.attached).Perm (conjuncts w ++ f.clauses) := by
  have hall : newly (getSubExprInfo w h).1 (getSubExprInfo w h).2 (pushDownSelect f w h).2.2
      = (getSubExprInfo w h).1 :=
    newly_eq_self (fun c hc => fresh_not_set hv hc)
      fun c hc => hf.complete c hc (hscope _ (mem_getSubExprInfo hc).1)
  have hattached := hf.attached
  rw [show (pushDown f (getSubExprInfo w h).1 (getSubExprInfo w h).2).2.2
    = (pushDownSelect f w h).2.2 from rfl, hall, exprs_getSubExprInfo] at hattached
  exact hattached

theorem table_placed (a : String) (rows : Multiset (Row V)) (hk : Known infos h) :
    InnerPlaced (.table a rows) infos h := by
  have hset := setCondition_spec {a} infos h hk.nodup
  have hpush : pushDown (.table a rows) infos h
      = (.table a rows (sorted (taken {a} infos h)), {a}, h.raise (taken {a} infos h)) := by
    rw [pushDown, hset]
  refine ⟨rfl, rfl, ?_, trivial, rfl, ?_, fun c hc href => ?_⟩
  · rw [hpush]
    exact within_sorted _ _ _
  · rw [hpush, newly_raise hk]
    simpa [From.clauses, Placed.attached] using perm_exprs (perm_sorted_all (taken {a} infos h))
  · rw [hpush]
    exact raise_complete hc href

theorem subquery_placed {a : String}
    {finish : Multiset (Joined String (Row V)) → Multiset (Row V)} (hv : h.Valid)
    (hk : Known infos h) (hscope : ∀ e ∈ conjuncts w, e.getRefTable ⊆ f.tables)
    (hf : InnerPlaced f (getSubExprInfo w h).1 (getSubExprInfo w h).2) :
    InnerPlaced (.subquery a f w finish) infos h := by
  obtain ⟨h', hh'⟩ : ∃ h', h' = (pushDownSelect f w h).2.2 := ⟨_, rfl⟩
  have hinner : Grows (getSubExprInfo w h).1 (getSubExprInfo w h).2 h' := by
    rw [hh']
    exact pushDown_grows f (hv.getSubExprInfo w) (Known.fresh w h)
  have hold : Grows ([] : List (SubExprInfo V)) h h' :=
    (hinner.mono fun c hc => mem_append_right [] hc).before_fresh
  have hk' := hk.mono hold.next_le
  have hset := setCondition_spec {a} infos h' hk'.nodup
  have hpush : pushDown (.subquery a f w finish) infos h
      = (.subquery a (pushDownSelect f w h).1 finish (sorted (taken {a} infos h')), {a},
          h'.raise (taken {a} infos h')) := by
    rw [pushDown]
    rw [show (pushDown f (getSubExprInfo w h).1 (getSubExprInfo w h).2).2.2 = h' from hh'.symm,
      hset]
    rfl
  -- nothing from above is set inside the subquery
  have hnone : newly infos h h' = [] := by
    refine newly_eq_nil fun c hc hunset hset => ?_
    obtain hc' | ⟨d, hd, -⟩ := hold.old c.id hset (hk.lt_next c hc)
    · exact hunset hc'
    · cases hd
  refine ⟨?_, ?_, ?_, ?_, ?_, ?_, fun c hc href => ?_⟩
  · rw [hpush]
    rfl
  · rw [hpush]
    rfl
  · rw [hpush]
    exact ⟨hf.covered, within_sorted _ _ _⟩
  · rw [hpush]
    exact hf.plain
  · rw [hpush]
    rfl
  · have hraise : h'.isSet ⊆ (h'.raise (taken {a} infos h')).isSet :=
      fun i hi => mem_raise.2 (.inl hi)
    have hnewly := newly_trans infos hold.subset hraise
    rw [hnone, newly_raise hk', nil_append] at hnewly
    rw [hpush, Placed.attached, exprs_append, From.clauses]
    refine ((hf.attached_where hv hscope).append (perm_exprs (perm_sorted_all _))).trans ?_
    exact List.perm_append_comm.trans ((perm_exprs hnewly).symm.append_right _)
  · rw [hpush]
    exact raise_complete hc href

theorem innerJoin_placed {l r : From V} {on : Option (Expr V)} {infos : List (SubExprInfo V)}
    {h : Flags} (hv : h.Valid) (hk : Known infos h)
    (hon : ∀ e ∈ conjuncts on, e.getRefTable ⊆ l.tables ∪ r.tables)
    (hl : InnerPlaced l (infos ++ (getSubExprInfo on h).1) (getSubExprInfo on h).2)
    (hr : InnerPlaced r (infos ++ (getSubExprInfo on h).1)
      (pushDown l (infos ++ (getSubExprInfo on h).1) (getSubExprInfo on h).2).2.2) :
    InnerPlaced (.join .inner l r on) infos h := by
  obtain ⟨cur, hcur⟩ : ∃ cur, cur = infos ++ (getSubExprInfo on h).1 := ⟨_, rfl⟩
  obtain ⟨h1, hh1⟩ : ∃ h1, h1 = (getSubExprInfo on h).2 := ⟨_, rfl⟩
  rw [← hcur, ← hh1] at hl hr
  obtain ⟨hk1, hv1, hpush⟩ := pushDown_innerJoin hv hk hcur hh1 hl.tables hr.tables
  refine ⟨?_, ?_, ?_, ?_, ?_, ?_, fun c hc href => ?_⟩
  · rw [hpush]
    rfl
  · rw [hpush, Placed.tables, hl.placedTables, hr.placedTables]
    rfl
  · rw [hpush]
    refine ⟨hl.covered, hr.covered, ?_⟩
    rw [hl.placedTables, hr.placedTables]
    exact within_sorted _ _ _
  · rw [hpush]
    exact ⟨rfl, hl.plain, hr.plain⟩
  · rw [hpush]
    rfl
  · -- of the conjuncts offered to the operands, those of ON are new and all set
    have hnew : newly (getSubExprInfo on h).1 h1
        ((flagsAfter l r cur h1).raise (pairTaken l r cur h1)) = (getSubExprInfo on h).1 := by
      refine newly_eq_self (fun c hc => ?_) fun c hc => ?_
      · rw [hh1]
        exact fresh_not_set hv hc
      · refine raise_complete ?_ (hon _ (mem_getSubExprInfo hc).1)
        rw [hcur]
        exact mem_append_right _ hc
    have hold : ∀ h', newly infos h1 h' = newly infos h h' := fun h' => by
      rw [hh1]
      rfl
    have hpair := pair_attached hv1 hk1 hl hr
    have hsplit : exprs (newly cur h1 ((flagsAfter l r cur h1).raise (pairTaken l r cur h1)))
        = exprs (newly infos h ((flagsAfter l r cur h1).raise (pairTaken l r cur h1)))
          ++ conjuncts on := by
      rw [← exprs_getSubExprInfo on h, ← exprs_append, ← hold]
      nth_rewrite 1 [hcur]
      rw [newly_append, hnew]
    rw [hsplit] at hpair
    rw [hpush]
    exact hpair.trans (List.Perm.of_eq (append_assoc _ _ _))
  · rw [hpush]
    refine raise_complete ?_ href
    rw [hcur]
    exact mem_append_left _ hc

theorem fromList_placed {n : From V} (hv : h.Valid) (hk : Known infos h)
    (ha : InnerPlaced a infos h) (hn : InnerPlaced n infos (pushDown a infos h).2.2) :
    InnerPlaced (.fromList a n) infos h := by
  have hpush := pushDown_fromList hv hk ha.tables hn.tables
  refine ⟨?_, ?_, ?_, ?_, ?_, ?_, fun c hc href => ?_⟩
  · rw [hpush]
    rfl
  · rw [hpush, Placed.tables, ha.placedTables, hn.placedTables]
    rfl
  · rw [hpush]
    refine ⟨ha.covered, hn.covered, ?_⟩
    rw [ha.placedTables, hn.placedTables]
    exact within_sorted _ _ _
  · rw [hpush]
    exact ⟨ha.plain, hn.plain, ha.notOuter⟩
  · rw [hpush]
    rfl
  · rw [hpush]
    exact pair_attached hv hk ha hn
  · rw [hpush]
    exact raise_complete hc href

theorem lastFrom_placed (hv : h.Valid) (hk : Known infos h) (ha : InnerPlaced a infos h) :
    InnerPlaced (.lastFrom a) infos h := by
  have hgrows := pushDown_grows a hv hk
  have hset := setCondition_spec a.tables infos (pushDown a infos h).2.2
    (hk.mono hgrows.next_le).nodup
  -- `args_` has left nothing over
  have hnone : taken a.tables infos (pushDown a infos h).2.2 = [] := by
    refine List.eq_nil_iff_forall_not_mem.2 fun c hc => ?_
    obtain ⟨hc, hunset, href⟩ := mem_taken.1 hc
    exact hunset (ha.complete c hc href)
  have hraise : (pushDown a infos h).2.2.raise ([] : List (SubExprInfo V))
      = (pushDown a infos h).2.2 := by simp [Flags.raise]
  have hpush : pushDown (.lastFrom a) infos h
      = (.lastFrom (pushDown a infos h).1 (sorted []), a.tables, (pushDown a infos h).2.2) := by
    rw [hnone, hraise] at hset
    rw [pushDown, ha.tables]
    exact congrArg (fun s => (Placed.lastFrom _ s.1, a.tables, s.2)) hset
  refine ⟨?_, ?_, ?_, ?_, ?_, ?_, fun c hc href => ?_⟩
  · rw [hpush]
    rfl
  · rw [hpush]
    exact ha.placedTables
  · rw [hpush]
    exact ⟨ha.covered, fun c hc => absurd (mem_sorted_all.1 hc) not_mem_nil⟩
  · rw [hpush]
    exact ⟨ha.plain, rfl⟩
  · rw [hpush]
    rfl
  · rw [hpush, Placed.attached, show (sorted ([] : List (SubExprInfo V))).all = [] from rfl,
      append_nil]
    exact ha.attached
  · rw [hpush]
    exact ha.complete c hc href

theorem inner_placed (hf : f.Inner) (hwf : f.WellFormed) (hv : h.Valid) (hk : Known infos h) :
    InnerPlaced f infos h := by
  induction f generalizing infos h with
  | table a rows => exact table_placed a rows hk
  | subquery a f w finish ih =>
    exact subquery_placed hv hk hwf.2 (ih hf hwf.1 (hv.getSubExprInfo w) (Known.fresh w h))
  | join t l r on ihl ihr =>
    obtain ⟨rfl, hl, hr⟩ := hf
    obtain ⟨hwl, hwr, -, hon⟩ := hwf
    have hk' := hk.with_fresh on
    have hgl := pushDown_grows l (hv.getSubExprInfo on) hk'
    exact innerJoin_placed hv hk hon (ihl hl hwl (hv.getSubExprInfo on) hk')
      (ihr hr hwr hgl.valid (hk'.mono hgl.next_le))
  | fromList a n iha ihn =>
    have hga := pushDown_grows a hv hk
    exact fromList_placed hv hk (iha hf.1 hwf.1 hv hk)
      (ihn hf.2 hwf.2.1 hga.valid (hk.mono hga.next_le))
  | lastFrom a ih => exact lastFrom_placed hv hk (ih hf hwf hv hk)

/-! ### The cross product -/

def From.onConjuncts : From V → List (Expr V)
  | .table _ _ => []
  | .subquery _ _ _ _ => []
  | .join _ l r on => conjuncts on ++ (l.onConjuncts ++ r.onConjuncts)
  | .fromList a n => a.onConjuncts ++ n.onConjuncts
  | .lastFrom a => a.onConjuncts

/-- The cross product of the tables, that of a subquery cut down by its conjuncts. -/
def crossTables (M : Meaning V) : From V → Multiset (Joined String (Row V))
  | .table a rows => rows.map (Rows.single a)
  | .subquery a f w finish =>
    (finish (Rows.select (holdsAll M (conjuncts w ++ f.onConjuncts)) (crossTables M f))).map
      (Rows.single a)
  | .join _ l r _ => product (crossTables M l) (crossTables M r)
  | .fromList a n => product (crossTables M a) (crossTables M n)
  | .lastFrom a => crossTables M a

theorem allOver_crossTables (M : Meaning V) (f : From V) :
    Rows.AllOver f.tables (crossTables M f) := by
  induction f with
  | table a rows => exact Rows.allOver_map_single a rows
  | subquery a f w finish _ => exact Rows.allOver_map_single a _
  | join t l r on ihl ihr => exact ihl.product ihr
  | fromList a n iha ihn => exact iha.product ihn
  | lastFrom a ih => exact ih

theorem onConjuncts_subset (hwf : f.WellFormed) :
    ∀ e ∈ f.onConjuncts, e.getRefTable ⊆ f.tables := by
  induction f with
  | table a rows | subquery a f w finish _ => exact fun e he => nomatch he
  | join t l r on ihl ihr =>
    exact List.forall_mem_append.2 ⟨hwf.2.2.2, List.forall_mem_append.2
      ⟨fun e he => (ihl hwf.1 e he).trans Finset.subset_union_left,
        fun e he => (ihr hwf.2.1 e he).trans Finset.subset_union_right⟩⟩
  | fromList a n iha ihn =>
    exact List.forall_mem_append.2
      ⟨fun e he => (iha hwf.1 e he).trans Finset.subset_union_left,
        fun e he => (ihn hwf.2.1 e he).trans Finset.subset_union_right⟩
  | lastFrom a ih => exact ih hwf

theorem product_select_both (M : Meaning V) (hl : l.WellFormed) (hr : r.WellFormed)
    (hd : Disjoint l.tables r.tables) :
    product (Rows.select (holdsAll M l.onConjuncts) (crossTables M l))
        (Rows.select (holdsAll M r.onConjuncts) (crossTables M r))
      = Rows.select (holdsAll M (l.onConjuncts ++ r.onConjuncts))
          (product (crossTables M l) (crossTables M r)) := by
  have hover := allOver_crossTables M l
  rw [Rows.product_select_right (reads_holdsAll M (onConjuncts_subset hr)) (hover.select _) hd,
    Rows.product_select_left (reads_holdsAll M (onConjuncts_subset hl)) hover,
    Rows.select_select]
  refine Rows.select_congr fun x _ => ?_
  rw [holdsAll_append, Bool.and_comm]

theorem sql_eq_cross (M : Meaning V) (hf : f.Inner) (hwf : f.WellFormed) :
    sql M f = Rows.select (holdsAll M f.onConjuncts) (crossTables M f) := by
  induction f with
  | table a rows => exact (Rows.select_eq_self fun _ _ => rfl).symm
  | subquery a f w finish ih =>
    have hrows : Rows.select (holdsClause M w) (sql M f)
        = Rows.select (holdsAll M (conjuncts w ++ f.onConjuncts)) (crossTables M f) := by
      rw [ih hf hwf.1, Rows.select_select]
      refine Rows.select_congr fun x _ => ?_
      rw [holdsAll_append, holdsClause_eq_all]
    rw [sql, crossTables, hrows]
    exact (Rows.select_eq_self fun _ _ => rfl).symm
  | join t l r on ihl ihr =>
    obtain ⟨rfl, hl, hr⟩ := hf
    obtain ⟨hwl, hwr, hd, -⟩ := hwf
    rw [sql, Rows.matched, ihl hl hwl, ihr hr hwr, product_select_both M hwl hwr hd,
      Rows.select_select]
    refine Rows.select_congr fun x _ => ?_
    rw [From.onConjuncts, holdsAll_append M (conjuncts on), holdsClause_eq_all]
  | fromList a n iha ihn =>
    rw [sql, iha hf.1 hwf.1, ihn hf.2 hwf.2.1, product_select_both M hwf.1 hwf.2.1 hwf.2.2]
    rfl
  | lastFrom a ih => exact ih hf hwf

def isTrue : Option ℕ → Bool
  | some (_ + 1) => true
  | _ => false

/-- Numbers and NULL: equality and "<" are unknown on NULL, and a row passes a
condition whose value is a number other than 0. -/
def numbers : Meaning (Option ℕ) where
  call op v w _ :=
    match v, w with
    | some m, some n => if op = "<" then some (if m < n then 1 else 0) else none
    | _, _ => none
  and v w := if isTrue v && isTrue w then some 1 else some 0
  equal v w :=
    match v, w with
    | some m, some n => some (if m = n then 1 else 0)
    | _, _ => none
  absent := none
  null := none
  truth := isTrue
  sameKey v w := v.isSome && v == w
  truth_and v w := by
    cases h : isTrue v && isTrue w <;> simp [isTrue]
  sameKey_of_equal v w h := by
    cases v with
    | none => cases h
    | some m =>
      cases w with
      | none => cases h
      | some n =>
        by_cases hmn : m = n
        · simp [hmn]
        · simp [hmn, isTrue] at h

def rowXY (x y : ℕ) : Row (Option ℕ) := fun c => if c = "x" then some x else some y

def tableA : From (Option ℕ) := .table "a" {rowXY 1 7, rowXY 2 3}
def tableB : From (Option ℕ) := .table "b" {rowXY 1 5}

def sameX (a b : String) : Expr (Option ℕ) := .equal (.column a "x") (.column b "x")

def yBelow (a : String) (n : ℕ) : Expr (Option ℕ) :=
  .call "<" (.column a "y") (.const (some n)) .absent

/-- `FROM a JOIN b ON a.x = b.x AND b.y < 9`. -/
def joinAB : From (Option ℕ) :=
  .lastFrom (.join .inner tableA tableB (some (.and (sameX "a" "b") (yBelow "b" 9))))

/-- `a.x IS TRUE`. -/
def xIsTrue : Expr (Option ℕ) := .call "IS_BOOL" (.column "a" "x") .absent .absent

/-- `FROM a STRAIGHT_JOIN b ON a.x = b.x`. -/
def straightJoinAB : From (Option ℕ) :=
  .lastFrom (.join .straight tableA tableB (some (sameX "a" "b")))

end PushDown
