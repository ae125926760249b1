/-
The two range queries of the CSB+ tree on a tree built by `BulkLoad`.

When the tree is a single leaf, the function with two keys returns at the end of the leaf; the one
with comparisons goes on to the father that the leaf does not have.
-/
import ClaimsDB.CSBSearchCorrect

namespace CSB

open List

variable {T : Type} [IndexKey T] {aray : List (DataOffset T)}

def Comparison.holds : Comparison → T → T → Prop
  | .eq, key, k => k = key
  | .l, key, k => k < key
  | .leq, key, k => k ≤ key
  | .g, key, k => key < k
  | .geq, key, k => key ≤ k

instance (c : Comparison) (key k : T) : Decidable (c.holds key k) :=
  match c with
  | .eq => inferInstanceAs (Decidable (k = key))
  | .l => inferInstanceAs (Decidable (k < key))
  | .leq => inferInstanceAs (Decidable (k ≤ key))
  | .g => inferInstanceAs (Decidable (key < k))
  | .geq => inferInstanceAs (Decidable (key ≤ k))

def Exact (aray : List (DataOffset T)) (p : T → Prop) [DecidablePred p] (ret : SearchResult) :
    Prop :=
  ∀ b, ret b = if (∃ d ∈ aray, p d.key ∧ d.blockOff = b) then
    some ((aray.filter fun d => p d.key ∧ d.blockOff = b).map (·.tupleOff)) else none

omit [IndexKey T] in
theorem exact_collectAll (aray : List (DataOffset T)) (p : T → Prop) [DecidablePred p] :
    Exact aray p (SearchResult.empty.collectAll (aray.filter fun d => p d.key)) := by
  intro b
  rw [collectAll_apply]
  simp only [mem_filter, decide_eq_true_eq, filter_filter, SearchResult.empty,
    Option.getD_none, nil_append, and_assoc, Bool.decide_and, Bool.and_comm]

variable {p : T → Prop} {ret : SearchResult} {q P : T → Prop}

omit [IndexKey T] in
theorem exact_empty [DecidablePred p] (h : ∀ d ∈ aray, ¬ p d.key) : Exact aray p .empty :=
  fun _ => (if_neg fun ⟨d, hd, hp, _⟩ => h d hd hp).symm

omit [IndexKey T] in
theorem Exact.unique [DecidablePred p] {ret' : SearchResult} (h : Exact aray p ret)
    (h' : Exact aray p ret') : ret = ret' :=
  funext fun b => (h b).trans (h' b).symm

omit [IndexKey T] in
theorem Exact.congr [DecidablePred p] [DecidablePred q] (h : Exact aray p ret)
    (hpq : ∀ d ∈ aray, p d.key ↔ q d.key) : Exact aray q ret := by
  intro b
  have hex : (∃ d ∈ aray, p d.key ∧ d.blockOff = b) ↔ ∃ d ∈ aray, q d.key ∧ d.blockOff = b :=
    exists_congr fun d => and_congr_right fun hd => by rw [hpq d hd]
  have hfilter : (aray.filter fun d => p d.key ∧ d.blockOff = b) =
      aray.filter fun d => q d.key ∧ d.blockOff = b :=
    filter_congr fun d hd => by simp [hpq d hd]
  rw [h b, hfilter]
  simp only [hex]

omit [IndexKey T] in
theorem Exact.stronger [DecidablePred p] [DecidablePred q] (hp : Exact aray p ret)
    (hq : Exact aray (fun k => p k ∧ q k) ret) {d : DataOffset T} (hd : d ∈ aray) (hpd : p d.key)
    : q d.key := by
  have hb := (hp d.blockOff).symm.trans (hq d.blockOff)
  rw [if_pos ⟨d, hd, hpd, rfl⟩] at hb
  split_ifs at hb with hex
  have hlen := congrArg List.length (Option.some.inj hb)
  rw [length_map, length_map] at hlen
  have hsplit : (aray.filter fun e => (p e.key ∧ q e.key) ∧ e.blockOff = d.blockOff) =
      (aray.filter fun e => p e.key ∧ e.blockOff = d.blockOff).filter fun e => q e.key := by
    rw [filter_filter]
    exact filter_congr fun e _ => by simp [and_assoc, Bool.and_left_comm]
  rw [hsplit] at hlen
  have hall := List.length_filter_eq_length_iff.1 hlen.symm
  exact of_decide_eq_true (hall d (List.mem_filter.2 ⟨hd, decide_eq_true ⟨hpd, rfl⟩⟩))

theorem window_ge (lowerKey : T) [DecidablePred P] (hP : ∀ a b, a ≤ b → P b → P a) :
    Window (fun k => decide (k < lowerKey)) (fun k => decide (lowerKey ≤ k))
      fun k => decide (lowerKey ≤ k ∧ P k) := by
  refine ⟨fun a b hab hb => ?_, fun k hk => ?_, fun k hk => ?_, fun a b hab ha hw => ?_⟩
  · exact decide_eq_true (lt_of_le_of_lt hab (of_decide_eq_true hb))
  · exact decide_eq_false (not_le.mpr (of_decide_eq_true hk))
  · exact decide_eq_true (of_decide_eq_true hk).1
  · have hle : lowerKey ≤ a := not_lt.mp (of_decide_eq_false ha)
    exact decide_eq_false fun hb => of_decide_eq_false hw ⟨hle, hP a b hab hb.2⟩

theorem window_gt (lowerKey : T) [DecidablePred P] (hP : ∀ a b, a ≤ b → P b → P a) :
    Window (fun k => decide (k ≤ lowerKey)) (fun k => decide (lowerKey < k))
      fun k => decide (lowerKey < k ∧ P k) := by
  refine ⟨fun a b hab hb => ?_, fun k hk => ?_, fun k hk => ?_, fun a b hab ha hw => ?_⟩
  · exact decide_eq_true (hab.trans (of_decide_eq_true hb))
  · exact decide_eq_false (not_lt.mpr (of_decide_eq_true hk))
  · exact decide_eq_true (of_decide_eq_true hk).1
  · have hlt : lowerKey < a := not_le.mp (of_decide_eq_false ha)
    exact decide_eq_false fun hb => of_decide_eq_false hw ⟨hlt, hP a b hab hb.2⟩

theorem stops_dropWhile (start : T → Bool) {within : T → Bool}
    (hmono : ∀ a b, a ≤ b → start a = true → start b = true) :
    ∀ {es : List (DataOffset T)}, SortedByKey es →
      (stops within (es.dropWhile fun d => !start d.key) = true ↔
        ∃ d ∈ es, start d.key = true ∧ within d.key = false)
  | [], _ => by simp [stops]
  | d :: es, hs => by
    obtain ⟨hle, hs⟩ := List.pairwise_cons.1 hs
    by_cases hd : start d.key = true
    · have hall : ∀ e ∈ d :: es, start e.key = true :=
        List.forall_mem_cons.2 ⟨hd, fun e he => hmono _ _ (hle e he) hd⟩
      rw [dropWhile_cons_of_neg (by simp [hd]), stops, any_eq_true]
      simp only [Bool.not_eq_true']
      exact exists_congr fun e => and_congr_right fun he => by simp [hall e he]
    · rw [dropWhile_cons_of_pos (by simpa using hd), stops_dropWhile start hmono hs]
      simp [hd]

theorem bulkLoad_single {aray : List (DataOffset T)} (hne : aray ≠ []) :
    ∃ t ups L, bulkLoad (CSBPlusTree.new T) aray = .ok t ∧ Represents t ups L ∧
      entries L = aray ∧ (t.csbDepth = 1 ↔ aray.length ≤ maxDatas T) := by
  obtain ⟨t, ups, L, ht, hR, hE, -⟩ := bulkLoad_represents hne
  refine ⟨t, ups, L, ht, hR, hE, fun hdepth => ?_, fun hle => ?_⟩
  · obtain rfl : ups = [] := eq_nil_of_length_eq_zero (by have := hR.depth; omega)
    obtain ⟨g, p, ds, rfl, -, -⟩ := hR.single
    have hle := hR.forest.datas_le (p, ds) (by simp [flat])
    rw [← hE]
    simpa [entries, flat] using hle
  · obtain ⟨t', L', ht', hR', -⟩ := bulkLoad_one hne hle
    obtain rfl := Except.ok.inj (ht.symm.trans ht')
    exact hR'.depth

theorem query_new (right start within : T → Bool) (fallsThrough : Bool) :
    query (CSBPlusTree.new T) right start within fallsThrough = .ok .empty := rfl

theorem rangeQueryComp_new (lowerKey upperKey : T) (compLower compUpper : Comparison) :
    rangeQueryComp (CSBPlusTree.new T) lowerKey compLower upperKey compUpper = .ok .empty := by
  cases compLower <;> cases compUpper <;> simp only [rangeQueryComp, search, query_new, ite_self]

def Accepted (lowerKey : T) (compLower : Comparison) (upperKey : T) (compUpper : Comparison) :
    Prop :=
  compLower = .eq ∧ lowerKey = upperKey ∨
    (compLower = .g ∨ compLower = .geq) ∧ (compUpper = .l ∨ compUpper = .leq)

/-- A point query ignores the other comparison; a range query has to stop within a single leaf. -/
def Covered (aray : List (DataOffset T)) (lowerKey : T) (compLower : Comparison) (upperKey : T)
    (compUpper : Comparison) : Prop :=
  if compLower = .eq then ∀ d ∈ aray, d.key = lowerKey → compUpper.holds upperKey d.key
  else upperKey < lowerKey ∨ aray = [] ∨ maxDatas T < aray.length ∨
    ∃ d ∈ aray, compLower.holds lowerKey d.key ∧ ¬ compUpper.holds upperKey d.key

section Tests

variable {t : CSBPlusTree T} {ups : List (InternalView T)} {L : LeafView T} {lowerKey upperKey : T}
  {right : T → Bool} {P Q : T → Prop} [DecidablePred P] [DecidablePred Q]

section

variable (hR : Represents t ups L) (hs : SortedByKey (entries L))
  (hdepth : t.csbDepth = 1 ↔ (entries L).length ≤ maxDatas T)
  (hW : Window right (fun k => decide (P k)) fun k => decide (P k ∧ Q k))
  (hmono : ∀ a b, a ≤ b → P a → P b)

include hR hs hdepth hW hmono

theorem query_exact_iff (fallsThrough : Bool) :
    (∃ ret, query t right (fun k => decide (P k)) (fun k => decide (P k ∧ Q k)) fallsThrough
        = .ok ret ∧ Exact (entries L) (fun k => P k ∧ Q k) ret) ↔
      fallsThrough = false ∨ maxDatas T < (entries L).length ∨
        ∃ d ∈ entries L, P d.key ∧ ¬ Q d.key := by
  have hstop : stops (fun k => decide (P k ∧ Q k))
      ((entries L).dropWhile fun d => !decide (P d.key)) = true ↔
        ∃ d ∈ entries L, P d.key ∧ ¬ Q d.key := by
    rw [stops_dropWhile (fun k => decide (P k))
      (fun a b hab ha => decide_eq_true (hmono a b hab (of_decide_eq_true ha))) hs]
    refine exists_congr fun d => and_congr_right fun _ => ?_
    rw [decide_eq_true_eq, decide_eq_false_iff_not]
    exact and_congr_right fun hp => not_congr (and_iff_right hp)
  rw [query_eq hR hs hW, answer, ← hstop, ← not_le, ← hdepth]
  split_ifs with hend
  · simp only [Bool.and_eq_true, decide_eq_true_eq, Bool.not_eq_true'] at hend
    obtain ⟨⟨hdep, hft⟩, hno⟩ := hend
    rw [hno, hft]
    constructor
    · rintro ⟨_, h, _⟩
      cases h
    · rintro (h | h | h)
      · cases h
      · exact absurd hdep h
      · cases h
  · simp only [Bool.and_eq_true, decide_eq_true_eq, Bool.not_eq_true', not_and,
      Bool.not_eq_false] at hend
    refine ⟨fun _ => ?_, fun _ => ⟨_, rfl, exact_collectAll _ _⟩⟩
    by_cases hdep : t.csbDepth = 1
    · cases fallsThrough with
      | false => exact .inl rfl
      | true => exact .inr (.inr (hend ⟨hdep, rfl⟩))
    · exact .inr (.inl hdep)

theorem checked_exact_iff (hout : upperKey < lowerKey → ∀ k, P k → ¬ Q k)
    (fallsThrough : Bool) :
    (∃ ret, (if upperKey < lowerKey then .ok .empty else
        query t right (fun k => decide (P k)) (fun k => decide (P k ∧ Q k)) fallsThrough) = .ok ret ∧
          Exact (entries L) (fun k => P k ∧ Q k) ret) ↔
      fallsThrough = false ∨ upperKey < lowerKey ∨ maxDatas T < (entries L).length ∨
        ∃ d ∈ entries L, P d.key ∧ ¬ Q d.key := by
  split_ifs with hlt
  · exact ⟨fun _ => .inr (.inl hlt), fun _ =>
      ⟨.empty, rfl, exact_empty fun d _ h => hout hlt d.key h.1 h.2⟩⟩
  · rw [query_exact_iff hR hs hdepth hW hmono]
    simp [hlt]

end

end Tests

variable {t : CSBPlusTree T} {ups : List (InternalView T)} {L : LeafView T}

theorem rangeQueryComp_exact_iff (hR : Represents t ups L) (hs : SortedByKey (entries L))
    (hne : entries L ≠ []) (hdepth : t.csbDepth = 1 ↔ (entries L).length ≤ maxDatas T)
    {lowerKey upperKey : T} {compLower compUpper : Comparison}
    (hacc : Accepted lowerKey compLower upperKey compUpper) :
    (∃ ret, rangeQueryComp t lowerKey compLower upperKey compUpper = .ok ret ∧
      Exact (entries L) (fun k => compLower.holds lowerKey k ∧ compUpper.holds upperKey k) ret) ↔
        Covered (entries L) lowerKey compLower upperKey compUpper := by
  have hleq : ∀ a b : T, a ≤ b → b ≤ upperKey → a ≤ upperKey := fun _ _ => le_trans
  have hl : ∀ a b : T, a ≤ b → b < upperKey → a < upperKey := fun _ _ => lt_of_le_of_lt
  have hgeq : ∀ a b : T, a ≤ b → lowerKey ≤ a → lowerKey ≤ b := fun _ _ hab ha => ha.trans hab
  have hg : ∀ a b : T, a ≤ b → lowerKey < a → lowerKey < b := fun _ _ hab ha => ha.trans_le hab
  rcases hacc with ⟨rfl, -⟩ | ⟨rfl | rfl, rfl | rfl⟩
  · rw [Covered, if_pos rfl]
    have hsearch := search_eq hR hs lowerKey
    have hexact : Exact (entries L) (fun k => k = lowerKey)
        (SearchResult.empty.collectAll ((entries L).filter fun d => lowerKey = d.key)) := by
      simpa only [eq_comm] using exact_collectAll (entries L) (fun k => k = lowerKey)
    constructor
    · rintro ⟨ret, hret, hboth⟩ d hd hkey
      obtain rfl := Except.ok.inj (hsearch.symm.trans hret)
      exact hexact.stronger hboth hd hkey
    · intro hall
      exact ⟨_, hsearch, hexact.congr fun d hd => ⟨fun hk => ⟨hk, hall d hd hk⟩, And.left⟩⟩
  all_goals rw [Covered, if_neg (by decide)]
  · exact (checked_exact_iff hR hs hdepth (window_gt lowerKey hl) hg
      (fun hlt k hk hk' => lt_asymm hlt (hk.trans hk')) true).trans (by simp [hne, Comparison.holds])
  · exact (checked_exact_iff hR hs hdepth (window_gt lowerKey hleq) hg
      (fun hlt k hk hk' => lt_asymm hlt (hk.trans_le hk')) true).trans
        (by simp [hne, Comparison.holds])
  · exact (checked_exact_iff hR hs hdepth (window_ge lowerKey hl) hgeq
      (fun hlt k hk hk' => lt_asymm hlt (hk.trans_lt hk')) true).trans
        (by simp [hne, Comparison.holds])
  · exact (checked_exact_iff hR hs hdepth (window_ge lowerKey hleq) hgeq
      (fun hlt k hk hk' => hlt.not_ge (hk.trans hk')) true).trans (by simp [hne, Comparison.holds])

theorem rangeQuery_exact (hR : Represents t ups L) (hs : SortedByKey (entries L))
    (hdepth : t.csbDepth = 1 ↔ (entries L).length ≤ maxDatas T) (lowerKey upperKey : T) :
    ∃ ret, rangeQuery t lowerKey upperKey = .ok ret ∧
      Exact (entries L) (fun k => lowerKey ≤ k ∧ k ≤ upperKey) ret :=
  (checked_exact_iff hR hs hdepth (window_ge lowerKey fun _ _ => le_trans)
    (fun _ _ hab ha => ha.trans hab) (fun hlt _ hk hk' => hlt.not_ge (hk.trans hk')) false).2
      (.inl rfl)

/-- **Range queries are exact**: with two keys always, with comparisons where `Covered` holds. -/
theorem range_query_exact_iff (aray : List (DataOffset T)) (hs : SortedByKey aray) (lowerKey : T)
    (compLower : Comparison) (upperKey : T) (compUpper : Comparison)
    (hacc : Accepted lowerKey compLower upperKey compUpper) :
    ∃ t, bulkLoad (CSBPlusTree.new T) aray = .ok t ∧
      (∃ ret, rangeQuery t lowerKey upperKey = .ok ret ∧
        Exact aray (fun k => lowerKey ≤ k ∧ k ≤ upperKey) ret) ∧
      ((∃ ret, rangeQueryComp t lowerKey compLower upperKey compUpper = .ok ret ∧
        Exact aray (fun k => compLower.holds lowerKey k ∧ compUpper.holds upperKey k) ret) ↔
          Covered aray lowerKey compLower upperKey compUpper) ∧
      (Covered aray lowerKey .geq upperKey .leq →
        rangeQueryComp t lowerKey .geq upperKey .leq = rangeQuery t lowerKey upperKey) := by
  rcases eq_or_ne aray [] with rfl | hne
  · refine ⟨CSBPlusTree.new T, rfl, ⟨.empty, ?_, exact_empty (by simp)⟩, ⟨fun _ => ?_, fun _ =>
      ⟨.empty, ?_, exact_empty (by simp)⟩⟩, fun _ => ?_⟩
    · rw [rangeQuery, query_new, ite_self]
    · rw [Covered]
      split_ifs
      · simp
      · exact .inr (.inl rfl)
    · rw [rangeQueryComp_new]
    · rw [rangeQueryComp_new, rangeQuery, query_new, ite_self]
  obtain ⟨t, ups, L, ht, hR, rfl, hdepth⟩ := bulkLoad_single hne
  obtain ⟨ret, hret, hexact⟩ := rangeQuery_exact hR hs hdepth lowerKey upperKey
  refine ⟨t, ht, ⟨ret, hret, hexact⟩, rangeQueryComp_exact_iff hR hs hne hdepth hacc, fun hcov => ?_⟩
  obtain ⟨ret', hret', hexact'⟩ :=
    (rangeQueryComp_exact_iff hR hs hne hdepth (.inr ⟨.inr rfl, .inr rfl⟩)).2 hcov
  rw [hret, hret', hexact.unique hexact']

def key (k : Fin 10) : CInt := ⟨k, by omega, by omega⟩

def threeEntries : List (DataOffset CInt) := [⟨key 4, 0, 1⟩, ⟨key 5, 1, 0⟩, ⟨key 7, 0, 2⟩]

theorem sorted_threeEntries : SortedByKey threeEntries := by
  unfold SortedByKey
  decide

theorem range_of_three :
    ∃ t, bulkLoad (CSBPlusTree.new CInt) threeEntries = .ok t ∧
      ∃ ret, rangeQueryComp t (key 5) .geq (key 6) .l = .ok ret ∧
        Exact threeEntries (fun k => key 5 ≤ k ∧ k < key 6) ret := by
  obtain ⟨t, ht, -, hiff, -⟩ := range_query_exact_iff threeEntries sorted_threeEntries (key 5) .geq
    (key 6) .l (.inr ⟨.inr rfl, .inl rfl⟩)
  refine ⟨t, ht, hiff.2 ?_⟩
  rw [Covered, if_neg (by decide)]
  exact .inr (.inr (.inr ⟨⟨key 7, 0, 2⟩, by decide, by decide, by decide⟩))

/-- From 5 to 9 the walk reaches the end of the only leaf and then its missing father. -/
theorem range_beyond_leaf :
    ∃ t ret, bulkLoad (CSBPlusTree.new CInt) threeEntries = .ok t ∧
      rangeQuery t (key 5) (key 9) = .ok ret ∧
      rangeQueryComp t (key 5) .geq (key 9) .leq = .error .nullDeref := by
  obtain ⟨t, ups, L, ht, hR, hE, hdepth⟩ := bulkLoad_single (show threeEntries ≠ [] by decide)
  rw [← hE] at hdepth
  have hs : SortedByKey (entries L) := hE ▸ sorted_threeEntries
  obtain ⟨ret, hret, -⟩ := rangeQuery_exact hR hs hdepth (key 5) (key 9)
  refine ⟨t, ret, ht, hret, ?_⟩
  have hone : decide (t.csbDepth = 1) = true :=
    decide_eq_true (hdepth.2 (by rw [hE]; decide))
  rw [rangeQueryComp, if_neg (by decide),
    query_eq hR hs (window_ge (key 5) fun _ _ => le_trans), hone, hE]
  rfl

/-- **A range of one key** is answered as a search for it. -/
theorem range_of_one_key (aray : List (DataOffset T)) (hs : SortedByKey aray) (k : T) :
    ∃ t, bulkLoad (CSBPlusTree.new T) aray = .ok t ∧ rangeQuery t k k = search t k := by
  rcases eq_or_ne aray [] with rfl | hne
  · exact ⟨_, rfl, by rw [rangeQuery, query_new, ite_self]; rfl⟩
  obtain ⟨t, ups, L, ht, hR, rfl, hdepth⟩ := bulkLoad_single hne
  obtain ⟨ret, hret, hexact⟩ := rangeQuery_exact hR hs hdepth k k
  have hsame : ∀ d ∈ entries L, (k ≤ d.key ∧ d.key ≤ k) ↔ k = d.key :=
    fun _ _ => le_antisymm_iff.symm
  refine ⟨t, ht, ?_⟩
  rw [hret, search_eq hR hs, (hexact.congr hsame).unique (exact_collectAll _ _)]

theorem range_of_five : ∃ t, bulkLoad (CSBPlusTree.new CInt) threeEntries = .ok t ∧
    rangeQuery t (key 5) (key 5) = search t (key 5) :=
  range_of_one_key threeEntries sorted_threeEntries (key 5)

end CSB
