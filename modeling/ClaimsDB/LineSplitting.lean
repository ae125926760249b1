/-
Cutting a file into lines.  After a partial match `GetTupleTerminatedBy` goes on behind the byte
that did not fit; it compares bytes with `char`s, which are negative from 128 on.

* **`intercalate_lines`** — joining the lines of a file gives it back;
* **`read_eq_some_iff`** — a terminator is found where a comparison begins;
* **`lines_of_file_iff`** — when the lines are those of the file;
* **`terminator_missed`** — a terminator that begins in a partial match.
-/
import ClaimsDB.ColumnText

namespace Loader

open List

/-- A byte that `get` returns, compared with a `char`. -/
def sameChar (c d : UInt8) : Bool :=
  (if d.toNat < 128 then (d.toNat : ℤ) else d.toNat - 256) = c.toNat

/-- The loops of `GetTupleTerminatedBy`; `k` is `coincide_length`, and 0 in the outer loop. -/
def read (terminator : Text) : ℕ → Text → Text → Text × Option Text
  | _, res, [] => (res, none)
  | k, res, c :: ifs =>
    if sameChar c (terminator.getD k 0) then
      if k + 1 = terminator.length then
        ((res ++ [c]).take ((res ++ [c]).length - terminator.length), some ifs)
      else read terminator (k + 1) (res ++ [c]) ifs
    else read terminator 0 (res ++ [c]) ifs

def getline (delim : UInt8) : Text → Text × Option Text
  | [] => ([], none)
  | c :: ifs =>
    if c = delim then ([], some ifs) else ((getline delim ifs).1.cons c, (getline delim ifs).2)

def getTupleTerminatedBy (terminator ifs : Text) : Text × Option Text :=
  if terminator.length = 1 then getline (terminator.getD 0 0) ifs else read terminator 0 [] ifs

/-- The results of successive calls, up to the one that meets the end of the file. -/
def successive (call : Text → Text × Option Text) : ℕ → Text → List Text
  | 0, _ => []
  | n + 1, ifs =>
    match call ifs with
    | (res, none) => [res]
    | (res, some ifs) => res :: successive call n ifs

def lines (call : Text → Text × Option Text) (ifs : Text) : List Text :=
  successive call (ifs.length + 1) ifs

/-- What a call is to return: the text before the first terminator, or the rest. -/
def cut (terminator ifs : Text) : Text × Option Text :=
  match find terminator ifs with
  | none => (ifs, none)
  | some (res, rest) => (res, some rest)

variable {terminator res ifs rest : Text} {c d : UInt8} {k n : ℕ}

theorem find_spec (h : find terminator ifs = some (res, rest)) :
    ifs = res ++ terminator ++ rest := by
  induction ifs generalizing res with
  | nil =>
    obtain ⟨hnil, h⟩ := Option.ite_none_right_eq_some.mp h
    cases h
    rw [hnil]
    rfl
  | cons c ifs ih =>
    rw [find] at h
    split at h
    · rename_i hpre
      obtain ⟨t, ht⟩ := isPrefixOf_iff_prefix.1 hpre
      cases h
      rw [← ht, drop_left, nil_append]
    · obtain ⟨⟨a, b⟩, hab, heq⟩ := Option.map_eq_some_iff.1 h
      cases heq
      rw [ih hab]
      rfl

/-- **Joining the lines** with the terminator gives the file back. -/
theorem intercalate_lines (ht : terminator ≠ []) (ifs : Text) :
    intercalate terminator (lines (cut terminator) ifs) = ifs := by
  have hpos := length_pos_of_ne_nil ht
  have hall : ∀ n (ifs : Text), ifs.length < n →
      successive (cut terminator) n ifs ≠ [] ∧
        intercalate terminator (successive (cut terminator) n ifs) = ifs := by
    intro n
    induction n with
    | zero => exact fun ifs h => absurd h (Nat.not_lt_zero _)
    | succ n ih =>
      intro ifs h
      rw [successive, cut]
      cases hfind : find terminator ifs with
      | none => simp [intercalate]
      | some p =>
        obtain ⟨res, rest⟩ := p
        have hspec := find_spec hfind
        have hlen : ifs.length = res.length + terminator.length + rest.length := by
          rw [hspec, length_append, length_append]
        obtain ⟨hne, hjoin⟩ := ih rest (by omega)
        refine ⟨cons_ne_nil _ _, ?_⟩
        simp only
        rw [intercalate_cons_of_ne_nil hne, hjoin, hspec, append_assoc]
  exact (hall _ ifs (Nat.lt_succ_self _)).2

/-- `getline` finds a terminator of one character. -/
theorem getline_eq_cut (d : UInt8) (ifs : Text) : getline d ifs = cut [d] ifs := by
  induction ifs with
  | nil => simp [getline, cut, find]
  | cons c ifs ih =>
    rw [getline, cut, find, ih, cut]
    by_cases hc : c = d
    · simp [hc]
    · rw [if_neg hc, if_neg (by simpa using Ne.symm hc)]
      cases find [d] ifs <;> rfl

theorem sameChar_iff : sameChar c d = true ↔ c = d ∧ d.toNat < 128 := by
  rw [sameChar, decide_eq_true_eq]
  split
  · rename_i hd
    rw [Nat.cast_inj, ← UInt8.toNat_inj, eq_comm, and_iff_left hd]
  · rename_i hd
    have hlt := d.toNat_lt
    exact iff_of_false (by omega) fun h => hd h.2

/-! ### Where comparisons begin -/

/-- A comparison with the terminator begins before the text: at the start, or behind the byte at
which an earlier comparison has failed. -/
inductive Tried (terminator ifs : Text) : Text → Prop
  | start : Tried terminator ifs ifs
  | restart {k : ℕ} {c : UInt8} {rest : Text} (hk : k < terminator.length)
      (hc : c ≠ terminator.getD k 0)
      (h : Tried terminator ifs (terminator.take k ++ c :: rest)) : Tried terminator ifs rest

theorem Tried.trans {mid : Text} (h : Tried terminator ifs mid) (h' : Tried terminator mid rest) :
    Tried terminator ifs rest := by
  induction h' with
  | start => exact h
  | restart hk hc _ ih => exact .restart hk hc ih

theorem take_succ_getD (hk : k < terminator.length) :
    terminator.take (k + 1) = terminator.take k ++ [terminator.getD k 0] := by
  rw [take_add_one, getD_eq_getElem?_getD, getElem?_eq_getElem hk]
  rfl

/-- **What a call finds** is a terminator, below 128, at which a comparison begins. -/
theorem read_some (hk : k < terminator.length) (htake : ∀ d ∈ terminator.take k, d.toNat < 128)
    {a b p : Text} (h : read terminator k (p ++ terminator.take k) ifs = (a, some b)) :
    p ++ terminator.take k ++ ifs = a ++ terminator ++ b ∧ (∀ d ∈ terminator, d.toNat < 128) ∧
      Tried terminator (terminator.take k ++ ifs) (terminator ++ b) := by
  induction ifs generalizing k p with
  | nil => cases h
  | cons c ifs ih =>
    rw [read] at h
    by_cases hsame : sameChar c (terminator.getD k 0) = true
    · obtain ⟨hc, hlt⟩ := sameChar_iff.1 hsame
      have hnext : terminator.take k ++ [c] = terminator.take (k + 1) := by
        rw [take_succ_getD hk, hc]
      have hmove : terminator.take k ++ c :: ifs = terminator.take (k + 1) ++ ifs := by
        rw [← hnext, append_assoc, singleton_append]
      have htake' : ∀ d ∈ terminator.take (k + 1), d.toNat < 128 := by
        rw [← hnext, hc]
        intro d hd
        rcases mem_append.1 hd with hd | hd
        · exact htake d hd
        · exact mem_singleton.1 hd ▸ hlt
      rw [if_pos hsame, append_assoc, hnext] at h
      rw [append_assoc, hmove]
      split at h
      · rename_i hlen
        rw [take_of_length_le hlen.ge] at h htake' ⊢
        obtain ⟨rfl, rfl⟩ : a = p ∧ b = ifs := by simpa using h.symm
        exact ⟨(append_assoc _ _ _).symm, htake', .start⟩
      · obtain ⟨heq, hall, htried⟩ := ih (k := k + 1) (by omega) htake' h
        exact ⟨append_assoc _ _ _ ▸ heq, hall, htried⟩
    · rw [if_neg hsame, append_assoc] at h
      obtain ⟨heq, hall, htried⟩ := ih (k := 0) (Nat.zero_lt_of_lt hk) (by simp)
        (p := p ++ (terminator.take k ++ [c])) (by simpa using h)
      have hmem : terminator.getD k 0 ∈ terminator := by
        rw [getD_eq_getElem?_getD, getElem?_eq_getElem hk]
        exact getElem_mem hk
      have hc : c ≠ terminator.getD k 0 := fun hc => hsame (sameChar_iff.2 ⟨hc, hall _ hmem⟩)
      refine ⟨by simpa using heq, hall, ?_⟩
      rw [take_zero, nil_append] at htried
      exact (Tried.restart hk hc .start).trans htried

theorem read_none {a : Text} (h : read terminator k res ifs = (a, none)) : a = res ++ ifs := by
  induction ifs generalizing k res with
  | nil =>
    cases h
    exact (append_nil _).symm
  | cons c ifs ih =>
    rw [read] at h
    split at h
    · split at h
      · cases h
      · simpa using ih h
    · simpa using ih h

section

variable (hall : ∀ d ∈ terminator, d.toNat < 128)

include hall

theorem sameChar_getD (hk : k < terminator.length) :
    sameChar (terminator.getD k 0) (terminator.getD k 0) = true := by
  refine sameChar_iff.2 ⟨rfl, hall _ ?_⟩
  rw [getD_eq_getElem?_getD, getElem?_eq_getElem hk]
  exact getElem_mem hk

theorem read_take (hk : k < terminator.length) (pre : Text) (ifs : Text) :
    read terminator 0 pre (terminator.take k ++ ifs) =
      read terminator k (pre ++ terminator.take k) ifs := by
  induction k generalizing ifs with
  | zero => simp
  | succ k ih =>
    rw [take_succ_getD (by omega), append_assoc, ih (by omega), singleton_append, read,
      if_pos (sameChar_getD hall (by omega)), if_neg (by omega), append_assoc]

/-- A comparison that begins at a terminator finds it. -/
theorem read_terminator (ht : terminator ≠ []) (pre ifs : Text) :
    read terminator 0 pre (terminator ++ ifs) = (pre, some ifs) := by
  have hpos := length_pos_of_ne_nil ht
  have hlast : terminator =
      terminator.take (terminator.length - 1) ++ [terminator.getD (terminator.length - 1) 0] := by
    rw [← take_succ_getD (by omega), take_of_length_le (by omega)]
  have hread := read_take hall (k := terminator.length - 1) (by omega) pre
    (terminator.getD (terminator.length - 1) 0 :: ifs)
  rw [← singleton_append, ← append_assoc, ← hlast, singleton_append] at hread
  rw [hread, read, if_pos (sameChar_getD hall (by omega)), if_pos (by omega), append_assoc,
    ← hlast]
  simp

theorem read_tried (h : Tried terminator ifs rest) :
    ∃ p, ifs = p ++ rest ∧ ∀ pre, read terminator 0 pre ifs = read terminator 0 (pre ++ p) rest := by
  induction h with
  | start => exact ⟨[], rfl, fun pre => by rw [append_nil]⟩
  | @restart k c rest hk hc _ ih =>
    obtain ⟨p, hp, hread⟩ := ih
    refine ⟨p ++ terminator.take k ++ [c], by simp [hp], fun pre => ?_⟩
    have hne : sameChar c (terminator.getD k 0) ≠ true := fun h => hc (sameChar_iff.1 h).1
    rw [hread, read_take hall hk, read, if_neg hne]
    simp

end

/-- **A terminator is found** exactly where a comparison begins, if it is below 128. -/
theorem read_eq_some_iff (ht : terminator ≠ []) (hfind : find terminator ifs = some (res, rest)) :
    read terminator 0 [] ifs = (res, some rest) ↔
      (∀ d ∈ terminator, d.toNat < 128) ∧ Tried terminator ifs (terminator ++ rest) := by
  constructor
  · intro h
    obtain ⟨-, hall, htried⟩ := read_some (k := 0) (p := []) (length_pos_of_ne_nil ht) (by simp) h
    exact ⟨hall, htried⟩
  · rintro ⟨hall, htried⟩
    obtain ⟨p, hp, hread⟩ := read_tried hall htried
    have hres : p = res := by
      have heq := hp.symm.trans (find_spec hfind)
      rw [append_assoc] at heq
      exact append_cancel_right heq
    rw [hread, read_terminator hall ht, nil_append, hres]

theorem not_terminator_of_find (h : find terminator ifs = none) (a b : Text) :
    ifs ≠ a ++ terminator ++ b := by
  induction ifs generalizing a with
  | nil =>
    intro heq
    have hnil : terminator = [] := by
      have := congrArg length heq
      simp only [length_nil, length_append] at this
      exact length_eq_zero_iff.1 (by omega)
    simp [find, hnil] at h
  | cons c ifs ih =>
    rw [find] at h
    split at h
    · cases h
    · rename_i hpre
      intro heq
      cases a with
      | nil => exact hpre <| isPrefixOf_iff_prefix.2 ⟨b, heq.symm⟩
      | cons x a => exact ih (Option.map_eq_none_iff.1 h) a (cons.inj heq).2

/-- No terminator, or one below 128 that does not begin in a partial match. -/
def Found (terminator ifs : Text) : Prop :=
  ∀ res rest, find terminator ifs = some (res, rest) →
    (∀ d ∈ terminator, d.toNat < 128) ∧ Tried terminator ifs (terminator ++ rest)

/-- The text is what is left of the file when a line begins. -/
inductive LineStart (terminator : Text) : Text → Text → Prop
  | start (ifs : Text) : LineStart terminator ifs ifs
  | next {ifs res ifs' rest : Text} (h : find terminator ifs = some (res, ifs'))
      (hrest : LineStart terminator ifs' rest) : LineStart terminator ifs rest

theorem read_of_find_none (ht : terminator ≠ []) (h : find terminator ifs = none) :
    read terminator 0 [] ifs = (ifs, none) := by
  cases hread : read terminator 0 [] ifs with
  | mk a b =>
    cases b with
    | none => rw [read_none hread, nil_append]
    | some b =>
      obtain ⟨heq, -, -⟩ :=
        read_some (k := 0) (p := []) (length_pos_of_ne_nil ht) (by simp) hread
      exact absurd (by simpa using heq) (not_terminator_of_find h a b)

/-- **All calls**: the lists agree iff every call does. -/
theorem successive_read_iff (ht : terminator ≠ []) {n : ℕ} (hn : ifs.length < n) :
    successive (read terminator 0 []) n ifs = successive (cut terminator) n ifs ↔
      ∀ rest, LineStart terminator ifs rest → Found terminator rest := by
  induction n generalizing ifs with
  | zero => omega
  | succ n ih =>
    rw [successive, successive, cut]
    cases hfind : find terminator ifs with
    | none =>
      rw [read_of_find_none ht hfind]
      refine iff_of_true rfl fun rest hrest => ?_
      cases hrest with
      | start => exact fun res rest h => nomatch hfind.symm.trans h
      | next h => cases hfind.symm.trans h
    | some p =>
      obtain ⟨res, ifs'⟩ := p
      have hspec := find_spec hfind
      have hlen : ifs'.length < n := by
        have := congrArg length hspec
        have hpos := length_pos_of_ne_nil ht
        simp only [length_append] at this
        omega
      by_cases hread : read terminator 0 [] ifs = (res, some ifs')
      · have hfound : Found terminator ifs := fun res' rest' h => by
          cases hfind.symm.trans h
          exact (read_eq_some_iff ht hfind).1 hread
        simp only [hread, cons.injEq, true_and]
        rw [ih hlen]
        constructor
        · intro h rest hrest
          cases hrest with
          | start => exact hfound
          | next hnext hrest =>
            cases hfind.symm.trans hnext
            exact h rest hrest
        · exact fun h rest hrest => h rest (.next hfind hrest)
      · refine iff_of_false (fun hlines => ?_) fun h => ?_
        · cases hr : read terminator 0 [] ifs with
          | mk a b =>
            rw [hr] at hlines
            cases b with
            | none =>
              have hne : successive (cut terminator) n ifs' ≠ [] := by
                obtain ⟨n, rfl⟩ := Nat.exists_eq_succ_of_ne_zero (Nat.ne_of_gt (Nat.zero_lt_of_lt hlen))
                rw [successive]
                split <;> exact cons_ne_nil _ _
              simp only [cons.injEq] at hlines
              exact hne hlines.2.symm
            | some b =>
              simp only [cons.injEq] at hlines
              obtain ⟨rfl, -⟩ := hlines
              obtain ⟨heq, -, -⟩ :=
                read_some (k := 0) (p := []) (length_pos_of_ne_nil ht) (by simp) hr
              have hb : b = ifs' := by
                have := (show ifs = a ++ terminator ++ b by simpa using heq).symm.trans hspec
                exact append_cancel_left this
              exact hread (hb ▸ hr)
        · exact hread ((read_eq_some_iff ht hfind).2 (h ifs (.start ifs) res ifs' hfind))


theorem not_prefix_replicate (hd : d ≠ c) (hk : k < n) (ifs : Text) :
    ¬ replicate n c <+: replicate k c ++ d :: ifs := by
  obtain ⟨n, rfl⟩ := Nat.exists_eq_succ_of_ne_zero (Nat.ne_of_gt (Nat.zero_lt_of_lt hk))
  induction k generalizing n with
  | zero =>
    rw [replicate_succ, replicate_zero, nil_append, cons_prefix_cons]
    exact fun h => hd h.1.symm
  | succ k ih =>
    obtain ⟨n, rfl⟩ := Nat.exists_eq_succ_of_ne_zero (show n ≠ 0 by omega)
    rw [replicate_succ, replicate_succ (n := k), cons_append, cons_prefix_cons]
    exact fun h => ih n (by omega) h.2

theorem find_replicate_append (hd : d ≠ c) (hk : k < n) (ifs : Text) :
    find (replicate n c) (replicate k c ++ d :: ifs) =
      (find (replicate n c) ifs).map fun r => (replicate k c ++ d :: r.1, r.2) := by
  have hnot := not_prefix_replicate hd hk ifs
  induction k with
  | zero =>
    rw [replicate_zero, nil_append] at hnot ⊢
    rw [find, if_neg (by rwa [ isPrefixOf_iff_prefix])]
    rfl
  | succ k ih =>
    rw [replicate_succ, cons_append] at hnot ⊢
    rw [find, if_neg (by rwa [ isPrefixOf_iff_prefix]),
      ih (by omega) (not_prefix_replicate hd (by omega) ifs), Option.map_map]
    rfl

theorem find_eq_none (h : ifs.length < terminator.length) : find terminator ifs = none := by
  cases hfind : find terminator ifs with
  | none => rfl
  | some p =>
    have := congrArg length (find_spec hfind)
    simp only [length_append] at this
    omega

/-- **A terminator of equal characters** is found. -/
theorem read_replicate (hc : c.toNat < 128) (hk : k < n) (res : Text) :
    read (replicate n c) k (res ++ replicate k c) ifs =
      match find (replicate n c) (replicate k c ++ ifs) with
      | none => (res ++ replicate k c ++ ifs, none)
      | some (a, rest) => (res ++ a, some rest) := by
  induction ifs generalizing k res with
  | nil =>
    rw [read, append_nil, append_nil, find_eq_none (by simpa using hk)]
  | cons x ifs ih =>
    have hget : (replicate n c).getD k 0 = c := by simp [getD, hk]
    rw [read, hget, length_replicate]
    by_cases hx : x = c
    · subst hx
      rw [if_pos (sameChar_iff.2 ⟨rfl, hc⟩), append_assoc, ← replicate_succ']
      have hmove : replicate k x ++ x :: ifs = replicate (k + 1) x ++ ifs := by
        rw [replicate_succ', append_assoc]
        rfl
      rw [hmove]
      split
      · rename_i hn
        subst hn
        have hfind : find (replicate (k + 1) x) (replicate (k + 1) x ++ ifs) = some ([], ifs) := by
          rw [replicate_succ, cons_append, find, if_pos (by simp)]
          simp
        rw [hfind]
        simp
      · rw [ih (by omega), append_assoc res, append_assoc res, hmove]
    · rw [if_neg fun h => hx (sameChar_iff.1 h).1, find_replicate_append hx hk]
      have h := ih (k := 0) (by omega) (res ++ replicate k c ++ [x])
      rw [replicate_zero, append_nil, nil_append] at h
      rw [h]
      cases find (replicate n c) ifs <;> simp

/-- **The lines are those of the file** exactly if the terminator has one character, or is below 128
and never begins in a partial match; that is so in every file if its characters are all the same. -/
theorem lines_of_file_iff (terminator : Text) (ht : terminator ≠ []) (ifs : Text) :
    (lines (getTupleTerminatedBy terminator) ifs = lines (cut terminator) ifs ↔
      terminator.length = 1 ∨
        ∀ rest, LineStart terminator ifs rest → Found terminator rest) ∧
      ((∃ c n, c.toNat < 128 ∧ terminator = replicate n c) →
        lines (getTupleTerminatedBy terminator) ifs = lines (cut terminator) ifs) ∧
      intercalate terminator (lines (cut terminator) ifs) = ifs := by
  refine ⟨?_, ?_, intercalate_lines ht ifs⟩
  · by_cases hone : terminator.length = 1
    · obtain ⟨d, rfl⟩ := length_eq_one_iff.1 hone
      have hcall : getTupleTerminatedBy [d] = cut [d] :=
        funext fun ifs => (if_pos rfl).trans (getline_eq_cut d ifs)
      rw [hcall]
      exact iff_of_true rfl (.inl rfl)
    · have hcall : getTupleTerminatedBy terminator = read terminator 0 [] :=
        funext fun ifs => if_neg hone
      rw [or_iff_right hone, hcall]
      exact successive_read_iff ht (Nat.lt_succ_self _)
  · rintro ⟨c, n, hc, rfl⟩
    have hn : 0 < n := by simpa using length_pos_of_ne_nil ht
    have hcall : getTupleTerminatedBy (replicate n c) = cut (replicate n c) := by
      funext ifs
      rw [getTupleTerminatedBy, cut]
      split
      · rename_i hone
        obtain rfl : n = 1 := by simpa using hone
        exact getline_eq_cut c ifs
      · exact read_replicate hc hn []
    rw [hcall]

/-- A file with the terminator `||`, and `xab` with the terminator `ab`. -/
theorem two_bars_found :
    lines (getTupleTerminatedBy [124, 124]) [97, 124, 98, 124, 124, 99] =
        [[97, 124, 98], [99]] ∧
      lines (getTupleTerminatedBy [97, 98]) [120, 97, 98] = [[120], []] := by
  constructor
  · exact ((lines_of_file_iff [124, 124] (by decide) _).2.1 ⟨124, 2, by decide, rfl⟩).trans
      (by decide)
  · refine ((lines_of_file_iff [97, 98] (by decide) [120, 97, 98]).1.2 (.inr ?_)).trans (by decide)
    have hfind : find [97, 98] [120, 97, 98] = some ([120], []) := by decide
    intro rest hrest
    cases hrest with
    | start =>
      intro res rest h
      cases hfind.symm.trans h
      exact ⟨by simp, .restart (k := 0) (c := 120) (by decide) (by decide) .start⟩
    | next h hrest =>
      cases hfind.symm.trans h
      cases hrest with
      | start => exact nofun
      | next h => cases h

/-- `ab` is not found in `aab`. -/
theorem terminator_missed :
    lines (getTupleTerminatedBy [97, 98]) [97, 97, 98] = [[97, 97, 98]] ∧
      lines (cut [97, 98]) [97, 97, 98] = [[97], []] := by decide

end Loader
