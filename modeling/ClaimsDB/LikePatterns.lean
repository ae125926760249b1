/-
`LIKE`.

At a `%` `MatchText` looks for a place from where the rest of the pattern matches, and gives up for
good when no later place can.  The branches for the escape character are empty: a backslash takes
any byte, and behind a `%` the byte to look for is never set.

* **`matchLoop_spec`** — the loop ends, and what it returns is true;
* **`like_is_language`** — `LIKE` and `NOT LIKE` for patterns without a backslash;
* **`escaped_like_iff`** — an escaped pattern matches literally iff it has nothing to escape.
-/
import ClaimsDB.Faults

namespace Like

open List

abbrev percent : UInt8 := 37
abbrev underscore : UInt8 := 95
abbrev backslash : UInt8 := 92

/-- The text is in the language of the pattern: `%` stands for any string, `_` for any byte and
every other byte for itself. -/
def Matches : List UInt8 → List UInt8 → Prop
  | [], t => t = []
  | c :: p, t =>
    if c = percent then ∃ a b, t = a ++ b ∧ Matches p b
    else ∃ x b, t = x :: b ∧ (c = underscore ∨ c = x) ∧ Matches p b

def Later (p t : List UInt8) : Prop := ∃ a b, t = a ++ b ∧ Matches p b

variable {c x : UInt8} {p q s t : List UInt8}

theorem matches_percent : Matches (percent :: p) t ↔ Later p t := by rw [Matches, if_pos rfl, Later]

theorem matches_cons (hc : c ≠ percent) :
    Matches (c :: p) (x :: t) ↔ (c = underscore ∨ c = x) ∧ Matches p t := by
  rw [Matches, if_neg hc]
  constructor
  · rintro ⟨y, b, heq, h⟩
    cases heq
    exact h
  · intro h
    exact ⟨x, t, rfl, h⟩

theorem Later.of_matches (h : Matches p t) : Later p t := ⟨[], t, rfl, h⟩

theorem later_nil_left : Later [] t := ⟨t, [], (append_nil t).symm, rfl⟩

theorem later_nil : Later p [] ↔ Matches p [] := by
  constructor
  · rintro ⟨a, b, hab, h⟩
    rwa [(append_eq_nil_iff.1 hab.symm).2] at h
  · exact .of_matches

theorem later_cons : Later p (x :: t) ↔ Matches p (x :: t) ∨ Later p t := by
  constructor
  · rintro ⟨a, b, hab, h⟩
    cases a with
    | nil => exact .inl (hab ▸ h)
    | cons y a =>
      cases hab
      exact .inr ⟨a, b, rfl, h⟩
  · rintro (h | ⟨a, b, rfl, h⟩)
    · exact .of_matches h
    · exact ⟨x :: a, b, rfl, h⟩

theorem later_percent : Later (percent :: p) t ↔ Later p t := by
  constructor
  · rintro ⟨a, b, rfl, h⟩
    obtain ⟨a', b', rfl, h'⟩ := matches_percent.1 h
    exact ⟨a ++ a', b', (append_assoc a a' b').symm, h'⟩
  · intro h
    exact .of_matches (matches_percent.2 h)

theorem not_later_nil (hc : c ≠ percent) : ¬ Later (c :: p) [] := by
  rw [later_nil, Matches, if_neg hc]
  rintro ⟨x, b, hnil, -⟩
  cases hnil

/-- Where a byte is looked for, the rest of the pattern is looked for one byte later. -/
theorem Later.tail (hc : c ≠ percent) (h : Later (c :: p) (x :: t)) : Later p t := by
  induction t generalizing x with
  | nil =>
    obtain h | h := later_cons.1 h
    · exact .of_matches ((matches_cons hc).1 h).2
    · exact absurd h (not_later_nil hc)
  | cons y t ih =>
    obtain h | h := later_cons.1 h
    · exact .of_matches ((matches_cons hc).1 h).2
    · exact later_cons.2 (.inr (ih h))

theorem later_underscore : Later (underscore :: p) (x :: t) ↔ Later p t := by
  refine ⟨.tail (by decide), ?_⟩
  rintro ⟨a, b, rfl, h⟩
  induction a generalizing x with
  | nil => exact .of_matches ((matches_cons (by decide)).2 ⟨.inl rfl, h⟩)
  | cons y a ih => exact later_cons.2 (.inr ih)

/-! ### `MatchText` -/

/-- `LIKE_TRUE`, `LIKE_FALSE` and `LIKE_ABORT`. -/
inductive Outcome
  | yes
  | no
  | abort
  deriving DecidableEq, Repr

def deref : List UInt8 → Run UInt8
  | [] => .error .outOfBounds
  | c :: _ => .ok c

/-- The wildcards behind a `%`; nothing is left when the text ends before the pattern. -/
def skipWildcards : List UInt8 → List UInt8 → Option (List UInt8 × List UInt8)
  | t, [] => some (t, [])
  | t, c :: p =>
    if c = percent then skipWildcards t p
    else if c = underscore then if t = [] then none else skipWildcards t.tail p
    else some (t, c :: p)

/-- The search for a place to go on behind a `%`. -/
def search (firstpat : UInt8) (call : List UInt8 → Run Outcome) : List UInt8 → Run Outcome
  | [] => .ok .abort
  | c :: t =>
    if c = firstpat then do
      let matched ← call (c :: t)
      if matched ≠ .no then return matched else search firstpat call t
    else search firstpat call t

/-- What follows the loop, at the end of the text or of the pattern. -/
def atEnd (t p : List UInt8) : Outcome :=
  if t ≠ [] then .no else if p.dropWhile (· = percent) = [] then .yes else .abort

/-- The test for a pattern that matches everything. -/
def entry (loop : List UInt8 → List UInt8 → Run Outcome) (t p : List UInt8) : Run Outcome :=
  if p.length = 1 then do
    let c ← deref p
    if c = percent then return .yes else loop t p
  else loop t p

/-- The loop of `MatchText`, for `n` steps at most; `unset` is what `firstpat` happens to hold. -/
def matchLoop (unset : UInt8) : ℕ → List UInt8 → List UInt8 → Run Outcome
  | 0, _, _ => .error .endless
  | n + 1, t, p =>
    if t = [] ∨ p = [] then .ok (atEnd t p)
    else do
      let c ← deref p
      if c = backslash then matchLoop unset n t.tail p.tail
      else if c = percent then
        match skipWildcards t p.tail with
        | none => return .abort
        | some (t, p) =>
          if p = [] then return .yes
          else do
            let c ← deref p
            search (if c = backslash then unset else c)
              (fun t => entry (matchLoop unset n) t p) t
      else if c = underscore then matchLoop unset n t.tail p.tail
      else do
        let d ← deref t
        if c ≠ d then return .no else matchLoop unset n t.tail p.tail

/-- `MatchText`: every step of the loop and every call takes a byte of the pattern. -/
def matchText (unset : UInt8) (t p : List UInt8) : Run Outcome :=
  entry (matchLoop unset (p.length + 1)) t p

def toInt (n : ℕ) : ℤ := if n % 2 ^ 32 < 2 ^ 31 then n % 2 ^ 32 else n % 2 ^ 32 - 2 ^ 32

/-- What `MatchText` takes for the text when it is given its length. -/
def given (t : List UInt8) : List UInt8 := t.take (toInt t.length).toNat

def stringLike (unset : UInt8) (t p : List UInt8) : Run Bool :=
  (matchText unset (given t) (given p)).map (· = .yes)

def stringNotLike (unset : UInt8) (t p : List UInt8) : Run Bool :=
  (matchText unset (given t) (given p)).map (· ≠ .yes)

/-! ### What an outcome says -/

/-- `LIKE_ABORT` says that no later part of the text matches either. -/
def Says (t p : List UInt8) : Outcome → Prop
  | .yes => Matches p t
  | .no => ¬ Matches p t
  | .abort => ¬ Later p t

theorem Says.yes_iff {o : Outcome} (h : Says t p o) : o = .yes ↔ Matches p t := by
  cases o with
  | yes => exact ⟨fun _ => h, fun _ => rfl⟩
  | no => exact ⟨nofun, fun hmem => absurd hmem h⟩
  | abort => exact ⟨nofun, fun hmem => absurd (.of_matches hmem) h⟩

theorem Says.cons {o : Outcome} (h : Says t p o) (hc : c ≠ percent)
    (hx : c = underscore ∨ c = x) : Says (x :: t) (c :: p) o := by
  cases o with
  | yes => exact (matches_cons hc).2 ⟨hx, h⟩
  | no => exact fun hm => h ((matches_cons hc).1 hm).2
  | abort => exact fun hlater => h (hlater.tail hc)

theorem matches_nil : Matches p [] ↔ p.dropWhile (· = percent) = [] := by
  induction p with
  | nil => simp [Matches]
  | cons c p ih =>
    by_cases hc : c = percent
    · subst hc
      rw [matches_percent, later_nil, ih, dropWhile_cons_of_pos (by simp)]
    · rw [dropWhile_cons_of_neg (by simpa using hc), ← later_nil]
      exact iff_of_false (not_later_nil hc) (cons_ne_nil c p)

theorem says_atEnd (h : t = [] ∨ p = []) : Says t p (atEnd t p) := by
  unfold atEnd
  split
  · rename_i ht
    obtain rfl := h.resolve_left ht
    exact ht
  · rename_i ht
    obtain rfl := not_not.1 ht
    split_ifs with hall
    · exact matches_nil.2 hall
    · exact fun hlater => hall (matches_nil.1 (later_nil.1 hlater))

/-- **Wildcards behind a `%`**: what is left is to be looked for in what is left of the text. -/
theorem skipWildcards_spec (t p : List UInt8) :
    (skipWildcards t p = none ∧ ¬ Later p t) ∨
      ∃ t' p', skipWildcards t p = some (t', p') ∧ (Later p t ↔ Later p' t') ∧ p' <:+ p ∧
        ∀ c ∈ p'.head?, c ≠ percent ∧ c ≠ underscore := by
  induction p generalizing t with
  | nil => exact .inr ⟨t, [], by simp [skipWildcards]⟩
  | cons c p ih =>
    by_cases hc : c = percent
    · subst hc
      rw [skipWildcards, if_pos rfl, later_percent]
      refine (ih t).imp id ?_
      rintro ⟨t', p', hskip, hiff, hsuffix, hhead⟩
      exact ⟨t', p', hskip, hiff, hsuffix.trans (suffix_cons _ p), hhead⟩
    · by_cases hu : c = underscore
      · subst hu
        cases t with
        | nil => exact .inl ⟨rfl, not_later_nil hc⟩
        | cons x t =>
          rw [later_underscore, skipWildcards, if_neg hc, if_pos rfl, if_neg (cons_ne_nil x t)]
          refine (ih t).imp id ?_
          rintro ⟨t', p', hskip, hiff, hsuffix, hhead⟩
          exact ⟨t', p', hskip, hiff, hsuffix.trans (suffix_cons _ p), hhead⟩
      · refine .inr ⟨t, c :: p, ?_, Iff.rfl, suffix_rfl, ?_⟩
        · rw [skipWildcards, if_neg hc, if_neg hu]
        · rintro d ⟨⟩
          exact ⟨hc, hu⟩

/-- **The search** finds a later part that matches if there is one. -/
theorem search_spec (hc : c ≠ percent) (hu : c ≠ underscore) {call : List UInt8 → Run Outcome}
    (hcall : ∀ t, ∃ o, call t = .ok o ∧ Says t (c :: p) o) (t : List UInt8) :
    ∃ o, search c call t = .ok o ∧ o ≠ .no ∧ (o = .yes ↔ Later (c :: p) t) := by
  induction t with
  | nil => exact ⟨.abort, rfl, nofun, nofun, fun h => absurd h (not_later_nil hc)⟩
  | cons x t ih =>
    rw [search, later_cons]
    by_cases hx : x = c
    · obtain ⟨o, ho, hsays⟩ := hcall (x :: t)
      rw [if_pos hx, ho, Run.bind_ok]
      cases o with
      | yes => exact ⟨.yes, rfl, nofun, fun _ => .inl hsays, fun _ => rfl⟩
      | abort => exact ⟨.abort, rfl, nofun, nofun, fun h => absurd (later_cons.2 h) hsays⟩
      | no =>
        obtain ⟨o, ho, hno, hiff⟩ := ih
        exact ⟨o, ho, hno, hiff.trans (or_iff_right hsays).symm⟩
    · rw [if_neg hx]
      obtain ⟨o, ho, hno, hiff⟩ := ih
      refine ⟨o, ho, hno, hiff.trans (or_iff_right fun hm => ?_).symm⟩
      exact ((matches_cons hc).1 hm).1.elim hu (fun h => hx h.symm)

/-- The test at the beginning agrees with the loop. -/
theorem entry_spec {loop : List UInt8 → List UInt8 → Run Outcome}
    (h : ∃ o, loop t p = .ok o ∧ Says t p o) : ∃ o, entry loop t p = .ok o ∧ Says t p o := by
  unfold entry
  split
  · rename_i hone
    obtain ⟨c, rfl⟩ := length_eq_one_iff.1 hone
    rw [deref, Run.bind_ok]
    by_cases hc : c = percent
    · rw [if_pos hc, hc]
      exact ⟨.yes, rfl, matches_percent.2 later_nil_left⟩
    · rw [if_neg hc]
      exact h
  · exact h

/-- **The loop of `MatchText`** ends without a read beyond the lengths, and its outcome is true. -/
theorem matchLoop_spec (unset : UInt8) {n : ℕ} (t : List UInt8) (hn : p.length < n)
    (hb : backslash ∉ p) : ∃ o, matchLoop unset n t p = .ok o ∧ Says t p o := by
  induction n generalizing t p with
  | zero => cases hn
  | succ n ih =>
    rw [matchLoop]
    split_ifs with hgo
    · exact ⟨_, rfl, says_atEnd hgo⟩
    · rw [not_or] at hgo
      obtain ⟨x, t, rfl⟩ := exists_cons_of_ne_nil hgo.1
      obtain ⟨c, p, rfl⟩ := exists_cons_of_ne_nil hgo.2
      rw [mem_cons, not_or] at hb
      rw [length_cons] at hn
      rw [deref, Run.bind_ok, if_neg (Ne.symm hb.1), tail_cons, tail_cons]
      by_cases hc : c = percent
      · subst hc
        rw [if_pos rfl]
        obtain ⟨hskip, hno⟩ | ⟨t', p', hskip, hiff, hsuffix, hhead⟩ :=
          skipWildcards_spec (x :: t) p
        · rw [hskip]
          exact ⟨.abort, rfl, fun hlater => hno (later_percent.1 hlater)⟩
        · rw [hskip]
          cases p' with
          | nil => exact ⟨.yes, rfl, matches_percent.2 (hiff.2 later_nil_left)⟩
          | cons d q =>
            have hq := hsuffix.length_le
            have hd : backslash ∉ d :: q := fun hmem => hb.2 (hsuffix.subset hmem)
            obtain ⟨hdp, hdu⟩ := hhead d rfl
            simp only [reduceCtorEq, if_false, deref, Run.bind_ok]
            rw [if_neg fun heq : d = backslash => hd (heq ▸ mem_cons_self)]
            obtain ⟨o, ho, hno, hyes⟩ := search_spec hdp hdu
              (fun t => entry_spec (ih t (by omega) hd)) t'
            refine ⟨o, ho, ?_⟩
            cases o with
            | yes => exact matches_percent.2 (hiff.2 (hyes.1 rfl))
            | no => exact absurd rfl hno
            | abort => exact fun hlater => nomatch hyes.2 (hiff.1 (later_percent.1 hlater))
      · rw [if_neg hc]
        obtain ⟨o, ho, hsays⟩ := ih t (p := p) (by omega) hb.2
        by_cases hu : c = underscore
        · rw [if_pos hu]
          exact ⟨o, ho, hsays.cons hc (.inl hu)⟩
        · rw [if_neg hu, deref, Run.bind_ok]
          by_cases hx : c = x
          · rw [if_neg (not_not.2 hx)]
            exact ⟨o, ho, hsays.cons hc (.inr hx)⟩
          · rw [if_pos hx]
            exact ⟨.no, rfl, fun hm => ((matches_cons hc).1 hm).1.elim hu hx⟩

theorem matchText_spec (unset : UInt8) (t : List UInt8) (hb : backslash ∉ p) :
    ∃ o, matchText unset t p = .ok o ∧ (o = .yes ↔ Matches p t) := by
  obtain ⟨o, ho, hsays⟩ := entry_spec (matchLoop_spec unset t (Nat.lt_succ_self p.length) hb)
  exact ⟨o, ho, hsays.yes_iff⟩

theorem given_eq (h : t.length < 2 ^ 31) : given t = t := by
  rw [given, toInt, if_pos (by omega), take_of_length_le (by omega)]

theorem stringLike_spec (unset : UInt8) (ht : t.length < 2 ^ 31) (hp : p.length < 2 ^ 31)
    (hb : backslash ∉ p) :
    ∃ b, stringLike unset t p = .ok b ∧ stringNotLike unset t p = .ok (!b) ∧
      (b = true ↔ Matches p t) := by
  obtain ⟨o, ho, hyes⟩ := matchText_spec unset t hb
  rw [stringLike, stringNotLike, given_eq ht, given_eq hp, ho]
  refine ⟨decide (o = .yes), rfl, by simp [Except.map], ?_⟩
  rw [decide_eq_true_eq]
  exact hyes

/-- **`LIKE` is the language of the pattern**, for texts whose lengths an `int` holds. -/
theorem like_is_language (unset : UInt8) (t p : List UInt8) (hb : backslash ∉ p) :
    (∃ o, matchText unset t p = .ok o ∧ (o = .yes ↔ Matches p t)) ∧
      (t.length < 2 ^ 31 → p.length < 2 ^ 31 →
        ∃ b, stringLike unset t p = .ok b ∧ stringNotLike unset t p = .ok (!b) ∧
          (b = true ↔ Matches p t)) :=
  ⟨matchText_spec unset t hb, fun ht hp => stringLike_spec unset ht hp hb⟩

/-- `aab LIKE %a_` -/
theorem like_two_wildcards : stringLike 0 [97, 97, 98] [37, 97, 95] = .ok true ∧
    Matches [37, 97, 95] [97, 97, 98] := by
  obtain ⟨b, hb, -, hmatches⟩ :=
    (like_is_language 0 [97, 97, 98] [37, 97, 95] (by decide)).2 (by decide) (by decide)
  have htrue : stringLike 0 [97, 97, 98] [37, 97, 95] = .ok true := by decide
  rw [htrue] at hb
  cases hb
  exact ⟨htrue, hmatches.1 rfl⟩

/-- A text of `2 ^ 31` bytes has a negative length. -/
theorem long_text_not_like :
    ∃ t, Matches [97, percent] t ∧ ∀ unset, stringLike unset t [97, percent] = .ok false := by
  refine ⟨replicate (2 ^ 31 - 1 + 1) 97, ?_, fun unset => ?_⟩
  · rw [replicate_succ, matches_cons (by decide), matches_percent]
    exact ⟨.inr rfl, later_nil_left⟩
  · have ht : given (replicate (2 ^ 31 - 1 + 1) 97) = [] := by
      rw [given, length_replicate]
      exact take_zero
    rw [stringLike, ht]
    rfl

/-! ### Escaped patterns -/

def special (c : UInt8) : Bool := c = percent || c = underscore || c = backslash

def esc (s : List UInt8) : List UInt8 :=
  s.flatMap fun c => if special c then [backslash, c] else [c]

theorem ne_of_special (h : special c = false) : c ≠ percent ∧ c ≠ underscore ∧ c ≠ backslash := by
  simpa [special, and_assoc] using h

theorem matches_append (h : ∀ c ∈ s, special c = false) :
    Matches (s ++ p) t ↔ ∃ b, t = s ++ b ∧ Matches p b := by
  induction s generalizing t with
  | nil => simp
  | cons c s ih =>
    obtain ⟨hc, hs⟩ := forall_mem_cons.1 h
    obtain ⟨hp, hu, -⟩ := ne_of_special hc
    rw [cons_append, Matches, if_neg hp]
    constructor
    · rintro ⟨x, b, rfl, hx, hb⟩
      obtain ⟨b', rfl, hb'⟩ := (ih hs).1 hb
      obtain rfl := hx.resolve_left hu
      exact ⟨b', rfl, hb'⟩
    · rintro ⟨b, rfl, hb⟩
      exact ⟨c, s ++ b, rfl, .inr rfl, (ih hs).2 ⟨b, rfl, hb⟩⟩

theorem esc_eq (h : ∀ c ∈ s, special c = false) : esc s = s ∧ backslash ∉ s := by
  constructor
  · rw [esc, flatMap_congr (g := fun c => [c]) fun c hc => by rw [h c hc]; rfl]
    exact flatMap_singleton' s
  · exact fun hmem => (ne_of_special (h _ hmem)).2.2 rfl

theorem length_le_esc (s : List UInt8) : s.length ≤ (esc s).length := by
  induction s with
  | nil => exact le_rfl
  | cons c s ih =>
    rw [esc, flatMap_cons, ← esc, length_append, length_cons]
    have : 1 ≤ (if special c then [backslash, c] else [c]).length := by split_ifs <;> simp
    omega

/-- The text is like the escaped pattern iff it is the escaped text, and so is a part of it. -/
def Literal (unset : UInt8) (s t : List UInt8) : Prop :=
  (stringLike unset t (esc s) = .ok true ↔ t = s) ∧
    (stringLike unset t (percent :: esc s ++ [percent]) = .ok true ↔ s <:+: t)

theorem literal_of_plain (unset : UInt8) (h : ∀ c ∈ s, special c = false)
    (hlen : (esc s).length + 2 < 2 ^ 31) (ht : t.length < 2 ^ 31) : Literal unset s t := by
  unfold Literal
  obtain ⟨hesc, hb⟩ := esc_eq h
  rw [hesc] at hlen ⊢
  constructor
  · obtain ⟨r, hr, -, hmatches⟩ := stringLike_spec unset ht (by omega) hb
    rw [hr, Except.ok.injEq, hmatches]
    nth_rewrite 1 [← append_nil s]
    rw [matches_append h]
    simp [Matches]
  · have hlen' : (percent :: s ++ [percent]).length < 2 ^ 31 := by simpa using by omega
    have hb' : backslash ∉ percent :: s ++ [percent] := by
      simp [hb, show backslash ≠ percent by decide]
    obtain ⟨r, hr, -, hmatches⟩ := stringLike_spec unset ht hlen' hb'
    rw [hr, Except.ok.injEq, hmatches, cons_append, matches_percent]
    constructor
    · rintro ⟨a, u, rfl, hu⟩
      obtain ⟨b, rfl, -⟩ := (matches_append h).1 hu
      exact ⟨a, b, append_assoc a s b⟩
    · rintro ⟨a, b, rfl⟩
      refine ⟨a, s ++ b, append_assoc a s b, (matches_append h).2 ⟨b, rfl, ?_⟩⟩
      exact matches_percent.2 later_nil_left

/-- Plain bytes are taken in lock-step. -/
theorem matchLoop_append (unset : UInt8) (n : ℕ) (h : ∀ c ∈ s, special c = false) :
    matchLoop unset (n + s.length) (s ++ t) (s ++ p) = matchLoop unset n t p := by
  induction s with
  | nil => rfl
  | cons c s ih =>
    obtain ⟨hc, hs⟩ := forall_mem_cons.1 h
    obtain ⟨hp, hu, hb⟩ := ne_of_special hc
    rw [length_cons, ← Nat.add_assoc, matchLoop, if_neg (by simp)]
    simp only [cons_append, deref, Run.bind_ok, hb, hp, hu, if_false, tail_cons, ne_eq,
      not_true_eq_false]
    exact ih hs

/-- Behind plain bytes a backslash takes whatever the text has. -/
theorem matchText_backslash (unset : UInt8) (h : ∀ c ∈ s, special c = false) (x y : UInt8) :
    matchText unset (s ++ x :: t) (s ++ backslash :: p) =
      matchText unset (s ++ y :: t) (s ++ backslash :: p) := by
  have hloop : ∀ z, matchLoop unset ((s ++ backslash :: p).length + 1) (s ++ z :: t)
      (s ++ backslash :: p) = matchLoop unset (p.length + 1) t p := by
    intro z
    rw [length_append, length_cons, show s.length + (p.length + 1) + 1 =
      p.length + 1 + 1 + s.length by omega, matchLoop_append unset _ h, matchLoop,
      if_neg (by simp)]
    rfl
  simp only [matchText, entry, hloop]

/-- If something is to be escaped, another byte in its place is matched as well. -/
theorem exists_not_literal (unset : UInt8) (hlen : (esc s).length < 2 ^ 31) {c : UInt8}
    (hmem : c ∈ s) (hc : special c = true) : ∃ t, t.length = s.length ∧ ¬ Literal unset s t := by
  obtain ⟨c, u, v, rfl, hc, hu⟩ : ∃ c u v, s = u ++ c :: v ∧ special c = true ∧
      ∀ d ∈ u, special d = false := by
    obtain ⟨d, hfind⟩ := Option.isSome_iff_exists.1 (find?_isSome.2 ⟨c, hmem, hc⟩)
    obtain ⟨hd, u, v, rfl, hu⟩ := find?_eq_some_iff_append.1 hfind
    exact ⟨d, u, v, rfl, hd, fun e he => by simpa using hu e he⟩
  have hesc : esc (u ++ c :: v) = u ++ backslash :: c :: esc v := by
    rw [esc, flatMap_append, flatMap_cons, if_pos hc, ← esc, (esc_eq hu).1]
    rfl
  have hle := length_le_esc (u ++ c :: v)
  have hlike : ∀ x, stringLike unset (u ++ x :: v) (esc (u ++ c :: v)) =
      (matchText unset (u ++ c :: v) (esc (u ++ c :: v))).map (decide <| · = .yes) := by
    intro x
    have hx : (u ++ x :: v).length < 2 ^ 31 := by
      simp only [length_append, length_cons] at hle ⊢
      omega
    rw [stringLike, given_eq hx, given_eq hlen, hesc, matchText_backslash unset hu x c]
  have hne : u ++ 97 :: v ≠ u ++ c :: v := by
    intro heq
    obtain rfl : 97 = c := by simpa using heq
    exact absurd hc (by decide)
  by_cases hself : stringLike unset (u ++ c :: v) (esc (u ++ c :: v)) = .ok true
  · refine ⟨u ++ 97 :: v, by simp, fun hlit => hne (hlit.1.1 ?_)⟩
    rw [hlike 97, ← hlike c, hself]
  · exact ⟨u ++ c :: v, rfl, fun hlit => hself (hlit.1.2 rfl)⟩

/-- **Escaped patterns** match literally exactly if there is nothing to escape. -/
theorem escaped_like_iff (unset : UInt8) (s : List UInt8) (hlen : (esc s).length + 2 < 2 ^ 31) :
    (∀ t : List UInt8, t.length < 2 ^ 31 → Literal unset s t) ↔ ∀ c ∈ s, special c = false := by
  refine ⟨fun h c hmem => ?_, fun h t ht => literal_of_plain unset h hlen ht⟩
  by_contra hc
  obtain ⟨t, ht, hnot⟩ := exists_not_literal unset (by omega) hmem (by simpa using hc)
  exact hnot (h t (ht ▸ (length_le_esc s).trans_lt (by omega)))

theorem escaped_like_ab : stringLike 0 [97, 98] (esc [97, 98]) = .ok true := by
  have hplain : ∀ c ∈ [97, 98], special c = false :=
    forall_mem_cons.2 ⟨by decide, forall_mem_singleton.2 (by decide)⟩
  exact ((escaped_like_iff 0 [97, 98] (by decide)).2 hplain [97, 98] (by decide)).1.2 rfl

/-- `ab` is like an escaped `%`. -/
theorem escaped_percent_likes_ab :
    (∀ unset, stringLike unset [97, 98] (esc [percent]) = .ok true) ∧ [97, 98] ≠ [percent] :=
  ⟨fun _ => rfl, by decide⟩

end Like
