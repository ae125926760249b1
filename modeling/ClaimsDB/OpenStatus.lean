/-
The return value of `Open` in a chain of scans, filters and projections.

`SetReturnStatus` assigns to its parameter and not to the flag, and nothing else sets the flag:
every thread gets the value that the flag had when the operator was allocated.
-/
import ClaimsDB.Barriers

namespace OpenStatus

open Function (update update_of_ne update_self)
open Barriers

inductive Kind where
  | filter
  | project
deriving DecidableEq, Repr

/-- What the threads share.  Operators are numbered from the root down. -/
structure Shared where
  openRet : ℕ → Bool
  /-- The keys of the serialized sections that nobody has taken yet. -/
  keys : ℕ → Bool
  /-- The scan has its `partition_reader_iterator_`. -/
  iterator : Bool
  /-- Some partition lookup has failed, or the `Open` of some child has returned false. -/
  failed : Bool

def fresh (flags : ℕ → Bool) : Shared := ⟨flags, fun _ => true, false, false⟩

def setReturnStatus (d : Shared) (k : ℕ) (ret : Bool) : Shared :=
  let _ret := d.openRet k && ret
  d

def getReturnStatus (d : Shared) (k : ℕ) : Bool := d.openRet k

/-- Where a thread is: at which operator, and below it in how many operators it has been. -/
inductive Place where
  | register (k : ℕ)
  | trySection (k : ℕ)
  | lookup (k : ℕ)
  | callChild (k : ℕ)
  | setStatus (k below : ℕ) (ret : Bool)
  | arrive (k below : ℕ)
  | passed (k below : ℕ)
  | returned (opened : ℕ) (ret : Bool)
deriving DecidableEq, Repr

def afterRegister (ops : List Kind) (k : ℕ) : Place :=
  match ops[k]? with
  | some .project => .callChild k
  | some .filter => .trySection k
  | none => .trySection k

/-- The serialized section: the scan's winner looks its partition up, a filter's winner chooses
the function that it filters with. -/
def trySection (ops : List Kind) (k : ℕ) (d : Shared) : Shared × Place :=
  let d' := { d with keys := update d.keys k false }
  match ops[k]? with
  | none => if d.keys k then (d', .lookup k) else (d, .arrive k 0)
  | some _ => if d.keys k then (d', .callChild k) else (d, .callChild k)

def lookup (k : ℕ) (succeeds : Bool) (d : Shared) : Shared × Place :=
  if succeeds then (setReturnStatus { d with iterator := true } k true, .arrive k 0)
  else (setReturnStatus { d with failed := true } k false, .arrive k 0)

/-- The child's `Open` is called; it may return false at once. -/
def callChild (k : ℕ) (succeeds : Bool) (d : Shared) : Shared × Place :=
  if succeeds then (d, .register (k + 1)) else ({ d with failed := true }, .setStatus k 0 false)

/-- The end of `Open`: the root returns to its caller, another operator to the one above it. -/
def leave (k below : ℕ) (d : Shared) : Shared × Place :=
  let ret := getReturnStatus d k
  match k with
  | 0 => (d, .returned (below + 1) ret)
  | k + 1 => ({ d with failed := d.failed || !ret }, .setStatus k (below + 1) ret)

/-- `Open` of a chain of operators with a scan at its end. -/
def openProgram (ops : List Kind) : Program Shared Place Bool Empty where
  start := .register 0
  world e := e.elim
  code
    | .register k => .register k (afterRegister ops k)
    | .trySection k => .act fun _ _ d => some (trySection ops k d)
    | .lookup k => .act fun _ succeeds d => some (lookup k succeeds d)
    | .callChild k => .act fun _ succeeds d => some (callChild k succeeds d)
    | .setStatus k below ret => .act fun _ _ d => some (setReturnStatus d k ret, .arrive k below)
    | .arrive k below => .arrive k (.passed k below)
    | .passed k below => .act fun _ _ d => some (leave k below d)
    | .returned _ _ => .exit

/-! ### All that a thread can do to the shared data -/

inductive Act (ops : List Kind) (d : Shared) : Place → Shared → Place → Prop
  | scanWinner {k : ℕ} (hscan : ops[k]? = none) (hkey : d.keys k = true) :
      Act ops d (.trySection k) { d with keys := update d.keys k false } (.lookup k)
  | scanOther {k : ℕ} (hscan : ops[k]? = none) (hkey : d.keys k = false) :
      Act ops d (.trySection k) d (.arrive k 0)
  | winner {k : ℕ} {kind : Kind} (hkind : ops[k]? = some kind) :
      Act ops d (.trySection k) { d with keys := update d.keys k false } (.callChild k)
  | other {k : ℕ} {kind : Kind} (hkind : ops[k]? = some kind) :
      Act ops d (.trySection k) d (.callChild k)
  | found {k : ℕ} : Act ops d (.lookup k) { d with iterator := true } (.arrive k 0)
  | missing {k : ℕ} : Act ops d (.lookup k) { d with failed := true } (.arrive k 0)
  | openChild {k : ℕ} : Act ops d (.callChild k) d (.register (k + 1))
  | childFails {k : ℕ} : Act ops d (.callChild k) { d with failed := true } (.setStatus k 0 false)
  | setStatus {k below : ℕ} {ret : Bool} :
      Act ops d (.setStatus k below ret) d (.arrive k below)
  | ofRoot {below : ℕ} : Act ops d (.passed 0 below) d (.returned (below + 1) (d.openRet 0))
  | ofChild {k below : ℕ} :
      Act ops d (.passed (k + 1) below) { d with failed := d.failed || !d.openRet (k + 1) }
        (.setStatus k (below + 1) (d.openRet (k + 1)))

variable {pc next : Place} {t : ℕ} {a : Bool} {d d' : Shared} {k : ℕ} {e : Event Bool Empty}
  {opened : ℕ} {ret : Bool} {c : Control Place}

theorem open_act {ops : List Kind} {f : ℕ → Bool → Shared → Option (Shared × Place)}
    (hcode : (openProgram ops).code pc = .act f) (hf : f t a d = some (d', next)) :
    Act ops d pc d' next := by
  cases pc <;> cases hcode
  case trySection k =>
    have hpair := Option.some.inj hf
    unfold trySection at hpair
    cases hkind : ops[k]? with
    | none =>
      rw [hkind] at hpair
      cases hkey : d.keys k with
      | true =>
        simp only [hkey, if_true] at hpair
        cases hpair
        exact .scanWinner hkind hkey
      | false =>
        simp only [hkey, Bool.false_eq_true, if_false] at hpair
        cases hpair
        exact .scanOther hkind hkey
    | some kind =>
      rw [hkind] at hpair
      cases hkey : d.keys k with
      | true =>
        simp only [hkey, if_true] at hpair
        cases hpair
        exact .winner hkind
      | false =>
        simp only [hkey, Bool.false_eq_true, if_false] at hpair
        cases hpair
        exact .other hkind
  case lookup k =>
    cases a <;> cases hf
    · exact .missing
    · exact .found
  case callChild k =>
    cases a <;> cases hf
    · exact .childFails
    · exact .openChild
  case setStatus k below ret =>
    cases hf
    exact .setStatus
  case passed k below =>
    cases k <;> cases hf
    · exact .ofRoot
    · exact .ofChild

/-! ### The barriers are used in order -/

def span (k m : ℕ) (j : ℕ) : Status :=
  if j < k then .registered else if j < k + m then .arrived else .out

def Place.done : Place → ℕ → Status
  | .register k => span k 0
  | .trySection k | .lookup k | .callChild k => span (k + 1) 0
  | .setStatus k below _ | .arrive k below => span (k + 1) below
  | .passed k below => span k (below + 1)
  | .returned opened _ => span 0 opened

theorem span_zero_zero : span 0 0 = fun _ => .out := by
  funext j
  rw [span, if_neg (Nat.not_lt_zero j), if_neg (by omega)]

theorem span_register (k : ℕ) : span (k + 1) 0 = update (span k 0) k .registered := by
  funext j
  by_cases hj : j = k
  · subst hj
    rw [update_self, span, if_pos (by omega)]
  · rw [update_of_ne hj, span, span]
    by_cases hlt : j < k
    · rw [if_pos (by omega), if_pos hlt]
    · rw [if_neg (by omega), if_neg (by omega), if_neg hlt, if_neg (by omega)]

theorem span_arrive (k m : ℕ) : span k (m + 1) = update (span (k + 1) m) k .arrived := by
  funext j
  by_cases hj : j = k
  · subst hj
    rw [update_self, span, if_neg (by omega), if_pos (by omega)]
  · rw [update_of_ne hj, span, span]
    by_cases hlt : j < k
    · rw [if_pos hlt, if_pos (by omega)]
    · by_cases hm : j < k + (m + 1)
      · rw [if_neg hlt, if_pos hm, if_neg (by omega), if_pos (by omega)]
      · rw [if_neg hlt, if_neg hm, if_neg (by omega), if_neg (by omega)]

theorem span_self (k m : ℕ) : span (k + 1) m k = .registered := if_pos (by omega)

theorem afterRegister_done (ops : List Kind) (k : ℕ) :
    (afterRegister ops k).done = span (k + 1) 0 := by
  unfold afterRegister
  split <;> rfl

theorem open_annotated (ops : List Kind) : Annotated (openProgram ops) Place.done where
  start := span_zero_zero
  register := by
    intro pc b next hcode
    cases pc <;> cases hcode
    refine ⟨?_, (afterRegister_done ops b).trans (span_register b)⟩
    rw [Place.done, span, if_neg (by omega), if_neg (by omega)]
  unregister := by
    intro pc b next hcode
    cases pc <;> cases hcode
  arrive := by
    intro pc b next hcode
    cases pc <;> cases hcode
    exact ⟨span_self _ _, span_arrive _ _⟩
  act := by
    intro pc f t a d d' next hcode hf
    cases open_act hcode hf <;> rfl

/-! ### What is known of the data at each place -/

variable {ops : List Kind} {flags : ℕ → Bool}

def known (ops : List Kind) (flags : ℕ → Bool) (d : Shared) : Place → Prop
  | .register k | .trySection k => k ≤ ops.length
  | .lookup k => k = ops.length ∧ d.keys ops.length = false
  | .callChild k => k < ops.length
  | .setStatus k _ _ | .arrive k _ | .passed k _ =>
    k ≤ ops.length ∧ (d.failed = true ∨ d.keys ops.length = false)
  | .returned _ ret => ret = flags 0 ∧ (d.failed = true ∨ d.keys ops.length = false)

structure Invariant (ops : List Kind) (flags : ℕ → Bool) (s : State Shared Place) : Prop where
  openRet : s.data.openRet = flags
  known : ∀ t, (s.control t).All (known ops flags s.data)
  /-- The thread that has taken the scan's key looks the partition up. -/
  winner : s.data.keys ops.length = false →
    s.data.iterator = true ∨ s.data.failed = true ∨
      ∃ t, s.control t = .run (.lookup ops.length)
  /-- A thread waits at the barrier of the operator behind whose barrier it goes on. -/
  waits : ∀ {t b pc}, s.control t = .wait b pc → ∃ below, pc = .passed b below

/-- Keys are not given back, failures are not forgotten, and the flags stay as they are. -/
structure Grows (ops : List Kind) (d d' : Shared) : Prop where
  openRet : d'.openRet = d.openRet
  keys : d.keys ops.length = false → d'.keys ops.length = false
  iterator : d.iterator = true → d'.iterator = true
  failed : d.failed = true → d'.failed = true

theorem Grows.refl (d : Shared) : Grows ops d d := ⟨rfl, id, id, id⟩

theorem known_mono (h : Grows ops d d') (pc : Place) (hpc : known ops flags d pc) :
    known ops flags d' pc := by
  cases pc with
  | register | trySection | callChild => exact hpc
  | lookup k => exact ⟨hpc.1, h.keys hpc.2⟩
  | setStatus | arrive | passed | returned => exact ⟨hpc.1, hpc.2.imp h.failed h.keys⟩

theorem takeKey_grows (d : Shared) (k : ℕ) :
    Grows ops d { d with keys := update d.keys k false } := by
  refine ⟨rfl, fun hkey => ?_, id, id⟩
  by_cases hk : ops.length = k
  · subst hk
    exact update_self ..
  · exact (update_of_ne hk _ _).trans hkey

theorem act_grows (h : Act ops d pc d' next) : Grows ops d d' := by
  cases h with
  | scanWinner | winner => exact takeKey_grows d _
  | found => exact ⟨rfl, id, fun _ => rfl, id⟩
  | missing | childFails => exact ⟨rfl, id, id, fun _ => rfl⟩
  | ofChild => exact ⟨rfl, id, id, fun hfailed => by rw [hfailed, Bool.true_or]⟩
  | scanOther | other | openChild | setStatus | ofRoot => exact .refl d

theorem eq_length_of_scan (hscan : ops[k]? = none) (hle : k ≤ ops.length) : k = ops.length :=
  Nat.le_antisymm hle (List.getElem?_eq_none_iff.mp hscan)

theorem lt_length_of_kind {kind : Kind} (hkind : ops[k]? = some kind) : k < ops.length :=
  (List.getElem?_eq_some_iff.mp hkind).1

theorem act_known (hflags : d.openRet = flags) (h : Act ops d pc d' next)
    (hpc : known ops flags d pc) : known ops flags d' next := by
  cases h with
  | scanWinner hscan =>
    have hk := eq_length_of_scan hscan hpc
    subst hk
    exact ⟨rfl, update_self ..⟩
  | scanOther hscan hkey =>
    have hk := eq_length_of_scan hscan hpc
    subst hk
    exact ⟨le_rfl, .inr hkey⟩
  | winner hkind | other hkind => exact lt_length_of_kind hkind
  | found => exact ⟨hpc.1.le, .inr hpc.2⟩
  | missing => exact ⟨hpc.1.le, .inl rfl⟩
  | openChild => exact hpc
  | childFails => exact ⟨Nat.le_of_lt hpc, .inl rfl⟩
  | setStatus => exact hpc
  | ofRoot => exact ⟨by rw [hflags], hpc.2⟩
  | ofChild =>
    refine ⟨Nat.le_of_succ_le hpc.1, hpc.2.imp (fun hfailed => ?_) id⟩
    rw [hfailed, Bool.true_or]

theorem afterRegister_known (d : Shared) (hk : k ≤ ops.length) :
    known ops flags d (afterRegister ops k) := by
  unfold afterRegister
  split
  case h_1 hkind => exact lt_length_of_kind hkind
  · exact hk
  · exact hk

variable {n : ℕ} {s s' : State Shared Place}

theorem Invariant.known_run (h : Invariant ops flags s) (hc : s.control t = .run pc) :
    OpenStatus.known ops flags s.data pc := by
  have hall := h.known t
  rwa [hc] at hall

theorem data_grows (hmove : Move (openProgram ops) n s e s') : Grows ops s.data s'.data := by
  cases hmove with
  | act hc hcode hf => exact act_grows (open_act hcode hf)
  | world e => exact e.elim
  | _ => exact .refl _

theorem Invariant.known_move (h : Invariant ops flags s) (hmove : Move (openProgram ops) n s e s') :
    ∀ t, (s'.control t).All (OpenStatus.known ops flags s'.data) := by
  have hgrows := data_grows hmove
  refine all_move (fun t => (h.known t).mono (known_mono hgrows)) hmove (Nat.zero_le _)
    (fun {t pc next} hc hnext => ?_) fun {t a pc f next} _ hc hcode hf => ?_
  · have hpc := known_mono hgrows pc (h.known_run hc)
    cases pc <;> cases hnext
    · exact afterRegister_known _ hpc
    · exact hpc
  · exact act_known h.openRet (open_act hcode hf) (h.known_run hc)

theorem Invariant.takes_key (h : Invariant ops flags s) (hmove : Move (openProgram ops) n s e s')
    (hbefore : s.data.keys ops.length = true) (hafter : s'.data.keys ops.length = false) :
    ∃ t, s'.control t = .run (.lookup ops.length) := by
  cases hmove with
  | @act t a pc f d next hc hcode hf =>
    have hpc := h.known_run hc
    cases open_act hcode hf with
    | scanWinner hscan =>
      have hk := eq_length_of_scan hscan hpc
      subst hk
      exact ⟨t, update_self ..⟩
    | winner hkind =>
      have hne := (lt_length_of_kind hkind).ne'
      simp only [update_of_ne hne] at hafter
      cases hbefore.symm.trans hafter
    | _ => cases hbefore.symm.trans hafter
  | world e => exact e.elim
  | _ => cases hbefore.symm.trans hafter

theorem lookup_move {w : ℕ} (hw : s.control w = .run (.lookup ops.length))
    (hmove : Move (openProgram ops) n s (.exec w a) s') :
    s'.data.iterator = true ∨ s'.data.failed = true := by
  cases hmove with
  | act hc hcode hf =>
    cases hw.symm.trans hc
    cases open_act hcode hf with
    | found => exact .inl rfl
    | missing => exact .inr rfl
  | register hc hcode | unregister hc hcode | unregisterLast hc hcode | arrive hc hcode
  | arriveLast hc hcode =>
    cases hw.symm.trans hc
    cases hcode

theorem Invariant.winner_move (h : Invariant ops flags s)
    (hmove : Move (openProgram ops) n s e s') (hkey : s'.data.keys ops.length = false) :
    s'.data.iterator = true ∨ s'.data.failed = true ∨
      ∃ t, s'.control t = .run (.lookup ops.length) := by
  have hgrows := data_grows hmove
  cases hbefore : s.data.keys ops.length with
  | false =>
    obtain hiterator | hfailed | ⟨w, hw⟩ := h.winner hbefore
    · exact .inl (hgrows.iterator hiterator)
    · exact .inr (.inl (hgrows.failed hfailed))
    · by_cases he : ∀ a, e ≠ .exec w a
      · exact .inr (.inr ⟨w, hmove.run_of_ne hw he⟩)
      · obtain ⟨a, rfl⟩ := not_forall_not.mp he
        exact (lookup_move hw hmove).imp id .inl
  | true => exact .inr (.inr (h.takes_key hmove hbefore hkey))

theorem Invariant.move (h : Invariant ops flags s) (hmove : Move (openProgram ops) n s e s') :
    Invariant ops flags s' := by
  refine ⟨(data_grows hmove).openRet.trans h.openRet, h.known_move hmove, h.winner_move hmove,
    fun {t b pc} hw => ?_⟩
  obtain hwait | ⟨pc', _, hcode⟩ := hmove.wait_cases hw
  · exact h.waits hwait
  · cases pc' <;> cases hcode
    exact ⟨_, rfl⟩

theorem invariant_of_reaches {ok : State Shared Place → Event Bool Empty → Prop}
    (h : Runs.Reaches (StepWhen (openProgram ops) n ok) (initial (fresh flags)) s) :
    Invariant ops flags s := by
  refine Runs.invariant (I := Invariant ops flags) (fun s s' hs hstep => ?_) h
    ⟨rfl, fun _ => trivial, (fun hkey => by cases hkey), fun hw => by cases hw⟩
  obtain ⟨e, _, hstep⟩ := hstep
  exact hs.move (move_of_step hstep)

/-! ### Every thread returns -/

/-- How far a thread is from the end of `Open`: first down to the scan, then up to the root. -/
def Place.rank (ops : List Kind) : Place → ℕ
  | .register k => 5 * (ops.length - k) + 4 + 5 * (ops.length + 2)
  | .trySection k => 5 * (ops.length - k) + 3 + 5 * (ops.length + 2)
  | .callChild k => 5 * (ops.length - k) + 2 + 5 * (ops.length + 2)
  | .lookup k => 5 * (ops.length - k) + 1 + 5 * (ops.length + 2)
  | .setStatus k _ _ => 5 * k + 4
  | .arrive k _ => 5 * k + 3
  | .passed k _ => 5 * k + 1
  | .returned _ _ => 0

def rank (ops : List Kind) : Control Place → ℕ
  | .outside => 0
  | .run pc => pc.rank ops
  | .wait _ pc => pc.rank ops + 1

theorem act_rank (h : Act ops d pc d' next) (hpc : known ops flags d pc) :
    next.rank ops < pc.rank ops := by
  cases h with
  | scanWinner | winner | other | setStatus | ofRoot | ofChild =>
    simp only [Place.rank]
    omega
  | scanOther | found | missing | childFails | openChild =>
    simp only [Place.rank, known] at hpc ⊢
    omega

theorem afterRegister_rank (k : ℕ) :
    (afterRegister ops k).rank ops < (Place.register k).rank ops := by
  unfold afterRegister
  split <;> simp only [Place.rank] <;> omega

theorem rank_release (b : ℕ) (control : ℕ → Control Place) (t : ℕ) :
    rank ops (release b control t) ≤ rank ops (control t) := by
  obtain ⟨heq, _⟩ | ⟨pc, hc, heq⟩ := release_cases b control t
  · rw [heq]
  · rw [heq, hc]
    exact Nat.le_succ _

theorem Invariant.exec_rank (h : Invariant ops flags s)
    (hmove : Move (openProgram ops) n s (.exec t a) s') :
    rank ops (s'.control t) < rank ops (s.control t) ∧
      ∀ u, rank ops (s'.control u) ≤ rank ops (s.control u) := by
  -- it is enough to look at the thread that moves, when the others keep their rank or lower it
  have hall : ∀ {control : ℕ → Control Place} {c},
      (∀ u, rank ops (control u) ≤ rank ops (s.control u)) → rank ops c < rank ops (s.control t) →
      rank ops (update control t c t) < rank ops (s.control t) ∧
        ∀ u, rank ops (update control t c u) ≤ rank ops (s.control u) := by
    intro control c hothers hlt
    refine ⟨by rwa [update_self], fun u => ?_⟩
    by_cases hu : u = t
    · subst hu
      rw [update_self]
      exact hlt.le
    · rw [update_of_ne hu]
      exact hothers u
  cases hmove with
  | @register _ _ pc b next hc hcode =>
    refine hall (fun _ => le_rfl) ?_
    rw [hc]
    cases pc <;> cases hcode
    exact afterRegister_rank _
  | @arriveLast _ _ pc b next hc hcode =>
    refine hall (rank_release b s.control) ?_
    rw [hc]
    cases pc <;> cases hcode
    simp only [rank, Place.rank]
    omega
  | @arrive _ _ pc b next hc hcode =>
    refine hall (fun _ => le_rfl) ?_
    rw [hc]
    cases pc <;> cases hcode
    simp only [rank, Place.rank]
    omega
  | @unregister _ _ pc b next hc hcode | @unregisterLast _ _ pc b next hc hcode =>
    cases pc <;> cases hcode
  | act hc hcode hf =>
    refine hall (fun _ => le_rfl) ?_
    rw [hc]
    exact act_rank (open_act hcode hf) (h.known_run hc)

def Finished (s : State Shared Place) : Prop :=
  ∀ t, s.control t = .outside ∨ ∃ opened ret, s.control t = .run (.returned opened ret)

theorem Invariant.exists_running (h : Invariant ops flags s) (hcount : Counted Place.done n s)
    {b : ℕ} (hw : s.control t = .wait b pc) :
    ∃ u pc', s.control u = .run pc' ∧ ∀ opened ret, pc' ≠ .returned opened ret := by
  induction hd : ops.length - b using Nat.strong_induction_on generalizing t b pc with
  | _ distance ih =>
    obtain ⟨u, hu⟩ := hcount.exists_registered (hcount.waiting hw).2
    rw [hcount.status u] at hu
    cases hc : s.control u with
    | outside =>
      rw [hc] at hu
      cases hu
    | run pc' =>
      refine ⟨u, pc', hc, ?_⟩
      rintro opened ret rfl
      rw [hc, Control.status, Place.done, span, if_neg (Nat.not_lt_zero b)] at hu
      split at hu <;> cases hu
    | wait b' pc' =>
      obtain ⟨below, rfl⟩ := h.waits hc
      have hlt : b < b' := by
        by_contra hge
        rw [hc, Control.status, Place.done, span, if_neg hge] at hu
        split at hu <;> cases hu
      have hle : b' ≤ ops.length := by
        have hknown := h.known u
        rw [hc] at hknown
        exact hknown.1
      exact ih (ops.length - b') (by omega) hc rfl

theorem exists_exec (ops : List Kind) (n : ℕ) (hc : s.control t = .run pc)
    (hpc : ∀ opened ret, pc ≠ .returned opened ret) :
    ∃ s', step (openProgram ops) n s (.exec t true) = some s' := by
  rw [step, hc]
  cases pc with
  | returned opened ret => exact absurd rfl (hpc opened ret)
  | _ => exact ⟨_, rfl⟩

def ofThreads (_ : State Shared Place) (e : Event Bool Empty) : Prop := ∃ t a, e = .exec t a

theorem exists_finished (h : Invariant ops flags s) (hcount : Counted Place.done n s) :
    ∃ s', Runs.Reaches (StepWhen (openProgram ops) n ofThreads) s s' ∧ Finished s' := by
  by_cases hfinished : Finished s
  · exact ⟨s, .refl, hfinished⟩
  · refine Runs.finish _
      (fun s => Invariant ops flags s ∧ Counted Place.done n s ∧ ¬Finished s) Finished
      (fun s => ∑ t ∈ Finset.range n, rank ops (s.control t)) ?_ ⟨h, hcount, hfinished⟩
    rintro s ⟨h, hcount, hfinished⟩
    obtain ⟨t, ht⟩ := not_forall.mp hfinished
    have hrunning : ∃ u pc, s.control u = .run pc ∧ ∀ opened ret, pc ≠ .returned opened ret := by
      cases hc : s.control t with
      | outside => exact absurd (.inl hc) ht
      | run pc =>
        refine ⟨t, pc, hc, ?_⟩
        rintro opened ret rfl
        exact ht (.inr ⟨opened, ret, hc⟩)
      | wait b pc => exact h.exists_running hcount hc
    obtain ⟨u, pc, hc, hpc⟩ := hrunning
    obtain ⟨s', hs'⟩ := exists_exec ops n hc hpc
    have hmove := move_of_step hs'
    have hcount' := hcount.move (open_annotated ops) hmove
    refine ⟨s', ⟨.exec u true, ⟨u, true, rfl⟩, hs'⟩, ?_⟩
    by_cases hdone : Finished s'
    · exact .inl hdone
    · obtain ⟨hlt, hle⟩ := h.exec_rank hmove
      exact .inr ⟨⟨h.move hmove, hcount', hdone⟩, Finset.sum_lt_sum (fun v _ => hle v)
        ⟨u, Finset.mem_range.mpr (hcount.lt (by rw [hc]; simp)), hlt⟩⟩

/-! ### What `Open` returns -/

theorem Invariant.iterator_of_finished (h : Invariant ops flags s) (hfinished : Finished s)
    (hc : s.control t = .run (.returned opened ret)) (hfailed : s.data.failed = false) :
    s.data.iterator = true := by
  obtain hfail | hkey := (h.known_run hc).2
  · cases hfail.symm.trans hfailed
  · obtain hiterator | hfail | ⟨w, hw⟩ := h.winner hkey
    · exact hiterator
    · cases hfail.symm.trans hfailed
    · obtain hout | ⟨_, _, hreturned⟩ := hfinished w
      · cases hw.symm.trans hout
      · cases hw.symm.trans hreturned

/-! ### The iterator is there before a thread leaves the scan -/

def Settled (d : Shared) : Prop := d.failed = true ∨ d.iterator = true

def early (ops : List Kind) : Control Place → Prop
  | .outside | .run (.register _) | .run (.trySection _) | .run (.lookup _)
  | .run (.callChild _) => True
  | .run (.arrive k _) => k = ops.length
  | .run (.setStatus _ _ _) | .run (.passed _ _) | .run (.returned _ _) => False
  | .wait b _ => b = ops.length

def Ready (ops : List Kind) (s : State Shared Place) : Prop :=
  Settled s.data ∨ ∀ t, early ops (s.control t)

theorem early_update {control : ℕ → Control Place} (h : ∀ t, early ops (control t))
    (hc : early ops c) (u : ℕ) : early ops (update control t c u) := by
  by_cases hu : u = t
  · subst hu
    rwa [update_self]
  · rw [update_of_ne hu]
    exact h u

theorem act_early (hact : Act ops d pc d' next) (hpc : known ops flags d pc)
    (hearly : early ops (.run pc)) : Settled d' ∨ early ops (.run next) := by
  cases hact with
  | scanOther hscan => exact .inr (eq_length_of_scan hscan hpc)
  | scanWinner | winner | other | openChild => exact .inr trivial
  | found => exact .inl (.inr rfl)
  | missing | childFails => exact .inl (.inl rfl)
  | setStatus | ofRoot | ofChild => exact hearly.elim

theorem Invariant.settled_of_last (h : Invariant ops flags s) (hcount : Counted Place.done n s)
    {below : ℕ} (hc : s.control t = .run (.arrive ops.length below))
    (hnone : ∀ u, mark s.status t ops.length .arrived u ops.length ≠ .registered) :
    Settled s.data := by
  obtain hfailed | hkey := (h.known_run hc).2
  · exact .inl hfailed
  · obtain hiterator | hfailed | ⟨w, hw⟩ := h.winner hkey
    · exact .inr hiterator
    · exact .inl hfailed
    · have hwt : w ≠ t := fun hwt => by cases (hwt ▸ hw).symm.trans hc
      refine absurd ?_ (hnone w)
      rw [mark, update_of_ne hwt, hcount.status_run hw]
      exact span_self _ _

theorem Ready.move (hready : Ready ops s) (h : Invariant ops flags s)
    (hcount : Counted Place.done n s) (hok : onlyWoken s e)
    (hmove : Move (openProgram ops) n s e s') : Ready ops s' := by
  obtain hsettled | hearly := hready
  · have hgrows := data_grows hmove
    exact .inl (hsettled.imp hgrows.failed hgrows.iterator)
  have hcount' := hcount.move (open_annotated ops) hmove
  cases hmove with
  | start => exact .inr (early_update hearly trivial)
  | @register t a pc b next hc hcode =>
    cases pc <;> cases hcode
    refine .inr (early_update hearly ?_)
    unfold afterRegister
    split <;> trivial
  | @unregister t a pc b next hc hcode | @unregisterLast t a pc b next hc hcode =>
    cases pc <;> cases hcode
  | @arriveLast t a pc b next hc hcode hlast =>
    have hpc := hearly t
    rw [hc] at hpc
    have hnone := hcount'.none_registered (b := b)
      (by simpa only [update_self] using hlast)
    cases pc <;> cases hcode
    cases hpc
    exact .inl (h.settled_of_last hcount hc hnone)
  | @arrive t a pc b next hc hcode =>
    have hpc := hearly t
    rw [hc] at hpc
    cases pc <;> cases hcode
    exact .inr (early_update hearly hpc)
  | @act t a pc f d next hc hcode hf =>
    have hpc := hearly t
    rw [hc] at hpc
    exact (act_early (open_act hcode hf) (h.known_run hc) hpc).imp id (early_update hearly)
  | wake => exact hok.elim
  | world e => exact e.elim

theorem ready_of_reaches
    (h : Runs.Reaches (StepWhen (openProgram ops) n onlyWoken) (initial (fresh flags)) s) :
    Ready ops s := by
  induction h with
  | refl => exact .inr fun _ => trivial
  | tail hrun hstep ih =>
    obtain ⟨e, hok, hstep⟩ := hstep
    exact ih.move (invariant_of_reaches hrun) (Counted.of_reaches (open_annotated ops) hrun) hok
      (move_of_step hstep)

/-! ### The result at the root -/

/-- False if something has failed, true if not, and then the scan has its iterator. -/
def OpenRight (s : State Shared Place) : Prop :=
  ∀ t opened ret, s.control t = .run (.returned opened ret) →
    ret = !s.data.failed ∧ (ret = true → s.data.iterator = true)

/-- **The result of `Open` is right if and only if the root's flag happens to be.** -/
theorem open_right_iff (ops : List Kind) (flags : ℕ → Bool) (n : ℕ) (s : State Shared Place)
    (h : Runs.Reaches (Step (openProgram ops) n) (initial (fresh flags)) s)
    (hbegun : ∃ t, s.control t ≠ .outside) :
    (∃ s', Runs.Reaches (StepWhen (openProgram ops) n ofThreads) s s' ∧ Finished s') ∧
      (Finished s → (OpenRight s ↔ flags 0 = !s.data.failed)) ∧
      (Runs.Reaches (StepWhen (openProgram ops) n onlyWoken) (initial (fresh flags)) s →
        ∀ t opened ret, s.control t = .run (.returned opened ret) → s.data.failed = false →
          s.data.iterator = true) := by
  have hinv := invariant_of_reaches h
  refine ⟨exists_finished hinv (Counted.of_reaches (open_annotated ops) h), fun hfinished => ?_,
    fun hwoken t opened ret hc hfailed => ?_⟩
  · constructor
    · intro hright
      obtain ⟨t, ht⟩ := hbegun
      obtain ⟨opened, ret, hc⟩ := (hfinished t).resolve_left ht
      rw [← (hright t opened ret hc).1, (hinv.known_run hc).1]
    · intro hflag t opened ret hc
      have hret : ret = !s.data.failed := ((hinv.known_run hc).1).trans hflag
      refine ⟨hret, fun htrue => hinv.iterator_of_finished hfinished hc ?_⟩
      rw [htrue] at hret
      cases hfailed : s.data.failed with
      | false => rfl
      | true => rw [hfailed] at hret; cases hret
  · obtain (hfail | hiterator) | hearly := ready_of_reaches hwoken
    · cases hfail.symm.trans hfailed
    · exact hiterator
    · have hout := hearly t
      rw [hc] at hout
      exact hout.elim

/-! ### One thread and a filter over a scan -/

def openOnce (found : Bool) : List (Event Bool Empty) :=
  [.start 0] ++ List.replicate 5 (.exec 0 true) ++ [.exec 0 found] ++
    List.replicate 5 (.exec 0 true)

def afterOpen (flags : ℕ → Bool) (found : Bool) : Option (Control Place × Bool × Bool) :=
  (runWhen (openProgram [.filter]) 1 isWoken (initial (fresh flags)) (openOnce found)).map
    fun s => (s.control 0, s.data.failed, s.data.iterator)

theorem run_of_afterOpen (flags : ℕ → Bool) (found : Bool) {failed it : Bool}
    (h : afterOpen flags found = some (c, failed, it)) :
    ∃ s, Runs.Reaches (Step (openProgram [.filter]) 1) (initial (fresh flags)) s ∧
      s.control 0 = c ∧ s.data.failed = failed ∧ s.data.iterator = it := by
  obtain ⟨s, hs, hseen⟩ := Option.map_eq_some_iff.mp h
  obtain ⟨hc, hrest⟩ := Prod.mk.inj hseen
  exact ⟨s, reaches_of_runWhen (fun _ _ _ => trivial) hs, hc, Prod.mk.inj hrest⟩

theorem opens_right :
    ∃ s, Runs.Reaches (Step (openProgram [.filter]) 1) (initial (fresh fun _ => true)) s ∧
      s.control 0 = .run (.returned 2 true) ∧ OpenRight s := by
  have hseen : afterOpen (fun _ => true) true = some (.run (.returned 2 true), false, true) := by
    decide
  obtain ⟨s, hreach, hc, hfailed, _⟩ := run_of_afterOpen _ _ hseen
  have hfinished : Finished s := by
    intro t
    by_cases ht : t = 0
    · exact .inr ⟨2, true, by rw [ht, hc]⟩
    · exact .inl ((Counted.of_reaches (open_annotated _) hreach).idle t (by omega))
  have hiff := (open_right_iff [.filter] (fun _ => true) 1 s hreach ⟨0, by rw [hc]; simp⟩).2.1
  exact ⟨s, hreach, hc, (hiff hfinished).mpr (by rw [hfailed]; rfl)⟩

/-- **Failures are swallowed**, or reported where nothing has failed, as the flags happen to be. -/
theorem failure_swallowed :
    (∃ s, Runs.Reaches (Step (openProgram [.filter]) 1) (initial (fresh fun _ => true)) s ∧
      s.control 0 = .run (.returned 2 true) ∧ s.data.failed = true ∧ s.data.iterator = false) ∧
    ∃ s, Runs.Reaches (Step (openProgram [.filter]) 1) (initial (fresh fun k => k != 0)) s ∧
      s.control 0 = .run (.returned 2 false) ∧ s.data.failed = false ∧ s.data.iterator = true :=
  ⟨run_of_afterOpen _ false (by decide), run_of_afterOpen _ true (by decide)⟩

end OpenStatus
