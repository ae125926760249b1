/-
Threads that meet at barriers.

A thread registers, arrives and unregisters in separate steps under the barrier's lock.  The last
one to arrive, or to unregister, wakes all those that wait, and any wake-up lets a thread go on.
Threads run programs over shared data of any type.
-/
import ClaimsDB.Runs

namespace Barriers

open Function (update update_of_ne update_self)

/-- A barrier: how many threads take part in it and how many have arrived. -/
structure Barrier where
  nThreads : ℕ
  syncCount : ℕ
deriving DecidableEq, Repr

inductive Status where
  | out
  | registered
  | arrived
  | unregistered
deriving DecidableEq, Repr

/-- Where a thread is; one that waits at a barrier goes on at a place. -/
inductive Control (Pc : Type) where
  | outside
  | run (pc : Pc)
  | wait (b : ℕ) (pc : Pc)
deriving DecidableEq, Repr

/-- What is done at a place. An `act` may depend on the thread and on its surroundings. -/
inductive Instr (D Pc A : Type) where
  | register (b : ℕ) (next : Pc)
  | unregister (b : ℕ) (next : Pc)
  | arrive (b : ℕ) (next : Pc)
  | act (f : ℕ → A → D → Option (D × Pc))
  | exit

/-- A program that any number of threads run; `world` is what may happen to the data by
itself. -/
structure Program (D Pc A E : Type) where
  start : Pc
  code : Pc → Instr D Pc A
  world : E → D → D

structure State (D Pc : Type) where
  control : ℕ → Control Pc
  barrier : ℕ → Barrier
  status : ℕ → ℕ → Status
  data : D

inductive Event (A E : Type) where
  | start (t : ℕ)
  | exec (t : ℕ) (a : A)
  | wake (t : ℕ)
  | world (e : E)

variable {D Pc A E : Type}

def initial (d : D) : State D Pc :=
  ⟨fun _ => .outside, fun _ => ⟨0, 0⟩, fun _ _ => .out, d⟩

def release (b : ℕ) (control : ℕ → Control Pc) (t : ℕ) : Control Pc :=
  match control t with
  | .wait b' pc => if b' = b then .run pc else .wait b' pc
  | c => c

def mark (status : ℕ → ℕ → Status) (t b : ℕ) (new : Status) : ℕ → ℕ → Status :=
  update status t (update (status t) b new)

def exec (P : Program D Pc A E) (s : State D Pc) (t : ℕ) (a : A) (pc : Pc) :
    Option (State D Pc) :=
  match P.code pc with
  | .register b next =>
    some { s with
      control := update s.control t (.run next)
      barrier := update s.barrier b
        { s.barrier b with nThreads := (s.barrier b).nThreads + 1 }
      status := mark s.status t b .registered }
  | .unregister b next =>
    -- the counter must not become negative
    if (s.barrier b).nThreads = 0 then none
    else
      let control :=
        if (s.barrier b).nThreads - 1 ≤ (s.barrier b).syncCount then release b s.control
        else s.control
      some { s with
        control := update control t (.run next)
        barrier := update s.barrier b
          { s.barrier b with nThreads := (s.barrier b).nThreads - 1 }
        status := mark s.status t b .unregistered }
  | .arrive b next =>
    let control :=
      if (s.barrier b).nThreads ≤ (s.barrier b).syncCount + 1 then
        update (release b s.control) t (.run next)
      else update s.control t (.wait b next)
    some { s with
      control := control
      barrier := update s.barrier b
        { s.barrier b with syncCount := (s.barrier b).syncCount + 1 }
      status := mark s.status t b .arrived }
  | .act f =>
    (f t a s.data).map fun result =>
      { s with control := update s.control t (.run result.2), data := result.1 }
  | .exit => none

def step (P : Program D Pc A E) (n : ℕ) (s : State D Pc) : Event A E → Option (State D Pc)
  | .start t =>
    match s.control t with
    | .outside =>
      if t < n then some { s with control := update s.control t (.run P.start) } else none
    | _ => none
  | .exec t a =>
    match s.control t with
    | .run pc => exec P s t a pc
    | _ => none
  | .wake t =>
    match s.control t with
    | .wait _ pc => some { s with control := update s.control t (.run pc) }
    | _ => none
  | .world e => some { s with data := P.world e s.data }

/-! ### What one step can do -/

inductive Move (P : Program D Pc A E) (n : ℕ) (s : State D Pc) : Event A E → State D Pc → Prop
  | start {t : ℕ} (ht : t < n) (hc : s.control t = .outside) :
      Move P n s (.start t) { s with control := update s.control t (.run P.start) }
  | register {t : ℕ} {a : A} {pc : Pc} {b : ℕ} {next : Pc} (hc : s.control t = .run pc)
      (hcode : P.code pc = .register b next) :
      Move P n s (.exec t a)
        { s with
          control := update s.control t (.run next)
          barrier := update s.barrier b
            ⟨(s.barrier b).nThreads + 1, (s.barrier b).syncCount⟩
          status := mark s.status t b .registered }
  | unregisterLast {t : ℕ} {a : A} {pc : Pc} {b : ℕ} {next : Pc} (hc : s.control t = .run pc)
      (hcode : P.code pc = .unregister b next) (hpos : 0 < (s.barrier b).nThreads)
      (hlast : (s.barrier b).nThreads - 1 ≤ (s.barrier b).syncCount) :
      Move P n s (.exec t a)
        { s with
          control := update (release b s.control) t (.run next)
          barrier := update s.barrier b
            ⟨(s.barrier b).nThreads - 1, (s.barrier b).syncCount⟩
          status := mark s.status t b .unregistered }
  | unregister {t : ℕ} {a : A} {pc : Pc} {b : ℕ} {next : Pc} (hc : s.control t = .run pc)
      (hcode : P.code pc = .unregister b next) (hpos : 0 < (s.barrier b).nThreads)
      (hmore : (s.barrier b).syncCount < (s.barrier b).nThreads - 1) :
      Move P n s (.exec t a)
        { s with
          control := update s.control t (.run next)
          barrier := update s.barrier b
            ⟨(s.barrier b).nThreads - 1, (s.barrier b).syncCount⟩
          status := mark s.status t b .unregistered }
  | arriveLast {t : ℕ} {a : A} {pc : Pc} {b : ℕ} {next : Pc} (hc : s.control t = .run pc)
      (hcode : P.code pc = .arrive b next)
      (hlast : (s.barrier b).nThreads ≤ (s.barrier b).syncCount + 1) :
      Move P n s (.exec t a)
        { s with
          control := update (release b s.control) t (.run next)
          barrier := update s.barrier b
            ⟨(s.barrier b).nThreads, (s.barrier b).syncCount + 1⟩
          status := mark s.status t b .arrived }
  | arrive {t : ℕ} {a : A} {pc : Pc} {b : ℕ} {next : Pc} (hc : s.control t = .run pc)
      (hcode : P.code pc = .arrive b next)
      (hmore : (s.barrier b).syncCount + 1 < (s.barrier b).nThreads) :
      Move P n s (.exec t a)
        { s with
          control := update s.control t (.wait b next)
          barrier := update s.barrier b
            ⟨(s.barrier b).nThreads, (s.barrier b).syncCount + 1⟩
          status := mark s.status t b .arrived }
  | act {t : ℕ} {a : A} {pc : Pc} {f : ℕ → A → D → Option (D × Pc)} {d : D} {next : Pc}
      (hc : s.control t = .run pc) (hcode : P.code pc = .act f)
      (hf : f t a s.data = some (d, next)) :
      Move P n s (.exec t a)
        { s with control := update s.control t (.run next), data := d }
  | wake {t b : ℕ} {pc : Pc} (hc : s.control t = .wait b pc) :
      Move P n s (.wake t) { s with control := update s.control t (.run pc) }
  | world (e : E) : Move P n s (.world e) { s with data := P.world e s.data }

variable {P : Program D Pc A E} {n : ℕ} {s s' : State D Pc}

variable {t : ℕ} {pc : Pc} {e : Event A E} {b : ℕ} {control : ℕ → Control Pc} {u : ℕ} {next : Pc}
  {c : Control Pc} {d : D} {ok : State D Pc → Event A E → Prop} {Q : Pc → Prop} {w : ℕ}

theorem move_of_exec {a : A} (hc : s.control t = .run pc) (h : exec P s t a pc = some s') :
    Move P n s (.exec t a) s' := by
  unfold exec at h
  split at h
  case h_1 b next hcode =>
    cases h
    exact .register hc hcode
  case h_2 b next hcode =>
    obtain ⟨hne, h⟩ := Option.ite_none_left_eq_some.mp h
    have hpos : 0 < (s.barrier b).nThreads := Nat.pos_of_ne_zero hne
    cases h
    by_cases hlast : (s.barrier b).nThreads - 1 ≤ (s.barrier b).syncCount
    · simp only [if_pos hlast]
      exact .unregisterLast hc hcode hpos hlast
    · simp only [if_neg hlast]
      exact .unregister hc hcode hpos (Nat.lt_of_not_le hlast)
  case h_3 b next hcode =>
    cases h
    by_cases hlast : (s.barrier b).nThreads ≤ (s.barrier b).syncCount + 1
    · simp only [if_pos hlast]
      exact .arriveLast hc hcode hlast
    · simp only [if_neg hlast]
      exact .arrive hc hcode (Nat.lt_of_not_le hlast)
  case h_4 f hcode =>
    obtain ⟨⟨d, next⟩, hf, rfl⟩ := Option.map_eq_some_iff.mp h
    exact .act hc hcode hf
  case h_5 => cases h

theorem move_of_step (h : step P n s e = some s') : Move P n s e s' := by
  cases e with
  | start t =>
    rw [step] at h
    split at h
    case h_1 hc =>
      split at h
      case isTrue ht =>
        cases h
        exact .start ht hc
      · cases h
    · cases h
  | exec t a =>
    rw [step] at h
    split at h
    case h_1 pc hc => exact move_of_exec hc h
    · cases h
  | wake t =>
    rw [step] at h
    split at h
    case h_1 b pc hc =>
      cases h
      exact .wake hc
    · cases h
  | world e =>
    cases h
    exact .world e

/-! ### Waking the threads of a barrier -/

theorem release_cases (b : ℕ) (control : ℕ → Control Pc) (t : ℕ) :
    release b control t = control t ∧ (∀ pc, control t ≠ .wait b pc) ∨
      ∃ pc, control t = .wait b pc ∧ release b control t = .run pc := by
  unfold release
  cases hc : control t with
  | outside | run pc => exact .inl ⟨rfl, fun pc h => by cases h⟩
  | wait b' pc =>
    by_cases hb : b' = b
    · subst hb
      exact .inr ⟨pc, rfl, if_pos rfl⟩
    · exact .inl ⟨if_neg hb, fun pc h => hb (by cases h; rfl)⟩

/-! ### Programs that use their barriers in order -/

/-- `ann` says what a thread has done at the barriers when it comes to a place. -/
structure Annotated (P : Program D Pc A E) (ann : Pc → ℕ → Status) : Prop where
  start : ann P.start = fun _ => .out
  register : ∀ {pc b next}, P.code pc = .register b next →
    ann pc b = .out ∧ ann next = update (ann pc) b .registered
  unregister : ∀ {pc b next}, P.code pc = .unregister b next →
    ann pc b = .registered ∧ ann next = update (ann pc) b .unregistered
  arrive : ∀ {pc b next}, P.code pc = .arrive b next →
    ann pc b = .registered ∧ ann next = update (ann pc) b .arrived
  act : ∀ {pc f t a d d' next}, P.code pc = .act f → f t a d = some (d', next) → ann next = ann pc

def Control.status (ann : Pc → ℕ → Status) : Control Pc → ℕ → Status
  | .outside => fun _ => .out
  | .run pc => ann pc
  | .wait _ pc => ann pc

def Status.inside : Status → ℕ
  | .registered | .arrived => 1
  | .out | .unregistered => 0

def Status.hasArrived : Status → ℕ
  | .arrived => 1
  | .out | .registered | .unregistered => 0

theorem Status.hasArrived_le_inside (st : Status) : st.hasArrived ≤ st.inside := by
  cases st <;> decide

/-- The counters count the threads, and nobody waits whom the counters would let pass. -/
structure Counted (ann : Pc → ℕ → Status) (n : ℕ) (s : State D Pc) : Prop where
  nThreads : ∀ b, (s.barrier b).nThreads = ∑ t ∈ Finset.range n, (s.status t b).inside
  syncCount : ∀ b, (s.barrier b).syncCount = ∑ t ∈ Finset.range n, (s.status t b).hasArrived
  idle : ∀ t, n ≤ t → s.control t = .outside
  status : ∀ t, s.status t = (s.control t).status ann
  waiting : ∀ {t b pc}, s.control t = .wait b pc →
    ann pc b = .arrived ∧ (s.barrier b).syncCount < (s.barrier b).nThreads

variable {ann : Pc → ℕ → Status}

theorem Counted.lt (h : Counted ann n s) (hc : s.control t ≠ .outside) : t < n := by
  by_contra hge
  exact hc (h.idle t (Nat.le_of_not_lt hge))

theorem Counted.status_run (h : Counted ann n s) (hc : s.control t = .run pc) :
    s.status t = ann pc := by
  rw [h.status t, hc, Control.status]

theorem Counted.initial (d : D) : Counted ann n (initial d : State D Pc) :=
  ⟨fun b => by simp [Barriers.initial, Status.inside],
    fun b => by simp [Barriers.initial, Status.hasArrived], fun _ _ => rfl, fun _ => rfl,
    fun hc => by cases hc⟩

theorem Counted.none_registered (h : Counted ann n s)
    (hle : (s.barrier b).nThreads ≤ (s.barrier b).syncCount) (t : ℕ) :
    s.status t b ≠ .registered := by
  intro hreg
  have ht : t < n := h.lt fun hc => by
    rw [h.status t, hc] at hreg
    cases hreg
  rw [h.nThreads, h.syncCount] at hle
  have hlt : ∑ t ∈ Finset.range n, (s.status t b).hasArrived
      < ∑ t ∈ Finset.range n, (s.status t b).inside :=
    Finset.sum_lt_sum (fun u _ => (s.status u b).hasArrived_le_inside)
      ⟨t, Finset.mem_range.mpr ht, by rw [hreg]; decide⟩
  omega

theorem Counted.exists_registered (h : Counted ann n s)
    (hlt : (s.barrier b).syncCount < (s.barrier b).nThreads) : ∃ t, s.status t b = .registered := by
  rw [h.nThreads, h.syncCount] at hlt
  obtain ⟨t, _, ht⟩ := Finset.exists_lt_of_sum_lt hlt
  refine ⟨t, ?_⟩
  cases hst : s.status t b with
  | registered => rfl
  | out | arrived | unregistered => simp [hst, Status.inside, Status.hasArrived] at ht

theorem sum_mark (F : Status → ℕ) (status : ℕ → ℕ → Status) (ht : t < n) (b b' : ℕ) (new : Status) :
    ∑ u ∈ Finset.range n, F (mark status t b new u b') + F (status t b') =
      ∑ u ∈ Finset.range n, F (status u b') + F (if b' = b then new else status t b') := by
  have h := Runs.sum_update (fun st : ℕ → Status => F (st b')) status ht
    (update (status t) b new)
  rwa [show update (status t) b new b' = if b' = b then new else status t b' from
    Function.update_apply ..] at h

theorem release_status (b : ℕ) (control : ℕ → Control Pc) (u : ℕ) :
    (release b control u).status ann = (control u).status ann := by
  obtain ⟨heq, _⟩ | ⟨pc, hc, heq⟩ := release_cases b control u
  · rw [heq]
  · rw [heq, hc, Control.status, Control.status]

theorem release_outside (hc : control u = .outside) : release b control u = .outside := by
  rw [release, hc]

theorem wait_of_release {b' : ℕ} (hc : release b control u = .wait b' pc) :
    control u = .wait b' pc ∧ b' ≠ b := by
  obtain ⟨heq, hne⟩ | ⟨pc', _, heq⟩ := release_cases b control u
  · rw [heq] at hc
    exact ⟨hc, fun hb => hne pc (hb ▸ hc)⟩
  · rw [heq] at hc
    cases hc

theorem Counted.of_mark (h : Counted ann n s) {t b : ℕ} {pc next : Pc} {new : Status}
    {bar : Barrier} {control : ℕ → Control Pc} {c : Control Pc} {d : D}
    (hc : s.control t = .run pc) (hnext : ann next = update (ann pc) b new)
    (hthreads : bar.nThreads + (ann pc b).inside = (s.barrier b).nThreads + new.inside)
    (hsync : bar.syncCount + (ann pc b).hasArrived = (s.barrier b).syncCount + new.hasArrived)
    (hcontrol : control = s.control ∧
        (∀ {u pc'}, s.control u = .wait b pc' → bar.syncCount < bar.nThreads) ∨
      control = release b s.control)
    (hmoved : c = .run next ∨
      c = .wait b next ∧ new = .arrived ∧ bar.syncCount < bar.nThreads) :
    Counted ann n
      ⟨update control t c, update s.barrier b bar, mark s.status t b new, d⟩ := by
  have ht : t < n := h.lt (by rw [hc]; simp)
  have hst : s.status t = ann pc := h.status_run hc
  have hwait : ∀ {u b' pc'}, control u = .wait b' pc' → s.control u = .wait b' pc' ∧
      (b' = b → bar.syncCount < bar.nThreads) := by
    obtain ⟨rfl, hwait⟩ | rfl := hcontrol
    · exact fun hcu => ⟨hcu, fun hb => hwait (hb ▸ hcu)⟩
    · exact fun hcu => ⟨(wait_of_release hcu).1, fun hb => absurd hb (wait_of_release hcu).2⟩
  refine ⟨fun b' => ?_, fun b' => ?_, fun u hu => ?_, fun u => ?_, fun {u b' pc'} hcu => ?_⟩
  · have hsum := sum_mark (n := n) Status.inside s.status ht b b' new
    by_cases hb : b' = b
    · subst hb
      rw [if_pos rfl, ← h.nThreads, hst] at hsum
      simp only [update_self]
      omega
    · rw [if_neg hb, ← h.nThreads] at hsum
      simp only [update_of_ne hb]
      omega
  · have hsum := sum_mark (n := n) Status.hasArrived s.status ht b b' new
    by_cases hb : b' = b
    · subst hb
      rw [if_pos rfl, ← h.syncCount, hst] at hsum
      simp only [update_self]
      omega
    · rw [if_neg hb, ← h.syncCount] at hsum
      simp only [update_of_ne hb]
      omega
  · simp only [update_of_ne (show u ≠ t by omega)]
    obtain ⟨rfl, _⟩ | rfl := hcontrol
    · exact h.idle u hu
    · exact release_outside (h.idle u hu)
  · by_cases hu : u = t
    · subst hu
      simp only [mark, update_self, hst, ← hnext]
      obtain rfl | ⟨rfl, _⟩ := hmoved <;> rfl
    · simp only [mark, update_of_ne hu, h.status]
      obtain ⟨rfl, _⟩ | rfl := hcontrol
      · rfl
      · exact (release_status b s.control u).symm
  · by_cases hu : u = t
    · subst hu
      simp only [update_self] at hcu
      obtain rfl | ⟨rfl, hnew, hlt⟩ := hmoved
      · cases hcu
      · cases hcu
        exact ⟨by rw [hnext, update_self, hnew], by simpa only [update_self]⟩
    · simp only [update_of_ne hu] at hcu
      obtain ⟨hcu, hlt⟩ := hwait hcu
      refine ⟨(h.waiting hcu).1, ?_⟩
      by_cases hb : b' = b
      · subst hb
        simpa only [update_self] using hlt rfl
      · simpa only [update_of_ne hb] using (h.waiting hcu).2

theorem Counted.goto (h : Counted ann n s) (ht : t < n)
    (hnext : ann next = (s.control t).status ann) :
    Counted ann n { s with control := update s.control t (.run next), data := d } := by
  refine ⟨h.nThreads, h.syncCount, fun u hu => ?_, fun u => ?_, fun {u b pc} hc => ?_⟩
  · exact (update_of_ne (by omega) _ _).trans (h.idle u hu)
  · by_cases hu : u = t
    · subst hu
      simp only [update_self, Control.status, hnext]
      exact h.status u
    · simp only [update_of_ne hu]
      exact h.status u
  · by_cases hu : u = t
    · subst hu
      simp only [update_self] at hc
      cases hc
    · simp only [update_of_ne hu] at hc
      exact h.waiting hc

theorem Counted.move (hP : Annotated P ann) (h : Counted ann n s) (hmove : Move P n s e s') :
    Counted ann n s' := by
  cases hmove with
  | start ht hc => exact h.goto ht (by rw [hP.start, hc, Control.status])
  | @register t a pc b next hc hcode =>
    obtain ⟨hpc, hnext⟩ := hP.register hcode
    refine h.of_mark hc hnext ?_ ?_ (.inl ⟨rfl, fun hcu => ?_⟩) (.inl rfl)
    · simp [hpc, Status.inside]
    · simp [hpc, Status.hasArrived]
    · have hlt := (h.waiting hcu).2
      simp only
      omega
  | @unregisterLast t a pc b next hc hcode hpos hlast =>
    obtain ⟨hpc, hnext⟩ := hP.unregister hcode
    refine h.of_mark hc hnext ?_ ?_ (.inr rfl) (.inl rfl)
    · simp only [hpc, Status.inside]
      omega
    · simp [hpc, Status.hasArrived]
  | @unregister t a pc b next hc hcode hpos hmore =>
    obtain ⟨hpc, hnext⟩ := hP.unregister hcode
    refine h.of_mark hc hnext ?_ ?_ (.inl ⟨rfl, fun _ => hmore⟩) (.inl rfl)
    · simp only [hpc, Status.inside]
      omega
    · simp [hpc, Status.hasArrived]
  | @arriveLast t a pc b next hc hcode hlast =>
    obtain ⟨hpc, hnext⟩ := hP.arrive hcode
    refine h.of_mark hc hnext ?_ ?_ (.inr rfl) (.inl rfl)
    · simp [hpc, Status.inside]
    · simp [hpc, Status.hasArrived]
  | @arrive t a pc b next hc hcode hmore =>
    obtain ⟨hpc, hnext⟩ := hP.arrive hcode
    refine h.of_mark hc hnext ?_ ?_ (.inl ⟨rfl, fun _ => hmore⟩) (.inr ⟨rfl, rfl, hmore⟩)
    · simp [hpc, Status.inside]
    · simp [hpc, Status.hasArrived]
  | @act t a pc f d next hc hcode hf =>
    exact h.goto (h.lt (by rw [hc]; simp)) (by rw [hP.act hcode hf, hc, Control.status])
  | wake hc => exact h.goto (h.lt (by rw [hc]; simp)) (by rw [hc, Control.status])
  | world e => exact ⟨h.nThreads, h.syncCount, h.idle, h.status, h.waiting⟩

def StepWhen (P : Program D Pc A E) (n : ℕ) (ok : State D Pc → Event A E → Prop)
    (s s' : State D Pc) : Prop :=
  ∃ e, ok s e ∧ step P n s e = some s'

abbrev Step (P : Program D Pc A E) (n : ℕ) : State D Pc → State D Pc → Prop :=
  StepWhen P n fun _ _ => True

theorem Counted.of_reaches (hP : Annotated P ann)
    (h : Runs.Reaches (StepWhen P n ok) (Barriers.initial d) s) : Counted ann n s :=
  Runs.invariant (I := Counted ann n)
    (fun _ _ hs ⟨_, _, hstep⟩ => hs.move hP (move_of_step hstep)) h (.initial d)

def onlyWoken (_ : State D Pc) : Event A E → Prop
  | .wake _ => False
  | _ => True

def isWoken (_ : State D Pc) : Event A E → Bool
  | .wake _ => false
  | _ => true

theorem onlyWoken_of_isWoken (s : State D Pc) (e : Event A E) (h : isWoken s e = true) :
    onlyWoken s e := by
  cases e with
  | wake => cases h
  | start | exec | world => trivial

def runWhen (P : Program D Pc A E) (n : ℕ) (ok : State D Pc → Event A E → Bool) (s : State D Pc)
    (events : List (Event A E)) : Option (State D Pc) :=
  events.foldlM (fun s e => if ok s e then step P n s e else none) s

theorem reaches_of_runWhen {test : State D Pc → Event A E → Bool}
    (hok : ∀ s e, test s e = true → ok s e) {events : List (Event A E)}
    (h : runWhen P n test s events = some s') : Runs.Reaches (StepWhen P n ok) s s' := by
  refine Runs.reaches_of_foldlM (fun s e s' hstep => ?_) h
  split at hstep
  case isTrue htest => exact ⟨e, hok s e htest, hstep⟩
  · cases hstep

/-! ### The places where threads are -/

/-- `Q` holds of the place where a thread is, or goes on when it is woken. -/
def Control.All (Q : Pc → Prop) : Control Pc → Prop
  | .outside => True
  | .run pc => Q pc
  | .wait _ pc => Q pc

theorem Control.All.mono {R : Pc → Prop} (h : c.All Q) (hQR : ∀ pc, Q pc → R pc) : c.All R := by
  cases c with
  | outside => trivial
  | run pc => exact hQR pc h
  | wait b pc => exact hQR pc h

theorem all_release (h : ∀ t, (control t).All Q) (b t : ℕ) : (release b control t).All Q := by
  obtain ⟨heq, _⟩ | ⟨pc, hc, heq⟩ := release_cases b control t
  · rw [heq]
    exact h t
  · have hQ := h t
    rw [hc] at hQ
    rwa [heq]

theorem all_update (h : ∀ t, (control t).All Q) (hc : c.All Q) (u : ℕ) :
    (update control t c u).All Q := by
  by_cases hu : u = t
  · subst hu
    rwa [update_self]
  · rw [update_of_ne hu]
    exact h u

def Instr.afterBarrier : Instr D Pc A → Option Pc
  | .register _ next | .unregister _ next | .arrive _ next => some next
  | .act _ | .exit => none

theorem all_move {Q : Pc → Prop} (h : ∀ t, (s.control t).All Q) {e : Event A E}
    (hmove : Move P n s e s') (hstart : Q P.start)
    (hbarrier : ∀ {t pc next}, s.control t = .run pc → (P.code pc).afterBarrier = some next →
      Q next)
    (hact : ∀ {t a pc f next}, e = .exec t a → s.control t = .run pc → P.code pc = .act f →
      f t a s.data = some (s'.data, next) → Q next) : ∀ t, (s'.control t).All Q := by
  cases hmove with
  | start => exact all_update h hstart
  | register hc hcode => exact all_update h (hbarrier hc (by rw [hcode]; rfl))
  | @unregisterLast t a pc b next hc hcode =>
    exact all_update (all_release h b) (hbarrier hc (by rw [hcode]; rfl))
  | unregister hc hcode => exact all_update h (hbarrier hc (by rw [hcode]; rfl))
  | @arriveLast t a pc b next hc hcode =>
    exact all_update (all_release h b) (hbarrier hc (by rw [hcode]; rfl))
  | arrive hc hcode => exact all_update h (hbarrier hc (by rw [hcode]; rfl))
  | act hc hcode hf => exact all_update h (hact rfl hc hcode hf)
  | @wake t b pc hc =>
    have hQ := h t
    rw [hc] at hQ
    exact all_update h hQ
  | world e => exact h

theorem Move.run_of_ne (hmove : Move P n s e s') (hw : s.control w = .run pc)
    (he : ∀ a, e ≠ .exec w a) : s'.control w = .run pc := by
  have hrelease : ∀ b, release b s.control w = .run pc := fun b => by rw [release, hw]
  cases hmove with
  | @start t ht hc | @wake t b pc' hc =>
    have hne : w ≠ t := fun hwt => by cases (hwt ▸ hw).symm.trans hc
    exact (update_of_ne hne _ _).trans hw
  | @register t a | @unregister t a | @arrive t a | @act t a =>
    exact (update_of_ne (fun hwt => he a (by rw [hwt])) _ _).trans hw
  | @unregisterLast t a pc' b | @arriveLast t a pc' b =>
    exact (update_of_ne (fun hwt => he a (by rw [hwt])) _ _).trans (hrelease b)
  | world => exact hw

theorem Move.wait_cases (hmove : Move P n s e s') (hw : s'.control w = .wait b pc) :
    s.control w = .wait b pc ∨ ∃ pc', s.control w = .run pc' ∧ P.code pc' = .arrive b pc := by
  have hupdate : ∀ {control : ℕ → Control Pc} {t next},
      update control t (.run next) w = .wait b pc → control w = .wait b pc := by
    intro control t next hwait
    by_cases hwt : w = t
    · subst hwt
      rw [update_self] at hwait
      cases hwait
    · rwa [update_of_ne hwt] at hwait
  cases hmove with
  | start | register | unregister | act | wake => exact .inl (hupdate hw)
  | unregisterLast | arriveLast => exact .inl (wait_of_release (hupdate hw)).1
  | @arrive t a pc' b' next hc hcode =>
    by_cases hwt : w = t
    · subst hwt
      simp only [update_self] at hw
      cases hw
      exact .inr ⟨pc', hc, hcode⟩
    · simp only [update_of_ne hwt] at hw
      exact .inl hw
  | world => exact .inl hw

/-! ### Stranded threads -/

/-- The thread waits at a barrier, and every other thread that has registered there has arrived,
unregistered or returned. -/
def Stranded (P : Program D Pc A E) (s : State D Pc) (t : ℕ) : Prop :=
  ∃ b pc, s.control t = .wait b pc ∧ ∀ u, u ≠ t → s.status u b = .registered →
    ∃ pc', s.control u = .run pc' ∧ P.code pc' = .exit

theorem not_stranded (h : Counted ann n s)
    (hexit : ∀ t, (s.control t).All fun pc => P.code pc = .exit → ∀ b, ann pc b ≠ .registered)
    (t : ℕ) : ¬Stranded P s t := by
  rintro ⟨b, pc, hc, hothers⟩
  obtain ⟨harrived, hlt⟩ := h.waiting hc
  obtain ⟨u, hu⟩ := h.exists_registered hlt
  have hut : u ≠ t := by
    rintro rfl
    rw [h.status u, hc, Control.status, harrived] at hu
    cases hu
  obtain ⟨pc', hcu, hreturned⟩ := hothers u hut hu
  have hall := hexit u
  rw [hcu] at hall
  rw [h.status_run hcu] at hu
  exact hall hreturned b hu

theorem stranded_of_returned {s : State D Pc} (h : Counted ann 2 s) {pc' : Pc}
    (hwait : s.control 0 = .wait b pc) (hreturned : s.control 1 = .run pc')
    (hexit : P.code pc' = .exit) : Stranded P s 0 := by
  refine ⟨b, pc, hwait, fun u hu hreg => ?_⟩
  by_cases hone : u = 1
  · exact ⟨pc', by rw [hone, hreturned], hexit⟩
  · rw [h.status u, h.idle u (by omega), Control.status] at hreg
    cases hreg

end Barriers
