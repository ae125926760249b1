/-
The completion flag of the expander: a thread that finds the child exhausted sets it, a thread that
is called back clears it.  A run remembers whether some thread has seen the child exhausted.

* **`inTimeStep_completion`** — when one step keeps the flag, or leaves a thread that will set it;
* **`step_tidy`** — when one step leaves in the lists only threads that will leave them;
* **`completion_flag_kept`** — the flag and the consumer over every run;
* **`completion_flag_lost`** — two runs after which the consumer polls for ever.
-/
import ClaimsDB.Expander

namespace Expander

open Option

variable {T : Type}

/-- An expander, and whether `Next` of the child has returned false in some thread so far. -/
structure Watched (T : Type) where
  state : State T
  seen : Bool

/-- The thread is about to call `Next` of the child. -/
def Worker.atNext : Worker T → Bool
  | .next => true
  | _ => false

/-- In this step `Next` of the child returns false. -/
def Action.seesEnd (s : State T) : Action T → Bool
  | .worker pid answer => answer.isNone && (s.workers pid).atNext
  | _ => false

def watchedStep (cfg : Config) (a : Action T) (w : Watched T) : Option (Watched T) :=
  (step cfg a w.state).map fun s => ⟨s, w.seen || a.seesEnd w.state⟩

def Worker.toUpdate : Worker T → Prop
  | .getEmptyBlock | .popEmptyBlock | .checkWhileWaiting | .next | .countTuples _
  | .insertOneBlock _ | .returnEmptyBlock | .checkAtEnd | .setIncomplete | .setComplete => True
  | _ => False

/-- The thread is between its entry into the working list and the step with which it leaves the
list that it is in. -/
def Worker.active : Worker T → Prop
  | .idle | .addIntoWorking _ => False
  | .removeFromWorking | .removeFromCalledBack | .postShrink | .deleteStatus => False
  | _ => True

theorem Worker.active_of_toUpdate {pc : Worker T} (h : pc.toUpdate) : pc.active := by
  cases pc <;> trivial

def Create.creating : Create → Prop
  | .createThread | .wait _ => True
  | _ => False

/-- No thread is working, being called back or being created. -/
structure State.Quiet (s : State T) : Prop where
  working : s.working = ∅
  calledBack : s.calledBack = ∅
  between : ∀ k pid, s.shrinks k ≠ .addIntoCalledBack pid
  creates : ∀ c, ¬(s.creates c).creating

/-! ### What every step keeps -/

def State.FlagDue (s : State T) : Prop :=
  s.inputDataComplete = true ∨ ∃ q, (s.workers q).toUpdate

structure Completion (w : Watched T) : Prop where
  listed : w.state.Listed Worker.active
  flag : w.seen = true → w.state.FlagDue

theorem start_completion (cfg : Config) : Completion (⟨State.start cfg, false⟩ : Watched T) where
  listed _ h := h.elim
  flag h := by cases h

section

variable {cfg : Config} {s s' : State T} {seen : Bool}

theorem State.FlagDue.of_goto (pid : ℕ) (pc : Worker T) (hpc : pc.toUpdate)
    (hw : s'.workers = (s.goto pid pc).workers) : s'.FlagDue :=
  .inr ⟨pid, by rwa [hw, goto_workers_self]⟩

variable {pid : ℕ} {pc : Worker T} {answer : Option (List T)}

theorem State.FlagDue.goto (h : s.FlagDue) (hpid : ¬(s.workers pid).toUpdate)
    (hw : s'.workers = (s.goto pid pc).workers) (hf : s'.inputDataComplete = s.inputDataComplete) :
    s'.FlagDue := by
  rcases h with hflag | ⟨q, hq⟩
  · exact .inl (hf.trans hflag)
  · refine .inr ⟨q, ?_⟩
    have hne : q ≠ pid := by
      rintro rfl
      exact hpid hq
    rwa [hw, goto_workers_of_ne s pc hne]

theorem State.FlagDue.move (h : seen = true → s.FlagDue)
    (hpc : pc.toUpdate ∨ ¬(s.workers pid).toUpdate) (hw : s'.workers = (s.goto pid pc).workers)
    (hf : s'.inputDataComplete = s.inputDataComplete) (hseen : seen = true) : s'.FlagDue :=
  hpc.elim (fun hto => .of_goto pid pc hto hw) fun hnot => (h hseen).goto hnot hw hf

theorem consumerStep_frame (hstep : consumerStep s = some s') :
    s'.workers = s.workers ∧ s'.shrinks = s.shrinks ∧ s'.working = s.working ∧
      s'.calledBack = s.calledBack ∧ s'.inputDataComplete = s.inputDataComplete := by
  unfold consumerStep at hstep
  repeat' split at hstep
  all_goals cases hstep
  all_goals exact ⟨rfl, rfl, rfl, rfl, rfl⟩

theorem createStep_cases {c pid : Option ℕ} (hstep : createStep cfg c pid s = some s') :
    s'.shrinks = s.shrinks ∧ s'.working = s.working ∧ s'.calledBack = s.calledBack ∧
      s'.inputDataComplete = s.inputDataComplete ∧
      (s'.workers = s.workers ∨ ∃ p, s.workers p = .idle ∧
        s'.workers = (s.goto p (.addIntoWorking c)).workers) := by
  unfold createStep at hstep
  split at hstep
  · split at hstep
    · cases hstep
    · cases hstep
      split <;> exact ⟨rfl, rfl, rfl, rfl, .inl rfl⟩
  · split at hstep <;> cases hstep <;> exact ⟨rfl, rfl, rfl, rfl, .inl rfl⟩
  · split at hstep
    · cases hstep
      exact ⟨rfl, rfl, rfl, rfl, .inl rfl⟩
    · split at hstep
      · rename_i hidle
        split at hstep
        · cases hstep
          exact ⟨rfl, rfl, rfl, rfl, .inr ⟨_, hidle, rfl⟩⟩
        · cases hstep
      · cases hstep
  · cases hstep
  · cases hstep
    exact ⟨rfl, rfl, rfl, rfl, .inl rfl⟩
  · cases hstep
    exact ⟨rfl, rfl, rfl, rfl, .inl rfl⟩
  · split at hstep
    · cases hstep
    · cases hstep
      exact ⟨rfl, rfl, rfl, rfl, .inl rfl⟩

theorem workerStep_listed (h : s.Listed Worker.active) (hstep : workerStep pid answer s = some s') :
    s'.Listed Worker.active := by
  -- the moves that leave the lists as they were
  have goto : ∀ (pc : Worker T) (r : State T), r.workers = (s.goto pid pc).workers →
      r.shrinks = s.shrinks → r.working = s.working → r.calledBack = s.calledBack →
      (pc.active → (s.workers pid).active) → r.Listed Worker.active :=
    fun pc r hw hs hwork hback hpc =>
      h.move pc hw hs (fun q _ hq => hwork ▸ hq) (fun q _ hq => hback ▸ hq)
        fun ha => .inr ⟨hpc ha, hwork, hback⟩
  cases hpc : s.workers pid <;> simp only [workerStep, hpc] at hstep
  case addIntoWorking c =>
    cases hstep
    exact h.move (.registerStatus c) rfl rfl (fun q _ hq => Finset.mem_insert_of_mem hq)
      (fun _ _ hq => hq) fun _ => .inl (Finset.mem_insert_self pid _)
  case removeFromWorking =>
    split at hstep
    · cases hstep
      exact h.move .deleteStatus rfl rfl (fun q hq hmem => Finset.mem_erase.mpr ⟨hq, hmem⟩)
        (fun _ _ hq => hq) False.elim
    · cases hstep
      exact goto .removeFromCalledBack _ rfl rfl rfl rfl False.elim
  case removeFromCalledBack =>
    cases hstep
    exact h.move .postShrink rfl rfl (fun _ _ hq => hq)
      (fun q hq hmem => Finset.mem_erase.mpr ⟨hq, hmem⟩) False.elim
  all_goals
    repeat' split at hstep
    all_goals cases hstep
    all_goals
      refine goto _ _ rfl rfl rfl rfl ?_
      rw [hpc]
      first
      | exact fun _ => trivial
      | exact id

def ClearsInTime (w : Watched T) (pid : ℕ) : Prop :=
  w.state.workers pid = .setIncomplete → w.seen = true →
    ∃ q, q ≠ pid ∧ (w.state.workers q).toUpdate

theorem workerStep_flag (h : seen = true → s.FlagDue) (hclear : ClearsInTime ⟨s, seen⟩ pid)
    (hstep : workerStep pid answer s = some s')
    (hseen : (seen || (answer.isNone && (s.workers pid).atNext)) = true) : s'.FlagDue := by
  cases hpc : s.workers pid <;>
    simp only [workerStep, hpc, Worker.atNext, Bool.and_false, Bool.or_false] at hstep hseen
  case next =>
    -- whatever the child returns, the thread has still to update the flag
    split at hstep <;> cases hstep
    · exact .of_goto pid .getEmptyBlock trivial rfl
    · exact .of_goto (s := s) pid (.countTuples _) trivial rfl
    · exact .of_goto pid .returnEmptyBlock trivial rfl
  case setIncomplete =>
    cases hstep
    obtain ⟨q, hne, hq⟩ := hclear hpc hseen
    exact .inr ⟨q, by simpa only [goto_workers_of_ne s _ hne] using hq⟩
  case setComplete =>
    cases hstep
    exact .inl rfl
  all_goals
    repeat' split at hstep
    all_goals cases hstep
    all_goals
      refine State.FlagDue.move h ?_ rfl rfl hseen
      rw [hpc]
      first
      | exact .inl trivial
      | exact .inr id

/-! ### Watched runs -/

def InTimeStep (cfg : Config) (w w' : Watched T) : Prop :=
  ∃ a, watchedStep cfg a w = some w' ∧ ∀ pid answer, a = .worker pid answer → ClearsInTime w pid

theorem inTimeStep_completion {w w' : Watched T} (h : Completion w) (hstep : InTimeStep cfg w w') :
    Completion w' := by
  obtain ⟨a, ha, hclear⟩ := hstep
  obtain ⟨s', hs', rfl⟩ := map_eq_some_iff.mp ha
  cases a with
  | consumer =>
    obtain ⟨hw, hs, hwork, hback, hf⟩ := consumerStep_frame hs'
    constructor
    · simpa only [State.Listed, hw, hs, hwork, hback] using h.listed
    · simpa only [State.FlagDue, hw, hf, Action.seesEnd, Bool.or_false] using h.flag
  | create c pid =>
    obtain ⟨hs, hwork, hback, hf, hw | ⟨p, hidle, hw⟩⟩ := createStep_cases hs'
    · constructor
      · simpa only [State.Listed, hw, hs, hwork, hback] using h.listed
      · simpa only [State.FlagDue, hw, hf, Action.seesEnd, Bool.or_false] using h.flag
    · constructor
      · exact h.listed.move (.addIntoWorking c) hw hs (fun q _ hq => hwork ▸ hq)
          (fun q _ hq => hback ▸ hq) False.elim
      · intro hseen
        simp only [Action.seesEnd, Bool.or_false] at hseen
        exact (h.flag hseen).goto (by rw [hidle]; exact id) hw hf
  | worker pid answer =>
    simp only [step] at hs'
    split at hs'
    · exact ⟨workerStep_listed h.listed hs',
        workerStep_flag h.flag (hclear pid answer rfl) hs'⟩
    · cases hs'
  | shrink k =>
    obtain ⟨hw, -, -, -, hf⟩ := shrinkStep_frame hs'
    constructor
    · exact shrinkStep_listed h.listed hs'
    · simpa only [State.FlagDue, hw, hf, Action.seesEnd, Bool.or_false] using h.flag

end

theorem State.Quiet.not_toUpdate {s : State T} (hq : s.Quiet) (hlisted : s.Listed Worker.active)
    (pid : ℕ) : ¬(s.workers pid).toUpdate := by
  intro hto
  rcases hlisted pid (Worker.active_of_toUpdate hto) with hmem | hmem | ⟨k, hk⟩
  · rw [hq.working] at hmem
    exact Finset.notMem_empty pid hmem
  · rw [hq.calledBack] at hmem
    exact Finset.notMem_empty pid hmem
  · exact hq.between k pid hk

/-! ### Threads that are gone -/

/-- The thread is in the part of `ExpandedWork` that ends with its leaving the working list. -/
def Worker.works : Worker T → Bool
  | .idle | .addIntoWorking _ | .setIncomplete | .removeFromCalledBack | .postShrink
  | .deleteStatus => false
  | _ => true

/-- The thread will still leave the list of those that are called back. -/
def Worker.present : Worker T → Bool
  | .setIncomplete | .removeFromCalledBack => true
  | pc => pc.works

def Worker.registered : Worker T → Bool
  | .idle | .addIntoWorking _ | .registerStatus _ => false
  | _ => true

/-- Who is in a list will leave it. -/
structure State.TidyAt (s : State T) (pid : ℕ) : Prop where
  working : pid ∈ s.working →
    (s.workers pid).works = true ∧ s.callBack pid ≠ some true ∧ pid ∉ s.calledBack
  calledBack : pid ∈ s.calledBack → (s.workers pid).present = true
  unregistered : (s.workers pid).registered = false → s.callBack pid = none

/-- `Shrink` puts a thread that has not left yet on the list, and calls back no other thread that
has been given its id. -/
def Action.callsInTime (s : State T) : Action T → Bool
  | .shrink k =>
    match s.shrinks k with
    | .addIntoCalledBack pid => (s.workers pid).present && decide (pid ∉ s.working)
    | .callback pid => (s.callBack pid).isNone || decide (pid ∉ s.working)
    | _ => true
  | _ => true

section

variable {cfg : Config} {s s' : State T} {pid q k : ℕ} {answer : Option (List T)}

theorem State.TidyAt.congr (h : s.TidyAt q) (hw : s'.workers q = s.workers q)
    (hc : s'.callBack q = s.callBack q) (hwork : q ∈ s'.working ↔ q ∈ s.working)
    (hback : q ∈ s'.calledBack ↔ q ∈ s.calledBack) : s'.TidyAt q := by
  obtain ⟨h₁, h₂, h₃⟩ := h
  constructor
  · rwa [hw, hc, hwork, hback]
  · rwa [hw, hback]
  · rwa [hw, hc]

theorem workerStep_others (hstep : workerStep pid answer s = some s') (hq : q ≠ pid) :
    s'.workers q = s.workers q ∧ s'.callBack q = s.callBack q ∧
      (q ∈ s'.working ↔ q ∈ s.working) ∧ (q ∈ s'.calledBack ↔ q ∈ s.calledBack) := by
  unfold workerStep at hstep
  repeat' split at hstep
  all_goals cases hstep
  all_goals simp [State.goto, State.gotoCreate, hq]

theorem workerStep_tidy (h : s.TidyAt pid) (hstep : workerStep pid answer s = some s') :
    s'.TidyAt pid := by
  obtain ⟨h₁, h₂, h₃⟩ := h
  cases hpc : s.workers pid <;> rw [hpc] at h₁ h₂ h₃ <;> simp only [workerStep, hpc] at hstep
  case childExhausted =>
    obtain ⟨-, hstep⟩ := ite_none_left_eq_some.1 hstep
    cases hstep
    split
    · rename_i hex
      simp only [State.exhausted, Bool.and_eq_true, decide_eq_true_eq] at hex
      obtain ⟨⟨⟨-, hwork⟩, hback⟩, -⟩ := hex
      constructor <;> simp [State.goto, hwork, hback, Worker.registered]
    · constructor <;> simp_all [State.goto, Worker.works, Worker.present, Worker.registered]
  all_goals
    repeat' split at hstep
    all_goals cases hstep
    all_goals constructor
    all_goals simp_all [State.goto, State.gotoCreate, Worker.works, Worker.present,
      Worker.registered, State.isCallBack]

theorem createStep_tidy {c pid : Option ℕ} (h : ∀ q, s.TidyAt q)
    (hstep : step cfg (.create c pid : Action T) s = some s') (q : ℕ) : s'.TidyAt q := by
  have hcall : s'.callBack = s.callBack := by
    simp only [step, createStep] at hstep
    repeat' split at hstep
    all_goals cases hstep
    all_goals rfl
  obtain ⟨-, hwork, hback, -, hw | ⟨p, hidle, hw⟩⟩ := createStep_cases hstep
  · exact (h q).congr (by rw [hw]) (by rw [hcall]) (by rw [hwork]) (by rw [hback])
  by_cases hq : q = p
  · subst hq
    -- the thread was idle, so it was on no list
    obtain ⟨h₁, h₂, h₃⟩ := h q
    rw [hidle] at h₁ h₂ h₃
    constructor <;> rw [hw, goto_workers_self] <;> intro hmem
    · cases (h₁ (hwork ▸ hmem)).1
    · cases h₂ (hback ▸ hmem)
    · exact hcall ▸ h₃ rfl
  · refine (h q).congr ?_ (by rw [hcall]) (by rw [hwork]) (by rw [hback])
    rw [hw, goto_workers_of_ne s _ hq]

theorem shrinkStep_tidy (h : s.TidyAt q)
    (hcalls : (.shrink k : Action T).callsInTime s = true)
    (hstep : step cfg (.shrink k : Action T) s = some s') : s'.TidyAt q := by
  obtain ⟨h₁, h₂, h₃⟩ := h
  simp only [Action.callsInTime] at hcalls
  cases hpc : s.shrinks k <;> simp only [step, shrinkStep, hpc] at hstep hcalls
  case removeFromWorking pid =>
    cases hstep
    exact ⟨fun hmem => h₁ (Finset.mem_of_mem_erase hmem), h₂, h₃⟩
  case addIntoCalledBack pid =>
    cases hstep
    rw [Bool.and_eq_true, decide_eq_true_eq] at hcalls
    by_cases hq : q = pid
    · subst hq
      exact ⟨fun hmem => absurd hmem hcalls.2, fun _ => hcalls.1, h₃⟩
    · refine ⟨fun hmem => ?_, fun hmem => h₂ (Finset.mem_of_mem_insert_of_ne hmem hq), h₃⟩
      obtain ⟨hworks, hcall, hnot⟩ := h₁ hmem
      exact ⟨hworks, hcall, fun hins => hnot (Finset.mem_of_mem_insert_of_ne hins hq)⟩
  case callback pid =>
    cases hstep
    by_cases hq : q = pid
    · subst hq
      refine ⟨fun hmem => ?_, h₂, fun hreg => ?_⟩
      · obtain ⟨hworks, -, hnot⟩ := h₁ hmem
        have hnone : s.callBack q = none := by
          rcases Bool.or_eq_true _ _ ▸ hcalls with hnone | hnot
          · exact isNone_iff_eq_none.1 hnone
          · exact absurd hmem (of_decide_eq_true hnot)
        exact ⟨hworks, by simp [hnone], hnot⟩
      · simp [h₃ hreg]
    · exact State.TidyAt.congr ⟨h₁, h₂, h₃⟩ rfl (Function.update_of_ne hq ..) Iff.rfl Iff.rfl
  all_goals
    repeat' split at hstep
    all_goals cases hstep
    all_goals exact ⟨h₁, h₂, h₃⟩

theorem step_tidy (h : ∀ q, s.TidyAt q) {a : Action T} (hcalls : a.callsInTime s = true)
    (hstep : step cfg a s = some s') (q : ℕ) : s'.TidyAt q := by
  cases a with
  | consumer =>
    simp only [step, consumerStep] at hstep
    repeat' split at hstep
    all_goals cases hstep
    all_goals exact (h q).congr rfl rfl Iff.rfl Iff.rfl
  | create c pid => exact createStep_tidy h hstep q
  | worker pid answer =>
    obtain ⟨-, hstep⟩ := ite_none_right_eq_some.1 hstep
    by_cases hq : q = pid
    · exact hq ▸ workerStep_tidy (h pid) hstep
    · obtain ⟨hw, hc, hwork, hback⟩ := workerStep_others hstep hq
      exact (h q).congr hw hc hwork hback
  | shrink k => exact shrinkStep_tidy (h q) hcalls hstep

theorem start_tidy (cfg : Config) (q : ℕ) : (State.start cfg : State T).TidyAt q :=
  ⟨fun h => absurd h (Finset.notMem_empty q), fun h => absurd h (Finset.notMem_empty q),
    fun _ => rfl⟩

theorem State.TidyAt.lists_empty (h : ∀ q, s.TidyAt q) (hidle : ∀ q, s.workers q = .idle) :
    s.working = ∅ ∧ s.calledBack = ∅ := by
  constructor <;> refine Finset.eq_empty_of_forall_notMem fun q hmem => ?_
  · have hworks := ((h q).working hmem).1
    rw [hidle] at hworks
    cases hworks
  · have hpresent := (h q).calledBack hmem
    rw [hidle] at hpresent
    cases hpresent

end

/-- Also the calls of `Shrink` are in time. -/
def TimelyStep (cfg : Config) (w w' : Watched T) : Prop :=
  ∃ a, watchedStep cfg a w = some w' ∧
    (∀ pid answer, a = .worker pid answer → ClearsInTime w pid) ∧ a.callsInTime w.state = true

/-- A consumer that finds the buffer empty leaves its loop, unless a failed `pthread_create` has left
the lock taken. -/
def State.ConsumerLeaves (cfg : Config) (s : State T) : Prop :=
  s.used = [] → s.consumer = .childExhausted → s.exclusiveExpanding = false →
    step cfg .consumer s = some { s with consumer := .returned false }

theorem consumerLeaves_of_complete (cfg : Config) {s : State T} (hflag : s.inputDataComplete = true)
    (hwork : s.working = ∅) (hback : s.calledBack = ∅) : s.ConsumerLeaves cfg := by
  intro hused hcheck hfree
  have hex : s.exhausted = true := by simp [State.exhausted, hflag, hwork, hback, hused]
  simp [step, consumerStep, hcheck, hfree, hex]

/-- **The completion flag is kept**, if it is only cleared while another thread is to set it.  If
`Shrink` calls back only threads that have not left, a consumer without threads is not left
polling. -/
theorem completion_flag_kept (cfg : Config) {w : Watched T}
    (hrun : Runs.Reaches (InTimeStep cfg) ⟨State.start cfg, false⟩ w) (hseen : w.seen = true) :
    (w.state.Quiet → w.state.inputDataComplete = true ∧ w.state.ConsumerLeaves cfg) ∧
      (Runs.Reaches (TimelyStep cfg) ⟨State.start cfg, false⟩ w →
        (∀ pid, w.state.workers pid = .idle) →
        w.state.inputDataComplete = true ∧ w.state.ConsumerLeaves cfg) := by
  have hinv : Completion w :=
    Runs.invariant (I := Completion) (fun _ _ hi hs => inTimeStep_completion hi hs) hrun
      (start_completion cfg)
  have hflag : (∀ q, ¬(w.state.workers q).toUpdate) → w.state.inputDataComplete = true := by
    intro hno
    rcases hinv.flag hseen with hflag | ⟨q, hq⟩
    · exact hflag
    · exact absurd hq (hno q)
  refine ⟨fun hquiet => ?_, fun htimely hidle => ?_⟩
  · have hset := hflag (hquiet.not_toUpdate hinv.listed)
    exact ⟨hset, consumerLeaves_of_complete cfg hset hquiet.working hquiet.calledBack⟩
  · have hset := hflag fun q => by rw [hidle q]; exact id
    have htidy : ∀ q, w.state.TidyAt q := by
      refine Runs.invariant (I := fun w : Watched T => ∀ q, w.state.TidyAt q) ?_ htimely
        (start_tidy cfg)
      rintro w w' h ⟨a, ha, -, hcalls⟩
      obtain ⟨s', hs', rfl⟩ := map_eq_some_iff.1 ha
      exact step_tidy h hcalls hs'
    obtain ⟨hwork, hback⟩ := State.TidyAt.lists_empty htidy hidle
    exact ⟨hset, consumerLeaves_of_complete cfg hset hwork hback⟩

/-! ### Runs without `Expand` -/

/-- The thread is being created by an `Expand` call. -/
def Worker.calledByExpand : Worker T → Prop
  | .addIntoWorking (some _) | .registerStatus (some _) | .post (some _) => True
  | _ => False

/-- No `Expand` call is under way. -/
structure State.OpenOnly (s : State T) : Prop where
  creates : ∀ k, s.creates (some k) = .idle
  workers : ∀ pid, ¬(s.workers pid).calledByExpand

section

variable {cfg : Config} {s s' : State T}

variable {pid : ℕ} {a : Action T}

theorem State.OpenOnly.goto (h : s.OpenOnly) (pc : Worker T) (hpc : ¬pc.calledByExpand)
    (hw : s'.workers = (s.goto pid pc).workers)
    (hc : ∀ k, s'.creates (some k) = s.creates (some k)) : s'.OpenOnly where
  creates k := (hc k).trans (h.creates k)
  workers q := by
    rw [hw]
    by_cases hq : q = pid
    · subst hq
      rwa [goto_workers_self]
    · rw [goto_workers_of_ne s pc hq]
      exact h.workers q

theorem workerStep_openOnly (h : s.OpenOnly) {answer : Option (List T)}
    (hstep : workerStep pid answer s = some s') : s'.OpenOnly := by
  have hpid := h.workers pid
  cases hpc : s.workers pid <;> simp only [workerStep, hpc] at hstep hpid
  case idle => cases hstep
  case addIntoWorking c =>
    cases hstep
    exact h.goto (.registerStatus c) (by cases c <;> exact hpid) rfl fun _ => rfl
  case registerStatus c =>
    split at hstep
    · cases hstep
    · cases hstep
      exact h.goto (.post c) (by cases c <;> exact hpid) rfl fun _ => rfl
  case post c =>
    cases hstep
    cases c with
    | none => exact h.goto .childExhausted id rfl fun _ => rfl
    | some k => exact (hpid trivial).elim
  all_goals
    repeat' split at hstep
    all_goals cases hstep
    all_goals exact h.goto _ id rfl fun _ => rfl

theorem createStep_openOnly (h : s.OpenOnly) {pid : Option ℕ}
    (hstep : createStep cfg none pid s = some s') : s'.OpenOnly := by
  have hcreates : ∀ k, s'.creates (some k) = s.creates (some k) := by
    intro k
    unfold createStep at hstep
    repeat' split at hstep
    all_goals cases hstep
    all_goals rfl
  obtain ⟨-, -, -, -, hw | ⟨p, -, hw⟩⟩ := createStep_cases hstep
  · exact ⟨fun k => (hcreates k).trans (h.creates k), fun q => by rw [hw]; exact h.workers q⟩
  · exact h.goto (.addIntoWorking none) id hw hcreates

theorem step_openOnly (h : s.OpenOnly) (hstep : step cfg a s = some s')
    (ha : ∀ k pid, a ≠ .create (some k) pid) : s'.OpenOnly := by
  cases a with
  | consumer =>
    simp only [step, consumerStep] at hstep
    repeat' split at hstep
    all_goals cases hstep
    all_goals exact ⟨h.creates, h.workers⟩
  | create c pid =>
    cases c with
    | none => exact createStep_openOnly h hstep
    | some k => exact absurd rfl (ha k pid)
  | worker pid answer =>
    obtain ⟨-, hstep⟩ := ite_none_right_eq_some.mp hstep
    exact workerStep_openOnly h hstep
  | shrink k =>
    simp only [step, shrinkStep] at hstep
    repeat' split at hstep
    all_goals cases hstep
    all_goals exact ⟨h.creates, h.workers⟩

theorem step_shrinks_of_ne {k : ℕ} (hstep : step cfg a s = some s') (ha : a ≠ .shrink k) :
    s'.shrinks k = s.shrinks k := by
  by_cases hj : ∃ j, a = .shrink j
  · obtain ⟨j, rfl⟩ := hj
    have hkj : k ≠ j := fun h => ha (by rw [h])
    simp only [step, shrinkStep] at hstep
    repeat' split at hstep
    all_goals cases hstep
    all_goals first | rfl | exact Function.update_of_ne hkj _ _
  · rw [step_shrinks hstep fun j h => hj ⟨j, h⟩]

end

/-! ### Runs of one and of two threads -/

def watchedRun (cfg : Config) (w : Watched T) (actions : List (Action T)) : Option (Watched T) :=
  actions.foldlM (fun w a => watchedStep cfg a w) w

def Action.clearsNothing (s : State T) : Action T → Bool
  | .worker pid _ =>
    match s.workers pid with
    | .setIncomplete => false
    | _ => true
  | _ => true

def timelyRun (cfg : Config) (w : Watched T) (actions : List (Action T)) : Option (Watched T) :=
  actions.foldlM (fun w a => if a.clearsNothing w.state && a.callsInTime w.state then
    watchedStep cfg a w else none) w

variable {cfg : Config} {actions : List (Action T)} {w w' : Watched T}

theorem reaches_of_timelyRun (h : timelyRun cfg w actions = some w') :
    Runs.Reaches (InTimeStep cfg) w w' ∧ Runs.Reaches (TimelyStep cfg) w w' := by
  have htimely : Runs.Reaches (TimelyStep cfg) w w' := by
    refine Runs.reaches_of_foldlM (fun w a w₁ ha => ?_) h
    obtain ⟨hchecks, ha⟩ := ite_none_right_eq_some.1 ha
    rw [Bool.and_eq_true] at hchecks
    refine ⟨a, ha, ?_, hchecks.2⟩
    rintro pid answer rfl hpc
    simp only [Action.clearsNothing, hpc] at hchecks
    cases hchecks.1
  refine ⟨Relation.ReflTransGen.mono ?_ _ _ htimely, htimely⟩
  rintro w w₁ ⟨a, ha, hclear, -⟩
  exact ⟨a, ha, hclear⟩

/-- There are no threads but those that the system has. -/
theorem idle_of_reaches (h : Runs.Reaches (TimelyStep cfg) ⟨State.start cfg, false⟩ w) {pid : ℕ}
    (hpid : cfg.threads ≤ pid) : w.state.workers pid = .idle := by
  refine Runs.invariant (I := fun w : Watched T => w.state.workers pid = .idle) ?_ h rfl
  rintro w w' hidle ⟨a, ha, -, -⟩
  obtain ⟨s', hs', rfl⟩ := map_eq_some_iff.1 ha
  cases a with
  | consumer => exact (congrFun (consumerStep_frame hs').1 pid).trans hidle
  | create c p =>
    simp only [step, createStep] at hs'
    repeat' split at hs'
    all_goals cases hs'
    all_goals first
      | exact hidle
      | exact (goto_workers_of_ne _ _ (by omega)).trans hidle
  | worker p answer =>
    obtain ⟨hp, hs'⟩ := ite_none_right_eq_some.1 hs'
    exact (workerStep_others hs' (by omega)).1.trans hidle
  | shrink k => exact (congrFun (shrinkStep_frame hs').1 pid).trans hidle

theorem watchedRun_others (hrun : watchedRun cfg w actions = some w') (h : w.state.OpenOnly)
    (hno : ∀ k pid, .create (some k) pid ∉ actions) :
    w'.state.OpenOnly ∧
      ∀ k, .shrink k ∉ actions → w'.state.shrinks k = w.state.shrinks k := by
  induction actions generalizing w with
  | nil =>
    cases hrun
    exact ⟨h, fun _ _ => rfl⟩
  | cons a actions ih =>
    obtain ⟨w₁, ha, hrest⟩ := bind_eq_some_iff.mp hrun
    obtain ⟨s₁, hstep, rfl⟩ := map_eq_some_iff.mp ha
    have h₁ : s₁.OpenOnly := step_openOnly h hstep fun k pid hc =>
      hno k pid (hc ▸ List.mem_cons_self)
    obtain ⟨hopen, hshrinks⟩ := ih hrest h₁ fun k pid hc => hno k pid (List.mem_cons_of_mem a hc)
    refine ⟨hopen, fun k hk => ?_⟩
    rw [hshrinks k fun hc => hk (List.mem_cons_of_mem a hc)]
    exact step_shrinks_of_ne hstep fun hc => hk (hc ▸ List.mem_cons_self)

/-- What is looked at to tell whether an expander with one `Shrink` caller is quiet. -/
def State.view (s : State T) : Finset ℕ × Finset ℕ × Create × Shrink :=
  (s.working, s.calledBack, s.creates none, s.shrinks 0)

theorem quiet_of_watchedRun (hrun : watchedRun cfg ⟨State.start cfg, false⟩ actions = some w)
    (hview : w.state.view = (∅, ∅, .idle, .idle)) (hno : ∀ k pid, .create (some k) pid ∉ actions)
    (hone : ∀ k, .shrink (k + 1) ∉ actions) : w.state.Quiet := by
  simp only [State.view, Prod.mk.injEq] at hview
  obtain ⟨hwork, hback, hcreate, hshrink⟩ := hview
  obtain ⟨hopen, hshrinks⟩ := watchedRun_others hrun ⟨fun _ => rfl, fun _ => id⟩ hno
  refine ⟨hwork, hback, fun k pid hk => ?_, fun c => ?_⟩
  · cases k with
    | zero =>
      rw [hshrink] at hk
      cases hk
    | succ k =>
      rw [hshrinks (k + 1) (hone k)] at hk
      cases hk
  · cases c with
    | none =>
      rw [hcreate]
      exact id
    | some k =>
      rw [hopen.creates k]
      exact id

def Worker.isIdle : Worker T → Bool
  | .idle => true
  | _ => false

theorem Worker.eq_idle {pc : Worker T} (h : pc.isIdle = true) : pc = .idle := by
  cases pc <;> first | rfl | cases h

/-- Two threads; `Shrink` calls the first back when it has opened the child. -/
def callBackThenFinish : List (Action ℕ) :=
  openOneThread.dropLast ++ [.consumer, .create none none, .create none (some 1), .worker 1 none,
    .worker 1 none, .worker 1 none, .create none none, .create none none, .consumer, .consumer] ++
  List.replicate 7 (.shrink 0) ++ List.replicate 4 (.worker 0 none) ++
  List.replicate 2 (.shrink 0) ++ List.replicate 11 (.worker 1 none) ++ [.consumer]

theorem completion_flag_of_two_threads : ∃ w : Watched ℕ,
    Runs.Reaches (TimelyStep ⟨2, 2, 2⟩) ⟨State.start ⟨2, 2, 2⟩, false⟩ w ∧ w.seen = true ∧
      w.state.inputDataComplete = true ∧
      step ⟨2, 2, 2⟩ .consumer w.state = some { w.state with consumer := .returned false } := by
  obtain ⟨w, hw⟩ : ∃ w, timelyRun ⟨2, 2, 2⟩ ⟨State.start ⟨2, 2, 2⟩, false⟩ callBackThenFinish =
      some w := isSome_iff_exists.mp (by decide)
  have hend : ((timelyRun ⟨2, 2, 2⟩ ⟨State.start ⟨2, 2, 2⟩, false⟩ callBackThenFinish).map
      fun w => ((w.seen, w.state.exclusiveExpanding), w.state.used, w.state.consumer)) =
        some ((true, false), [], .childExhausted) := by decide
  have hgone : ((timelyRun ⟨2, 2, 2⟩ ⟨State.start ⟨2, 2, 2⟩, false⟩ callBackThenFinish).map
      fun w => (w.state.workers 0).isIdle && (w.state.workers 1).isIdle) = some true := by decide
  rw [hw, map_some, some.injEq] at hend hgone
  simp only [Prod.mk.injEq] at hend
  obtain ⟨⟨hseen, hfree⟩, hused, hcheck⟩ := hend
  rw [Bool.and_eq_true] at hgone
  obtain ⟨hreach, htimely⟩ := reaches_of_timelyRun hw
  have hidle : ∀ pid, w.state.workers pid = .idle
    | 0 => Worker.eq_idle hgone.1
    | 1 => Worker.eq_idle hgone.2
    | pid + 2 => idle_of_reaches htimely (Nat.le_add_left 2 pid)
  obtain ⟨hflag, hleaves⟩ :=
    (completion_flag_kept ⟨2, 2, 2⟩ hreach hseen).2 htimely hidle
  exact ⟨w, htimely, hseen, hflag, hleaves hused hcheck hfree⟩

theorem poll_of_not_exhausted {s : State T} (hget : s.consumer = .getBlock) (hused : s.used = [])
    (hfree : s.exclusiveExpanding = false) (hex : s.exhausted = false) :
    run cfg s [.consumer, .consumer] = some s := by
  cases s
  subst hget hused hfree
  simpa [run, step, consumerStep, State.exhausted] using hex

/-- The second thread sets the flag and ends; the first is called back and clears it. -/
def finishThenCallBack : List (Action ℕ) :=
  openOneThread ++ [.consumer, .create none none, .create none (some 1), .worker 1 none,
    .worker 1 none, .worker 1 none, .create none none, .create none none, .consumer, .consumer] ++
  List.replicate 11 (.worker 1 none) ++ List.replicate 7 (.shrink 0) ++
  List.replicate 9 (.worker 0 none) ++ List.replicate 2 (.shrink 0)

/-- The only thread finishes between the two steps with which `Shrink` moves it to the other list. -/
def finishWhileCalledBack : List (Action ℕ) :=
  openOneThread ++ .consumer :: List.replicate 4 (.shrink 0) ++
    List.replicate 10 (.worker 0 none) ++ List.replicate 5 (.shrink 0)

/-- No thread is left, the buffer is empty, and the consumer goes on polling: the flag is lost, or a
thread that is gone is in the list of those that are called back. -/
theorem completion_flag_lost :
    (∃ w : Watched ℕ,
      watchedRun ⟨2, 2, 2⟩ ⟨State.start ⟨2, 2, 2⟩, false⟩ finishThenCallBack = some w ∧
        w.state.Quiet ∧ w.seen = true ∧ w.state.inputDataComplete = false ∧
        run ⟨2, 2, 2⟩ w.state [.consumer, .consumer] = some w.state) ∧
    ∃ w : Watched ℕ,
      watchedRun ⟨1, 1, 1⟩ ⟨State.start ⟨1, 1, 1⟩, false⟩ finishWhileCalledBack = some w ∧
        w.state.view = (∅, {0}, .idle, .idle) ∧ w.state.workers 0 = .idle ∧ w.seen = true ∧
        run ⟨1, 1, 1⟩ w.state [.consumer, .consumer] = some w.state := by
  constructor
  · obtain ⟨w, hw⟩ : ∃ w, watchedRun ⟨2, 2, 2⟩ ⟨State.start ⟨2, 2, 2⟩, false⟩ finishThenCallBack =
        some w := isSome_iff_exists.mp (by decide)
    have hview : ((watchedRun ⟨2, 2, 2⟩ ⟨State.start ⟨2, 2, 2⟩, false⟩ finishThenCallBack).map
        fun w => w.state.view) = some (∅, ∅, .idle, .idle) := by decide
    have hend : ((watchedRun ⟨2, 2, 2⟩ ⟨State.start ⟨2, 2, 2⟩, false⟩ finishThenCallBack).map
        fun w => (w.seen, w.state.inputDataComplete, w.state.consumer)) =
          some (true, false, .getBlock) := by decide
    have hbuffer : ((watchedRun ⟨2, 2, 2⟩ ⟨State.start ⟨2, 2, 2⟩, false⟩ finishThenCallBack).map
        fun w => (w.state.used, w.state.exclusiveExpanding)) = some ([], false) := by decide
    rw [hw, map_some, some.injEq] at hview hend hbuffer
    simp only [Prod.mk.injEq] at hend hbuffer
    obtain ⟨hseen, hflag, hget⟩ := hend
    obtain ⟨hused, hfree⟩ := hbuffer
    refine ⟨w, hw, quiet_of_watchedRun hw hview (by simp [finishThenCallBack, openOneThread])
      (by simp [finishThenCallBack, openOneThread]), hseen, hflag, ?_⟩
    exact poll_of_not_exhausted hget hused hfree (by simp [State.exhausted, hflag])
  · obtain ⟨w, hw⟩ : ∃ w, watchedRun ⟨1, 1, 1⟩ ⟨State.start ⟨1, 1, 1⟩, false⟩
        finishWhileCalledBack = some w := isSome_iff_exists.mp (by decide)
    have hview : ((watchedRun ⟨1, 1, 1⟩ ⟨State.start ⟨1, 1, 1⟩, false⟩ finishWhileCalledBack).map
        fun w => w.state.view) = some (∅, {0}, .idle, .idle) := by decide
    have hend : ((watchedRun ⟨1, 1, 1⟩ ⟨State.start ⟨1, 1, 1⟩, false⟩ finishWhileCalledBack).map
        fun w => (w.seen, (w.state.workers 0).isIdle, w.state.consumer)) =
          some (true, true, .getBlock) := by decide
    have hbuffer : ((watchedRun ⟨1, 1, 1⟩ ⟨State.start ⟨1, 1, 1⟩, false⟩
        finishWhileCalledBack).map fun w => (w.state.used, w.state.exclusiveExpanding)) =
          some ([], false) := by decide
    rw [hw, map_some, some.injEq] at hview hend hbuffer
    simp only [Prod.mk.injEq] at hend hbuffer
    obtain ⟨hseen, hgone, hget⟩ := hend
    obtain ⟨hused, hfree⟩ := hbuffer
    have hback : w.state.calledBack = {0} := congrArg (·.2.1) hview
    exact ⟨w, hw, hview, Worker.eq_idle hgone, hseen,
      poll_of_not_exhausted hget hused hfree (by simp [State.exhausted, hback])⟩

end Expander
