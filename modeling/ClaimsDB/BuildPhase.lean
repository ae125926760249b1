/-
The build phase of a hash join ends before the probe phase.

The first barrier keeps threads from using the table before it has been created, the second one
from reading it before it is complete, as long as threads wake up only when they are woken.
-/
import ClaimsDB.OpenPrograms

namespace BuildPhase

open Function (update update_of_ne update_self)
open Barriers OpenPrograms

def Loaded (d : Shared) : Prop := d.exhausted = true ∧ ∀ t, d.left t = 0

def Ordered (s : State Shared HashJoinPc) : Prop :=
  (∀ t, s.control t = .run .insert → s.data.created = true) ∧
    ∀ t, s.control t = .run .probe → Loaded s.data

/-! ### What is known of the data at each place -/

def Ended (d : Shared) : Prop := d.exhausted = true ∨ d.cancelled = true

def known (d : Shared) (t : ℕ) : HashJoinPc → Prop
  | .entry | .registerFirst | .registerSecond | .trySection | .refused => True
  | .createTable | .openLeft | .arriveFirst => d.keys 0 = false
  | .checkLeft | .askLeft | .checkBlock | .insert | .unregister | .abandoned | .calledBack =>
    d.created = true
  | .testCallBack => d.created = true ∧ (Ended d ∨ d.calledBack t = true)
  | .arriveSecond => d.created = true ∧ Ended d
  | .openRight | .checkNext | .finished => d.created = true ∧ (d.cancelled = true ∨ Loaded d)
  | .probe => d.created = true ∧ Loaded d

def knownWaiting (d : Shared) (b : ℕ) (pc : HashJoinPc) : Prop :=
  b = 0 ∧ pc = .checkLeft ∨ b = 1 ∧ pc = .openRight ∧ d.created = true ∧ Ended d

def Holds (d : Shared) (t : ℕ) : Control HashJoinPc → Prop
  | .outside => True
  | .run pc => known d t pc
  | .wait b pc => knownWaiting d b pc

def mayHold : Control HashJoinPc → Bool
  | .run .checkBlock | .run .insert | .run .abandoned => true
  | _ => false

structure Invariant (control : ℕ → Control HashJoinPc) (d : Shared) : Prop where
  holds : ∀ t, Holds d t (control t)
  winner : d.keys 0 = false → d.created = true ∨ ∃ t, control t = .run .createTable
  pending : ∀ t, d.left t ≠ 0 → mayHold (control t) = true

/-- What is known stays known: the data only changes in one direction. -/
structure Grows (d d' : Shared) : Prop where
  keys : d.keys 0 = false → d'.keys 0 = false
  created : d.created = true → d'.created = true
  exhausted : d.exhausted = true → d'.exhausted = true
  cancelled : d.cancelled = true → d'.cancelled = true
  calledBack : ∀ t, d.calledBack t = true → d'.calledBack t = true
  loaded : Loaded d → Loaded d'

theorem Grows.refl (d : Shared) : Grows d d := ⟨id, id, id, id, fun _ => id, id⟩

theorem Grows.ended {d d' : Shared} (h : Grows d d') : Ended d → Ended d' :=
  Or.imp h.exhausted h.cancelled

variable {t : ℕ} {c : Control HashJoinPc} {a : Answer} {pc next : HashJoinPc} {new : Status}

theorem Holds.mono {d d' : Shared} (h : Grows d d') (hc : Holds d t c) : Holds d' t c := by
  cases c with
  | outside => trivial
  | run pc =>
    cases pc with
    | entry | registerFirst | registerSecond | trySection | refused => trivial
    | createTable | openLeft | arriveFirst => exact h.keys hc
    | checkLeft | askLeft | checkBlock | insert | unregister | abandoned | calledBack =>
      exact h.created hc
    | testCallBack => exact ⟨h.created hc.1, hc.2.imp h.ended (h.calledBack t)⟩
    | arriveSecond => exact ⟨h.created hc.1, h.ended hc.2⟩
    | openRight | checkNext | finished =>
      exact ⟨h.created hc.1, hc.2.imp h.cancelled h.loaded⟩
    | probe => exact ⟨h.created hc.1, h.loaded hc.2⟩
  | wait b pc =>
    exact hc.imp id fun ⟨hb, hpc, hcreated, hended⟩ => ⟨hb, hpc, h.created hcreated, h.ended hended⟩

theorem receive_grows (d : Shared) (e : Signal) : Grows d (d.receive e) := by
  cases e with
  | cancel => exact ⟨id, id, id, fun _ => rfl, fun _ => id, id⟩
  | callBack u =>
    refine ⟨id, id, id, id, fun t ht => ?_, id⟩
    by_cases htu : t = u
    · subst htu
      exact update_self ..
    · exact (update_of_ne htu _ _).trans ht

theorem act_grows {d d' : Shared} (h : HashJoinAct t a d pc d' next) : Grows d d' := by
  cases h with
  | win hkey => exact ⟨fun _ => rfl, id, id, id, fun _ => id, id⟩
  | create => exact ⟨id, fun _ => rfl, id, id, fun _ => id, id⟩
  | block tuples hmore =>
    -- a block is only handed out before exhaustion is reported
    exact ⟨id, id, id, id, fun _ => id, fun hl => by cases hl.1.symm.trans hmore⟩
  | exhausted => exact ⟨id, id, fun _ => rfl, id, fun _ => id, fun hl => ⟨rfl, hl.2⟩⟩
  | insert =>
    refine ⟨id, id, id, id, fun _ => id, fun hl => ⟨hl.1, fun u => ?_⟩⟩
    by_cases hu : u = t
    · subst hu
      simp only [update_self, hl.2 u]
    · simpa only [update_of_ne hu] using hl.2 u
  | _ => exact .refl d

/-! ### The steps -/

theorem act_known {d d' : Shared} (h : HashJoinAct t a d pc d' next) (hpc : known d t pc) :
    known d' t next := by
  cases h with
  | refuse | enter => trivial
  | win => rfl
  | lose hkey => exact hkey
  | create | openLeft | abandonLeft | checkLeft | abandonBlock | checkBlock | block | insert
  | inserted | noNext | openRight | cancelNext => exact hpc
  | exhausted => exact ⟨hpc, .inl (.inl rfl)⟩
  | turnedAway hrefused => exact ⟨hpc, hrefused.imp .inr id⟩
  | calledBack => exact hpc.1
  | keepsOn hnot =>
    refine ⟨hpc.1, hpc.2.resolve_right ?_⟩
    rw [hnot]
    exact Bool.false_ne_true
  | checkNext hnot =>
    refine ⟨hpc.1, hpc.2.resolve_left ?_⟩
    rw [hnot]
    exact Bool.false_ne_true
  | lastProbe | probe => exact ⟨hpc.1, .inr hpc.2⟩

variable {control : ℕ → Control HashJoinPc} {d d' : Shared}

section

variable (h : Invariant control d)

include h

theorem Invariant.goto (hgrows : Grows d d') (hc : Holds d' t c)
    (hkey : d.keys 0 = true → d'.keys 0 = true ∨ c = .run .createTable)
    (hcreate : control t = .run .createTable → d'.created = true)
    (hothers : ∀ u, u ≠ t → d'.left u = d.left u) (hown : d'.left t ≠ 0 → mayHold c = true) :
    Invariant (update control t c) d' := by
  refine ⟨fun u => ?_, fun hkeys => ?_, fun u hu => ?_⟩
  · by_cases hut : u = t
    · subst hut
      rwa [update_self]
    · rw [update_of_ne hut]
      exact (h.holds u).mono hgrows
  · cases hk : d.keys 0 with
    | true =>
      obtain hk' | rfl := hkey hk
      · cases hk'.symm.trans hkeys
      · exact .inr ⟨t, update_self ..⟩
    | false =>
      obtain hcreated | ⟨w, hw⟩ := h.winner hk
      · exact .inl (hgrows.created hcreated)
      · by_cases hwt : w = t
        · exact .inl (hcreate (hwt ▸ hw))
        · exact .inr ⟨w, (update_of_ne hwt _ _).trans hw⟩
  · by_cases hut : u = t
    · subst hut
      rw [update_self]
      exact hown hu
    · rw [update_of_ne hut]
      exact h.pending u (hothers u hut ▸ hu)

theorem Invariant.may_hold (hc : control t = c) (hne : d.left t ≠ 0) : mayHold c = true :=
  hc ▸ h.pending t hne

theorem Invariant.act (hc : control t = .run pc)
    (hact : HashJoinAct t a d pc d' next) :
    Invariant (update control t (.run next)) d' := by
  have hpc := h.holds t
  rw [hc] at hpc
  refine h.goto (act_grows hact) (act_known hact hpc) (fun hkey => ?_) (fun hcreate => ?_)
    (fun u hu => ?_) fun hne => ?_
  · cases hact with
    | win => exact .inr rfl
    | _ => exact .inl hkey
  · cases hc.symm.trans hcreate
    cases hact
    rfl
  · cases hact with
    | block | insert => exact update_of_ne hu _ _
    | _ => rfl
  · cases hact with
    | block | insert | checkBlock | abandonBlock => rfl
    | inserted hleft => exact absurd hleft hne
    | _ => cases h.may_hold hc hne

theorem Invariant.release {b : ℕ}
    (hfirst : b = 0 → d.created = true) (hsecond : b = 1 → ∀ t, d.left t = 0) :
    Invariant (release b control) d := by
  have hrun : ∀ {t pc}, control t = .run pc → Barriers.release b control t = .run pc :=
    fun hc => by rw [Barriers.release, hc]
  refine ⟨fun t => ?_, fun hkey => ?_, fun t ht => ?_⟩
  · obtain ⟨heq, _⟩ | ⟨pc, hc, heq⟩ := release_cases b control t
    · rw [heq]
      exact h.holds t
    · have hwait := h.holds t
      rw [hc] at hwait
      rw [heq]
      obtain ⟨hb, rfl⟩ | ⟨hb, rfl, hcreated, hended⟩ := hwait
      · exact hfirst hb
      · exact ⟨hcreated, hended.symm.imp id fun hexhausted => ⟨hexhausted, hsecond hb⟩⟩
  · refine (h.winner hkey).imp id ?_
    rintro ⟨t, ht⟩
    exact ⟨t, hrun ht⟩
  · have hmay := h.pending t ht
    cases hc : control t with
    | run pc => rwa [hrun hc, ← hc]
    | outside | wait b' pc => rw [hc] at hmay; cases hmay

end

theorem mayHold_registered (h : mayHold c = true) : c.status HashJoinPc.done 1 = .registered := by
  unfold mayHold at h
  split at h
  · rfl
  · rfl
  · rfl
  · cases h

variable {n : ℕ} {s s' : State Shared HashJoinPc}

section

variable (h : Invariant s.control s.data) (hcount : Counted HashJoinPc.done n s)

include h hcount

theorem created_of_last (hkey : s.data.keys 0 = false) (ht : s.control t ≠ .run .createTable)
    (hnone : ∀ u, mark s.status t 0 new u 0 ≠ .registered) : s.data.created = true := by
  obtain hcreated | ⟨w, hw⟩ := h.winner hkey
  · exact hcreated
  · have hwt : w ≠ t := fun hwt => ht (hwt ▸ hw)
    refine absurd ?_ (hnone w)
    rw [mark, update_of_ne hwt, hcount.status_run hw]
    rfl

theorem inserted_of_last
    (ht : mayHold (s.control t) = false) (hnone : ∀ u, mark s.status t 1 new u 1 ≠ .registered)
    (u : ℕ) : s.data.left u = 0 := by
  by_contra hne
  have hmay := h.pending u hne
  have hut : u ≠ t := by
    rintro rfl
    cases hmay.symm.trans ht
  refine hnone u ?_
  rw [mark, update_of_ne hut, hcount.status u]
  exact mayHold_registered hmay

theorem Invariant.move
    {e : Event Answer Signal} (hok : onlyWoken s e) (hmove : Move hashJoin n s e s') :
    Invariant s'.control s'.data := by
  have hcount' := hcount.move hashJoin_annotated hmove
  cases hmove with
  | @start t ht hc =>
    exact h.goto (.refl _) trivial .inl (fun hcreate => by cases hc.symm.trans hcreate)
      (fun _ _ => rfl) fun hne => by cases h.may_hold hc hne
  | @register t a pc b next hc hcode =>
    have hpc := h.holds t
    rw [hc] at hpc
    cases pc <;> cases hcode <;>
      exact h.goto (.refl _) trivial .inl (fun hcreate => by cases hc.symm.trans hcreate)
        (fun _ _ => rfl) fun hne => by cases h.may_hold hc hne
  | @unregisterLast t a pc b next hc hcode hpos hlast =>
    have hpc := h.holds t
    rw [hc] at hpc
    cases pc <;> cases hcode
    have hleft := inserted_of_last h hcount (t := t) (by rw [hc]; rfl)
      (hcount'.none_registered (by simpa only [update_self] using hlast))
    refine (h.release (fun hb => by cases hb) fun _ => hleft).goto (.refl _) hpc .inl
      (fun hcreate => ?_) (fun _ _ => rfl) fun hne => absurd (hleft t) hne
    rw [Barriers.release, hc] at hcreate
    cases hcreate
  | @unregister t a pc b next hc hcode hpos hmore =>
    have hpc := h.holds t
    rw [hc] at hpc
    cases pc <;> cases hcode
    exact h.goto (.refl _) hpc .inl (fun hcreate => by cases hc.symm.trans hcreate)
      (fun _ _ => rfl) fun hne => by cases h.may_hold hc hne
  | @arriveLast t a pc b next hc hcode hlast =>
    have hpc := h.holds t
    rw [hc] at hpc
    have hnone := hcount'.none_registered (b := b)
      (by simpa only [update_self] using hlast)
    cases pc <;> cases hcode
    · have hcreated := created_of_last h hcount hpc (by rw [hc]; decide) hnone
      exact (h.release (fun _ => hcreated) fun hb => by cases hb).goto (.refl _) hcreated .inl
        (fun _ => hcreated) (fun _ _ => rfl) fun hne => by cases h.may_hold hc hne
    · have hleft := inserted_of_last h hcount (by rw [hc]; rfl) hnone
      refine (h.release (fun hb => by cases hb) fun _ => hleft).goto (.refl _) ⟨hpc.1, ?_⟩ .inl
        (fun _ => hpc.1) (fun _ _ => rfl) fun hne => absurd (hleft t) hne
      exact hpc.2.symm.imp id fun hexhausted => ⟨hexhausted, hleft⟩
  | @arrive t a pc b next hc hcode hmore =>
    have hpc := h.holds t
    rw [hc] at hpc
    cases pc <;> cases hcode
    · exact h.goto (.refl _) (.inl ⟨rfl, rfl⟩) .inl
        (fun hcreate => by cases hc.symm.trans hcreate) (fun _ _ => rfl)
        fun hne => by cases h.may_hold hc hne
    · exact h.goto (.refl _) (.inr ⟨rfl, rfl, hpc⟩) .inl
        (fun hcreate => by cases hc.symm.trans hcreate) (fun _ _ => rfl)
        fun hne => by cases h.may_hold hc hne
  | act hc hcode hf =>
    exact h.act hc (hashJoin_act hcode hf)
  | wake => exact hok.elim
  | world e =>
    refine ⟨fun t => (h.holds t).mono (receive_grows _ e), ?_, ?_⟩
    · cases e <;> exact h.winner
    · cases e <;> exact h.pending

end

/-! ### Every run -/

theorem invariant_of_reaches
    (h : Runs.Reaches (StepWhen hashJoin n onlyWoken) (initial fresh) s) :
    Invariant s.control s.data ∧ Counted HashJoinPc.done n s := by
  have hstart : Invariant (initial fresh : State Shared HashJoinPc).control fresh :=
    ⟨fun _ => trivial, (fun hkey => by cases hkey), fun _ hne => absurd rfl hne⟩
  refine Runs.invariant
    (I := fun s => Invariant s.control s.data ∧ Counted HashJoinPc.done n s)
    (fun s s' hs hstep => ?_) h ⟨hstart, .initial fresh⟩
  obtain ⟨hinv, hcount⟩ := hs
  obtain ⟨e, hok, hstep⟩ := hstep
  have hmove := move_of_step hstep
  exact ⟨hinv.move hcount hok hmove, hcount.move hashJoin_annotated hmove⟩

/-- **The build phase ends before the probe phase**, if threads wake up only when they are woken. -/
theorem build_before_probe (n : ℕ) (s : State Shared HashJoinPc)
    (h : Runs.Reaches (StepWhen hashJoin n onlyWoken) (initial fresh) s) : Ordered s := by
  obtain ⟨hinv, _⟩ := invariant_of_reaches h
  refine ⟨fun t hc => ?_, fun t hc => ?_⟩
  · have hknown := hinv.holds t
    rw [hc] at hknown
    exact hknown
  · have hknown := hinv.holds t
    rw [hc] at hknown
    exact hknown.2

/-! ### Two threads -/

def oneBlock : List (Event Answer Signal) :=
  oneAtFirst ++ steps 1 2 ++ [.exec 1 (.block 1)]

theorem reads_after_insertion :
    ∃ s, Runs.Reaches (StepWhen hashJoin 2 onlyWoken) (initial fresh) s ∧
      s.control 0 = .run .probe ∧ Ordered s := by
  have hrun : (runWhen hashJoin 2 isWoken (initial fresh)
      (oneBlock ++ steps 0 4 ++ steps 1 6 ++ steps 0 2)).map (·.control 0) =
      some (.run .probe) := by decide
  obtain ⟨s, hs, hc⟩ := Option.map_eq_some_iff.mp hrun
  have hreach := reaches_of_runWhen onlyWoken_of_isWoken hs
  exact ⟨s, hreach, hc, build_before_probe 2 s hreach⟩

/-- **Woken too early**: a table is not created when it is filled, or not complete when it is read.
-/
theorem woken_too_early :
    (∃ s, Runs.Reaches (Step hashJoin 2) (initial fresh) s ∧
      s.control 0 = .run .insert ∧ s.data.created = false) ∧
    ∃ s, Runs.Reaches (Step hashJoin 2) (initial fresh) s ∧
      s.control 0 = .run .probe ∧ s.data.left 1 = 1 := by
  have hfirst : (runWhen hashJoin 2 (fun _ _ => true) (initial fresh)
      ([.start 0, .start 1] ++ steps 1 4 ++ steps 0 6 ++ [.wake 0] ++ steps 0 1 ++
        [.exec 0 (.block 1)] ++ steps 0 1)).map (fun s => (s.control 0, s.data.created)) =
      some (.run .insert, false) := by decide
  have hsecond : (runWhen hashJoin 2 (fun _ _ => true) (initial fresh)
      (oneBlock ++ steps 0 4 ++ [.wake 0] ++ steps 0 2)).map
      (fun s => (s.control 0, s.data.left 1)) = some (.run .probe, 1) := by decide
  obtain ⟨s, hs, hc⟩ := Option.map_eq_some_iff.mp hfirst
  obtain ⟨s', hs', hc'⟩ := Option.map_eq_some_iff.mp hsecond
  exact ⟨⟨s, reaches_of_runWhen (fun _ _ _ => trivial) hs, Prod.mk.inj hc⟩,
    ⟨s', reaches_of_runWhen (fun _ _ _ => trivial) hs', Prod.mk.inj hc'⟩⟩

end BuildPhase
