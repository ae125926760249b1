/-
Runs of a transition system, `Relation.ReflTransGen step`.  The steps of an interleaved system are
those of any of its parties.

* **`invariant`** — what every step preserves, every run preserves;
* **`simulation`** — a run is one of the system that simulates its steps;
* **`finish`** — a measure that falls leads to the end.
-/
import Mathlib.Tactic

namespace Runs

variable {σ : Type}

abbrev Reaches (step : σ → σ → Prop) : σ → σ → Prop := Relation.ReflTransGen step

theorem invariant {step : σ → σ → Prop} {I : σ → Prop}
    (hstep : ∀ s s', I s → step s s' → I s') {s s' : σ} (h : Reaches step s s') (h0 : I s) :
    I s' := by
  induction h with
  | refl => exact h0
  | tail _ hs ih => exact hstep _ _ ih hs

theorem simulation {τ : Type} {step : σ → σ → Prop} {step' : τ → τ → Prop} {R : σ → τ → Prop}
    (hstep : ∀ s s' a, R s a → step s s' → ∃ a', R s' a' ∧ Reaches step' a a') {s s' : σ} {a : τ}
    (h : Reaches step s s') (h0 : R s a) : ∃ a', R s' a' ∧ Reaches step' a a' := by
  induction h with
  | refl => exact ⟨a, h0, .refl⟩
  | tail _ hs ih =>
    obtain ⟨b, hb, hab⟩ := ih
    obtain ⟨b', hb', hbb⟩ := hstep _ _ b hb hs
    exact ⟨b', hb', hab.trans hbb⟩

theorem finish (step : σ → σ → Prop) (I done : σ → Prop) (measure : σ → ℕ)
    (hstep : ∀ s, I s → ∃ s', step s s' ∧ (done s' ∨ I s' ∧ measure s' < measure s)) {s : σ}
    (h0 : I s) : ∃ s', Reaches step s s' ∧ done s' := by
  induction hm : measure s using Nat.strong_induction_on generalizing s with
  | _ n ih =>
    obtain ⟨s', hs', hd | ⟨hI, hlt⟩⟩ := hstep s h0
    · exact ⟨s', .single hs', hd⟩
    · obtain ⟨s'', hs'', hd⟩ := ih _ (hm ▸ hlt) hI rfl
      exact ⟨s'', .head hs' hs'', hd⟩

theorem reaches_of_foldlM {A : Type} {step : σ → σ → Prop} {act : σ → A → Option σ}
    (hact : ∀ s a s', act s a = some s' → step s s') {actions : List A} {s s' : σ}
    (h : actions.foldlM act s = some s') : Reaches step s s' := by
  induction actions generalizing s with
  | nil =>
    cases h
    exact .refl
  | cons a actions ih =>
    obtain ⟨s₁, hs₁, hrest⟩ := Option.bind_eq_some_iff.mp h
    exact .head (hact s a s₁ hs₁) (ih hrest)

open Finset in
theorem sum_update_of_mem {ι α M : Type} [DecidableEq ι] [AddCommMonoid M] (F : α → M) (f : ι → α)
    {w : ι} {parties : Finset ι} (hw : w ∈ parties) (v : α) :
    ∑ k ∈ parties, F (Function.update f w v k) + F (f w) = ∑ k ∈ parties, F (f k) + F v := by
  have hrest : ∑ k ∈ parties.erase w, F (Function.update f w v k)
      = ∑ k ∈ parties.erase w, F (f k) :=
    sum_congr rfl fun k hk => by rw [Function.update_of_ne (ne_of_mem_erase hk)]
  rw [← add_sum_erase _ _ hw, ← add_sum_erase parties (fun k => F (f k)) hw, hrest,
    Function.update_self]
  abel

theorem sum_update {α M : Type} [AddCommMonoid M] (F : α → M) (f : ℕ → α) {w n : ℕ} (hw : w < n)
    (v : α) :
    ∑ k ∈ Finset.range n, F (Function.update f w v k) + F (f w) =
      ∑ k ∈ Finset.range n, F (f k) + F v :=
  sum_update_of_mem F f (Finset.mem_range.mpr hw) v

end Runs
