/-
Runs that can fault, and rules for their loops: a counted loop is a monadic fold over `List.range`
(`foldlM_range_inv`); `index` and `push` check the capacity of arrays.
-/
import Mathlib.Tactic

inductive Fault
  /-- a failed `assert` -/
  | assertFailed
  /-- a `NULL` (or never allocated) pointer was dereferenced -/
  | nullDeref
  | outOfBounds
  | endless
  /-- a variable was left with a value that the language does not determine -/
  | indeterminate
  /-- an exception that nothing catches -/
  | thrown
  deriving DecidableEq, Repr

abbrev Run (α : Type) := Except Fault α

namespace Run

variable {α β σ : Type}

@[simp] theorem bind_ok (a : α) (f : α → Run β) : ((.ok a : Run α) >>= f) = f a := rfl

@[simp] theorem bind_error (e : Fault) (f : α → Run β) :
    ((.error e : Run α) >>= f) = .error e := rfl

@[simp] theorem pure_eq_ok (a : α) : (pure a : Run α) = .ok a := rfl

variable {x : Run α} {b : β} {xs : List α} {i : ℕ} {s : σ} {f : σ → ℕ → Run σ} {n : ℕ}

theorem bind_eq_ok {f : α → Run β} (h : x >>= f = .ok b) : ∃ a, x = .ok a ∧ f a = .ok b := by
  cases x with
  | error e => cases h
  | ok a => exact ⟨a, rfl, h⟩

/-- Two steps in a row. -/
theorem bind₂_eq_ok {γ : Type} {f : α → Run β} {g : α → β → Run γ} {c : γ}
    (h : (x >>= fun a => f a >>= g a) = .ok c) :
    ∃ a, x = .ok a ∧ ∃ b, f a = .ok b ∧ g a b = .ok c := by
  obtain ⟨a, ha, h⟩ := bind_eq_ok h
  obtain ⟨b, hb, h⟩ := bind_eq_ok h
  exact ⟨a, ha, b, hb, h⟩

theorem map_eq_ok {f : α → β} (h : x.map f = .ok b) : ∃ a, x = .ok a ∧ f a = b := by
  cases x with
  | error e => cases h
  | ok a => exact ⟨a, rfl, Except.ok.inj h⟩

def index (xs : List α) (i : ℕ) : Run α :=
  match xs[i]? with
  | some x => .ok x
  | none => .error .outOfBounds

def push (cap : ℕ) (xs : List α) (x : α) : Run (List α) :=
  if xs.length < cap then .ok (xs ++ [x]) else .error .outOfBounds

theorem index_eq_ok {x : α} (h : xs[i]? = some x) : index xs i = .ok x := by
  rw [index, h]

theorem push_eq_ok {cap : ℕ} (x : α) (h : xs.length < cap) :
    push cap xs x = .ok (xs ++ [x]) := if_pos h

theorem foldlM_inv {f : σ → α → Run σ} {I : List α → σ → Prop} (xs : List α) {s : σ}
    (h0 : I [] s) (hstep : ∀ pre x post s, xs = pre ++ x :: post → I pre s →
      ∃ s', f s x = .ok s' ∧ I (pre ++ [x]) s') :
    ∃ s', xs.foldlM f s = .ok s' ∧ I xs s' := by
  induction xs using List.reverseRecOn with
  | nil => exact ⟨s, rfl, h0⟩
  | append_singleton xs x ih =>
    obtain ⟨s₁, hs₁, h1⟩ := ih fun pre y post s heq =>
      hstep pre y (post ++ [x]) s (by simp [heq])
    obtain ⟨s', hs', h'⟩ := hstep xs x [] s₁ rfl h1
    refine ⟨s', ?_, h'⟩
    rw [List.foldlM_append, hs₁, bind_ok, List.foldlM_cons, hs', bind_ok, List.foldlM_nil,
      pure_eq_ok]

theorem foldlM_range_inv {I : ℕ → σ → Prop} (h0 : I 0 s)
    (hstep : ∀ i s, i < n → I i s → ∃ s', f s i = .ok s' ∧ I (i + 1) s') :
    ∃ s', (List.range n).foldlM f s = .ok s' ∧ I n s' := by
  induction n with
  | zero => exact ⟨s, rfl, h0⟩
  | succ n ih =>
    obtain ⟨s₁, hs₁, h1⟩ := ih fun i s hi => hstep i s (Nat.lt_succ_of_lt hi)
    obtain ⟨s', hs', h'⟩ := hstep n s₁ (Nat.lt_succ_self n) h1
    refine ⟨s', ?_, h'⟩
    rw [List.range_succ, List.foldlM_append, hs₁, bind_ok, List.foldlM_cons, hs', bind_ok,
      List.foldlM_nil, pure_eq_ok]

theorem foldlM_range_eq (st : ℕ → σ) (hstep : ∀ k < n, f (st k) k = .ok (st (k + 1))) :
    (List.range n).foldlM f (st 0) = .ok (st n) := by
  obtain ⟨s', hs', rfl⟩ := foldlM_range_inv (f := f) (I := fun k s => s = st k) (n := n) rfl (by
    rintro k s hk rfl
    exact ⟨_, hstep k hk, rfl⟩)
  exact hs'

end Run
