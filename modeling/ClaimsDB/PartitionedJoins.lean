/-
Joins of bags that are spread over partitions: joining two flows partition by partition finds the
matching pairs of which both parts are in the same partition.
-/
import Mathlib.Algebra.BigOperators.Group.Finset.Piecewise
import Mathlib.Algebra.Order.BigOperators.Group.Finset

namespace Flows

variable {α β : Type}

open Finset (range)

def join (m : α → β → Bool) (A : Multiset α) (B : Multiset β) : Multiset (α × β) :=
  (A ×ˢ B).filter fun x => m x.1 x.2 = true

def total (n : ℕ) (D : ℕ → Multiset α) : Multiset α := ∑ p ∈ range n, D p

def spread (f : α → ℕ) (A : Multiset α) (p : ℕ) : Multiset α := A.filter fun a => f a = p

variable {m : α → β → Bool} {A : Multiset α} {B : Multiset β}
variable {n k : ℕ} {D : ℕ → Multiset α} {E : ℕ → Multiset β}

@[simp] theorem mem_join {x : α × β} : x ∈ join m A B ↔ x.1 ∈ A ∧ x.2 ∈ B ∧ m x.1 x.2 = true := by
  rw [join, Multiset.mem_filter, Multiset.mem_product, and_assoc]

@[simp] theorem mem_total {a : α} : a ∈ total n D ↔ ∃ p < n, a ∈ D p := by
  simp [total, Multiset.mem_sum]

@[simp] theorem mem_spread {f : α → ℕ} {a : α} {p : ℕ} : a ∈ spread f A p ↔ a ∈ A ∧ f a = p :=
  Multiset.mem_filter

theorem join_eq_zero_iff : join m A B = 0 ↔ ∀ a ∈ A, ∀ b ∈ B, m a b = false := by
  rw [Multiset.eq_zero_iff_forall_notMem]
  constructor
  · intro h a ha b hb
    by_contra hm
    exact h (a, b) (mem_join.2 ⟨ha, hb, Bool.not_eq_false _ ▸ hm⟩)
  · rintro h ⟨a, b⟩ hx
    obtain ⟨ha, hb, hm⟩ := mem_join.1 hx
    rw [h a ha b hb] at hm
    cases hm

theorem sum_join_left : ∑ p ∈ range n, join m (D p) B = join m (total n D) B := by
  induction n with
  | zero => rfl
  | succ n ih =>
    rw [Finset.sum_range_succ, ih, total, total, Finset.sum_range_succ, join, join, join,
      Multiset.add_product, Multiset.filter_add]

theorem sum_join_right : ∑ p ∈ range n, join m A (E p) = join m A (total n E) := by
  induction n with
  | zero => simp [total, join]
  | succ n ih =>
    rw [Finset.sum_range_succ, ih, total, total, Finset.sum_range_succ, join, join, join,
      Multiset.product_add, Multiset.filter_add]

theorem join_total :
    join m (total n D) (total k E) = ∑ p ∈ range n, ∑ q ∈ range k, join m (D p) (E q) := by
  rw [← sum_join_left]
  exact Finset.sum_congr rfl fun p _ => sum_join_right.symm

/-- **A join partition by partition is the join of all** iff the parts of every matching pair are
in the same partition. -/
theorem sum_join_eq_iff :
    ∑ p ∈ range n, join m (D p) (E p) = join m (total n D) (total n E) ↔
      ∀ p < n, ∀ q < n, p ≠ q → ∀ a ∈ D p, ∀ b ∈ E q, m a b = false := by
  -- the pairs over two partitions are what the join of all has in addition
  have hsplit : join m (total n D) (total n E) = ∑ p ∈ range n, join m (D p) (E p) +
      ∑ p ∈ range n, ∑ q ∈ (range n).erase p, join m (D p) (E q) := by
    rw [join_total, ← Finset.sum_add_distrib]
    exact Finset.sum_congr rfl fun p hp => (Finset.add_sum_erase _ _ hp).symm
  rw [hsplit, left_eq_add, Finset.sum_eq_zero_iff]
  constructor
  · intro h p hp q hq hpq
    have hrow := Finset.sum_eq_zero_iff.1 (h p (Finset.mem_range.2 hp)) q
      (Finset.mem_erase.2 ⟨hpq.symm, Finset.mem_range.2 hq⟩)
    exact join_eq_zero_iff.1 hrow
  · intro h p hp
    refine Finset.sum_eq_zero fun q hq => ?_
    obtain ⟨hqp, hq⟩ := Finset.mem_erase.1 hq
    exact join_eq_zero_iff.2 (h p (Finset.mem_range.1 hp) q (Finset.mem_range.1 hq) hqp.symm)

theorem total_spread {f : α → ℕ} (h : ∀ a ∈ A, f a < n) : total n (spread f A) = A := by
  induction A using Multiset.induction with
  | empty => simp [total, spread]
  | cons a A ih =>
    have hA := ih fun b hb => h b (Multiset.mem_cons_of_mem hb)
    have ha : f a ∈ range n := Finset.mem_range.2 (h a (Multiset.mem_cons_self a A))
    have hcons : ∀ p, spread f (a ::ₘ A) p = spread f A p + if f a = p then {a} else 0 := by
      intro p
      by_cases hp : f a = p <;> simp [spread, hp, add_comm]
    calc total n (spread f (a ::ₘ A))
        = total n (spread f A) + ∑ p ∈ range n, if f a = p then {a} else 0 := by
          rw [total, total, ← Finset.sum_add_distrib]
          exact Finset.sum_congr rfl fun p _ => hcons p
      _ = A + {a} := by rw [hA, Finset.sum_ite_eq, if_pos ha]
      _ = a ::ₘ A := by rw [add_comm, Multiset.singleton_add]

end Flows
