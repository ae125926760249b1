/-
Cutting `M` items into pieces of `B`, the last two evened out when the last one would hold fewer
than `θ`: `balancedSizes B θ M` are the sizes, and `List.splitLengths` gives the pieces.
-/
import Mathlib.Data.List.SplitLengths
import Mathlib.Algebra.Order.Floor.Div
import Mathlib.Tactic

namespace Pieces

open List

variable {M B q r θ : ℕ}

theorem exists_ceilDiv (hB : 0 < B) (hM : 0 < M) :
    ∃ q r, M ⌈/⌉ B = q + 1 ∧ M = q * B + r ∧ 1 ≤ r ∧ r ≤ B := by
  refine ⟨(M - 1) / B, (M - 1) % B + 1, ?_, ?_, by omega, ?_⟩
  · rw [Nat.ceilDiv_eq_add_pred_div, show M + B - 1 = M - 1 + B by omega,
      Nat.add_div_right _ hB]
  · have h := Nat.div_add_mod (M - 1) B
    rw [Nat.mul_comm] at h
    omega
  · exact Nat.mod_lt _ hB

theorem ceilDiv_eq_of_eq (h : M = q * B + r) (h1 : 1 ≤ r) (h2 : r ≤ B) : M ⌈/⌉ B = q + 1 := by
  have hB : 0 < B := by omega
  obtain ⟨q', r', hq', hM, h1', h2'⟩ := exists_ceilDiv hB (show 0 < M by omega)
  rw [hq']
  rcases Nat.lt_trichotomy q q' with hlt | heq | hgt
  · have : (q + 1) * B ≤ q' * B := Nat.mul_le_mul_right B hlt
    rw [Nat.add_mul] at this
    omega
  · omega
  · have : (q' + 1) * B ≤ q * B := Nat.mul_le_mul_right B hgt
    rw [Nat.add_mul] at this
    omega

/-- The last two sizes, when the last piece would hold `rest` items. -/
def lastTwo (B θ rest : ℕ) : List ℕ :=
  if θ ≤ rest then [B, rest]
  else if (rest + B) % 2 = 0 then [(rest + B) / 2, (rest + B) / 2]
  else [(rest + B) / 2 + 1, (rest + B) / 2]

/-- Sizes of the pieces of `M` items, `B` at a time, the last two evened out
when the last one would hold fewer than `θ`. -/
def balancedSizes (B θ M : ℕ) : List ℕ :=
  if M ⌈/⌉ B ≤ 1 then [M]
  else List.replicate (M ⌈/⌉ B - 2) B ++ lastTwo B θ (M - (M ⌈/⌉ B - 1) * B)

@[simp] theorem length_lastTwo (B θ rest : ℕ) : (lastTwo B θ rest).length = 2 := by
  rw [lastTwo]
  split_ifs <;> rfl

theorem sum_lastTwo (B θ rest : ℕ) : (lastTwo B θ rest).sum = B + rest := by
  rw [lastTwo]
  split_ifs <;> simp <;> omega

theorem lastTwo_eq (B θ rest : ℕ) (h1 : 1 ≤ rest) (h2 : rest ≤ B) (hθ : θ ≤ B) :
    ∃ a b, lastTwo B θ rest = [a, b] ∧ a + b = B + rest ∧ a ≤ B ∧ b ≤ a ∧
      (min θ ((B + 1) / 2)) ≤ b ∧ 1 ≤ b := by
  rw [lastTwo]
  split_ifs with h h'
  · exact ⟨B, rest, rfl, rfl, le_rfl, h2, by omega, h1⟩
  · exact ⟨_, _, rfl, by omega, by omega, le_rfl, by omega, by omega⟩
  · exact ⟨_, _, rfl, by omega, by omega, by omega, by omega, by omega⟩

theorem balancedSizes_eq (hM : M = (q + 1) * B + r) (h1 : 1 ≤ r) (h2 : r ≤ B) :
    balancedSizes B θ M = List.replicate q B ++ lastTwo B θ r := by
  have hc : M ⌈/⌉ B = q + 2 := ceilDiv_eq_of_eq hM h1 h2
  rw [balancedSizes, if_neg (by omega), hc, show q + 2 - 1 = q + 1 by omega,
    show M - (q + 1) * B = r by omega, show q + 2 - 2 = q by omega]

section

variable (hB : 0 < B) (hM : 0 < M)

include hB hM

theorem length_balancedSizes : (balancedSizes B θ M).length = M ⌈/⌉ B := by
  obtain ⟨q, r, hq, -, -, -⟩ := exists_ceilDiv hB hM
  rw [balancedSizes]
  split_ifs with h
  · simp only [length_singleton]
    omega
  · simp only [length_append, length_replicate, length_lastTwo]
    omega

theorem sum_balancedSizes : (balancedSizes B θ M).sum = M := by
  obtain ⟨q, r, hq, hMq, h1, h2⟩ := exists_ceilDiv hB hM
  rcases q with _ | q
  · rw [balancedSizes, if_pos (by omega)]
    simp
  · rw [balancedSizes_eq hMq h1 h2, sum_append, sum_lastTwo, sum_replicate,
      smul_eq_mul, hMq, Nat.add_mul]
    omega

theorem mem_balancedSizes (hθ : θ ≤ B) :
    ∀ c ∈ balancedSizes B θ M, c ≤ B ∧ 1 ≤ c ∧ (B < M → min θ ((B + 1) / 2) ≤ c) := by
  obtain ⟨q, r, hq, hMq, h1, h2⟩ := exists_ceilDiv hB hM
  intro c hc
  rcases q with _ | q
  · rw [balancedSizes, if_pos (by omega), mem_singleton] at hc
    omega
  · rw [balancedSizes_eq hMq h1 h2, mem_append] at hc
    obtain ⟨a, b, hab, hsum, ha, hb, hmin, hb1⟩ := lastTwo_eq B θ r h1 h2 hθ
    rcases hc with hc | hc
    · rw [eq_of_mem_replicate hc]
      omega
    · rw [hab] at hc
      simp only [mem_cons, not_mem_nil, or_false] at hc
      omega

theorem le_of_mem_balancedSizes (hθ : θ ≤ B) : ∀ c ∈ balancedSizes B θ M, c ≤ B :=
  fun c hc => (mem_balancedSizes hB hM hθ c hc).1

theorem pos_of_mem_balancedSizes (hθ : θ ≤ B) : ∀ c ∈ balancedSizes B θ M, 1 ≤ c :=
  fun c hc => (mem_balancedSizes hB hM hθ c hc).2.1

end

end Pieces
