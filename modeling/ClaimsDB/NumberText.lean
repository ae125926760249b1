/-
Numbers as text: `toDecimal` prints a number, `strtol` and `strtoul` read one.
-/
import ClaimsDB.InsertStatement

namespace Loader

open List

def decimalValue (ds : Text) : ℕ := ds.foldl (fun n c => 10 * n + (c.toNat - 48)) 0

theorem foldl_decimalValue (ds : Text) (acc : ℕ) :
    ds.foldl (fun n c => 10 * n + (c.toNat - 48)) acc = acc * 10 ^ ds.length + decimalValue ds := by
  induction ds generalizing acc with
  | nil => simp [decimalValue]
  | cons c ds ih =>
    have hcons : decimalValue (c :: ds) = (c.toNat - 48) * 10 ^ ds.length + decimalValue ds := by
      rw [decimalValue, foldl_cons, ih, Nat.mul_zero, Nat.zero_add]
    rw [foldl_cons, ih, hcons, length_cons, pow_succ]
    ring

theorem decimalValue_append (a b : Text) :
    decimalValue (a ++ b) = decimalValue a * 10 ^ b.length + decimalValue b := by
  rw [decimalValue, foldl_append]
  exact foldl_decimalValue b _

variable {n : ℕ} {c : UInt8} {ds : Text}

theorem decimalValue_digit (h : n < 10) : decimalValue [UInt8.ofNat (48 + n)] = n := by
  rw [decimalValue, foldl_cons, foldl_nil, Nat.mul_zero, Nat.zero_add,
    UInt8.toNat_ofNat', Nat.mod_eq_of_lt (by omega)]
  omega

theorem decimalValue_zeros (n : ℕ) : decimalValue (List.replicate n 48) = 0 := by
  induction n with
  | zero => rfl
  | succ n ih =>
    rw [replicate_succ', decimalValue_append, ih]
    rfl

theorem isDigit_digit (h : n < 10) : isDigit (UInt8.ofNat (48 + n)) = true := by
  have hall : ∀ n < 10, isDigit (UInt8.ofNat (48 + n)) = true := by decide
  exact hall n h

/-! ### Printing -/

theorem digits_eq_digits {f g : ℕ} (hf : n < f) (hg : n < g) : digits f n = digits g n := by
  induction f generalizing g n with
  | zero => omega
  | succ f ih =>
    obtain ⟨g, rfl⟩ : ∃ g', g = g' + 1 := ⟨g - 1, by omega⟩
    rw [digits, digits]
    split
    · rfl
    · rw [ih (by omega) (g := g) (by omega)]

theorem toDecimal_of_lt (h : n < 10) : toDecimal n = [UInt8.ofNat (48 + n)] := by
  rw [toDecimal, digits, if_pos h]

theorem toDecimal_of_le (h : 10 ≤ n) :
    toDecimal n = toDecimal (n / 10) ++ [UInt8.ofNat (48 + n % 10)] := by
  rw [toDecimal, digits, if_neg (by omega), toDecimal]
  rw [digits_eq_digits (f := n) (g := n / 10 + 1) (by omega) (by omega)]

theorem decimalValue_toDecimal (n : ℕ) : decimalValue (toDecimal n) = n := by
  induction n using Nat.strong_induction_on with
  | _ n ih =>
    by_cases h : n < 10
    · rw [toDecimal_of_lt h, decimalValue_digit h]
    · rw [toDecimal_of_le (by omega), decimalValue_append, ih _ (by omega),
        decimalValue_digit (Nat.mod_lt _ (by decide)), length_singleton]
      omega

theorem isDigit_of_mem_toDecimal : ∀ c ∈ toDecimal n, isDigit c = true := by
  induction n using Nat.strong_induction_on with
  | _ n ih =>
    intro c hc
    by_cases h : n < 10
    · rw [toDecimal_of_lt h, mem_singleton] at hc
      exact hc ▸ isDigit_digit h
    · rw [toDecimal_of_le (by omega), mem_append, mem_singleton] at hc
      obtain hc | rfl := hc
      · exact ih _ (by omega) c hc
      · exact isDigit_digit (Nat.mod_lt _ (by decide))

theorem length_toDecimal_pos (n : ℕ) : 0 < (toDecimal n).length := by
  rw [toDecimal, digits]
  split <;> simp

theorem toDecimal_ne_nil (n : ℕ) : toDecimal n ≠ [] :=
  ne_nil_of_length_pos (length_toDecimal_pos n)

theorem length_toDecimal_le_iff {k : ℕ} (hk : 0 < k) : (toDecimal n).length ≤ k ↔ n < 10 ^ k := by
  induction n using Nat.strong_induction_on generalizing k with
  | _ n ih =>
    obtain ⟨k, rfl⟩ : ∃ j, k = j + 1 := ⟨k - 1, by omega⟩
    have hpos : 1 ≤ 10 ^ k := Nat.one_le_pow _ _ (by decide)
    by_cases h : n < 10
    · rw [toDecimal_of_lt h, pow_succ]
      simp only [length_cons, length_nil]
      omega
    · rw [toDecimal_of_le (by omega), length_append, length_singleton, pow_succ]
      obtain rfl | hk' := Nat.eq_zero_or_pos k
      · have := length_toDecimal_pos (n / 10)
        simp only [pow_zero]
        omega
      · have := ih (n / 10) (by omega) hk'
        omega

theorem getLast?_toDecimal (n : ℕ) : (toDecimal n).getLast? = some (UInt8.ofNat (48 + n % 10)) := by
  by_cases h : n < 10
  · rw [toDecimal_of_lt h, Nat.mod_eq_of_lt h]
    rfl
  · rw [toDecimal_of_le (by omega), getLast?_concat]

theorem exists_padded (k n : ℕ) :
    ∃ F, List.replicate (k + 1 - (toDecimal n).length) 48 ++ toDecimal n =
        toDecimal (n / 10 ^ k) ++ F ∧
      F.length = k ∧ (∀ c ∈ F, isDigit c = true) ∧ decimalValue F = n % 10 ^ k := by
  induction k generalizing n with
  | zero =>
    refine ⟨[], ?_, rfl, by simp, by rw [pow_zero, Nat.mod_one]; rfl⟩
    have := length_toDecimal_pos n
    rw [Nat.sub_eq_zero_of_le (by omega), replicate_zero, nil_append, pow_zero,
      Nat.div_one, append_nil]
  | succ k ih =>
    obtain ⟨F, hF, hlength, hdigits, hvalue⟩ := ih (n / 10)
    have hlast : n % 10 < 10 := Nat.mod_lt _ (by decide)
    -- the last digit is printed behind those of the tenth part
    have hstep : List.replicate (k + 1 + 1 - (toDecimal n).length) 48 ++ toDecimal n =
        (List.replicate (k + 1 - (toDecimal (n / 10)).length) 48 ++ toDecimal (n / 10)) ++
          [UInt8.ofNat (48 + n % 10)] := by
      by_cases h : n < 10
      · rw [toDecimal_of_lt h, Nat.div_eq_of_lt h, Nat.mod_eq_of_lt h]
        exact congrArg (· ++ [UInt8.ofNat (48 + n)]) replicate_succ'
      · rw [toDecimal_of_le (by omega), length_append, length_singleton,
          Nat.add_sub_add_right, append_assoc]
    refine ⟨F ++ [UInt8.ofNat (48 + n % 10)], ?_, by simp [hlength], ?_, ?_⟩
    · rw [hstep, hF, Nat.div_div_eq_div_mul, ← pow_succ', append_assoc]
    · intro c hc
      rw [mem_append, mem_singleton] at hc
      obtain hc | rfl := hc
      · exact hdigits c hc
      · exact isDigit_digit hlast
    · rw [decimalValue_append, hvalue, decimalValue_digit hlast, length_singleton, pow_one,
        pow_succ', Nat.mod_mul]
      omega

/-- An integer as `operator<<` prints it. -/
def showInt (v : ℤ) : Text := if v < 0 then 45 :: toDecimal v.natAbs else toDecimal v.natAbs

theorem showInt_natCast (n : ℕ) : showInt n = toDecimal n := by
  rw [showInt, if_neg (by omega), Int.natAbs_natCast]

/-! ### Reading -/

theorem ne_of_isDigit {d : UInt8} (hc : isDigit c = true) (hd : isDigit d = false) : c ≠ d := by
  rintro rfl
  cases hc.symm.trans hd

theorem digitsValue_of_digits (h : ∀ c ∈ ds, isDigit c = true) :
    digitsValue ds = decimalValue ds := by
  rw [digitsValue, decimalValue, List.takeWhile_eq_self_iff.mpr h]

theorem cStr_of_digits (h : ∀ c ∈ ds, isDigit c = true) : cStr ds = ds := by
  refine List.takeWhile_eq_self_iff.mpr fun c hc => ?_
  simpa using ne_of_isDigit (h c hc) (d := 0) (by decide)

theorem skipSpace_of_head {cs : Text} (h : isDigit c = true ∨ c = 45) :
    skipSpace (c :: cs) = c :: cs := by
  refine dropWhile_cons_of_neg ?_
  obtain h | rfl := h
  · simp only [isDigit, Bool.and_eq_true, decide_eq_true_eq] at h
    obtain ⟨hlow, hhigh⟩ := h
    simp only [Bool.or_eq_true, Bool.and_eq_true, decide_eq_true_eq, not_or, not_and]
    refine ⟨fun hc => ?_, fun _ hc => ?_⟩
    · rw [hc] at hlow
      exact absurd hlow (by decide)
    · exact absurd (UInt8.le_trans hlow hc) (by decide)
  · decide

theorem exists_toDecimal_cons (n : ℕ) :
    ∃ c cs, toDecimal n = c :: cs ∧ isDigit c = true ∧ ∀ d ∈ cs, isDigit d = true := by
  cases hn : toDecimal n with
  | nil =>
    have := length_toDecimal_pos n
    rw [hn] at this
    cases this
  | cons c cs =>
    have hall := isDigit_of_mem_toDecimal (n := n)
    rw [hn] at hall
    exact ⟨c, cs, rfl, hall c mem_cons_self, fun d hd => hall d (mem_cons_of_mem _ hd)⟩

theorem strtol_of_digits (hne : ds ≠ []) (h : ∀ c ∈ ds, isDigit c = true) :
    strtol ds = min (decimalValue ds : ℤ) (2 ^ 63 - 1) := by
  cases ds with
  | nil => exact absurd rfl hne
  | cons c cs =>
    have hc := h c mem_cons_self
    rw [strtol, skipSpace_of_head (.inl hc)]
    have hminus : c ≠ 45 := ne_of_isDigit hc (by decide)
    have hplus : c ≠ 43 := ne_of_isDigit hc (by decide)
    split
    · rename_i heq
      exact absurd (List.cons.inj heq).1 hminus
    · rename_i heq
      exact absurd (List.cons.inj heq).1 hplus
    · rw [digitsValue_of_digits h]

theorem strtoul_of_digits (hne : ds ≠ []) (h : ∀ c ∈ ds, isDigit c = true) :
    strtoul ds = min (decimalValue ds) (2 ^ 64 - 1) := by
  cases ds with
  | nil => exact absurd rfl hne
  | cons c cs =>
    have hc := h c mem_cons_self
    rw [strtoul, skipSpace_of_head (.inl hc)]
    have hminus : c ≠ 45 := ne_of_isDigit hc (by decide)
    have hplus : c ≠ 43 := ne_of_isDigit hc (by decide)
    split
    · rename_i heq
      exact absurd (List.cons.inj heq).1 hminus
    · rename_i heq
      exact absurd (List.cons.inj heq).1 hplus
    · rw [digitsValue_of_digits h]

theorem strtoul_toDecimal (h : n < 2 ^ 64) : strtoul (toDecimal n) = n := by
  rw [strtoul_of_digits (toDecimal_ne_nil n) isDigit_of_mem_toDecimal, decimalValue_toDecimal]
  omega

theorem strtol_showInt {v : ℤ} (hlow : -2 ^ 63 ≤ v) (hhigh : v < 2 ^ 63) :
    strtol (showInt v) = v := by
  rw [showInt]
  split
  · rw [strtol, skipSpace_of_head (.inr rfl)]
    simp only
    rw [digitsValue_of_digits isDigit_of_mem_toDecimal, decimalValue_toDecimal]
    omega
  · rw [strtol_of_digits (toDecimal_ne_nil _) isDigit_of_mem_toDecimal, decimalValue_toDecimal]
    omega

end Loader
