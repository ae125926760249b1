/-
Decimals as text.

`Decimal::toString` prints the word with a point 30 places before the end.  `StrtoDecimal` reads
the digits into an array of 73 characters, cut 30 places behind the point; it refuses numbers with
too many digits before the point, and writes behind the array for longer ones.
-/
import ClaimsDB.NullValues

open List Int Nat

namespace Partitioning

/-! ### Words -/

variable {a b N B : ℕ} {x y : TTInt}

theorem eq_of_bmod_eq (ha : a < N) (hb : b < N) (h : bmod a N = bmod b N) : a = b := by
  have hmod : ((a : ℤ) % N) = (b : ℤ) % N := by rw [← bmod_emod, h, bmod_emod]
  have ha' : (a : ℤ) % N = a := emod_eq_of_lt (by omega) (by omega)
  have hb' : (b : ℤ) % N = b := emod_eq_of_lt (by omega) (by omega)
  omega

theorem digits_inj {c d : ℕ} (ha : a < B) (hc : c < B) (h : a + B * b = c + B * d) :
    a = c ∧ b = d := by
  have hac : a = c := by
    rw [← Nat.mod_eq_of_lt ha, ← Nat.mod_eq_of_lt hc, ← Nat.add_mul_mod_self_left a B b, h,
      Nat.add_mul_mod_self_left]
  rw [hac] at h
  exact ⟨hac, Nat.eq_of_mul_eq_mul_left (by omega) (Nat.add_left_cancel h)⟩

theorem digits_lt (ha : a < B) (hb : b < N) : a + B * b < B * N := by
  calc a + B * b < B + B * b := by omega
    _ = B * (b + 1) := by ring
    _ ≤ B * N := mul_le_mul_left B hb

def TTInt.words (x : TTInt) : ℕ :=
  x.ul1.toNat + 2 ^ 64 * (x.ul2.toNat + 2 ^ 64 * (x.ul3.toNat + 2 ^ 64 * x.ul4.toNat))

theorem TTInt.words_lt (x : TTInt) : x.words < 2 ^ 256 :=
  digits_lt x.ul1.toNat_lt (digits_lt x.ul2.toNat_lt (digits_lt x.ul3.toNat_lt x.ul4.toNat_lt))

theorem TTInt.words_inj (h : x.words = y.words) : x = y := by
  obtain ⟨h₁, h⟩ := digits_inj x.ul1.toNat_lt y.ul1.toNat_lt h
  obtain ⟨h₂, h⟩ := digits_inj x.ul2.toNat_lt y.ul2.toNat_lt h
  obtain ⟨h₃, h₄⟩ := digits_inj x.ul3.toNat_lt y.ul3.toNat_lt h
  obtain ⟨x₁, x₂, x₃, x₄⟩ := x
  obtain ⟨y₁, y₂, y₃, y₄⟩ := y
  rw [TTInt.mk.injEq]
  exact ⟨UInt64.toNat_inj.mp h₁, UInt64.toNat_inj.mp h₂, UInt64.toNat_inj.mp h₃,
    UInt64.toNat_inj.mp h₄⟩

theorem TTInt.toInt_inj : x.toInt = y.toInt ↔ x = y := by
  constructor
  · intro h
    exact TTInt.words_inj (eq_of_bmod_eq x.words_lt y.words_lt h)
  · rintro rfl
    rfl

end Partitioning

namespace Columns

open Loader (Text Memory text isDigit toDecimal decimalValue digitsValue skipSpace cStr)
open Partitioning (ttIntAt TTInt)

theorem load_uint64_toNat {m b : Memory} {off : ℕ} (hb : b.length = 8)
    (h : (m.drop off).take 8 = b) : (Codec.uint64.load off m).toNat = Codec.ofLe b := by
  have hlt := Codec.ofLe_lt b
  rw [hb] at hlt
  show (UInt64.ofNat (Codec.ofLe ((m.drop off).take 8))).toNat = _
  rw [h, UInt64.toNat_ofNat']
  omega

theorem words_ttIntAt {pre w : Memory} (hpre : pre.length = 16) (hw : w.length = 32) :
    (ttIntAt (pre ++ w)).words = Codec.ofLe w := by
  have hload : ∀ off, off ≤ 24 → (Codec.uint64.load (16 + off) (pre ++ w)).toNat =
      Codec.ofLe ((w.drop off).take 8) := fun off hoff =>
    load_uint64_toNat (by rw [length_take, length_drop]; omega)
      (by rw [← drop_drop, drop_left' hpre])
  have hsplit : ∀ off, off ≤ 24 → Codec.ofLe (w.drop off) =
      Codec.ofLe ((w.drop off).take 8) + 2 ^ 64 * Codec.ofLe (w.drop (off + 8)) := by
    intro off hoff
    have hlength : ((w.drop off).take 8).length = 8 := by
      rw [length_take, length_drop]
      omega
    have hbase : 256 ^ 8 = 2 ^ 64 := by norm_num
    rw [← drop_drop]
    conv_lhs => rw [← take_append_drop 8 (w.drop off), Codec.ofLe_append, hlength, hbase]
  have hlast : Codec.ofLe (w.drop 32) = 0 := by
    rw [drop_of_length_le hw.le]
    rfl
  have hwords : (ttIntAt (pre ++ w)).words = Codec.ofLe ((w.drop 0).take 8) +
      2 ^ 64 * (Codec.ofLe ((w.drop 8).take 8) + 2 ^ 64 * (Codec.ofLe ((w.drop 16).take 8) +
        2 ^ 64 * Codec.ofLe ((w.drop 24).take 8))) := by
    unfold TTInt.words ttIntAt
    rw [hload 0 (by decide), hload 8 (by decide), hload 16 (by decide), hload 24 (by decide)]
  have hall := hsplit 0 (by decide)
  rw [hsplit 8 (by decide), hsplit 16 (by decide), hsplit 24 (by decide), hlast, mul_zero,
    add_zero] at hall
  exact hwords.trans hall.symm

theorem toInt_decimalBytes (sign : UInt8) (n : ℤ) :
    (ttIntAt (decimalBytes sign n)).toInt = bmod n (2 ^ 256) := by
  have hwords : (ttIntAt (decimalBytes sign n)).words = (n % 2 ^ 256).toNat := by
    have hlt : (n % 2 ^ 256).toNat < 256 ^ 32 := by
      have := emod_lt_of_pos n (show (0 : ℤ) < 2 ^ 256 by norm_num)
      have := emod_nonneg n (show (2 : ℤ) ^ 256 ≠ 0 by norm_num)
      omega
    rw [decimalBytes, words_ttIntAt (by simp) (Codec.length_leBytes _ _), Codec.ofLe_leBytes,
      mod_eq_of_lt hlt]
  have hcast : (((n % 2 ^ 256).toNat : ℕ) : ℤ) = n % 2 ^ 256 :=
    toNat_of_nonneg (emod_nonneg n (by norm_num))
  show bmod ((ttIntAt (decimalBytes sign n)).words : ℕ) (2 ^ 256) = _
  rw [hwords, hcast]
  exact emod_bmod n (2 ^ 256)

/-! ### Reading digits -/

variable {ds : Text} {s : ℕ} {n : ℤ} {t : Text}

theorem decimalValue_lt (h : ∀ c ∈ ds, isDigit c = true) : decimalValue ds < 10 ^ ds.length := by
  induction ds with
  | nil => exact one_pos
  | cons c ds ih =>
    have hds := ih fun d hd => h d (mem_cons_of_mem _ hd)
    have hc : c.toNat - 48 ≤ 9 := by
      have hdigit := h c mem_cons_self
      simp only [isDigit, Bool.and_eq_true, decide_eq_true_eq, UInt8.le_iff_toNat_le] at hdigit
      have : (57 : UInt8).toNat = 57 := rfl
      omega
    have happend := Loader.decimalValue_append [c] ds
    have hone : decimalValue [c] = c.toNat - 48 := by
      rw [decimalValue, foldl_cons, foldl_nil, mul_zero, zero_add]
    rw [singleton_append, hone] at happend
    rw [happend, length_cons, pow_succ]
    calc (c.toNat - 48) * 10 ^ ds.length + decimalValue ds
        < (c.toNat - 48) * 10 ^ ds.length + 10 ^ ds.length := by omega
      _ = (c.toNat - 48 + 1) * 10 ^ ds.length := by ring
      _ ≤ 10 * 10 ^ ds.length := mul_le_mul_right _ (by omega)
      _ = 10 ^ ds.length * 10 := mul_comm _ _

theorem scanDecimal_digits (h : ∀ c ∈ ds, isDigit c = true) (rest : Text) (r : DecimalScan)
    (hroom : r.digits.length + ds.length ≤ 73) :
    scanDecimal (ds ++ rest) r = scanDecimal rest
      ⟨r.digits ++ ds, r.haveDp, if r.haveDp then r.dweight else r.dweight + ds.length⟩ := by
  induction ds generalizing r with
  | nil => simp
  | cons c ds ih =>
    have hc := h c mem_cons_self
    rw [length_cons] at hroom
    rw [cons_append, scanDecimal, if_pos hc, if_pos (by omega),
      ih (fun d hd => h d (mem_cons_of_mem _ hd)) _ (by simp; omega)]
    congr 1
    cases hdp : r.haveDp with
    | true => simp
    | false =>
      simp only [append_assoc, cons_append, nil_append, Bool.false_eq_true,
        if_false, length_cons]
      push_cast
      ring_nf

theorem scanDecimal_too_long (h : ∀ c ∈ ds, isDigit c = true) (rest : Text) (r : DecimalScan)
    (hr : r.digits.length ≤ 73) (hroom : 73 < r.digits.length + ds.length) :
    scanDecimal (ds ++ rest) r = .error .outOfBounds := by
  induction ds generalizing r with
  | nil => simp only [length_nil] at hroom; omega
  | cons c ds ih =>
    have hc := h c mem_cons_self
    rw [length_cons] at hroom
    rw [cons_append, scanDecimal, if_pos hc]
    split
    · exact ih (fun d hd => h d (mem_cons_of_mem _ hd)) _ (by simp; omega) (by simp; omega)
    · rfl

theorem scanDecimal_printed {I D : Text} (hI : ∀ c ∈ I, isDigit c = true)
    (hD : ∀ c ∈ D, isDigit c = true) (hs : D.length = s) :
    scanDecimal (I ++ if 0 < s then 46 :: D else []) ⟨[], false, -1⟩ =
      if I.length + s ≤ 73 then .ok (some (⟨I ++ D, decide (0 < s), (I.length : ℤ) - 1⟩, []))
      else .error .outOfBounds := by
  by_cases hroom : I.length + s ≤ 73
  · rw [if_pos hroom, scanDecimal_digits hI _ _ (by rw [length_nil]; omega), nil_append]
    obtain rfl | hpos := Nat.eq_zero_or_pos s
    · rw [if_neg (by decide), eq_nil_of_length_eq_zero hs, scanDecimal, append_nil]
      simp [sub_eq_neg_add]
    · -- the point, then the digits behind it
      rw [if_pos hpos, scanDecimal, if_neg (by decide), if_pos rfl, if_neg (by simp)]
      have hdigits := scanDecimal_digits hD [] ⟨I, true, -1 + I.length⟩ (by simp only; omega)
      rw [append_nil, scanDecimal] at hdigits
      simpa [hpos, sub_eq_neg_add] using hdigits
  · rw [if_neg hroom]
    by_cases hlong : 73 < I.length
    · exact scanDecimal_too_long hI _ _ (by simp) (by simpa using hlong)
    · rw [scanDecimal_digits hI _ _ (by rw [length_nil]; omega), nil_append,
        if_pos (by omega), scanDecimal, if_neg (by decide), if_pos rfl, if_neg (by simp)]
      have herror := scanDecimal_too_long hD [] ⟨I, true, -1 + I.length⟩ (by simp only; omega)
        (by simp only; omega)
      rw [append_nil] at herror
      simpa using herror

/-! ### The word -/

theorem digitsValue_terminated (h : ∀ c ∈ ds, isDigit c = true) (rest : Text) :
    digitsValue (ds ++ 0 :: rest) = decimalValue ds := by
  rw [digitsValue, takeWhile_append_of_pos h, takeWhile_cons_of_neg (by decide),
    append_nil, decimalValue]

theorem cut_array {n : ℕ} (hs : s ≤ 30) (hn : n ≤ 42) (hlength : ds.length = n + s) :
    (ds ++ replicate (73 - ds.length) 48).set (30 + n) 0 =
      ds ++ (replicate (30 - s) 48 ++ 0 :: replicate (42 - n) 48) := by
  have hzeros : replicate (73 - ds.length) (48 : UInt8) =
      replicate (30 - s) 48 ++ 48 :: replicate (42 - n) 48 := by
    rw [show 73 - ds.length = (30 - s) + ((42 - n) + 1) by omega, replicate_add,
      replicate_succ]
  rw [hzeros, set_append_right _ _ (by omega), set_append_right _ _ (by simp; omega),
    length_replicate, show 30 + n - ds.length - (30 - s) = 0 by omega, set_cons_zero]

theorem decimalWord_printed {n : ℕ} (h : ∀ c ∈ ds, isDigit c = true) (hs : s ≤ 30)
    (hlength : ds.length = n + s) (negative : Bool) :
    decimalWord s ((n : ℤ) - 1) negative ds =
      if n ≤ 42 then
        .ok (if negative then -((decimalValue ds * 10 ^ (30 - s) : ℕ) : ℤ)
          else ((decimalValue ds * 10 ^ (30 - s) : ℕ) : ℤ))
      else .error .outOfBounds := by
  have hcut : (31 + ((n : ℤ) - 1)).toNat = 30 + n := by omega
  have hround : ((s : ℤ) + ((n : ℤ) - 1) + 1).toNat = ds.length := by omega
  simp only [decimalWord]
  by_cases hn : n ≤ 42
  · rw [if_pos hn, if_pos (by omega), hcut, hround, cut_array hs hn hlength]
    have hdigit : ¬(53 : UInt8) ≤
        (ds ++ (replicate (30 - s) 48 ++ 0 :: replicate (42 - n) 48)).getD ds.length 0 := by
      rw [getD_eq_getElem?_getD, getElem?_append_right le_rfl, Nat.sub_self]
      cases 30 - s with
      | zero => exact (by decide : ¬(53 : UInt8) ≤ 0)
      | succ k => exact (by decide : ¬(53 : UInt8) ≤ 48)
    have hrest : (ds ++ (replicate (30 - s) 48 ++ 0 :: replicate (42 - n) 48)).drop
        (ds.length + (30 - s)) = 0 :: replicate (42 - n) 48 := by
      rw [← drop_drop, drop_left, drop_left' (length_replicate ..)]
    have hall : ∀ c ∈ ds ++ replicate (30 - s) 48, isDigit c = true := by
      intro c hc
      rw [mem_append, mem_replicate] at hc
      obtain hc | ⟨-, rfl⟩ := hc
      · exact h c hc
      · decide
    rw [if_neg hdigit, take_left, hrest, digitsValue_terminated hall,
      Loader.decimalValue_append, Loader.decimalValue_zeros, length_replicate, Nat.add_zero]
  · rw [if_neg hn, if_neg (by omega)]

/-! ### Printed decimals -/

def integerDigits (n : ℤ) : ℕ := (toDecimal (n.natAbs / 10 ^ 30)).length

theorem decimalValue_printed {F : Text} {m : ℕ} (hs : s ≤ 30) (hF : F.length = 30)
    (hdigits : ∀ c ∈ F, isDigit c = true) (hvalue : decimalValue F = m % 10 ^ 30) :
    decimalValue (toDecimal (m / 10 ^ 30) ++ F.take s) = m / 10 ^ (30 - s) := by
  have hrest : decimalValue (F.drop s) < 10 ^ (30 - s) := by
    have hlt : decimalValue (F.drop s) < 10 ^ (F.drop s).length :=
      decimalValue_lt fun c hc => hdigits c (mem_of_mem_drop hc)
    rwa [length_drop, hF] at hlt
  have hsplit : decimalValue F =
      decimalValue (F.take s) * 10 ^ (30 - s) + decimalValue (F.drop s) := by
    conv_lhs => rw [← take_append_drop s F, Loader.decimalValue_append, length_drop, hF]
  have hpow : 10 ^ 30 = 10 ^ s * 10 ^ (30 - s) := by
    rw [← pow_add, Nat.add_sub_cancel' hs]
  have htake : (F.take s).length = s := by rw [length_take, hF, Nat.min_eq_left hs]
  rw [Loader.decimalValue_append, Loader.decimalValue_toDecimal, htake]
  refine (((Nat.div_mod_unique (Nat.pow_pos (by decide))).mpr ⟨?_, hrest⟩).1).symm
  calc decimalValue (F.drop s) +
        10 ^ (30 - s) * (m / 10 ^ 30 * 10 ^ s + decimalValue (F.take s))
      = 10 ^ s * 10 ^ (30 - s) * (m / 10 ^ 30) +
          (decimalValue (F.take s) * 10 ^ (30 - s) + decimalValue (F.drop s)) := by ring
    _ = m := by rw [← hpow, ← hsplit, hvalue, Nat.div_add_mod]

theorem decimalSign_printed (n : ℤ) (m : ℕ) (rest : Text) :
    decimalSign (skipSpace ((if n < 0 then [45] else []) ++ toDecimal m ++ rest)) =
      (decide (n < 0), toDecimal m ++ rest) := by
  split_ifs with hneg
  · rw [append_assoc, singleton_append, Loader.skipSpace_of_head (.inr rfl), decimalSign,
      decide_eq_true hneg]
  · obtain ⟨c, cs, hm, hc, -⟩ := Loader.exists_toDecimal_cons m
    rw [nil_append, hm, cons_append, Loader.skipSpace_of_head (.inl hc),
      decide_eq_false hneg]
    unfold decimalSign
    split
    · rename_i heq
      exact absurd (cons.inj heq).1 (Loader.ne_of_isDigit hc (by decide))
    · rename_i heq
      exact absurd (cons.inj heq).1 (Loader.ne_of_isDigit hc (by decide))
    · rfl

theorem truncate_eq (n : ℤ) (k : ℕ) :
    (if n < 0 then -((n.natAbs / 10 ^ k * 10 ^ k : ℕ) : ℤ)
      else ((n.natAbs / 10 ^ k * 10 ^ k : ℕ) : ℤ)) = n.tdiv (10 ^ k) * 10 ^ k := by
  have hcast : ∀ m : ℕ, ((m / 10 ^ k * 10 ^ k : ℕ) : ℤ) = (m : ℤ).tdiv (10 ^ k) * 10 ^ k := by
    intro m
    rw [Nat.cast_mul, Int.ofNat_tdiv, Nat.cast_pow]
    rfl
  split_ifs with hneg
  · obtain ⟨m, rfl⟩ : ∃ m : ℕ, n = -m := ⟨n.natAbs, by omega⟩
    rw [Int.natAbs_neg, Int.natAbs_natCast, hcast, Int.neg_tdiv, Int.neg_mul]
  · obtain ⟨m, rfl⟩ : ∃ m : ℕ, n = m := ⟨n.natAbs, by omega⟩
    rw [Int.natAbs_natCast, hcast]

theorem strtoDecimal_printed (hs : s ≤ 30) (p : ℕ) (ht : decimalToString s n = .ok t) :
    strtoDecimal p s t =
      if 73 < integerDigits n + s then .error .outOfBounds
      else if (p : ℤ) - s < (integerDigits n : ℤ) - 1 then .ok 0
      else if integerDigits n ≤ 42 then .ok (n.tdiv (10 ^ (30 - s)) * 10 ^ (30 - s))
      else .error .outOfBounds := by
  obtain ⟨F, htext, hF, hdigits, hvalue⟩ := exists_decimalToString hs n
  obtain rfl := Except.ok.inj (htext.symm.trans ht)
  have hI := Loader.isDigit_of_mem_toDecimal (n := n.natAbs / 10 ^ 30)
  have hD : ∀ c ∈ F.take s, isDigit c = true := fun c hc => hdigits c (mem_of_mem_take hc)
  have hlength : (F.take s).length = s := by rw [length_take, hF, min_eq_left hs]
  have hall : ∀ c ∈ toDecimal (n.natAbs / 10 ^ 30) ++ F.take s, isDigit c = true := fun c hc =>
    (mem_append.mp hc).elim (hI c) (hD c)
  unfold strtoDecimal
  rw [decimalSign_printed]
  simp only
  rw [scanDecimal_printed hI hD hlength]
  change (if integerDigits n + s ≤ 73 then _ else _) >>= _ = _
  by_cases hroom : integerDigits n + s ≤ 73
  · rw [if_pos hroom, if_neg (by omega)]
    simp only [Run.bind_ok, decimalWeight]
    refine if_congr Iff.rfl rfl ?_
    rw [if_neg (by simp [skipSpace])]
    refine (decimalWord_printed hall hs (by rw [length_append, hlength]) _).trans ?_
    rw [decimalValue_printed hs hF hdigits hvalue]
    simp only [decide_eq_true_eq, truncate_eq]
    rfl
  · rw [if_neg hroom, if_pos (by omega)]
    rfl

theorem bmod_truncate (hn : bmod n (2 ^ 256) = n) (k : ℕ) :
    bmod (n.tdiv (10 ^ k) * 10 ^ k) (2 ^ 256) = n.tdiv (10 ^ k) * 10 ^ k := by
  have hlow := le_bmod (x := n) (m := 2 ^ 256) (by norm_num)
  have hhigh := bmod_lt (x := n) (m := 2 ^ 256) (by norm_num)
  rw [hn] at hlow hhigh
  have hle := div_mul_le_self n.natAbs (10 ^ k)
  rw [← truncate_eq]
  apply bmod_eq_of_le <;> split <;> omega

theorem strtoDecimal_printed_iff (hs : s ≤ 30) (p : ℕ) (hn : Int.bmod n (2 ^ 256) = n)
    (ht : decimalToString s n = .ok t) :
    (∃ m, strtoDecimal p s t = .ok m ∧ Int.bmod m (2 ^ 256) = n) ↔
      n = 0 ∨ ((10 : ℤ) ^ (30 - s) ∣ n ∧ integerDigits n ≤ 42 ∧
        (integerDigits n : ℤ) - 1 ≤ (p : ℤ) - s) := by
  have hzero : integerDigits 0 = 1 := rfl
  rw [strtoDecimal_printed hs p ht]
  by_cases hroom : 73 < integerDigits n + s
  · rw [if_pos hroom]
    refine iff_of_false (fun ⟨m, hm, _⟩ => by cases hm) ?_
    rintro (rfl | ⟨-, hdigits, -⟩) <;> omega
  · rw [if_neg hroom]
    by_cases hrefused : (p : ℤ) - s < (integerDigits n : ℤ) - 1
    · rw [if_pos hrefused]
      constructor
      · rintro ⟨m, hm, hbmod⟩
        rw [← Except.ok.inj hm] at hbmod
        exact .inl hbmod.symm
      · rintro (rfl | ⟨-, -, hfits⟩)
        · exact ⟨0, rfl, rfl⟩
        · omega
    · rw [if_neg hrefused]
      by_cases hlong : integerDigits n ≤ 42
      · rw [if_pos hlong]
        constructor
        · rintro ⟨m, hm, hbmod⟩
          rw [← Except.ok.inj hm, bmod_truncate hn] at hbmod
          exact .inr ⟨⟨_, (Int.mul_comm _ _).trans hbmod |>.symm⟩, hlong, by omega⟩
        · intro h
          have hdvd : (10 : ℤ) ^ (30 - s) ∣ n := by
            obtain rfl | ⟨hdvd, -⟩ := h
            · exact dvd_zero _
            · exact hdvd
          refine ⟨_, rfl, ?_⟩
          rw [Int.tdiv_mul_cancel hdvd, hn]
      · rw [if_neg hlong]
        refine iff_of_false (fun ⟨m, hm, _⟩ => by cases hm) ?_
        rintro (rfl | ⟨-, hdigits, -⟩) <;> omega

end Columns
