/-
Joins of bags of rows.  A joined row says which row each of some named tables contributes.
-/
import Mathlib.Data.Multiset.Bind
import Mathlib.Data.Finset.Basic

namespace Rows

open Multiset

variable {Name Row α : Type}

/-! ### Selection -/

def select (p : α → Bool) (A : Multiset α) : Multiset α := A.filter fun x => p x = true

@[simp] theorem mem_select {p : α → Bool} {A : Multiset α} {x : α} :
    x ∈ select p A ↔ x ∈ A ∧ p x = true := mem_filter

theorem select_congr {p q : α → Bool} {A : Multiset α} (h : ∀ x ∈ A, p x = q x) :
    select p A = select q A :=
  filter_congr fun x hx => by rw [h x hx]

theorem select_select (p q : α → Bool) (A : Multiset α) :
    select p (select q A) = select (fun x => p x && q x) A := by
  rw [select, select, select, filter_filter]
  exact filter_congr fun x _ => by simp

theorem select_eq_self {p : α → Bool} {A : Multiset α} (h : ∀ x ∈ A, p x = true) :
    select p A = A := filter_eq_self.2 h

/-! ### Joined rows -/

/-- A joined row: the row each named table contributes, if it takes part. -/
abbrev Joined (Name Row : Type) := Name → Option Row

/-- The rows of `x`, and those of `y` for the tables that `x` does not cover. -/
def merge (x y : Joined Name Row) : Joined Name Row := fun a => x a <|> y a

def single [DecidableEq Name] (a : Name) (row : Row) : Joined Name Row :=
  fun b => if b = a then some row else none

def padded [DecidableEq Name] (null : Row) (T : Finset Name) : Joined Name Row :=
  fun a => if a ∈ T then some null else none

/-- The tables that contribute to `x` are those of `T`. -/
def Over (T : Finset Name) (x : Joined Name Row) : Prop := ∀ a, (x a).isSome = true ↔ a ∈ T

variable {p : Joined Name Row → Bool} {A : Multiset (Joined Name Row)} {T : Finset Name}
  {x : Joined Name Row} {a : Name} {S : Finset Name} {y : Joined Name Row}
  {B : Multiset (Joined Name Row)} {m : Joined Name Row → Bool} {pad : Joined Name Row}
  {m' : Joined Name Row → Bool} {padLeft padRight : Joined Name Row}

theorem Over.eq_none (hx : Over T x) (ha : a ∉ T) : x a = none := by
  rw [← Option.not_isSome_iff_eq_none, hx a]
  exact ha

theorem over_single [DecidableEq Name] (a : Name) (row : Row) : Over {a} (single a row) := by
  intro b
  by_cases h : b = a <;> simp [single, h]

theorem over_padded [DecidableEq Name] (null : Row) (T : Finset Name) : Over T (padded null T) := by
  intro a
  by_cases h : a ∈ T <;> simp [padded, h]

theorem merge_left (hx : Over T x) (y : Joined Name Row) (ha : a ∈ T) : merge x y a = x a := by
  obtain ⟨row, hrow⟩ := Option.isSome_iff_exists.1 ((hx a).2 ha)
  simp [merge, hrow]

theorem merge_right (hx : Over T x) (y : Joined Name Row) (ha : a ∉ T) : merge x y a = y a := by
  simp [merge, hx.eq_none ha]

theorem Over.merge [DecidableEq Name] (hx : Over S x) (hy : Over T y) :
    Over (S ∪ T) (Rows.merge x y) := by
  intro a
  by_cases ha : a ∈ S
  · rw [merge_left hx y ha, hx a]
    simp [ha]
  · rw [merge_right hx y ha, hy a]
    simp [ha]

theorem merge_comm (hx : Over S x) (hy : Over T y) (hd : Disjoint S T) : merge x y = merge y x := by
  funext a
  by_cases ha : a ∈ S
  · rw [merge_left hx y ha, merge_right hy x (Finset.disjoint_left.1 hd ha)]
  · rw [merge_right hx y ha]
    by_cases hb : a ∈ T
    · rw [merge_left hy x hb]
    · rw [merge_right hy x hb, hx.eq_none ha, hy.eq_none hb]

/-- The test looks at the rows of the tables of `T` only. -/
def Reads (T : Finset Name) (p : Joined Name Row → Bool) : Prop :=
  ∀ x y, (∀ a ∈ T, x a = y a) → p x = p y

theorem Reads.merge_left (hp : Reads S p) (hx : Over S x) (y : Joined Name Row) :
    p (merge x y) = p x :=
  hp _ _ fun _ ha => Rows.merge_left hx y ha

theorem Reads.merge_right (hp : Reads T p) (hx : Over S x) (hd : Disjoint S T)
    (y : Joined Name Row) : p (merge x y) = p y :=
  hp _ _ fun _ ha => Rows.merge_right hx y (Finset.disjoint_right.1 hd ha)

/-! ### Products -/

def AllOver (T : Finset Name) (A : Multiset (Joined Name Row)) : Prop := ∀ x ∈ A, Over T x

def product (A B : Multiset (Joined Name Row)) : Multiset (Joined Name Row) :=
  A.bind fun x => B.map fun y => merge x y

theorem mem_product {z : Joined Name Row} : z ∈ product A B ↔ ∃ x ∈ A, ∃ y ∈ B, merge x y = z := by
  simp [product]

theorem AllOver.select (hA : AllOver T A) (p : Joined Name Row → Bool) :
    AllOver T (Rows.select p A) :=
  fun x hx => hA x (mem_select.1 hx).1

theorem AllOver.product [DecidableEq Name] (hA : AllOver S A) (hB : AllOver T B) :
    AllOver (S ∪ T) (Rows.product A B) := by
  intro z hz
  obtain ⟨x, hx, y, hy, rfl⟩ := mem_product.1 hz
  exact (hA x hx).merge (hB y hy)

theorem allOver_map_single [DecidableEq Name] (a : Name) (rows : Multiset Row) :
    AllOver {a} (rows.map (single a)) := by
  intro x hx
  obtain ⟨row, -, rfl⟩ := mem_map.1 hx
  exact over_single a row

theorem product_comm (hA : AllOver S A) (hB : AllOver T B) (hd : Disjoint S T) :
    product A B = product B A := by
  rw [product, bind_map_comm]
  refine bind_congr fun y hy => map_congr rfl fun x hx => ?_
  exact merge_comm (hA x hx) (hB y hy) hd

theorem product_select_left (hp : Reads S p) (hA : AllOver S A) :
    product (select p A) B = select p (product A B) := by
  rw [select, select, product, product, bind_filter, filter_bind]
  refine bind_congr fun x hx => ?_
  have hread : ∀ y, p (merge x y) = p x := fun y => hp.merge_left (hA x hx) y
  cases h : p x <;> simp [filter_map, hread, h]

theorem product_select_right (hp : Reads T p) (hA : AllOver S A) (hd : Disjoint S T) :
    product A (select p B) = select p (product A B) := by
  rw [select, select, product, product, filter_bind]
  refine bind_congr fun x hx => ?_
  rw [filter_map]
  congr 1
  refine filter_congr fun y _ => ?_
  rw [Function.comp_apply, hp.merge_right (hA x hx) hd y]

/-! ### Outer joins -/

def matched (m : Joined Name Row → Bool) (A B : Multiset (Joined Name Row)) :
    Multiset (Joined Name Row) := select m (product A B)

def unmatchedRight (m : Joined Name Row → Bool) (A B : Multiset (Joined Name Row)) :
    Multiset (Joined Name Row) := B.filter fun y => ∀ x ∈ A, m (merge x y) = false

def unmatchedLeft (m : Joined Name Row → Bool) (A B : Multiset (Joined Name Row)) :
    Multiset (Joined Name Row) := A.filter fun x => ∀ y ∈ B, m (merge x y) = false

def leftOuter (m : Joined Name Row → Bool) (pad : Joined Name Row)
    (A B : Multiset (Joined Name Row)) : Multiset (Joined Name Row) :=
  matched m A B + (unmatchedLeft m A B).map fun x => merge x pad

def rightOuter (m : Joined Name Row → Bool) (pad : Joined Name Row)
    (A B : Multiset (Joined Name Row)) : Multiset (Joined Name Row) :=
  matched m A B + (unmatchedRight m A B).map fun y => merge pad y

def fullOuter (m : Joined Name Row → Bool) (padLeft padRight : Joined Name Row)
    (A B : Multiset (Joined Name Row)) : Multiset (Joined Name Row) :=
  rightOuter m padLeft A B + (unmatchedLeft m A B).map fun x => merge x padRight

theorem leftOuter_eq_rightOuter (hA : AllOver S A) (hB : AllOver T B) (hpad : Over T pad)
    (hd : Disjoint S T) : leftOuter m pad A B = rightOuter m pad B A := by
  have hun : unmatchedLeft m A B = unmatchedRight m B A := by
    refine filter_congr fun x hx => forall₂_congr fun y hy => ?_
    rw [merge_comm (hA x hx) (hB y hy) hd]
  rw [leftOuter, rightOuter, matched, matched, product_comm hA hB hd, hun]
  congr 1
  refine map_congr rfl fun x hx => ?_
  exact merge_comm (hA x (mem_of_mem_filter hx)) hpad hd

theorem rightOuter_congr (h : ∀ x ∈ A, ∀ y ∈ B, m (merge x y) = m' (merge x y)) :
    rightOuter m pad A B = rightOuter m' pad A B := by
  have hmatch : matched m A B = matched m' A B := by
    refine select_congr fun z hz => ?_
    obtain ⟨x, hx, y, hy, rfl⟩ := mem_product.1 hz
    exact h x hx y hy
  have hun : unmatchedRight m A B = unmatchedRight m' A B :=
    filter_congr fun y hy => forall₂_congr fun x hx => by rw [h x hx y hy]
  rw [rightOuter, rightOuter, hmatch, hun]

theorem fullOuter_congr (h : ∀ x ∈ A, ∀ y ∈ B, m (merge x y) = m' (merge x y)) :
    fullOuter m padLeft padRight A B = fullOuter m' padLeft padRight A B := by
  have hun : unmatchedLeft m A B = unmatchedLeft m' A B :=
    filter_congr fun x hx => forall₂_congr fun y hy => by rw [h x hx y hy]
  rw [fullOuter, fullOuter, rightOuter_congr h, hun]

theorem rightOuter_select_left (hp : Reads S p) (hA : AllOver S A) :
    rightOuter m pad (select p A) B = rightOuter (fun z => m z && p z) pad A B := by
  have hmatch : matched m (select p A) B = matched (fun z => m z && p z) A B := by
    rw [matched, matched, product_select_left hp hA, select_select]
  have hun : unmatchedRight m (select p A) B = unmatchedRight (fun z => m z && p z) A B := by
    refine filter_congr fun y _ => ⟨fun h x hx => ?_, fun h x hx => ?_⟩
    · -- a row that fails the test matches nothing
      show (m (merge x y) && p (merge x y)) = false
      rw [hp.merge_left (hA x hx) y]
      cases hpx : p x with
      | false => simp
      | true => simp [h x (mem_select.2 ⟨hx, hpx⟩)]
    · obtain ⟨hxA, hpx⟩ := mem_select.1 hx
      have hx' : (m (merge x y) && p (merge x y)) = false := h x hxA
      rw [hp.merge_left (hA x hxA) y, hpx, Bool.and_true] at hx'
      exact hx'
  rw [rightOuter, rightOuter, hmatch, hun]

section

variable [DecidableEq Name] (hA : AllOver S A) (hB : AllOver T B)

include hA hB

theorem allOver_rightOuter (hpad : Over S pad) : AllOver (S ∪ T) (rightOuter m pad A B) := by
  intro z hz
  obtain hz | hz := mem_add.1 hz
  · exact (hA.product hB).select m z hz
  · obtain ⟨y, hy, rfl⟩ := mem_map.1 hz
    exact hpad.merge (hB y (mem_of_mem_filter hy))

theorem allOver_leftOuter (hpad : Over T pad) : AllOver (S ∪ T) (leftOuter m pad A B) := by
  intro z hz
  obtain hz | hz := mem_add.1 hz
  · exact (hA.product hB).select m z hz
  · obtain ⟨x, hx, rfl⟩ := mem_map.1 hz
    exact (hA x (mem_of_mem_filter hx)).merge hpad

theorem allOver_fullOuter (hleft : Over S padLeft) (hright : Over T padRight) :
    AllOver (S ∪ T) (fullOuter m padLeft padRight A B) := by
  intro z hz
  obtain hz | hz := mem_add.1 hz
  · exact allOver_rightOuter hA hB hleft z hz
  · obtain ⟨x, hx, rfl⟩ := mem_map.1 hz
    exact (hA x (mem_of_mem_filter hx)).merge hright

end

end Rows
