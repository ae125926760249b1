/-
Objects as bytes.  A `Codec` is the object
representation of a type: a fixed number of bytes from which the value can be
read back.
-/
import ClaimsDB.Faults

structure Codec (α : Type) where
  /-- `sizeof` -/
  size : ℕ
  encode : α → List UInt8
  decode : List UInt8 → α
  length_encode : ∀ x, (encode x).length = size
  decode_encode : ∀ x, decode (encode x) = x

attribute [simp] Codec.length_encode Codec.decode_encode

namespace Codec

variable {α β : Type}

/-! ### Little-endian words -/

def leBytes : ℕ → ℕ → List UInt8
  | 0, _ => []
  | w + 1, n => UInt8.ofNat n :: leBytes w (n / 256)

def ofLe : List UInt8 → ℕ
  | [] => 0
  | b :: bs => b.toNat + 256 * ofLe bs

@[simp] theorem length_leBytes : ∀ w n, (leBytes w n).length = w
  | 0, _ => rfl
  | w + 1, n => by rw [leBytes, List.length_cons, length_leBytes w]

theorem ofLe_leBytes : ∀ w n, ofLe (leBytes w n) = n % 256 ^ w
  | 0, n => by simp [leBytes, ofLe, Nat.mod_one]
  | w + 1, n => by
    rw [leBytes, ofLe, ofLe_leBytes w, UInt8.toNat_ofNat', pow_succ' 256 w,
      Nat.mod_mul (x := n) (a := 256)]

theorem ofLe_lt : ∀ bs : List UInt8, ofLe bs < 256 ^ bs.length
  | [] => by simp [ofLe]
  | b :: bs => by
    have hb := b.toNat_lt
    have hbs := ofLe_lt bs
    rw [ofLe, List.length_cons, pow_succ]
    omega

theorem leBytes_ofLe : ∀ bs : List UInt8, leBytes bs.length (ofLe bs) = bs
  | [] => rfl
  | b :: bs => by
    have hb := b.toNat_lt
    have hlow : UInt8.ofNat (b.toNat + 256 * ofLe bs) = b := by
      refine UInt8.toNat_inj.mp ?_
      rw [UInt8.toNat_ofNat']
      omega
    have hhigh : (b.toNat + 256 * ofLe bs) / 256 = ofLe bs := by omega
    rw [List.length_cons, ofLe, leBytes, hlow, hhigh, leBytes_ofLe bs]

theorem eq_leBytes_iff {bs : List UInt8} {w n : ℕ} (hw : bs.length = w) (hn : n < 256 ^ w) :
    bs = leBytes w n ↔ ofLe bs = n := by
  constructor
  · rintro rfl
    rw [ofLe_leBytes, Nat.mod_eq_of_lt hn]
  · rintro rfl
    rw [← hw, leBytes_ofLe]

theorem ofLe_append (as bs : List UInt8) :
    ofLe (as ++ bs) = ofLe as + 256 ^ as.length * ofLe bs := by
  induction as with
  | nil => simp [ofLe]
  | cons a as ih =>
    rw [List.cons_append, ofLe, ih, ofLe, List.length_cons, pow_succ]
    ring

/-- A word of `w` bytes for a type whose values are numbered by `toNat`. -/
def word (w : ℕ) (toNat : α → ℕ) (ofNat : ℕ → α) (h : ∀ x, ofNat (toNat x % 256 ^ w) = x) :
    Codec α where
  size := w
  encode x := leBytes w (toNat x)
  decode bs := ofNat (ofLe bs)
  length_encode _ := length_leBytes _ _
  decode_encode x := by rw [ofLe_leBytes, h]

def uint16 : Codec UInt16 := word 2 UInt16.toNat UInt16.ofNat fun x => by
  rw [Nat.mod_eq_of_lt (by simpa using x.toNat_lt), UInt16.ofNat_toNat]

def uint32 : Codec UInt32 := word 4 UInt32.toNat UInt32.ofNat fun x => by
  rw [Nat.mod_eq_of_lt (by simpa using x.toNat_lt), UInt32.ofNat_toNat]

def uint64 : Codec UInt64 := word 8 UInt64.toNat UInt64.ofNat fun x => by
  rw [Nat.mod_eq_of_lt (by simpa using x.toNat_lt), UInt64.ofNat_toNat]

def load (c : Codec α) (off : ℕ) (memory : List UInt8) : α :=
  c.decode ((memory.drop off).take c.size)

end Codec
