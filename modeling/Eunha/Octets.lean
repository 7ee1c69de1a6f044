import Mathlib

/-!
# Numbers as octet strings

A number below `256 ^ length` is a string of that many octets, most significant first. Octets
of zero in front change the length only.
-/
namespace Eunha.Octets

def octets : ℕ → ℕ → List UInt8
  | 0, _ => []
  | length + 1, x => UInt8.ofNat (x / 256 ^ length) :: octets length (x % 256 ^ length)

def os2ip (s : List UInt8) : ℕ := s.foldl (fun x b => 256 * x + b.toNat) 0

def i2osp (x length : ℕ) : Option (List UInt8) :=
  if x < 256 ^ length then some (octets length x) else none

def divCeil (a b : ℕ) : ℕ := (a + b - 1) / b

/-- How many octets the shortest string of a number has, one at least. -/
def width (x : ℕ) : ℕ := max 1 (divCeil (Nat.size x) 8)

theorem lt_divCeil {a b c : ℕ} (hb : 0 < b) : c < divCeil a b ↔ c * b < a := by
  rw [divCeil, Nat.lt_iff_add_one_le, Nat.le_div_iff_mul_le hb, Nat.add_mul, Nat.one_mul]
  omega

theorem le_divCeil_mul {a b : ℕ} (hb : 0 < b) : a ≤ divCeil a b * b :=
  Nat.le_of_not_lt fun h => (lt_divCeil hb).mpr h |>.false

theorem divCeil_le {a b : ℕ} (hb : 0 < b) : divCeil a b ≤ a := by
  refine Nat.le_of_not_lt fun h => ?_
  have hlt := (lt_divCeil hb).mp h
  have hle := Nat.le_mul_of_pos_right a hb
  omega

@[simp] theorem length_octets (length x : ℕ) : (octets length x).length = length := by
  induction length generalizing x with
  | zero => rfl
  | succ length ih => rw [octets, List.length_cons, ih]

theorem octets_add {x length : ℕ} (h : x < 256 ^ length) (more : ℕ) :
    octets (more + length) x = List.replicate more 0 ++ octets length x := by
  induction more with
  | zero => rw [Nat.zero_add, List.replicate_zero, List.nil_append]
  | succ more ih =>
      have hlt : x < 256 ^ (more + length) :=
        lt_of_lt_of_le h (Nat.pow_le_pow_right (by decide) (Nat.le_add_left _ _))
      rw [show more + 1 + length = more + length + 1 by omega, octets, Nat.div_eq_of_lt hlt,
        Nat.mod_eq_of_lt hlt, ih]
      rfl

theorem width_le_iff {x length : ℕ} (hlength : 1 ≤ length) :
    width x ≤ length ↔ x < 256 ^ length := by
  have hpow : (256 : ℕ) ^ length = 2 ^ (8 * length) := by
    rw [pow_mul]
    rfl
  rw [hpow, ← Nat.size_le, width, divCeil]
  omega

theorem replicate_octets {x length : ℕ} (hlength : 1 ≤ length) (h : x < 256 ^ length) :
    List.replicate (length - (octets (width x) x).length) 0 ++ octets (width x) x =
      octets length x := by
  have hle : width x ≤ length := (width_le_iff hlength).mpr h
  have hx : x < 256 ^ width x := (width_le_iff (le_max_left _ _)).mp le_rfl
  rw [length_octets, ← octets_add hx, Nat.sub_add_cancel hle]

theorem foldl_octets (s : List UInt8) (x : ℕ) :
    s.foldl (fun x b => 256 * x + b.toNat) x = 256 ^ s.length * x + os2ip s := by
  unfold os2ip
  induction s generalizing x with
  | nil => simp
  | cons b s ih =>
      rw [List.foldl_cons, List.foldl_cons, ih, ih (256 * 0 + b.toNat), List.length_cons]
      ring

theorem os2ip_append (s t : List UInt8) : os2ip (s ++ t) = 256 ^ t.length * os2ip s + os2ip t := by
  rw [os2ip, List.foldl_append, foldl_octets]
  rfl

theorem os2ip_replicate (more : ℕ) (s : List UInt8) :
    os2ip (List.replicate more 0 ++ s) = os2ip s := by
  have hzero : os2ip (List.replicate more 0) = 0 := by
    induction more with
    | zero => rfl
    | succ more ih =>
        rw [List.replicate_succ', os2ip_append, ih]
        rfl
  rw [os2ip_append, hzero, Nat.mul_zero, Nat.zero_add]

theorem os2ip_cons (b : UInt8) (s : List UInt8) :
    os2ip (b :: s) = b.toNat * 256 ^ s.length + os2ip s := by
  rw [os2ip, List.foldl_cons, foldl_octets, Nat.mul_zero, Nat.zero_add, Nat.mul_comm]

theorem os2ip_lt (s : List UInt8) : os2ip s < 256 ^ s.length := by
  induction s with
  | nil => decide
  | cons b s ih =>
      have hb : b.toNat + 1 ≤ 256 := b.toNat_lt
      have hmul := Nat.mul_le_mul_right (256 ^ s.length) hb
      rw [os2ip_cons, List.length_cons, pow_succ', ← Nat.succ_le_iff]
      rw [Nat.add_mul, Nat.one_mul] at hmul
      omega

theorem octets_os2ip (s : List UInt8) : octets s.length (os2ip s) = s := by
  induction s with
  | nil => rfl
  | cons b s ih =>
      have hlt := os2ip_lt s
      rw [List.length_cons, octets, os2ip_cons, Nat.add_comm,
        Nat.add_mul_div_right _ _ (Nat.pow_pos (by decide)), Nat.div_eq_of_lt hlt, Nat.zero_add,
        Nat.add_mul_mod_self_right, Nat.mod_eq_of_lt hlt, ih, UInt8.ofNat_toNat]

end Eunha.Octets
