import Mathlib.Data.Nat.Log
import Mathlib.Tactic.Ring

/-!
# Natural numbers as binary64

A natural number converted to binary64 keeps 53 significant bits, rounded to
nearest, ties to an even significand. The result is again a whole number, which
is all these modules need of the format; the numbers converted are 64-bit, far
from its overflow.
-/
namespace Eunha.Binary64

/-- `n as f64`: the low `shift` bits are rounded away. -/
def asF64 (n : ℕ) : ℕ :=
  let shift := n.log2 + 1 - 53
  let kept := n / 2 ^ shift
  let rest := n % 2 ^ shift
  let roundsUp := 2 ^ shift < 2 * rest ∨ 2 ^ shift = 2 * rest ∧ kept % 2 = 1
  (if roundsUp then kept + 1 else kept) * 2 ^ shift

theorem asF64_of_le {n : ℕ} (h : n ≤ 2 ^ 53) : asF64 n = n := by
  rcases Nat.lt_or_eq_of_le h with hlt | heq
  · have hlog : n.log2 + 1 - 53 = 0 := by
      rcases Nat.eq_zero_or_pos n with h0 | h0
      · rw [h0]
        decide
      · have := (Nat.log2_lt h0.ne').2 hlt
        omega
    simp [asF64, hlog, Nat.mod_one]
  · rw [heq]
    decide +kernel

/-! ### Rounding to a unit -/

/-- Rounded to a multiple of the unit: the nearest, the even one of two. -/
def toUnit (unit n : ℕ) : ℕ :=
  (if unit < 2 * (n % unit) ∨ unit = 2 * (n % unit) ∧ n / unit % 2 = 1 then n / unit + 1
    else n / unit) * unit

theorem asF64_eq_toUnit (n : ℕ) : asF64 n = toUnit (2 ^ (n.log2 + 1 - 53)) n := rfl

theorem toUnit_bounds (unit n : ℕ) : n / unit * unit ≤ toUnit unit n ∧
    toUnit unit n ≤ (n / unit + 1) * unit := by
  rw [toUnit]
  split
  · exact ⟨Nat.mul_le_mul_right _ (Nat.le_succ _), le_rfl⟩
  · exact ⟨le_rfl, Nat.mul_le_mul_right _ (Nat.le_succ _)⟩

theorem toUnit_mono {unit m n : ℕ} (h : m ≤ n) : toUnit unit m ≤ toUnit unit n := by
  have hdiv : m / unit ≤ n / unit := Nat.div_le_div_right h
  rcases Nat.lt_or_eq_of_le hdiv with hlt | heq
  · have := (toUnit_bounds unit m).2
    exact this.trans ((Nat.mul_le_mul_right _ hlt).trans (toUnit_bounds unit n).1)
  · have hmod : m % unit ≤ n % unit := by
      have hm := Nat.div_add_mod m unit
      have hn := Nat.div_add_mod n unit
      rw [heq] at hm
      omega
    rw [toUnit, toUnit, heq]
    apply Nat.mul_le_mul_right
    split
    · rename_i hup
      rw [if_pos]
      rcases hup with hlt | ⟨htie, hodd⟩
      · exact .inl (by omega)
      · rcases Nat.lt_or_eq_of_le hmod with hlt | heq'
        · exact .inl (by omega)
        · exact .inr ⟨by omega, hodd⟩
    · split
      · exact Nat.le_succ _
      · exact le_rfl

theorem toUnit_near {unit : ℕ} (hunit : 0 < unit) (n : ℕ) :
    2 * toUnit unit n ≤ 2 * n + unit ∧ 2 * n ≤ 2 * toUnit unit n + unit := by
  have hn := Nat.div_add_mod n unit
  have hmod := Nat.mod_lt n hunit
  rw [Nat.mul_comm] at hn
  rw [toUnit]
  split
  · rename_i hup
    rw [Nat.add_mul, Nat.one_mul]
    rcases hup with hlt | ⟨htie, -⟩ <;> omega
  · rename_i hdown
    rw [not_or] at hdown
    omega

theorem toUnit_between {unit n a b : ℕ} (hlow : a * unit ≤ n) (hhigh : n ≤ b * unit)
    (hunit : 0 < unit) : a * unit ≤ toUnit unit n ∧ toUnit unit n ≤ b * unit := by
  have hself : ∀ c, toUnit unit (c * unit) = c * unit := by
    intro c
    rw [toUnit, Nat.mul_mod_left, Nat.mul_div_cancel _ hunit, if_neg]
    omega
  exact ⟨hself a ▸ toUnit_mono hlow, hself b ▸ toUnit_mono hhigh⟩

theorem asF64_between {n : ℕ} (h : 0 < n) :
    2 ^ n.log2 ≤ asF64 n ∧ asF64 n ≤ 2 ^ (n.log2 + 1) := by
  have hlow : 2 ^ n.log2 ≤ n := Nat.log2_self_le h.ne'
  have hhigh : n < 2 ^ (n.log2 + 1) := Nat.lt_log2_self
  have hsplit : ∀ k, n.log2 ≤ k → 2 ^ k = 2 ^ (k - (n.log2 + 1 - 53)) * 2 ^ (n.log2 + 1 - 53) := by
    intro k hk
    rw [← Nat.pow_add]
    congr 1
    omega
  rw [asF64_eq_toUnit, hsplit _ le_rfl, hsplit _ (Nat.le_succ _)]
  apply toUnit_between
  · rw [← hsplit _ le_rfl]
    exact hlow
  · rw [← hsplit _ (Nat.le_succ _)]
    exact hhigh.le
  · exact Nat.two_pow_pos _

theorem asF64_mono {m n : ℕ} (h : m ≤ n) : asF64 m ≤ asF64 n := by
  rcases Nat.eq_zero_or_pos m with rfl | hm
  · rw [asF64_of_le (Nat.zero_le _)]
    exact Nat.zero_le _
  · have hlog : m.log2 ≤ n.log2 := by
      rw [Nat.log2_eq_log_two, Nat.log2_eq_log_two]
      exact Nat.log_mono_right h
    rcases Nat.lt_or_eq_of_le hlog with hlt | heq
    · have hpow : 2 ^ (m.log2 + 1) ≤ 2 ^ n.log2 := Nat.pow_le_pow_right (by decide) hlt
      exact (asF64_between hm).2.trans (hpow.trans (asF64_between (hm.trans_le h)).1)
    · rw [asF64_eq_toUnit, asF64_eq_toUnit, heq]
      exact toUnit_mono h

theorem asF64_pos {n : ℕ} (h : 0 < n) : 0 < asF64 n :=
  (Nat.two_pow_pos _).trans_le (asF64_between h).1

end Eunha.Binary64
