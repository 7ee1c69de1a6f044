import Mathlib.Data.List.Induction
import Mathlib.Tactic.Ring
import Mathlib.Tactic.TypeStar

/-!
# Strings of bits

Numbers as the bits they are written in, the most significant first. A number of so
many bits and a string of that length give each other; two strings joined are the
quotient and the remainder of the number by the length of the second. Words of one
width are told apart in the string they make, whatever shorter end follows them.
-/
namespace Eunha.BitStrings

/-- The last `w` bits of `n`, the most significant first. -/
def bitsOf : ℕ → ℕ → List Bool
  | 0, _ => []
  | w + 1, n => bitsOf w (n / 2) ++ [decide (n % 2 = 1)]

def ofBits (l : List Bool) : ℕ := l.foldl (fun n b => 2 * n + b.toNat) 0

@[simp] theorem length_bitsOf (w n : ℕ) : (bitsOf w n).length = w := by
  induction w generalizing n with
  | zero => rfl
  | succ w ih => simp [bitsOf, ih]

@[simp] theorem ofBits_nil : ofBits [] = 0 := rfl

theorem ofBits_snoc (l : List Bool) (b : Bool) :
    ofBits (l ++ [b]) = 2 * ofBits l + b.toNat := by
  simp [ofBits]

theorem ofBits_append (a b : List Bool) :
    ofBits (a ++ b) = ofBits a * 2 ^ b.length + ofBits b := by
  induction b using List.reverseRecOn with
  | nil => simp
  | append_singleton b x ih =>
      rw [← List.append_assoc, ofBits_snoc, ofBits_snoc, ih, List.length_append,
        List.length_singleton, Nat.pow_succ]
      ring

theorem ofBits_lt (l : List Bool) : ofBits l < 2 ^ l.length := by
  induction l using List.reverseRecOn with
  | nil => simp
  | append_singleton l b ih =>
      rw [ofBits_snoc, List.length_append, List.length_singleton, Nat.pow_succ]
      have hb : b.toNat ≤ 1 := Bool.toNat_le b
      omega

theorem ofBits_bitsOf (w n : ℕ) : ofBits (bitsOf w n) = n % 2 ^ w := by
  induction w generalizing n with
  | zero => simp [bitsOf, Nat.mod_one]
  | succ w ih =>
      have hmod : n % 2 ^ (w + 1) = 2 * (n / 2 % 2 ^ w) + n % 2 := by
        rw [Nat.pow_succ, Nat.mul_comm, Nat.mod_mul]
        omega
      rw [bitsOf, ofBits_snoc, ih, hmod]
      by_cases h : n % 2 = 1
      · simp [h]
      · simp [h]; omega

theorem bitsOf_ofBits (l : List Bool) : bitsOf l.length (ofBits l) = l := by
  induction l using List.reverseRecOn with
  | nil => rfl
  | append_singleton l b ih =>
      have hhalf : (2 * ofBits l + b.toNat) / 2 = ofBits l := by
        have hb : b.toNat ≤ 1 := Bool.toNat_le b
        omega
      have hlast : decide ((2 * ofBits l + b.toNat) % 2 = 1) = b := by
        cases b <;> simp
      rw [List.length_append, List.length_singleton, bitsOf, ofBits_snoc, hhalf, ih, hlast]

theorem ofBits_append_div (a b : List Bool) : ofBits (a ++ b) / 2 ^ b.length = ofBits a := by
  have hpos : 0 < 2 ^ b.length := Nat.two_pow_pos _
  rw [ofBits_append, Nat.mul_comm, Nat.mul_add_div hpos, Nat.div_eq_of_lt (ofBits_lt b)]
  rfl

theorem ofBits_append_mod (a b : List Bool) : ofBits (a ++ b) % 2 ^ b.length = ofBits b := by
  rw [ofBits_append, Nat.mul_comm, Nat.mul_add_mod, Nat.mod_eq_of_lt (ofBits_lt b)]

theorem ofBits_take (l : List Bool) {w k : ℕ} (h : l.length = w + k) :
    ofBits (l.take w) = ofBits l / 2 ^ k := by
  have hdrop : (l.drop w).length = k := by
    rw [List.length_drop, h]
    omega
  have hdiv := ofBits_append_div (l.take w) (l.drop w)
  rw [List.take_append_drop, hdrop] at hdiv
  exact hdiv.symm

/-- What is left after the first `w` bits, by the remainder. -/
theorem ofBits_drop (l : List Bool) {w k : ℕ} (h : l.length = w + k) :
    ofBits (l.drop w) = ofBits l % 2 ^ k := by
  have hdrop : (l.drop w).length = k := by
    rw [List.length_drop, h]
    omega
  have hmod := ofBits_append_mod (l.take w) (l.drop w)
  rw [List.take_append_drop, hdrop] at hmod
  exact hmod.symm

section Words
variable {α : Type*} (spell : α → List Bool) (w : ℕ)

theorem words_inj (hw : ∀ a, (spell a).length = w) (hinj : Function.Injective spell)
    {l m : List α} {a b : List Bool} (ha : a.length < w) (hb : b.length < w)
    (h : l.flatMap spell ++ a = m.flatMap spell ++ b) : l = m ∧ a = b := by
  induction l generalizing m with
  | nil =>
      cases m with
      | nil => exact ⟨rfl, by simpa using h⟩
      | cons y m =>
          have hlen := congrArg List.length h
          simp only [List.flatMap_nil, List.nil_append, List.flatMap_cons, List.length_append,
            hw] at hlen
          omega
  | cons x l ih =>
      cases m with
      | nil =>
          have hlen := congrArg List.length h
          simp only [List.flatMap_nil, List.nil_append, List.flatMap_cons, List.length_append,
            hw] at hlen
          omega
      | cons y m =>
          rw [List.flatMap_cons, List.flatMap_cons, List.append_assoc, List.append_assoc] at h
          have hsplit := List.append_inj h (by rw [hw, hw])
          have hrest := ih hsplit.2
          exact ⟨congrArg₂ _ (hinj hsplit.1) hrest.1, hrest.2⟩

end Words

end Eunha.BitStrings
