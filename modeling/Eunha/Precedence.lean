import Mathlib.Data.List.Nodup
import Mathlib.Data.List.Sort

/-!
# What stands before what

One element of a list before another; in a sorted list, by the order; in a list parted
in two, by the part first. And the first elements of a list sorted by a key: they are
the list's own first ones turned round exactly when the keys of these fall and are
below all the others.
-/
namespace Eunha.Precedence

variable {α : Type*} {l m : List α} {a b : α} {R : α → α → Prop}

def Before (l : List α) (a b : α) : Prop := [a, b].Sublist l

theorem Before.mono (h : Before l a b) (hm : l.Sublist m) : Before m a b := List.Sublist.trans h hm

theorem before_append (ha : a ∈ l) (hb : b ∈ m) : Before (l ++ m) a b :=
  (List.singleton_sublist.mpr ha).append (List.singleton_sublist.mpr hb)

theorem Before.filter {p : α → Bool} (h : Before l a b) (ha : p a = true) (hb : p b = true) :
    Before (l.filter p) a b := by
  have hsub := List.Sublist.filter p h
  rw [List.filter_cons_of_pos ha, List.filter_cons_of_pos hb] at hsub
  exact hsub

theorem before_or (ha : a ∈ l) (hb : b ∈ l) (hne : a ≠ b) : Before l a b ∨ Before l b a := by
  induction l with
  | nil => cases ha
  | cons c l ih =>
      rcases List.mem_cons.mp ha with rfl | hal
      · have hbl := (List.mem_cons.mp hb).resolve_left hne.symm
        exact .inl ((List.singleton_sublist.mpr hbl).cons_cons a)
      · rcases List.mem_cons.mp hb with rfl | hbl
        · exact .inr ((List.singleton_sublist.mpr hal).cons_cons b)
        · exact (ih hal hbl).imp (fun h => h.cons c) fun h => h.cons c

theorem Before.rel (h : Before l a b) (hl : l.Pairwise R) : R a b := by
  have hpair := hl.sublist h
  exact List.rel_of_pairwise_cons hpair (List.mem_singleton_self b)

theorem before_of_rel (hl : l.Pairwise R) (ha : a ∈ l) (hb : b ∈ l) (hne : a ≠ b)
    (hnot : ¬R b a) : Before l a b :=
  (before_or ha hb hne).resolve_right fun h => hnot (h.rel hl)

/-! ### The first by a key -/

variable {key : α → ℕ} {n : ℕ}

def sortBy (key : α → ℕ) (l : List α) : List α := l.mergeSort fun a b => decide (key a ≤ key b)

theorem sortBy_perm (key : α → ℕ) (l : List α) : (sortBy key l).Perm l := List.mergeSort_perm l _

theorem sortBy_pairwise (key : α → ℕ) (l : List α) :
    (sortBy key l).Pairwise fun a b => key a ≤ key b := by
  have hsorted : (sortBy key l).Pairwise fun a b => decide (key a ≤ key b) = true :=
    List.pairwise_mergeSort
      (fun a b c hab hbc =>
        decide_eq_true ((of_decide_eq_true hab).trans (of_decide_eq_true hbc)))
      (fun a b => by simpa using le_total (key a) (key b)) l
  exact hsorted.imp of_decide_eq_true

/-- The keys of the first `n` fall, and those after them have greater keys. -/
structure Falls (key : α → ℕ) (n : ℕ) (l : List α) : Prop where
  falling : (l.take n).Pairwise fun a b => key b < key a
  beyond : ∀ a ∈ l.take n, ∀ b ∈ l.drop n, key a < key b

theorem take_sortBy_of_falls (hinj : ∀ a ∈ l, ∀ b ∈ l, key a = key b → a = b)
    (h : Falls key n l) : (sortBy key l).take n = (l.take n).reverse := by
  have hperm : (sortBy key l).Perm ((l.take n).reverse ++ sortBy key (l.drop n)) := by
    refine (sortBy_perm key l).trans ?_
    conv_lhs => rw [← List.take_append_drop n l]
    exact (List.reverse_perm _).symm.append (sortBy_perm key _).symm
  have hsorted : ((l.take n).reverse ++ sortBy key (l.drop n)).Pairwise
      fun a b => key a ≤ key b := by
    apply List.pairwise_append.mpr
    refine ⟨?_, sortBy_pairwise key _, fun a ha b hb => ?_⟩
    · exact List.pairwise_reverse.mpr (h.falling.imp le_of_lt)
    · exact (h.beyond a (List.mem_reverse.mp ha) b ((sortBy_perm key _).mem_iff.mp hb)).le
  have hsame : sortBy key l = (l.take n).reverse ++ sortBy key (l.drop n) := by
    refine hperm.eq_of_pairwise (fun a b ha hb hab hba => ?_) (sortBy_pairwise key l) hsorted
    exact hinj a ((sortBy_perm key l).mem_iff.mp ha) b
      ((sortBy_perm key l).mem_iff.mp (hperm.mem_iff.mpr hb)) (le_antisymm hab hba)
  rw [hsame]
  by_cases hn : n ≤ l.length
  · apply List.take_left'
    rw [List.length_reverse, List.length_take, min_eq_left hn]
  · have hempty : l.drop n = [] := List.drop_eq_nil_of_le (by omega)
    have hnone : sortBy key (l.drop n) = [] := by
      rw [hempty]
      exact (sortBy_perm key []).eq_nil
    rw [hnone, List.append_nil]
    apply List.take_of_length_le
    rw [List.length_reverse, List.length_take]
    exact min_le_left n l.length

end Eunha.Precedence
