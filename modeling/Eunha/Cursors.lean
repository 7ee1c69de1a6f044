import Mathlib.Data.List.Sort
import Mathlib.Order.Basic

/-!
# Sorted rows read page by page

Rows sorted by a key, highest first, are read a page at a time: the first rows below a
bound, the key of the last row of a page being the next bound. Rows may share a key, and a
bound leaves out all rows of its key. Every row is read just where no page ends between two
rows of one key.
-/
namespace Eunha.Cursors

variable {α β : Type*} [LinearOrder β] (key : α → β) (limit : ℕ)

def below (bound : Option β) (rows : List α) : List α :=
  rows.filter fun r => bound.all fun b => key r < b

def page (bound : Option β) (rows : List α) : List α := (below key bound rows).take limit

/-- The pages, one after another, until one is empty. -/
def walk : ℕ → Option β → List α → List α
  | 0, _, _ => []
  | fuel + 1, bound, rows =>
      match (page key limit bound rows).getLast? with
      | none => []
      | some last => page key limit bound rows ++ walk fuel (some (key last)) rows

def EndsApart (rows : List α) : Prop :=
  ∀ i a b, 0 < i → rows[i * limit - 1]? = some a → rows[i * limit]? = some b → key a ≠ key b

variable {key limit} {rows : List α} {bound : Option β} {fuel : ℕ}

@[simp] theorem below_none (rows : List α) : below key none rows = rows := by simp [below]

theorem mem_below {r : α} : r ∈ below key bound rows ↔ r ∈ rows ∧ ∀ b ∈ bound, key r < b := by
  cases bound <;> simp [below]

theorem below_below {last : α} (h : last ∈ below key bound rows) :
    below key (some (key last)) (below key bound rows) = below key (some (key last)) rows := by
  rw [below, below, List.filter_filter, below]
  apply List.filter_congr
  intro r hr
  have hlast := (mem_below.1 h).2
  cases bound with
  | none => simp
  | some b =>
      have hb : key last < b := hlast b rfl
      simp only [Option.all_some, Bool.and_eq_left_iff_imp, decide_eq_true_eq]
      exact fun hlt => hlt.trans hb

theorem walk_below (fuel : ℕ) (bound : Option β) (rows : List α) :
    walk key limit fuel bound rows = walk key limit fuel none (below key bound rows) := by
  induction fuel generalizing bound rows with
  | zero => rfl
  | succ fuel ih =>
      have hpage : page key limit none (below key bound rows) = page key limit bound rows := by
        rw [page, below_none, page]
      rw [walk, walk, hpage]
      cases hlast : (page key limit bound rows).getLast? with
      | none => rfl
      | some last =>
          have hmem : last ∈ below key bound rows :=
            List.mem_of_mem_take (List.mem_of_getLast? hlast)
          simp only
          rw [ih, ih (some (key last)) (below key bound rows), below_below hmem]

variable (key) in
theorem below_eq {before after : List α} {row : α}
    (hsorted : (before ++ row :: after).Pairwise fun a b => key b < key a) :
    (before ++ row :: after).filter (fun r => key r < key row) = after := by
  obtain ⟨-, hrest, hbefore⟩ := List.pairwise_append.1 hsorted
  rw [List.filter_append, List.filter_cons, if_neg (by simp), List.filter_eq_nil_iff.2,
    List.nil_append, List.filter_eq_self.2]
  · exact fun r hr => decide_eq_true ((List.pairwise_cons.1 hrest).1 r hr)
  · intro r hr
    simpa using (hbefore r hr row List.mem_cons_self).le

variable (key) in
theorem above_eq {before after : List α} {row : α}
    (hsorted : (before ++ row :: after).Pairwise fun a b => key b < key a) :
    (before ++ row :: after).filter (fun r => key row < key r) = before := by
  obtain ⟨-, hrest, hbefore⟩ := List.pairwise_append.1 hsorted
  rw [List.filter_append, List.filter_cons, if_neg (by simp), List.filter_eq_self.2,
    List.filter_eq_nil_iff.2, List.append_nil]
  · intro r hr
    simpa using ((List.pairwise_cons.1 hrest).1 r hr).le
  · exact fun r hr => decide_eq_true (hbefore r hr row List.mem_cons_self)

theorem below_last {last : α} (hsorted : rows.Pairwise fun a b => key b ≤ key a)
    (hlast : (rows.take limit).getLast? = some last) :
    below key (some (key last)) rows = below key (some (key last)) (rows.drop limit) := by
  have hsplit : rows = rows.take limit ++ rows.drop limit := (List.take_append_drop _ _).symm
  have htake : below key (some (key last)) (rows.take limit) = [] := by
    apply List.filter_eq_nil_iff.2
    intro r hr
    obtain ⟨before, hbefore⟩ := List.getLast?_eq_some_iff.1 hlast
    have hle : key last ≤ key r := by
      have hp := hsorted.sublist (List.take_sublist limit rows)
      rw [hbefore] at hp hr
      rcases List.mem_append.1 hr with hr | hr
      · exact (List.pairwise_append.1 hp).2.2 r hr last (List.mem_singleton_self last)
      · rw [List.mem_singleton.1 hr]
    simpa using hle
  conv_lhs => rw [hsplit, below, List.filter_append]
  rw [below] at htake
  rw [htake, List.nil_append, below]

theorem walk_succ (fuel : ℕ) (hsorted : rows.Pairwise fun a b => key b ≤ key a) (hlimit : 0 < limit)
    (hrows : rows ≠ []) : ∃ last, (rows.take limit).getLast? = some last ∧
      walk key limit (fuel + 1) none rows =
        rows.take limit ++ walk key limit fuel none (below key (some (key last)) (rows.drop limit)) := by
  have htake : rows.take limit ≠ [] := by
    intro hnil
    rcases List.take_eq_nil_iff.1 hnil with hzero | hnil
    · omega
    · exact hrows hnil
  refine ⟨(rows.take limit).getLast htake, List.getLast?_eq_some_getLast htake, ?_⟩
  have hlast := List.getLast?_eq_some_getLast htake
  rw [walk, page, below_none, hlast]
  simp only
  rw [walk_below, below_last hsorted hlast]

theorem walk_sublist (hsorted : rows.Pairwise fun a b => key b ≤ key a) (hlimit : 0 < limit) :
    (walk key limit fuel none rows).Sublist rows := by
  induction fuel generalizing rows with
  | zero => exact List.nil_sublist rows
  | succ fuel ih =>
      by_cases hrows : rows = []
      · subst hrows
        simp [walk, page, below]
      · obtain ⟨last, -, hwalk⟩ := walk_succ fuel hsorted hlimit hrows
        have hrest : (below key (some (key last)) (rows.drop limit)).Sublist (rows.drop limit) :=
          List.filter_sublist
        rw [hwalk]
        conv_rhs => rw [← List.take_append_drop limit rows]
        apply List.Sublist.append_left
        exact (ih ((hsorted.sublist (List.drop_sublist _ _)).sublist hrest)).trans hrest

omit [LinearOrder β] in
theorem endsApart_drop {last : α} (hlimit : 0 < limit)
    (hlast : (rows.take limit).getLast? = some last) :
    EndsApart key limit rows ↔
      (∀ b, rows[limit]? = some b → key last ≠ key b) ∧ EndsApart key limit (rows.drop limit) := by
  have hindex : ∀ j, (rows.drop limit)[j]? = rows[limit + j]? := fun j => List.getElem?_drop
  constructor
  · intro h
    refine ⟨fun b hb => ?_, fun i a b hi ha hb => ?_⟩
    · have hlen : limit < rows.length := (List.getElem?_eq_some_iff.1 hb).1
      apply h 1 last b Nat.one_pos
      · rw [List.getLast?_eq_getElem?, List.length_take_of_le hlen.le, List.getElem?_take] at hlast
        rw [Nat.one_mul]
        exact (by simpa using hlast : limit - 1 < limit ∧ rows[limit - 1]? = some last).2
      · rwa [Nat.one_mul]
    · rw [hindex] at ha hb
      have hpos : 0 < i * limit := Nat.mul_pos hi hlimit
      apply h (i + 1) a b (Nat.succ_pos i)
      · rw [← ha, Nat.add_mul]
        congr 1
        omega
      · rw [← hb, Nat.add_mul]
        congr 1
        omega
  · rintro ⟨hfirst, hrest⟩ i a b hi ha hb
    obtain ⟨i, rfl⟩ := Nat.exists_eq_add_of_lt hi
    rcases Nat.eq_zero_or_pos i with rfl | hpos
    · have hlen : limit < rows.length := by
        have := (List.getElem?_eq_some_iff.1 hb).1
        omega
      rw [List.getLast?_eq_getElem?, List.length_take_of_le hlen.le, List.getElem?_take] at hlast
      have heq : limit - 1 < limit ∧ rows[limit - 1]? = some last := by simpa using hlast
      rw [show (0 + 0 + 1) * limit - 1 = limit - 1 by omega, heq.2] at ha
      rw [show (0 + 0 + 1) * limit = limit by omega] at hb
      cases ha
      exact hfirst b hb
    · have hpos' : 0 < i * limit := Nat.mul_pos hpos hlimit
      apply hrest i a b hpos
      · rw [hindex, ← ha]
        congr 1
        rw [show 0 + i + 1 = i + 1 by omega, Nat.add_mul]
        omega
      · rw [hindex, ← hb]
        congr 1
        rw [show 0 + i + 1 = i + 1 by omega, Nat.add_mul]
        omega

/-- After a page of sorted rows come all rows just where its last has a key of its own, and all
of the rest come from the rest. -/
theorem append_walk_iff {more : ℕ} {last : α} (hsorted : rows.Pairwise fun a b => key b ≤ key a)
    (hmore : 0 < more) (hlast : (rows.take limit).getLast? = some last) :
    rows.take limit ++ walk key more fuel none (below key (some (key last)) (rows.drop limit)) =
        rows ↔
      (∀ b, rows[limit]? = some b → key last ≠ key b) ∧
        walk key more fuel none (rows.drop limit) = rows.drop limit := by
  have hdrop := hsorted.sublist (List.drop_sublist limit rows)
  have hcancel : ∀ xs, rows.take limit ++ xs = rows ↔ xs = rows.drop limit := by
    intro xs
    conv_lhs => rhs; rw [← List.take_append_drop limit rows]
    exact List.append_cancel_left_eq _ _ _ |>.to_iff
  have hindex : rows[limit]? = (rows.drop limit)[0]? := by
    rw [List.getElem?_drop, Nat.add_zero]
  rw [hcancel, hindex]
  cases hrest : rows.drop limit with
  | nil =>
      have hwalked : walk key more fuel none ([] : List α) = [] := by
        cases fuel <;> simp [walk, page, below]
      exact iff_of_true hwalked ⟨fun b hb => (nomatch hb), hwalked⟩
  | cons b rest =>
      have hle : key b ≤ key last := by
        rw [← List.take_append_drop limit rows, hrest] at hsorted
        exact (List.pairwise_append.1 hsorted).2.2 last (List.mem_of_getLast? hlast) b
          List.mem_cons_self
      rw [hrest] at hdrop
      by_cases heq : key last = key b
      · apply iff_of_false
        · intro hwalked
          have hshort : (below key (some (key last)) (b :: rest)).length < (b :: rest).length := by
            rw [below, List.filter_cons_of_neg (by simp [heq])]
            exact Nat.lt_succ_of_le (List.length_filter_le _ _)
          have hsub : (walk key more fuel none (below key (some (key last)) (b :: rest))).length ≤
              (below key (some (key last)) (b :: rest)).length :=
            (walk_sublist (hdrop.sublist List.filter_sublist) hmore).length_le
          rw [hwalked] at hsub
          omega
        · exact fun h => h.1 b rfl heq
      · have hall : below key (some (key last)) (b :: rest) = b :: rest := by
          apply List.filter_eq_self.2
          intro r hr
          have hlt : key b < key last := lt_of_le_of_ne hle (Ne.symm heq)
          have hrb : key r ≤ key b := by
            rcases List.mem_cons.1 hr with rfl | hr
            · exact le_rfl
            · exact (List.pairwise_cons.1 hdrop).1 r hr
          simpa using hrb.trans_lt hlt
        rw [hall]
        constructor
        · intro hwalked
          refine ⟨fun b' hb' => ?_, hwalked⟩
          cases hb'
          exact heq
        · exact fun h => h.2

theorem walk_eq_iff (hsorted : rows.Pairwise fun a b => key b ≤ key a) (hlimit : 0 < limit)
    (hfuel : rows.length < fuel) :
    walk key limit fuel none rows = rows ↔ EndsApart key limit rows := by
  induction fuel generalizing rows with
  | zero => omega
  | succ fuel ih =>
      by_cases hrows : rows = []
      · subst hrows
        apply iff_of_true
        · simp [walk, page, below]
        · intro i a b _ ha
          simp at ha
      · obtain ⟨last, hlast, hwalk⟩ := walk_succ fuel hsorted hlimit hrows
        have hlength : (rows.drop limit).length < fuel := by
          have := List.length_pos_iff.2 hrows
          rw [List.length_drop]
          omega
        rw [hwalk, append_walk_iff hsorted hlimit hlast, endsApart_drop hlimit hlast,
          ih (hsorted.sublist (List.drop_sublist limit rows)) hlength]

end Eunha.Cursors
