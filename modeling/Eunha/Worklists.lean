import Mathlib.Data.Finset.Card
import Mathlib.Data.Finset.Insert
import Mathlib.Data.List.Nodup

/-!
# Worklists

What was seen, what of it is still to be done and what was done. An element is put on
the list only when it is first seen, so it is done once at most, whatever it leads to,
and there is no more to do than was seen.
-/
namespace Eunha.Worklists

variable {α : Type*}

/-- The last element, and those before it. -/
def pop (l : List α) : Option (α × List α) := l.getLast?.map fun a => (a, l.dropLast)

theorem pop_eq_some {l rest : List α} {a : α} (h : pop l = some (a, rest)) : l = rest ++ [a] := by
  obtain ⟨b, hlast, hpair⟩ := Option.map_eq_some_iff.mp h
  cases hpair
  obtain ⟨front, rfl⟩ := List.getLast?_eq_some_iff.mp hlast
  rw [List.dropLast_concat]

structure Frontier (seen : Finset α) (todo done : List α) : Prop where
  nodup : (done ++ todo).Nodup
  known : ∀ a, a ∈ seen ↔ a ∈ done ++ todo

variable {seen : Finset α} {todo done : List α}

theorem Frontier.done_nodup (h : Frontier seen todo done) : done.Nodup :=
  (List.nodup_append.mp h.nodup).1

theorem Frontier.done_seen (h : Frontier seen todo done) {a : α} (ha : a ∈ done) : a ∈ seen :=
  (h.known a).mpr (List.mem_append_left _ ha)

theorem Frontier.pop (h : Frontier seen todo done) {rest : List α} {a : α}
    (hpop : pop todo = some (a, rest)) : Frontier seen rest (done ++ [a]) := by
  have hperm : (done ++ todo).Perm (done ++ [a] ++ rest) := by
    rw [pop_eq_some hpop, List.append_assoc]
    exact List.Perm.append_left done List.perm_append_comm
  constructor
  · exact hperm.nodup_iff.mp h.nodup
  · intro b
    rw [h.known, hperm.mem_iff]

/-! ### First sight -/

variable [DecidableEq α]

def fresh (seen : Finset α) : List α → List α × Finset α
  | [] => ([], seen)
  | a :: l =>
      if a ∈ seen then fresh seen l
      else (a :: (fresh (insert a seen) l).1, (fresh (insert a seen) l).2)

theorem mem_fresh_seen (seen : Finset α) (l : List α) (a : α) :
    a ∈ (fresh seen l).2 ↔ a ∈ seen ∨ a ∈ (fresh seen l).1 := by
  induction l generalizing seen with
  | nil => simp [fresh]
  | cons b l ih =>
      rw [fresh]
      split
      · exact ih seen
      · rw [ih, Finset.mem_insert, List.mem_cons]
        tauto

theorem fresh_sublist (seen : Finset α) (l : List α) : (fresh seen l).1.Sublist l := by
  induction l generalizing seen with
  | nil => exact List.Sublist.refl []
  | cons b l ih =>
      rw [fresh]
      split
      · exact (ih seen).cons b
      · exact (ih _).cons_cons b

theorem mem_of_mem_fresh (seen : Finset α) (l : List α) {a : α} (h : a ∈ (fresh seen l).1) :
    a ∈ l ∧ a ∉ seen := by
  induction l generalizing seen with
  | nil => simp [fresh] at h
  | cons b l ih =>
      rw [fresh] at h
      split at h
      · have hrest := ih seen h
        exact ⟨List.mem_cons_of_mem b hrest.1, hrest.2⟩
      · rcases List.mem_cons.mp h with rfl | h
        · exact ⟨List.mem_cons_self, by assumption⟩
        · have hrest := ih _ h
          exact ⟨List.mem_cons_of_mem b hrest.1,
            fun hmem => hrest.2 (Finset.mem_insert_of_mem hmem)⟩

theorem fresh_nodup (seen : Finset α) (l : List α) : (fresh seen l).1.Nodup := by
  induction l generalizing seen with
  | nil => exact List.nodup_nil
  | cons b l ih =>
      rw [fresh]
      split
      · exact ih seen
      · apply List.nodup_cons.mpr
        exact ⟨fun h => (mem_of_mem_fresh _ l h).2 (Finset.mem_insert_self b seen), ih _⟩

theorem Frontier.start {l : List α} (h : l.Nodup) : Frontier l.toFinset l [] := by
  constructor
  · exact h
  · intro a
    rw [List.mem_toFinset, List.nil_append]

theorem Frontier.discover (h : Frontier seen todo done) (l : List α) :
    Frontier (fresh seen l).2 (todo ++ (fresh seen l).1) done := by
  constructor
  · rw [← List.append_assoc]
    apply List.nodup_append.mpr
    refine ⟨h.nodup, fresh_nodup seen l, fun a ha b hb heq => ?_⟩
    exact (mem_of_mem_fresh seen l hb).2 (heq ▸ (h.known a).mpr ha)
  · intro a
    rw [mem_fresh_seen, h.known, ← List.append_assoc, List.mem_append (s := done ++ todo)]

theorem Frontier.card (h : Frontier seen todo done) : seen.card = done.length + todo.length := by
  have hseen : seen = (done ++ todo).toFinset := by
    ext a
    rw [h.known, List.mem_toFinset]
  rw [hseen, List.toFinset_card_of_nodup h.nodup, List.length_append]

end Eunha.Worklists
