import Mathlib.Data.List.Sort
import Mathlib.Order.Basic

/-!
# Sorted sets of scored members

The sorted set of a key-value store: each member has one score, and the set is
ordered by score, ties by a key of the member. The entries are kept highest
first, so a member's reverse rank is its position in the list and the highest
`n` are its first `n`. Order and uniqueness are fields of the structure: every
command below returns a set that has them.

Scores are natural numbers. The key that breaks ties is any function into a
linear order; two members may share it.
-/
namespace Eunha.ScoredSets

structure Entry (A : Type*) where
  member : A
  score : ℕ
  deriving DecidableEq

section
variable {A K : Type*} [LinearOrder K]

/-- The first ranks at least as high: a higher score, or the same score and a
key no smaller. -/
def Entry.Before (key : A → K) (e f : Entry A) : Prop :=
  f.score < e.score ∨ f.score = e.score ∧ key f.member ≤ key e.member

instance (key : A → K) : DecidableRel (Entry.Before key) := fun e f =>
  inferInstanceAs (Decidable (f.score < e.score ∨ f.score = e.score ∧ key f.member ≤ key e.member))

instance (key : A → K) : Std.Total (Entry.Before key) where
  total e f := by
    unfold Entry.Before
    rcases lt_trichotomy e.score f.score with h | h | h
    · exact Or.inr (Or.inl h)
    · rcases le_total (key e.member) (key f.member) with hk | hk
      · exact Or.inr (Or.inr ⟨h, hk⟩)
      · exact Or.inl (Or.inr ⟨h.symm, hk⟩)
    · exact Or.inl (Or.inl h)

instance (key : A → K) : IsTrans (Entry A) (Entry.Before key) where
  trans e f g := by
    rintro (h₁ | ⟨h₁, k₁⟩) (h₂ | ⟨h₂, k₂⟩)
    · exact Or.inl (h₂.trans h₁)
    · exact Or.inl (h₂ ▸ h₁)
    · exact Or.inl (h₁ ▸ h₂)
    · exact Or.inr ⟨h₂.trans h₁, k₂.trans k₁⟩

theorem Entry.Before.score_le {key : A → K} {e f : Entry A} (h : e.Before key f) :
    f.score ≤ e.score := by
  rcases h with h | h
  · exact h.le
  · exact h.1.le

end

/-- Highest entry first; each member once. -/
structure ScoredSet {A K : Type*} [LinearOrder K] (key : A → K) where
  entries : List (Entry A)
  sorted : entries.Pairwise (Entry.Before key)
  nodup : (entries.map Entry.member).Nodup

namespace ScoredSet
variable {A K : Type*} [LinearOrder K] {key : A → K}

@[ext] theorem ext {z w : ScoredSet key} (h : z.entries = w.entries) : z = w := by
  cases z
  cases w
  simp_all

def empty : ScoredSet key := ⟨[], .nil, .nil⟩

@[simp] theorem entries_empty : (empty : ScoredSet key).entries = [] := rfl

/-- The members, highest first (`ZREVRANGE 0 -1`). -/
def members (z : ScoredSet key) : List A := z.entries.map Entry.member

@[simp] theorem members_empty : (empty : ScoredSet key).members = [] := rfl

/-- `ZCARD`. -/
def zcard (z : ScoredSet key) : ℕ := z.entries.length

/-- `ZREMRANGEBYRANK 0 -(n+1)`: all but the highest `n`. -/
def zremrangebyrank (z : ScoredSet key) (n : ℕ) : ScoredSet key where
  entries := z.entries.take n
  sorted := z.sorted.sublist (List.take_sublist n _)
  nodup := z.nodup.sublist ((List.take_sublist n _).map _)

/-- `ZREVRANGEBYSCORE +inf -inf WITHSCORES LIMIT offset 1`. -/
def zrevrangebyscore (z : ScoredSet key) (offset : ℕ) : Option (Entry A) :=
  z.entries[offset]?

/-- `ZRANGEBYSCORE low high`, in ascending order. -/
def zrangebyscore (z : ScoredSet key) (low high : ℕ) : List A :=
  ((z.entries.filter fun e => low ≤ e.score ∧ e.score ≤ high).map Entry.member).reverse

theorem mem_members {z : ScoredSet key} {a : A} :
    a ∈ z.members ↔ ∃ s, (⟨a, s⟩ : Entry A) ∈ z.entries := by
  simp only [members, List.mem_map]
  constructor
  · rintro ⟨e, he, rfl⟩
    exact ⟨e.score, he⟩
  · rintro ⟨s, hs⟩
    exact ⟨_, hs, rfl⟩

theorem member_mem {z : ScoredSet key} {e : Entry A} (he : e ∈ z.entries) :
    e.member ∈ z.members :=
  mem_members.mpr ⟨e.score, he⟩

theorem entry_eq {z : ScoredSet key} {e f : Entry A} (he : e ∈ z.entries)
    (hf : f ∈ z.entries) (h : e.member = f.member) : e = f :=
  List.inj_on_of_nodup_map z.nodup he hf h

theorem mem_zrangebyscore {z : ScoredSet key} {low high : ℕ} {a : A} :
    a ∈ z.zrangebyscore low high ↔
      ∃ s, (⟨a, s⟩ : Entry A) ∈ z.entries ∧ low ≤ s ∧ s ≤ high := by
  simp only [zrangebyscore, List.mem_reverse, List.mem_map, List.mem_filter, decide_eq_true_eq]
  constructor
  · rintro ⟨e, ⟨he, hl⟩, rfl⟩
    exact ⟨e.score, he, hl⟩
  · rintro ⟨s, hs, hl⟩
    exact ⟨_, ⟨hs, hl⟩, rfl⟩

theorem zcard_zremrangebyrank_le (z : ScoredSet key) (n : ℕ) :
    (z.zremrangebyrank n).zcard ≤ n :=
  List.length_take_le _ _

/-! ### The highest entries -/

/-- The `n` highest entries. -/
def top (z : ScoredSet key) (n : ℕ) : List (Entry A) := z.entries.take n

theorem top_subset {z : ScoredSet key} {n : ℕ} {e : Entry A} (he : e ∈ z.top n) :
    e ∈ z.entries :=
  List.mem_of_mem_take he

theorem top_zremrangebyrank (z : ScoredSet key) {m n : ℕ} (h : m ≤ n) :
    (z.zremrangebyrank n).top m = z.top m := by
  simp [top, zremrangebyrank, List.take_take, Nat.min_eq_left h]

theorem entries_split {z : ScoredSet key} {n : ℕ} {f : Entry A}
    (hf : z.zrevrangebyscore n = some f) : ∃ rest, z.entries = z.top n ++ f :: rest := by
  obtain ⟨hn, rfl⟩ := List.getElem?_eq_some_iff.mp hf
  exact ⟨z.entries.drop (n + 1), by rw [top, ← List.drop_eq_getElem_cons hn, List.take_append_drop]⟩

/-- The entry just below the highest `n` scores no more than any of them. -/
theorem score_le_of_mem_top {z : ScoredSet key} {n : ℕ} {e f : Entry A}
    (hf : z.zrevrangebyscore n = some f) (he : e ∈ z.top n) : f.score ≤ e.score := by
  obtain ⟨rest, hr⟩ := entries_split hf
  have hs := hr ▸ z.sorted
  exact ((List.pairwise_append.mp hs).2.2 e he f (by simp)).score_le

theorem le_score_of_not_mem_top {z : ScoredSet key} {n : ℕ} {e f : Entry A}
    (hf : z.zrevrangebyscore n = some f) (he : e ∈ z.entries) (ht : e ∉ z.top n) :
    e.score ≤ f.score := by
  obtain ⟨rest, hr⟩ := entries_split hf
  have hs := hr ▸ z.sorted
  have hm : e ∈ f :: rest := (List.mem_append.mp (hr ▸ he)).resolve_left ht
  rcases List.mem_cons.mp hm with rfl | hm
  · exact le_rfl
  · exact ((List.pairwise_cons.mp (List.pairwise_append.mp hs).2.1).1 e hm).score_le

theorem not_mem_top {z : ScoredSet key} {n : ℕ} {f : Entry A}
    (hf : z.zrevrangebyscore n = some f) : f ∉ z.top n := by
  obtain ⟨rest, hr⟩ := entries_split hf
  have hd := z.nodup.of_map
  rw [hr, List.nodup_append] at hd
  exact fun h => hd.2.2 f h f (by simp) rfl

theorem mem_take_orderedInsert {r : Entry A → Entry A → Prop} [DecidableRel r]
    {l : List (Entry A)} {e f : Entry A} {n : ℕ} (h : f ∈ (l.orderedInsert r e).take n) :
    f = e ∨ f ∈ l.take n := by
  induction l generalizing n with
  | nil => exact Or.inl (List.mem_singleton.mp (List.mem_of_mem_take h))
  | cons g l ih =>
      cases n with
      | zero => simp at h
      | succ n =>
          rw [List.orderedInsert_cons] at h
          split_ifs at h
          · rw [List.take_succ_cons, List.mem_cons] at h
            exact h.imp_right fun h => List.take_subset_take_left _ n.le_succ h
          · rw [List.take_succ_cons, List.mem_cons] at h ⊢
            rcases h with h | h
            · exact Or.inr (Or.inl h)
            · exact (ih h).imp_right Or.inr

theorem nodup_orderedInsert {l : List (Entry A)} {e : Entry A}
    (hl : (l.map Entry.member).Nodup) (he : ∀ f ∈ l, f.member ≠ e.member) :
    ((l.orderedInsert (Entry.Before key) e).map Entry.member).Nodup := by
  have hp := (List.perm_orderedInsert (Entry.Before key) e l).map Entry.member
  rw [hp.nodup_iff, List.map_cons, List.nodup_cons]
  refine ⟨?_, hl⟩
  rw [List.mem_map]
  rintro ⟨f, hf, hm⟩
  exact he f hf hm

/-! ### Reading and writing one member -/

variable [DecidableEq A]

/-- `ZSCORE`. -/
def zscore (z : ScoredSet key) (a : A) : Option ℕ :=
  (z.entries.find? fun e => e.member = a).map Entry.score

/-- `ZREVRANK`: how many entries rank higher. -/
def zrevrank (z : ScoredSet key) (a : A) : Option ℕ :=
  if a ∈ z.members then some (z.members.idxOf a) else none

/-- `ZREM`. -/
def zrem (z : ScoredSet key) (a : A) : ScoredSet key where
  entries := z.entries.filter fun e => e.member ≠ a
  sorted := z.sorted.filter _
  nodup := z.nodup.sublist (List.filter_sublist.map _)

/-- `ZADD` of a member the set may hold under another score, which it loses. -/
def place (z : ScoredSet key) (a : A) (s : ℕ) : ScoredSet key where
  entries := (z.zrem a).entries.orderedInsert (Entry.Before key) ⟨a, s⟩
  sorted := (z.zrem a).sorted.orderedInsert _ _
  nodup := nodup_orderedInsert (z.zrem a).nodup (by simp [zrem])

/-- `ZADD`: an entry already there with this score stays where it is. -/
def zadd (z : ScoredSet key) (a : A) (s : ℕ) : ScoredSet key :=
  if z.zscore a = some s then z else z.place a s

/-- `ZADD NX`: only a member not there yet; how many were added. -/
def zaddNX (z : ScoredSet key) (a : A) (s : ℕ) : ℕ × ScoredSet key :=
  if (z.zscore a).isSome then (0, z) else (1, z.place a s)

theorem zscore_eq_some {z : ScoredSet key} {a : A} {s : ℕ} :
    z.zscore a = some s ↔ (⟨a, s⟩ : Entry A) ∈ z.entries := by
  simp only [zscore, Option.map_eq_some_iff]
  constructor
  · rintro ⟨e, he, rfl⟩
    have hm : e.member = a := by simpa using List.find?_some he
    exact hm ▸ List.mem_of_find?_eq_some he
  · intro hs
    have hex : (z.entries.find? fun e => e.member = a).isSome :=
      List.find?_isSome.mpr ⟨⟨a, s⟩, hs, by simp⟩
    obtain ⟨e, he⟩ := Option.isSome_iff_exists.mp hex
    have hm : e.member = a := by simpa using List.find?_some he
    exact ⟨e, he, by rw [entry_eq (List.mem_of_find?_eq_some he) hs hm]⟩

theorem zscore_isSome {z : ScoredSet key} {a : A} : (z.zscore a).isSome ↔ a ∈ z.members := by
  simp only [Option.isSome_iff_exists, zscore_eq_some, mem_members]

theorem zrevrank_isNone {z : ScoredSet key} {a : A} :
    (z.zrevrank a).isNone ↔ a ∉ z.members := by
  unfold zrevrank
  split_ifs with h <;> simp [h]

theorem zrevrank_lt {z : ScoredSet key} {a : A} {n : ℕ} :
    (z.zrevrank a).any (· < n) ↔ ∃ s, (⟨a, s⟩ : Entry A) ∈ z.top n := by
  have hm : (∃ s, (⟨a, s⟩ : Entry A) ∈ z.top n) ↔ a ∈ z.members.take n := by
    rw [members, ← List.map_take, List.mem_map]
    exact ⟨fun ⟨s, hs⟩ => ⟨_, hs, rfl⟩, fun ⟨e, he, ha⟩ => ⟨e.score, ha ▸ he⟩⟩
  rw [hm]
  unfold zrevrank
  split_ifs with h
  · simp [List.mem_take_iff_idxOf_lt h]
  · simpa using fun ht => h (List.mem_of_mem_take ht)

@[simp] theorem mem_zrem {z : ScoredSet key} {a : A} {e : Entry A} :
    e ∈ (z.zrem a).entries ↔ e ∈ z.entries ∧ e.member ≠ a := by
  simp [zrem]

@[simp] theorem mem_members_zrem {z : ScoredSet key} {a b : A} :
    b ∈ (z.zrem a).members ↔ b ∈ z.members ∧ b ≠ a := by
  simp [mem_members]

theorem zrem_eq_self {z : ScoredSet key} {a : A} (h : a ∉ z.members) : z.zrem a = z := by
  ext1
  refine List.filter_eq_self.mpr fun e he => ?_
  simpa using fun hm : e.member = a => h (hm ▸ member_mem he)

@[simp] theorem mem_place {z : ScoredSet key} {a : A} {s : ℕ} {e : Entry A} :
    e ∈ (z.place a s).entries ↔ e = ⟨a, s⟩ ∨ e ∈ z.entries ∧ e.member ≠ a := by
  simp only [place, List.mem_orderedInsert, mem_zrem]

@[simp] theorem mem_zadd {z : ScoredSet key} {a : A} {s : ℕ} {e : Entry A} :
    e ∈ (z.zadd a s).entries ↔ e = ⟨a, s⟩ ∨ e ∈ z.entries ∧ e.member ≠ a := by
  unfold zadd
  split_ifs with h
  · have hs := zscore_eq_some.mp h
    constructor
    · intro he
      by_cases hm : e.member = a
      · exact Or.inl (entry_eq he hs hm)
      · exact Or.inr ⟨he, hm⟩
    · rintro (rfl | ⟨he, _⟩)
      · exact hs
      · exact he
  · exact mem_place

@[simp] theorem mem_members_zadd {z : ScoredSet key} {a b : A} {s : ℕ} :
    b ∈ (z.zadd a s).members ↔ b = a ∨ b ∈ z.members := by
  simp only [mem_members, mem_zadd, Entry.mk.injEq]
  grind

theorem zcard_zrem_of_mem {z : ScoredSet key} {a : A} (h : a ∈ z.members) :
    (z.zrem a).zcard + 1 = z.zcard := by
  obtain ⟨s, hs⟩ := mem_members.mp h
  have he : (z.zrem a).entries = z.entries.erase ⟨a, s⟩ := by
    rw [z.nodup.of_map.erase_eq_filter]
    refine List.filter_congr fun e hm => ?_
    have : e.member = a ↔ e = ⟨a, s⟩ := ⟨entry_eq hm hs, fun h => by rw [h]⟩
    rw [Bool.eq_iff_iff]
    simp [this]
  have hp := List.length_pos_of_mem hs
  rw [zcard, zcard, he, List.length_erase_of_mem hs]
  omega

theorem zcard_zrem_le (z : ScoredSet key) (a : A) : (z.zrem a).zcard ≤ z.zcard :=
  List.length_filter_le _ _

theorem zcard_zadd_le (z : ScoredSet key) (a : A) (s : ℕ) :
    (z.zadd a s).zcard ≤ z.zcard + 1 := by
  unfold zadd
  split_ifs
  · exact Nat.le_succ _
  · have h := zcard_zrem_le z a
    simp only [zcard, place, List.orderedInsert_length] at h ⊢
    omega

theorem mem_top_zadd {z : ScoredSet key} {a : A} {s n : ℕ} {e : Entry A}
    (hs : ∀ t, (⟨a, t⟩ : Entry A) ∈ z.entries → t = s) (h : e ∈ (z.zadd a s).top n) :
    e = ⟨a, s⟩ ∨ e ∈ z.top n := by
  unfold zadd at h
  split_ifs at h with hz
  · exact Or.inr h
  · have ha : a ∉ z.members := by
      rw [mem_members]
      rintro ⟨t, ht⟩
      exact hz (zscore_eq_some.mpr (hs t ht ▸ ht))
    have hm := mem_take_orderedInsert h
    rwa [zrem_eq_self ha] at hm

end ScoredSet
end Eunha.ScoredSets
