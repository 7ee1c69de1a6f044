import Mathlib.Data.List.Nodup
import Mathlib.Data.List.Pairwise
import Mathlib.Data.List.Count
import Mathlib.Logic.Function.Basic

/-!
# Tables with unique indexes

A table is a list of rows no two of which share a key. A row may have several keys, one
for each unique index, and none for an index on a column that is null. The operations are
those of a database: a deletion, an update that keeps the keys, and an insertion that
does nothing on a conflict. Each has what it does to membership and to a count.
-/
namespace Eunha.Tables

variable {ρ κ : Type*}

/-- The rows share a key, so a unique index holds one of them at most. -/
def Clash (keys : ρ → List κ) (r s : ρ) : Prop := ∃ k ∈ keys r, k ∈ keys s

instance (keys : ρ → List κ) [DecidableEq κ] (r s : ρ) : Decidable (Clash keys r s) :=
  inferInstanceAs (Decidable (∃ k ∈ keys r, k ∈ keys s))

theorem Clash.symm {keys : ρ → List κ} {r s : ρ} (h : Clash keys r s) : Clash keys s r := by
  obtain ⟨k, hr, hs⟩ := h
  exact ⟨k, hs, hr⟩

structure Table (keys : ρ → List κ) where
  rows : List ρ
  distinct : rows.Pairwise fun r s => ¬ Clash keys r s

namespace Table
variable {keys : ρ → List κ}

def empty : Table keys := ⟨[], List.Pairwise.nil⟩

theorem eq_of_clash (t : Table keys) {r s : ρ} (hr : r ∈ t.rows) (hs : s ∈ t.rows)
    (h : Clash keys r s) : r = s := by
  by_contra hne
  have hsymm : Std.Symm fun r s => ¬ Clash keys r s := ⟨fun _ _ hn hc => hn hc.symm⟩
  exact t.distinct.forall hr hs hne h

theorem eq_of_key (t : Table keys) {r s : ρ} {k : κ} (hr : r ∈ t.rows) (hs : s ∈ t.rows)
    (hkr : k ∈ keys r) (hks : k ∈ keys s) : r = s :=
  t.eq_of_clash hr hs ⟨k, hkr, hks⟩

theorem nodup (t : Table keys) (hk : ∀ r, keys r ≠ []) : t.rows.Nodup := by
  refine t.distinct.imp ?_
  intro r s hn he
  obtain ⟨k, hkr⟩ := List.exists_mem_of_ne_nil _ (hk r)
  exact hn ⟨k, hkr, he ▸ hkr⟩

theorem filter_eq_singleton (t : Table keys) (hk : ∀ r, keys r ≠ []) {p : ρ → Bool} {r : ρ}
    (hr : r ∈ t.rows) (hp : p r = true) (honly : ∀ s ∈ t.rows, p s = true → s = r) :
    t.rows.filter p = [r] := by
  have hnodup : (t.rows.filter p).Nodup := (t.nodup hk).filter p
  rw [← List.perm_singleton, List.perm_ext_iff_of_nodup hnodup (List.nodup_singleton r)]
  intro s
  rw [List.mem_filter, List.mem_singleton]
  constructor
  · rintro ⟨hs, hps⟩
    exact honly s hs hps
  · rintro rfl
    exact ⟨hr, hp⟩

theorem countP_of_only (t : Table keys) (hk : ∀ r, keys r ≠ []) {p q : ρ → Bool} {r : ρ}
    (hr : r ∈ t.rows) (hp : p r = true)
    (honly : ∀ s ∈ t.rows, q s = true → p s = true → s = r) :
    t.rows.countP (fun s => q s && p s) = if q r = true then 1 else 0 := by
  rw [List.countP_eq_length_filter]
  split
  next hq =>
    rw [t.filter_eq_singleton hk hr (by rw [hq, hp]; rfl)]
    · rfl
    · intro s hs hqs
      rw [Bool.and_eq_true] at hqs
      exact honly s hs hqs.1 hqs.2
  next hq =>
    rw [List.length_eq_zero_iff, List.filter_eq_nil_iff]
    intro s hs hqs
    rw [Bool.and_eq_true] at hqs
    exact hq (honly s hs hqs.1 hqs.2 ▸ hqs.1)

theorem find?_eq_some_iff {t : Table keys} {p : ρ → Bool}
    (honly : ∀ r ∈ t.rows, ∀ s ∈ t.rows, p r = true → p s = true → r = s) {r : ρ} :
    t.rows.find? p = some r ↔ r ∈ t.rows ∧ p r = true := by
  constructor
  · intro h
    exact ⟨List.mem_of_find?_eq_some h, List.find?_some h⟩
  · rintro ⟨hr, hp⟩
    cases hfind : t.rows.find? p with
    | none => exact absurd hp (List.find?_eq_none.mp hfind r hr)
    | some s =>
        rw [honly s (List.mem_of_find?_eq_some hfind) r hr (List.find?_some hfind) hp]

/-! ### Deletion -/

/-- `DELETE FROM t WHERE p`. -/
def deleteWhere (t : Table keys) (p : ρ → Bool) : Table keys where
  rows := t.rows.filter fun r => !p r
  distinct := t.distinct.filter _

@[simp] theorem mem_deleteWhere {t : Table keys} {p : ρ → Bool} {r : ρ} :
    r ∈ (t.deleteWhere p).rows ↔ r ∈ t.rows ∧ p r = false := by
  simp [deleteWhere]

theorem find?_deleteWhere {t : Table keys} {p q : ρ → Bool}
    (honly : ∀ r ∈ t.rows, ∀ s ∈ t.rows, q r = true → q s = true → r = s) :
    (t.deleteWhere p).rows.find? q = (t.rows.find? q).filter fun r => !p r := by
  cases hfind : t.rows.find? q with
  | none =>
      rw [List.find?_eq_none] at hfind
      rw [Option.filter_none, List.find?_eq_none]
      exact fun r hr => hfind r (mem_deleteWhere.mp hr).1
  | some r =>
      have hr := List.mem_of_find?_eq_some hfind
      have hqr := List.find?_some hfind
      cases hother : (t.deleteWhere p).rows.find? q with
      | none =>
          rw [List.find?_eq_none] at hother
          have hgone : p r = true := by
            by_contra hkept
            exact hother r (mem_deleteWhere.mpr ⟨hr, by simpa using hkept⟩) hqr
          rw [Option.filter_some, hgone]
          rfl
      | some s =>
          obtain ⟨hs, hkept⟩ := mem_deleteWhere.mp (List.mem_of_find?_eq_some hother)
          obtain rfl := honly r hr s hs hqr (List.find?_some hother)
          rw [Option.filter_some, hkept]
          rfl

theorem deleteWhere_eq_self {t : Table keys} {p : ρ → Bool}
    (h : ∀ r ∈ t.rows, p r = false) : t.deleteWhere p = t := by
  obtain ⟨rows, distinct⟩ := t
  have hrows : rows.filter (fun r => !p r) = rows := by
    rw [List.filter_eq_self]
    intro r hr
    simp [h r hr]
  simp only [deleteWhere, hrows]

/-! ### Update -/

/-- `UPDATE t SET …`, of columns no unique index is on. -/
def update (t : Table keys) (f : ρ → ρ) (hf : ∀ r, keys (f r) = keys r) : Table keys where
  rows := t.rows.map f
  distinct := by
    rw [List.pairwise_map]
    refine t.distinct.imp ?_
    intro r s hn hc
    simp only [Clash, hf] at hc
    exact hn hc

@[simp] theorem mem_update {t : Table keys} {f : ρ → ρ} {hf : ∀ r, keys (f r) = keys r} {r : ρ} :
    r ∈ (t.update f hf).rows ↔ ∃ s ∈ t.rows, f s = r := by
  simp [update]

theorem rows_foldl_update {β : Type*} (f : β → ρ → ρ) (hf : ∀ b r, keys (f b r) = keys r)
    (bs : List β) (t : Table keys) :
    (bs.foldl (fun t b => t.update (f b) (hf b)) t).rows =
      t.rows.map fun r => bs.foldl (fun r b => f b r) r := by
  induction bs generalizing t with
  | nil => simp
  | cons b bs ih =>
      simp only [List.foldl_cons]
      rw [ih, update, List.map_map]
      rfl

theorem update_eq_self {t : Table keys} {f : ρ → ρ} {hf : ∀ r, keys (f r) = keys r}
    (h : ∀ r ∈ t.rows, f r = r) : t.update f hf = t := by
  obtain ⟨rows, distinct⟩ := t
  have hrows : rows.map f = rows := by
    rw [List.map_congr_left h, List.map_id']
  simp only [update, hrows]

/-- `UPDATE t SET …`, of columns with unique indexes, which fails where two rows would share
a key. -/
def update? [DecidableEq κ] (t : Table keys) (f : ρ → ρ) : Option (Table keys) :=
  if h : (t.rows.map f).Pairwise fun r s => ¬ Clash keys r s then some ⟨t.rows.map f, h⟩ else none

theorem rows_update? [DecidableEq κ] {t t' : Table keys} {f : ρ → ρ}
    (h : t.update? f = some t') : t'.rows = t.rows.map f := by
  rw [update?] at h
  split at h
  · rw [← Option.some.inj h]
  · cases h

def shrink (t : Table keys) (f : ρ → ρ) (hf : ∀ r, keys (f r) ⊆ keys r) : Table keys where
  rows := t.rows.map f
  distinct := by
    rw [List.pairwise_map]
    refine t.distinct.imp ?_
    rintro r s hn ⟨k, hkr, hks⟩
    exact hn ⟨k, hf r hkr, hf s hks⟩

theorem exists_clash_of_update? [DecidableEq κ] {t : Table keys} {f : ρ → ρ} {p : ρ → Bool}
    (hk : ∀ r, keys r ≠ []) {r : ρ} (honly : ∀ s ∈ t.rows, p s = true → s = r)
    (h : t.update? (fun s => if p s then f s else s) = none) :
    ∃ s ∈ t.rows, p s = false ∧ Clash keys (f r) s := by
  by_contra hfree
  have hclash (s : ρ) (hs : s ∈ t.rows) (hps : p s = false) : ¬ Clash keys (f r) s :=
    fun hc => hfree ⟨s, hs, hps, hc⟩
  have hpairwise : (t.rows.map fun s => if p s then f s else s).Pairwise
      fun r s => ¬ Clash keys r s := by
    rw [List.pairwise_map]
    refine t.distinct.imp_of_mem ?_
    intro s s' hs hs' hn
    by_cases hps : p s = true <;> by_cases hps' : p s' = true
    · obtain ⟨k, hkr⟩ := List.exists_mem_of_ne_nil _ (hk r)
      rw [honly s hs hps, honly s' hs' hps'] at hn
      exact absurd ⟨k, hkr, hkr⟩ hn
    · rw [if_pos hps, if_neg hps', honly s hs hps]
      exact hclash s' hs' (by simpa using hps')
    · rw [if_neg hps, if_pos hps', honly s' hs' hps']
      exact fun hc => hclash s hs (by simpa using hps) hc.symm
    · rw [if_neg hps, if_neg hps']
      exact hn
  rw [update?, dif_pos hpairwise] at h
  cases h

theorem exists_ne_of_update? [DecidableEq κ] {t : Table keys} {f : ρ → ρ}
    (hk : ∀ r, keys r ≠ []) (h : t.update? f = none) :
    ∃ r ∈ t.rows, ∃ s ∈ t.rows, r ≠ s ∧ Clash keys (f r) (f s) := by
  by_contra hfree
  have hpairwise : (t.rows.map f).Pairwise fun r s => ¬ Clash keys r s := by
    rw [List.pairwise_map]
    refine (t.nodup hk).imp_of_mem ?_
    intro r s hr hs hne hc
    exact hfree ⟨r, hr, s, hs, hne, hc⟩
  rw [update?, dif_pos hpairwise] at h
  cases h

theorem mem_update_of_fixed {t : Table keys} {f : ρ → ρ} (hf : ∀ r, keys (f r) = keys r)
    {q : ρ → Prop} (hq : ∀ r, q (f r) ↔ q r) (hfix : ∀ r ∈ t.rows, q r → f r = r) {r : ρ}
    (hr : q r) : r ∈ (t.update f hf).rows ↔ r ∈ t.rows := by
  rw [mem_update]
  constructor
  · rintro ⟨s, hs, rfl⟩
    rw [hfix s hs ((hq s).mp hr)]
    exact hs
  · intro hm
    exact ⟨r, hm, hfix r hm hr⟩

/-! ### Insertion -/

section Insert
variable [DecidableEq κ]

def Taken (t : Table keys) (r : ρ) : Prop := ∃ s ∈ t.rows, Clash keys s r

instance (t : Table keys) (r : ρ) : Decidable (t.Taken r) :=
  inferInstanceAs (Decidable (∃ s ∈ t.rows, Clash keys s r))

/-- `INSERT INTO t … ON CONFLICT DO NOTHING`. -/
def insert (t : Table keys) (r : ρ) : Table keys :=
  if h : t.Taken r then t
  else
    { rows := t.rows ++ [r]
      distinct := by
        rw [List.pairwise_append]
        refine ⟨t.distinct, List.pairwise_singleton _ _, ?_⟩
        intro s hs r' hr' hc
        rw [List.mem_singleton] at hr'
        subst hr'
        exact h ⟨s, hs, hc⟩ }

/-- `INSERT INTO t …`, which fails on a conflict. -/
def insert? (t : Table keys) (r : ρ) : Option (Table keys) :=
  if t.Taken r then none else some (t.insert r)

theorem insert_of_taken {t : Table keys} {r : ρ} (h : t.Taken r) : t.insert r = t := by
  rw [insert, dif_pos h]

theorem rows_insert {t : Table keys} {r : ρ} (h : ¬ t.Taken r) :
    (t.insert r).rows = t.rows ++ [r] := by
  rw [insert, dif_neg h]

theorem rows_insert? {t t' : Table keys} {r : ρ} (h : t.insert? r = some t') :
    t'.rows = t.rows ++ [r] := by
  rw [insert?] at h
  split at h
  · cases h
  next hfree => rw [← Option.some.inj h, rows_insert hfree]

@[simp] theorem mem_insert {t : Table keys} {r s : ρ} :
    s ∈ (t.insert r).rows ↔ s ∈ t.rows ∨ (¬ t.Taken r ∧ s = r) := by
  by_cases h : t.Taken r
  · simp [insert_of_taken h, h]
  · simp [rows_insert h, h]

theorem mem_insert_of_mem {t : Table keys} {r s : ρ} (h : s ∈ t.rows) : s ∈ (t.insert r).rows :=
  mem_insert.mpr (.inl h)

omit [DecidableEq κ] in
theorem taken_update {t : Table keys} {f : ρ → ρ} {hf : ∀ r, keys (f r) = keys r} {r : ρ} :
    (t.update f hf).Taken r ↔ t.Taken r := by
  constructor
  · rintro ⟨s', hs', hclash⟩
    obtain ⟨s, hs, rfl⟩ := mem_update.mp hs'
    rw [Clash, hf] at hclash
    exact ⟨s, hs, hclash⟩
  · rintro ⟨s, hs, hclash⟩
    refine ⟨f s, mem_update.mpr ⟨s, hs, rfl⟩, ?_⟩
    rw [Clash, hf]
    exact hclash

theorem mem_insert_self {t : Table keys} {r : ρ} (hkeys : ∀ r s, Clash keys r s → r = s) :
    r ∈ (t.insert r).rows := by
  rw [mem_insert]
  by_cases h : t.Taken r
  · obtain ⟨s, hs, hclash⟩ := h
    exact .inl (hkeys s r hclash ▸ hs)
  · exact .inr ⟨h, rfl⟩

end Insert

/-! ### Counts -/

/-- `SELECT COUNT(*) FROM t WHERE p`. -/
def count (t : Table keys) (p : ρ → Bool) : ℕ := t.rows.countP p

theorem count_insert [DecidableEq κ] (t : Table keys) (r : ρ) (p : ρ → Bool) :
    (t.insert r).count p = t.count p + if ¬ t.Taken r ∧ p r = true then 1 else 0 := by
  by_cases h : t.Taken r
  · simp [insert_of_taken h, h]
  · simp [count, rows_insert h, List.countP_append, List.countP_singleton, h]

theorem count_deleteWhere (t : Table keys) (p q : ρ → Bool) :
    (t.deleteWhere q).count p + t.rows.countP (fun r => p r && q r) = t.count p := by
  have hsplit := List.countP_eq_countP_filter_add t.rows p q
  rw [List.countP_filter, List.countP_filter] at hsplit
  simp only [count, deleteWhere, List.countP_filter]
  omega

theorem count_update (t : Table keys) (f : ρ → ρ) (hf : ∀ r, keys (f r) = keys r) (p : ρ → Bool)
    (hp : ∀ r ∈ t.rows, p (f r) = p r) : (t.update f hf).count p = t.count p := by
  simp only [count, update, List.countP_map]
  exact List.countP_congr fun r hr => by simp [hp r hr]

theorem count_eq_zero {t : Table keys} {p : ρ → Bool} :
    t.count p = 0 ↔ ∀ r ∈ t.rows, p r = false := by
  simp [count, List.countP_eq_zero]

end Table

/-! ### What a step may change -/

/-- The rows a step may remove and those it may add. -/
structure Change (ρ : Type*) where
  removed : ρ → Prop
  added : ρ → Prop

def Change.none : Change ρ := ⟨fun _ => False, fun _ => False⟩

def Change.removing (p : ρ → Prop) : Change ρ := ⟨p, fun _ => False⟩

def Change.adding (p : ρ → Prop) : Change ρ := ⟨fun _ => False, p⟩

/-- Only rows the change allows come or go. -/
structure Within {keys : ρ → List κ} (c : Change ρ) (t t' : Table keys) : Prop where
  removed : ∀ r ∈ t.rows, r ∉ t'.rows → c.removed r
  added : ∀ r ∈ t'.rows, r ∉ t.rows → c.added r

namespace Within
variable {keys : ρ → List κ} {t t' : Table keys} {c : Change ρ}

@[simp] theorem refl : Within c t t :=
  ⟨fun _ hr hn => absurd hr hn, fun _ hr hn => absurd hr hn⟩

@[simp] theorem deleteWhere {p : ρ → Bool} :
    Within c t (t.deleteWhere p) ↔ ∀ r ∈ t.rows, p r = true → c.removed r := by
  constructor
  · intro h r hr hp
    exact h.removed r hr (by simp [hp])
  · intro h
    refine ⟨fun r hr hn => h r hr ?_, fun r hr hn => ?_⟩
    · simpa [hr] using hn
    · exact absurd (Table.mem_deleteWhere.mp hr).1 hn

theorem insert [DecidableEq κ] {r : ρ} (h : c.added r) : Within c t (t.insert r) := by
  refine ⟨fun s hs hn => ?_, fun s hs hn => ?_⟩
  · exact absurd (Table.mem_insert_of_mem hs) hn
  · rcases Table.mem_insert.mp hs with hs | ⟨_, rfl⟩
    · exact absurd hs hn
    · exact h

theorem update {f : ρ → ρ} {hf : ∀ r, keys (f r) = keys r}
    (h : ∀ r ∈ t.rows, f r ≠ r → c.removed r ∧ c.added (f r)) : Within c t (t.update f hf) := by
  refine ⟨fun r hr hn => ?_, fun s hs hn => ?_⟩
  · refine (h r hr fun he => hn ?_).1
    exact Table.mem_update.mpr ⟨r, hr, he⟩
  · obtain ⟨r, hr, rfl⟩ := Table.mem_update.mp hs
    refine (h r hr fun he => hn ?_).2
    rw [he]
    exact hr

end Within

/-! ### Tables with a sequence -/

/-- A table whose primary key a sequence gives, which never gives an id twice. -/
structure Serial (id : ρ → ℕ) where
  rows : List ρ
  next : ℕ
  below : ∀ r ∈ rows, id r < next
  distinct : rows.Pairwise fun r s => id r ≠ id s

namespace Serial
variable {id : ρ → ℕ}

def empty : Serial id := ⟨[], 1, by simp, List.Pairwise.nil⟩

/-- `INSERT INTO t … RETURNING id`, of the row with the id it gets. -/
def insert (t : Serial id) (row : ℕ → ρ) (hrow : ∀ n, id (row n) = n) : Serial id where
  rows := t.rows ++ [row t.next]
  next := t.next + 1
  below := by
    intro r hr
    rcases List.mem_append.mp hr with hr | hr
    · exact Nat.lt_succ_of_lt (t.below r hr)
    · rw [List.mem_singleton.mp hr, hrow]
      exact Nat.lt_succ_self t.next
  distinct := by
    rw [List.pairwise_append]
    refine ⟨t.distinct, List.pairwise_singleton _ _, fun r hr s hs => ?_⟩
    rw [List.mem_singleton.mp hs, hrow]
    exact Nat.ne_of_lt (t.below r hr)

/-- `DELETE FROM t WHERE p`. -/
def deleteWhere (t : Serial id) (p : ρ → Bool) : Serial id where
  rows := t.rows.filter fun r => !p r
  next := t.next
  below := fun r hr => t.below r (List.mem_of_mem_filter hr)
  distinct := t.distinct.filter _

/-- `UPDATE t SET …`, of other columns than the id. -/
def update (t : Serial id) (f : ρ → ρ) (hf : ∀ r, id (f r) = id r) : Serial id where
  rows := t.rows.map f
  next := t.next
  below := by
    intro r hr
    obtain ⟨s, hs, rfl⟩ := List.mem_map.mp hr
    rw [hf]
    exact t.below s hs
  distinct := by
    rw [List.pairwise_map]
    exact t.distinct.imp fun h => by rwa [hf, hf]

end Serial

end Eunha.Tables
