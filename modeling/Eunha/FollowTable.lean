import Eunha.InboxRelationships

/-!
# The pairs of a follows table and their counts

What the statements on `follows` and `follow_requests` do to the pairs a table holds, and
when the counters kept beside `follows` still equal its rows: a row inserted must be new
to be counted, and every row deleted must be uncounted.
-/
namespace Eunha.FollowTable
open Tables Database InboxRelationships

/-! ### Pairs -/

def Pairs (t : Table Follow.keys) (x y : ℕ) : Prop :=
  ∃ f ∈ t.rows, f.accountId = x ∧ f.targetAccountId = y

theorem isPair_iff {x y : ℕ} {f : Follow} :
    isPair x y f = true ↔ f.accountId = x ∧ f.targetAccountId = y := by
  simp [isPair]

theorem follows_iff {db : Db} {x y : ℕ} : alreadyFollows db x y = true ↔ Pairs db.follows x y := by
  simp [alreadyFollows, Pairs, isPair]

theorem requested_iff {db : Db} {x y : ℕ} :
    requested db x y = true ↔ Pairs db.followRequests x y := by
  simp [requested, Pairs, isPair]

theorem clash_iff {f g : Follow} :
    Clash Follow.keys f g ↔ f.accountId = g.accountId ∧ f.targetAccountId = g.targetAccountId := by
  simp [Clash, Follow.keys]

theorem taken_iff {t : Table Follow.keys} {f : Follow} :
    t.Taken f ↔ Pairs t f.accountId f.targetAccountId := by
  simp only [Table.Taken, clash_iff, Pairs]

theorem eq_of_pair {t : Table Follow.keys} {f g : Follow} (hf : f ∈ t.rows) (hg : g ∈ t.rows)
    (h : f.accountId = g.accountId ∧ f.targetAccountId = g.targetAccountId) : f = g :=
  t.eq_of_clash hf hg (clash_iff.mpr h)

theorem pairs_insert {t : Table Follow.keys} {f : Follow} {x y : ℕ} :
    Pairs (t.insert f) x y ↔ Pairs t x y ∨ (f.accountId = x ∧ f.targetAccountId = y) := by
  constructor
  · rintro ⟨g, hg, hpair⟩
    rcases Table.mem_insert.mp hg with hg | ⟨_, rfl⟩
    · exact .inl ⟨g, hg, hpair⟩
    · exact .inr hpair
  · rintro (⟨g, hg, hpair⟩ | ⟨rfl, rfl⟩)
    · exact ⟨g, Table.mem_insert_of_mem hg, hpair⟩
    · by_cases htaken : t.Taken f
      · rw [Table.insert_of_taken htaken]
        exact taken_iff.mp htaken
      · exact ⟨f, Table.mem_insert.mpr (.inr ⟨htaken, rfl⟩), rfl, rfl⟩

theorem pairs_setUri {t : Table Follow.keys} {a b x y : ℕ} {uri : Option String} :
    Pairs (setUri t a b uri) x y ↔ Pairs t x y := by
  have hkey (f : Follow) : Clash Follow.keys
      (if f.accountId = a ∧ f.targetAccountId = b then { f with uri := uri } else f) f := by
    split <;> simp [clash_iff]
  constructor
  · rintro ⟨g, hg, hpair⟩
    obtain ⟨f, hf, rfl⟩ := Table.mem_update.mp hg
    obtain ⟨hfrom, hto⟩ := clash_iff.mp (hkey f)
    exact ⟨f, hf, hfrom.symm.trans hpair.1, hto.symm.trans hpair.2⟩
  · rintro ⟨f, hf, hpair⟩
    obtain ⟨hfrom, hto⟩ := clash_iff.mp (hkey f)
    exact ⟨_, Table.mem_update.mpr ⟨f, hf, rfl⟩, hfrom.trans hpair.1, hto.trans hpair.2⟩

theorem pairs_upsertUri {t : Table Follow.keys} {f : Follow} {x y : ℕ} :
    Pairs (upsertUri t f) x y ↔ Pairs t x y ∨ (f.accountId = x ∧ f.targetAccountId = y) := by
  rw [upsertUri]
  split
  next htaken =>
    rw [pairs_setUri]
    refine ⟨.inl, fun h => h.elim (fun h => h) ?_⟩
    rintro ⟨rfl, rfl⟩
    exact taken_iff.mp htaken
  next => exact pairs_insert

theorem pairs_of_deleteWhere {t : Table Follow.keys} {p : Follow → Bool} {x y : ℕ}
    (h : Pairs (t.deleteWhere p) x y) : Pairs t x y := by
  obtain ⟨f, hf, hpair⟩ := h
  exact ⟨f, (Table.mem_deleteWhere.mp hf).1, hpair⟩

theorem not_pairs_deleteWhere {t : Table Follow.keys} {p : Follow → Bool} {x y : ℕ}
    (hp : ∀ f : Follow, f.accountId = x → f.targetAccountId = y → p f = true) :
    ¬ Pairs (t.deleteWhere p) x y := by
  rintro ⟨f, hf, hfrom, hto⟩
  have hpf := (Table.mem_deleteWhere.mp hf).2
  rw [hp f hfrom hto] at hpf
  cases hpf

/-! ### Counts -/

def Counted (t : Table Follow.keys) (stats : Stats AccountStat) : Prop :=
  ∀ x, followersCount stats x = t.count (fun f => f.targetAccountId = x) ∧
    followingCount stats x = t.count (fun f => f.accountId = x)

theorem counted_insert {t : Table Follow.keys} {f : Follow} (stats : Stats AccountStat)
    (hnew : ¬ t.Taken f) :
    Counted (t.insert f) (onFollowCreated stats f.accountId f.targetAccountId) ↔
      Counted t stats := by
  refine forall_congr' fun x => and_congr ?_ ?_
  · rw [followersCount_onFollowCreated, Table.count_insert]
    by_cases hx : x = f.targetAccountId
    · subst hx
      simp only [hnew, not_false_eq_true, decide_true, and_self, if_true]
      omega
    · simp [hx, Ne.symm hx]
  · rw [followingCount_onFollowCreated, Table.count_insert]
    by_cases hx : x = f.accountId
    · subst hx
      simp only [hnew, not_false_eq_true, decide_true, and_self, if_true]
      omega
    · simp [hx, Ne.symm hx]

theorem counted_setUri {t : Table Follow.keys} {stats : Stats AccountStat} {a b : ℕ}
    {uri : Option String} : Counted (setUri t a b uri) stats ↔ Counted t stats := by
  have hcount (p : ℕ → ℕ → Bool) :
      (setUri t a b uri).count (fun f => p f.accountId f.targetAccountId) =
        t.count fun f => p f.accountId f.targetAccountId := by
    refine Table.count_update _ _ _ _ fun f _ => ?_
    split <;> rfl
  refine forall_congr' fun x => ?_
  rw [hcount fun _ target => target = x, hcount fun account _ => account = x]

theorem followersCount_uncountAll {stats : Stats AccountStat} {rows : List Follow} {x n : ℕ}
    (h : followersCount stats x = n + rows.countP (fun f => f.targetAccountId = x)) :
    followersCount (uncountAll stats rows) x = n := by
  induction rows generalizing stats with
  | nil => simpa [uncountAll] using h
  | cons f rows ih =>
      rw [List.countP_cons] at h
      apply ih
      rw [followersCount_onFollowRemoved]
      by_cases hx : x = f.targetAccountId
      · subst hx
        simp only [decide_true, if_true] at h ⊢
        omega
      · simpa [hx, Ne.symm hx] using h

theorem followingCount_uncountAll {stats : Stats AccountStat} {rows : List Follow} {x n : ℕ}
    (h : followingCount stats x = n + rows.countP (fun f => f.accountId = x)) :
    followingCount (uncountAll stats rows) x = n := by
  induction rows generalizing stats with
  | nil => simpa [uncountAll] using h
  | cons f rows ih =>
      rw [List.countP_cons] at h
      apply ih
      rw [followingCount_onFollowRemoved]
      by_cases hx : x = f.accountId
      · subst hx
        simp only [decide_true, if_true] at h ⊢
        omega
      · simpa [hx, Ne.symm hx] using h

theorem counted_deleteWhere {t : Table Follow.keys} {stats : Stats AccountStat}
    (p : Follow → Bool) (h : Counted t stats) :
    Counted (t.deleteWhere p) (uncountAll stats (t.rows.filter p)) := by
  intro x
  constructor
  · apply followersCount_uncountAll
    rw [(h x).1, List.countP_filter, ← Table.count_deleteWhere t _ p]
    exact Int.natCast_add _ _
  · apply followingCount_uncountAll
    rw [(h x).2, List.countP_filter, ← Table.count_deleteWhere t _ p]
    exact Int.natCast_add _ _

theorem counted_uncountOne {t : Table Follow.keys} {stats : Stats AccountStat}
    {p : Follow → Bool} {row : Follow} (h : Counted t stats) (hrow : row ∈ t.rows)
    (hp : p row = true) :
    Counted (t.deleteWhere p) (onFollowRemoved stats row.accountId row.targetAccountId) ↔
      ∀ f ∈ t.rows, p f = true → f = row := by
  constructor
  · intro hafter f hf hpf
    have hdeleted (q : Follow → Bool) (hq : q f = true) : (t.deleteWhere p).count q < t.count q := by
      have hsplit := Table.count_deleteWhere t q p
      have hpos : 0 < t.rows.countP fun r => q r && p r :=
        List.countP_pos_iff.mpr ⟨f, hf, by simp [hq, hpf]⟩
      omega
    refine eq_of_pair hf hrow ⟨?_, ?_⟩
    · by_contra hne
      have hx := (hafter f.accountId).2
      rw [followingCount_onFollowRemoved, if_neg hne, (h _).2] at hx
      have hlt := hdeleted (fun g => g.accountId = f.accountId) (by simp)
      omega
    · by_contra hne
      have hx := (hafter f.targetAccountId).1
      rw [followersCount_onFollowRemoved, if_neg hne, (h _).1] at hx
      have hlt := hdeleted (fun g => g.targetAccountId = f.targetAccountId) (by simp)
      omega
  · intro honly
    have hfilter : t.rows.filter p = [row] :=
      t.filter_eq_singleton (by simp [Follow.keys]) hrow hp honly
    have hall := counted_deleteWhere p h
    rw [hfilter] at hall
    exact hall

end Eunha.FollowTable
