import Eunha.StatusLifecycle

/-!
# Counting posts, replies and boosts

Every account's posts, every status's replies and boosts are counted beside the rows. Here
is what each statement does to the rows of a kind and to their counter: a row inserted,
discarded or deleted, a boost counted, uncounted or counted again.
-/
namespace Eunha.StatusCounts
open Tables Database Statuses InboxRelationships StatusLifecycle

def isPost (x : ℕ) (s : Status) : Bool :=
  s.accountId = x ∧ s.visibility.counted = true ∧ s.deleted = false

def isReplyTo (x : ℕ) (s : Status) : Bool :=
  s.inReplyToId = some x ∧ s.visibility.distributable = true ∧ s.deleted = false

def Discarded (db : Db) (x : ℕ) : Prop := ∃ s ∈ db.statuses.rows, s.id = x ∧ s.deleted = true

/-- The boosts of a status are to be counted: of `all`, or of those not discarded. -/
def due (all : Bool) (db : Db) (x : ℕ) : Prop := all = true ∨ ¬ Discarded db x

def PostsExact (db : Db) : Prop :=
  ∀ x, statusesCount db.accountStats x = db.statuses.count (isPost x)

/-- The counters equal the rows. -/
structure Exact (all : Bool) (db : Db) : Prop where
  posts : PostsExact db
  replies : ∀ x, repliesCount db.statusStats x = db.statuses.count (isReplyTo x)
  reblogs : ∀ x, due all db x →
    reblogsCount db.statusStats x = db.statuses.count (isKeptBoostOf x)

/-! ### What counting does to the counters -/

@[simp] theorem statuses_onStatusCreated (db : Db) (a : ℕ) (v : Visibility) (r : Option ℕ) :
    (onStatusCreated db a v r).statuses = db.statuses := by
  rw [onStatusCreated_eq]

@[simp] theorem statuses_onStatusDeleted (db : Db) (a : ℕ) (v : Visibility) (r : Option ℕ) :
    (onStatusDeleted db a v r).statuses = db.statuses := by
  rw [onStatusDeleted_eq]

theorem accountStats_onStatusCreated (db : Db) (a : ℕ) (v : Visibility) (r : Option ℕ) :
    (onStatusCreated db a v r).accountStats =
      if v.counted then
        upsertStat .zero (fun a => { a with statusesCount := a.statusesCount + 1 })
          db.accountStats a
      else db.accountStats := by
  simp only [onStatusCreated]
  cases v.counted with
  | false => rfl
  | true => cases r.filter fun _ => v.distributable <;> rfl

theorem statusStats_onStatusCreated (db : Db) (a : ℕ) (v : Visibility) (r : Option ℕ) :
    (onStatusCreated db a v r).statusStats =
      match r.filter fun _ => v.distributable with
      | some parentId =>
          upsertStat .zero (fun a => { a with repliesCount := a.repliesCount + 1 }) db.statusStats
            parentId
      | none => db.statusStats := by
  simp only [onStatusCreated]
  cases v <;> cases r <;> rfl

theorem accountStats_onStatusDeleted (db : Db) (a : ℕ) (v : Visibility) (r : Option ℕ) :
    (onStatusDeleted db a v r).accountStats =
      if v.counted then
        updateStat (fun a => { a with statusesCount := max (a.statusesCount - 1) 0 })
          db.accountStats a
      else db.accountStats := by
  simp only [onStatusDeleted]
  cases v.counted with
  | false => rfl
  | true => cases r.filter fun _ => v.distributable <;> rfl

theorem statusStats_onStatusDeleted (db : Db) (a : ℕ) (v : Visibility) (r : Option ℕ) :
    (onStatusDeleted db a v r).statusStats =
      match r.filter fun _ => v.distributable with
      | some parentId =>
          updateStat (fun a => { a with repliesCount := max (a.repliesCount - 1) 0 })
            db.statusStats parentId
      | none => db.statusStats := by
  simp only [onStatusDeleted]
  cases v <;> cases r <;> rfl

theorem statusesCount_onStatusCreated (db : Db) (a : ℕ) (v : Visibility) (r : Option ℕ) (x : ℕ) :
    statusesCount (onStatusCreated db a v r).accountStats x =
      if x = a ∧ v.counted = true then statusesCount db.accountStats x + 1
      else statusesCount db.accountStats x := by
  rw [accountStats_onStatusCreated]
  cases v.counted with
  | false => simp
  | true =>
      simp only [if_true, and_true]
      exact read_upsertStat (c := AccountStat.statusesCount) (g := (· + 1)) (fun _ => rfl) rfl _ a x

theorem statusesCount_onStatusDeleted (db : Db) (a : ℕ) (v : Visibility) (r : Option ℕ) (x : ℕ) :
    statusesCount (onStatusDeleted db a v r).accountStats x =
      if x = a ∧ v.counted = true then max (statusesCount db.accountStats x - 1) 0
      else statusesCount db.accountStats x := by
  rw [accountStats_onStatusDeleted]
  cases v.counted with
  | false => simp
  | true =>
      simp only [if_true, and_true]
      exact read_updateStat (g := fun n => max (n - 1) 0) (fun _ => rfl) rfl db.accountStats a x

theorem filter_distributable {r : Option ℕ} {v : Visibility} {x : ℕ} :
    (r.filter fun _ => v.distributable) = some x ↔ r = some x ∧ v.distributable = true := by
  cases r <;> cases v <;> simp [Visibility.distributable]

theorem repliesCount_onStatusCreated (db : Db) (a : ℕ) (v : Visibility) (r : Option ℕ) (x : ℕ) :
    repliesCount (onStatusCreated db a v r).statusStats x =
      if r = some x ∧ v.distributable = true then repliesCount db.statusStats x + 1
      else repliesCount db.statusStats x := by
  simp only [statusStats_onStatusCreated, ← filter_distributable]
  cases r.filter fun _ => v.distributable with
  | none => simp
  | some parent =>
      simp only [Option.some_inj, eq_comm (a := parent)]
      exact read_upsertStat (c := StatusStat.repliesCount) (g := (· + 1)) (fun _ => rfl) rfl _ _ x

theorem repliesCount_onStatusDeleted (db : Db) (a : ℕ) (v : Visibility) (r : Option ℕ) (x : ℕ) :
    repliesCount (onStatusDeleted db a v r).statusStats x =
      if r = some x ∧ v.distributable = true then max (repliesCount db.statusStats x - 1) 0
      else repliesCount db.statusStats x := by
  simp only [statusStats_onStatusDeleted, ← filter_distributable]
  cases r.filter fun _ => v.distributable with
  | none => simp
  | some parent =>
      simp only [Option.some_inj, eq_comm (a := parent)]
      exact read_updateStat (g := fun n => max (n - 1) 0) (fun _ => rfl) rfl db.statusStats parent x

@[simp] theorem reblogsCount_onStatusCreated (db : Db) (a : ℕ) (v : Visibility) (r : Option ℕ) :
    reblogsCount (onStatusCreated db a v r).statusStats = reblogsCount db.statusStats := by
  rw [statusStats_onStatusCreated]
  cases r.filter fun _ => v.distributable with
  | none => rfl
  | some parent =>
      exact read_upsertStat_other (c := StatusStat.reblogsCount) (d := .zero)
        (f := fun a => { a with repliesCount := a.repliesCount + 1 }) (fun _ => rfl) rfl _ _

@[simp] theorem reblogsCount_onStatusDeleted (db : Db) (a : ℕ) (v : Visibility) (r : Option ℕ) :
    reblogsCount (onStatusDeleted db a v r).statusStats = reblogsCount db.statusStats := by
  rw [statusStats_onStatusDeleted]
  cases r.filter fun _ => v.distributable with
  | none => rfl
  | some parent =>
      exact read_updateStat_other (c := StatusStat.reblogsCount)
        (f := fun a => { a with repliesCount := max (a.repliesCount - 1) 0 }) (fun _ => rfl) _ _

/-! ### What the statements do to the counts of rows -/

theorem kept_of_isPost {x : ℕ} {s : Status} (h : isPost x s = true) : s.deleted = false := by
  simp only [isPost, decide_eq_true_eq] at h
  exact h.2.2

theorem kept_of_isReplyTo {x : ℕ} {s : Status} (h : isReplyTo x s = true) :
    s.deleted = false := by
  simp only [isReplyTo, decide_eq_true_eq] at h
  exact h.2.2

theorem kept_of_isKeptBoostOf {x : ℕ} {s : Status} (h : isKeptBoostOf x s = true) :
    s.deleted = false := by
  simp only [isKeptBoostOf, decide_eq_true_eq] at h
  exact h.2

theorem count_discardStatuses (db : Db) (p q : Status → Bool)
    (hq : ∀ s, q s = true → s.deleted = false) :
    (discardStatuses db p).statuses.count q + db.statuses.rows.countP (fun s => q s && p s) =
      db.statuses.count q := by
  have hrow (s : Status) :
      q (if p s = true then { s with deleted := true } else s) = (q s && !p s) := by
    cases hp : p s with
    | false => simp
    | true =>
        simp only [if_true, Bool.not_true, Bool.and_false, Bool.eq_false_iff]
        intro hqs
        cases hq _ hqs
  have hsplit := List.countP_eq_countP_filter_add db.statuses.rows q p
  rw [List.countP_filter, List.countP_filter] at hsplit
  simp only [discardStatuses, Table.count, Table.update, List.countP_map, Function.comp_def, hrow]
  omega

theorem count_discardOne {db : Db} {p q : Status → Bool} {row : Status}
    (hq : ∀ s, q s = true → s.deleted = false) (hrow : row ∈ db.statuses.rows)
    (hp : p row = true)
    (honly : ∀ s ∈ db.statuses.rows, s.deleted = false → p s = true → s = row) :
    (discardStatuses db p).statuses.count q + (if q row = true then 1 else 0) =
      db.statuses.count q := by
  rw [← count_discardStatuses db p q hq, db.statuses.countP_of_only (by simp [Status.keys]) hrow hp]
  exact fun s hs hqs hps => honly s hs (hq s hqs) hps

/-- Of the kept rows, only `row` goes. -/
def OnlyTakes (db : Db) (p : Status → Bool) (row : Status) : Prop :=
  ∀ s ∈ db.statuses.rows, s.deleted = false → s.id ∈ removedIds db p → s = row

theorem count_deleteStatuses {db : Db} {p q : Status → Bool} {row : Status}
    (hq : ∀ s, q s = true → s.deleted = false)
    (hdetach : ∀ s ∈ db.statuses.rows, s.id ∉ removedIds db p →
      q (detach (removedIds db p) s) = q s)
    (hrow : row ∈ db.statuses.rows) (hp : p row = true) (honly : OnlyTakes db p row) :
    (deleteStatuses db p).statuses.count q + (if q row = true then 1 else 0) =
      db.statuses.count q := by
  have hgone : row.id ∈ removedIds db p := mem_removedIds hrow hp
  have htaken : db.statuses.rows.countP (fun s => q s && decide (s.id ∈ removedIds db p)) =
      if q row = true then 1 else 0 := by
    refine db.statuses.countP_of_only (by simp [Status.keys]) hrow (by simpa using hgone) ?_
    intro s hs hqs hmem
    exact honly s hs (hq s hqs) (by simpa using hmem)
  rw [← htaken, ← db.statuses.count_deleteWhere q]
  congr 1
  rw [deleteStatuses]
  refine Table.count_update _ _ (keys_detach _) _ fun s hs => ?_
  rw [Table.mem_deleteWhere, decide_eq_false_iff_not] at hs
  exact hdetach s hs.1 hs.2

theorem count_insert {db : Db} {row : Status} (hfree : ¬ db.statuses.Taken row)
    (q : Status → Bool) :
    (db.statuses.insert row).count q = db.statuses.count q + if q row = true then 1 else 0 := by
  simp [Table.count_insert, hfree]

theorem due_of_stay {all : Bool} {db db' : Db} {x : ℕ}
    (hstay : ∀ s ∈ db.statuses.rows, s.id = x → s.deleted = true →
      ∃ t ∈ db'.statuses.rows, t.id = x ∧ t.deleted = true)
    (h : due all db' x) : due all db x := by
  rcases h with hall | hnot
  · exact .inl hall
  · refine .inr ?_
    rintro ⟨s, hs, hid, hdeleted⟩
    exact hnot (hstay s hs hid hdeleted)

/-! ### A row inserted -/

@[simp] theorem statuses_insertCounted (db : Db) (row : Status) :
    (insertCounted db row).statuses = db.statuses.insert row := by
  rw [insertCounted, statuses_onStatusCreated]

theorem posts_inserted {db db' : Db} (row : Status) (hkept : row.deleted = false)
    (hfree : ¬ db.statuses.Taken row) (hstatuses : db'.statuses = db.statuses.insert row)
    (hstats : ∀ x, statusesCount db'.accountStats x =
      if x = row.accountId ∧ row.visibility.counted = true then statusesCount db.accountStats x + 1
      else statusesCount db.accountStats x)
    (h : PostsExact db) : PostsExact db' := by
  intro x
  rw [hstats, hstatuses, count_insert hfree, Int.natCast_add, ← h x]
  by_cases hx : x = row.accountId ∧ row.visibility.counted = true
  · obtain ⟨rfl, hcounted⟩ := hx
    have hpost : isPost row.accountId row = true := by simp [isPost, hcounted, hkept]
    simp [hcounted, hpost]
  · have hpost : isPost x row = false := by
      simp only [isPost, decide_eq_false_iff_not]
      rintro ⟨rfl, hcounted, _⟩
      exact hx ⟨rfl, hcounted⟩
    simp [hx, hpost]

theorem posts_insertCounted {db : Db} {row : Status} (hkept : row.deleted = false)
    (hfree : ¬ db.statuses.Taken row) (h : PostsExact db) : PostsExact (insertCounted db row) :=
  posts_inserted row hkept hfree (statuses_insertCounted db row)
    (fun x => statusesCount_onStatusCreated _ _ _ _ x) h

theorem replies_insertCounted {db : Db} {row : Status} {x : ℕ} (hkept : row.deleted = false)
    (hfree : ¬ db.statuses.Taken row)
    (h : repliesCount db.statusStats x = db.statuses.count (isReplyTo x)) :
    repliesCount (insertCounted db row).statusStats x =
      (insertCounted db row).statuses.count (isReplyTo x) := by
  rw [statuses_insertCounted, insertCounted, repliesCount_onStatusCreated, count_insert hfree,
    Int.natCast_add, ← h]
  by_cases hx : row.inReplyToId = some x ∧ row.visibility.distributable = true
  · have hreply : isReplyTo x row = true := by simp [isReplyTo, hx.1, hx.2, hkept]
    simp [hx, hreply]
  · have hreply : isReplyTo x row = false := by
      simp only [isReplyTo, decide_eq_false_iff_not]
      rintro ⟨hparent, hdistributable, _⟩
      exact hx ⟨hparent, hdistributable⟩
    simp [hx, hreply]

theorem due_insert {all : Bool} {db db' : Db} (row : Status) {x : ℕ}
    (hstatuses : db'.statuses = db.statuses.insert row) (h : due all db' x) : due all db x := by
  refine due_of_stay (fun s hs hid hdeleted => ⟨s, ?_, hid, hdeleted⟩) h
  rw [hstatuses]
  exact Table.mem_insert_of_mem hs

theorem exact_insertCounted {all : Bool} {db : Db} {row : Status} (hkept : row.deleted = false)
    (hboost : row.reblogOfId = none) (hfree : ¬ db.statuses.Taken row) (h : Exact all db) :
    Exact all (insertCounted db row) where
  posts := posts_insertCounted hkept hfree h.posts
  replies x := replies_insertCounted hkept hfree (h.replies x)
  reblogs x hdue := by
    rw [statuses_insertCounted, insertCounted, reblogsCount_onStatusCreated, count_insert hfree,
      h.reblogs x (due_insert row (statuses_insertCounted db row) hdue)]
    simp [isKeptBoostOf, hboost]

theorem exact_postStatus {all : Bool} {db : Db} (h : Exact all db) (account : Account)
    (p : Post) : Exact all (postStatus db account p) := by
  rw [postStatus]
  split
  · exact h
  · split
    · exact h
    next hfree => exact exact_insertCounted rfl rfl hfree h

/-! ### A boost inserted -/

theorem reblogsCount_bumpReblogs (db : Db) (o x : ℕ) :
    reblogsCount (bumpReblogs db o).statusStats x =
      if x = o then reblogsCount db.statusStats x + 1 else reblogsCount db.statusStats x :=
  read_upsertStat (c := StatusStat.reblogsCount) (d := .zero) (g := (· + 1))
    (f := fun a => { a with reblogsCount := a.reblogsCount + 1 }) (fun _ => rfl) rfl _ _ x

theorem repliesCount_bumpReblogs (db : Db) (o : ℕ) :
    repliesCount (bumpReblogs db o).statusStats = repliesCount db.statusStats :=
  read_upsertStat_other (c := StatusStat.repliesCount) (d := .zero)
    (f := fun a => { a with reblogsCount := a.reblogsCount + 1 }) (fun _ => rfl) rfl _ _

theorem isReplyTo_boostRow (id accountId : ℕ) (uri : Option String) (v : Visibility) (o x : ℕ) :
    isReplyTo x (boostRow id accountId uri v o) = false := by
  simp [isReplyTo, boostRow]

theorem isKeptBoostOf_boostRow (id accountId : ℕ) (uri : Option String) (v : Visibility) (o x : ℕ) :
    isKeptBoostOf x (boostRow id accountId uri v o) = decide (x = o) := by
  simp [isKeptBoostOf, boostRow, eq_comm]

theorem exact_reblogStatus {all : Bool} {db : Db} (p : Policy) (h : Exact all db)
    (accountId statusId boostId : ℕ) (requested : Visibility) :
    Exact all (reblogStatus p db accountId statusId boostId requested) := by
  rw [reblogStatus]
  split
  · exact h
  · split
    · exact h
    next original _ =>
      dsimp only
      split_ifs with hvisible hforbidden halready hfree
      · exact h
      · exact h
      · exact h
      · exact h
      · constructor
        · refine posts_inserted (boostRow boostId accountId none
            (boostVisibility original requested) original.id) rfl hfree ?_ ?_ h.posts
          · rw [statuses_onStatusCreated]
            rfl
          · exact fun x => statusesCount_onStatusCreated _ _ _ _ x
        · intro x
          rw [statuses_onStatusCreated, repliesCount_onStatusCreated, if_neg (by simp),
            repliesCount_bumpReblogs]
          change _ = (((db.statuses.insert _).count (isReplyTo x) : ℕ) : ℤ)
          rw [count_insert hfree, isReplyTo_boostRow]
          exact h.replies x
        · intro x hdue
          have hdue' : due all db x := by
            refine due_insert (boostRow boostId accountId none
              (boostVisibility original requested) original.id) ?_ hdue
            rw [statuses_onStatusCreated]
            rfl
          rw [statuses_onStatusCreated, reblogsCount_onStatusCreated, reblogsCount_bumpReblogs]
          change _ = (((db.statuses.insert _).count (isKeptBoostOf x) : ℕ) : ℤ)
          rw [count_insert hfree, isKeptBoostOf_boostRow, Int.natCast_add, ← h.reblogs x hdue']
          by_cases hx : x = original.id <;> simp [hx]

theorem reblogsCount_upsertReblogs (db : Db) (o x : ℕ) :
    reblogsCount (upsertReblogs db o).statusStats x =
      if x = o then
        if (db.statusStats o).isSome then (db.statuses.count (isKeptBoostOf o) : ℤ) else 1
      else reblogsCount db.statusStats x := by
  by_cases hx : x = o
  · subst hx
    cases hstat : db.statusStats x <;> simp [upsertReblogs, Database.read, hstat]
  · simp [upsertReblogs, Database.read, hx]

theorem repliesCount_upsertReblogs (db : Db) (o x : ℕ) :
    repliesCount (upsertReblogs db o).statusStats x = repliesCount db.statusStats x := by
  by_cases hx : x = o
  · subst hx
    cases hstat : db.statusStats x <;> simp [upsertReblogs, Database.read, hstat, StatusStat.zero]
  · simp [upsertReblogs, Database.read, hx]

theorem exact_recordBoost {all : Bool} {db : Db} {id accountId originalId : ℕ} {uri : Option String}
    {v : Visibility}
    (hagain : db.statuses.Taken (boostRow id accountId uri v originalId) → due all db originalId →
      (db.statusStats originalId).isSome = true)
    (h : Exact all db) :
    Exact all (recordBoost db (boostRow id accountId uri v originalId) originalId) := by
  rw [recordBoost]
  split_ifs with hid htaken
  · exact h
  · refine ⟨h.posts, fun x => (repliesCount_upsertReblogs db originalId x).trans (h.replies x), ?_⟩
    intro x hdue
    rw [reblogsCount_upsertReblogs]
    split
    next hx =>
      rw [if_pos (hagain htaken (hx ▸ hdue)), hx]
      rfl
    next => exact h.reblogs x hdue
  · constructor
    · exact posts_insertCounted rfl htaken h.posts
    · intro x
      rw [repliesCount_upsertReblogs]
      exact replies_insertCounted rfl htaken (h.replies x)
    · intro x hdue
      have hdue' : due all db x :=
        due_insert (boostRow id accountId uri v originalId) (statuses_insertCounted _ _) hdue
      rw [reblogsCount_upsertReblogs]
      change _ = (((insertCounted db _).statuses.count (isKeptBoostOf x) : ℕ) : ℤ)
      split
      next hx =>
        subst hx
        split
        next => rfl
        next hnone =>
          -- no counter before: no boost before, and one now
          have hnone' : db.statusStats x = none := by
            rw [insertCounted, statusStats_onStatusCreated] at hnone
            exact Option.not_isSome_iff_eq_none.mp hnone
          have hzero := h.reblogs x hdue'
          rw [reblogsCount, Database.read, hnone'] at hzero
          change (0 : ℤ) = _ at hzero
          rw [statuses_insertCounted, count_insert htaken, isKeptBoostOf_boostRow, Int.natCast_add,
            ← hzero]
          simp
      next hx =>
        rw [insertCounted, reblogsCount_onStatusCreated, statuses_onStatusCreated]
        change _ = (((db.statuses.insert _).count (isKeptBoostOf x) : ℕ) : ℤ)
        rw [count_insert htaken, isKeptBoostOf_boostRow, decide_eq_false hx]
        exact h.reblogs x hdue'

/-! ### A row discarded -/

theorem discardStatuses_accountStats (db : Db) (p : Status → Bool) :
    (discardStatuses db p).accountStats = db.accountStats := rfl

theorem posts_discardOne {db : Db} {p : Status → Bool} {row : Status} {r : Option ℕ}
    (hrow : row ∈ db.statuses.rows) (hkept : row.deleted = false) (hp : p row = true)
    (honly : ∀ s ∈ db.statuses.rows, s.deleted = false → p s = true → s = row)
    (h : PostsExact db) :
    PostsExact (onStatusDeleted (discardStatuses db p) row.accountId row.visibility r) := by
  intro x
  have hcount := count_discardOne (q := isPost x) (fun _ => kept_of_isPost) hrow hp honly
  rw [statuses_onStatusDeleted, statusesCount_onStatusDeleted, discardStatuses_accountStats, h x]
  by_cases hx : x = row.accountId ∧ row.visibility.counted = true
  · obtain ⟨rfl, hcounted⟩ := hx
    have hpost : isPost row.accountId row = true := by simp [isPost, hcounted, hkept]
    rw [if_pos hpost] at hcount
    rw [if_pos ⟨rfl, hcounted⟩]
    omega
  · have hpost : isPost x row = false := by
      simp only [isPost, decide_eq_false_iff_not]
      rintro ⟨rfl, hcounted, _⟩
      exact hx ⟨rfl, hcounted⟩
    rw [hpost] at hcount
    rw [if_neg hx]
    simp only [Bool.false_eq_true, if_false] at hcount
    omega

theorem replies_discardOne {db : Db} {p : Status → Bool} {row : Status} {x : ℕ}
    (hrow : row ∈ db.statuses.rows) (hkept : row.deleted = false) (hp : p row = true)
    (honly : ∀ s ∈ db.statuses.rows, s.deleted = false → p s = true → s = row)
    (h : repliesCount db.statusStats x = db.statuses.count (isReplyTo x)) :
    repliesCount (onStatusDeleted (discardStatuses db p) row.accountId row.visibility
        row.inReplyToId).statusStats x =
      (discardStatuses db p).statuses.count (isReplyTo x) := by
  have hcount := count_discardOne (q := isReplyTo x) (fun _ => kept_of_isReplyTo) hrow hp honly
  rw [repliesCount_onStatusDeleted]
  change (if _ then max (repliesCount db.statusStats x - 1) 0
    else repliesCount db.statusStats x) = _
  rw [h]
  by_cases hx : row.inReplyToId = some x ∧ row.visibility.distributable = true
  · have hreply : isReplyTo x row = true := by simp [isReplyTo, hx.1, hx.2, hkept]
    rw [if_pos hreply] at hcount
    rw [if_pos hx]
    omega
  · have hreply : isReplyTo x row = false := by
      simp only [isReplyTo, decide_eq_false_iff_not]
      rintro ⟨hparent, hdistributable, _⟩
      exact hx ⟨hparent, hdistributable⟩
    rw [hreply] at hcount
    rw [if_neg hx]
    simp only [Bool.false_eq_true, if_false] at hcount
    omega

theorem due_discard {all : Bool} {db db' : Db} {p : Status → Bool} {x : ℕ}
    (hstatuses : db'.statuses = (discardStatuses db p).statuses) (h : due all db' x) :
    due all db x := by
  refine due_of_stay (fun s hs hid hdeleted => ?_) h
  rw [hstatuses]
  refine ⟨_, mem_discardStatuses.mpr ⟨s, hs, rfl⟩, ?_⟩
  split
  · exact ⟨hid, rfl⟩
  · exact ⟨hid, hdeleted⟩

theorem exact_discardOne {all : Bool} {db : Db} {p : Status → Bool} {row : Status}
    (hrow : row ∈ db.statuses.rows) (hkept : row.deleted = false) (hp : p row = true)
    (honly : ∀ s ∈ db.statuses.rows, s.deleted = false → p s = true → s = row)
    (hboost : ∀ o ∈ row.reblogOfId, ¬ due all db o) (h : Exact all db) :
    Exact all
      (onStatusDeleted (discardStatuses db p) row.accountId row.visibility row.inReplyToId) where
  posts := posts_discardOne hrow hkept hp honly h.posts
  replies x := by
    rw [statuses_onStatusDeleted]
    exact replies_discardOne hrow hkept hp honly (h.replies x)
  reblogs x hdue := by
    have hdue' : due all db x := due_discard (statuses_onStatusDeleted _ _ _ _) hdue
    have hcount :=
      count_discardOne (q := isKeptBoostOf x) (fun _ => kept_of_isKeptBoostOf) hrow hp honly
    have hnot : isKeptBoostOf x row = false := by
      simp only [isKeptBoostOf, decide_eq_false_iff_not]
      rintro ⟨hof, _⟩
      exact hboost x hof hdue'
    rw [hnot] at hcount
    rw [reblogsCount_onStatusDeleted, statuses_onStatusDeleted]
    simp only [Bool.false_eq_true, if_false, Nat.add_zero] at hcount
    rw [hcount]
    exact h.reblogs x hdue'

theorem keptByUri_mem {db : Db} {uri : String} {row : Status} (h : keptByUri db uri = some row) :
    row ∈ db.statuses.rows ∧ row.uri = some uri ∧ row.deleted = false :=
  ⟨List.mem_of_find?_eq_some h, by simpa using List.find?_some h⟩

theorem eq_of_uri {db : Db} {uri : String} {s t : Status} (hs : s ∈ db.statuses.rows)
    (ht : t ∈ db.statuses.rows) (hsu : s.uri = some uri) (htu : t.uri = some uri) : s = t :=
  db.statuses.eq_of_key (k := .uri uri) hs ht (by simp [Status.keys, hsu])
    (by simp [Status.keys, htu])

theorem eq_of_id {db : Db} {s t : Status} (hs : s ∈ db.statuses.rows)
    (ht : t ∈ db.statuses.rows) (hid : s.id = t.id) : s = t :=
  db.statuses.eq_of_key (k := .id t.id) hs ht (by simp [Status.keys, hid]) (by simp [Status.keys])

theorem exact_discardByUri {all : Bool} {db : Db} {uri : String}
    (hboost : ∀ row ∈ keptByUri db uri, ∀ o ∈ row.reblogOfId, ¬ due all db o)
    (h : Exact all db) : Exact all (discardByUri db uri) := by
  rw [discardByUri]
  cases hfind : keptByUri db uri with
  | none =>
      have hnone : ∀ s ∈ db.statuses.rows, decide (s.uri = some uri) = true → s.deleted = true := by
        intro s hs huri
        have hs' := List.find?_eq_none.mp hfind s hs
        by_contra hkept
        simp_all
      rw [discardStatuses_eq_self hnone]
      exact h
  | some row =>
      obtain ⟨hrow, huri, hkept⟩ := keptByUri_mem hfind
      refine exact_discardOne hrow hkept (by simpa using huri) ?_ (hboost row hfind) h
      intro s hs _ hsu
      exact eq_of_uri hs hrow (by simpa using hsu) huri

theorem db_handleDelete (s : Server) (actor uri : String) :
    (handleDelete s actor uri).db = discardByUri s.db uri := by
  rw [handleDelete]
  dsimp only
  split <;> split <;> simp [Server.withDb]

/-! ### A status removed with its boosts -/

@[simp] theorem statuses_uncountBoosts (db : Db) (boosts : List Status) :
    (uncountBoosts db boosts).statuses = db.statuses := by
  induction boosts generalizing db with
  | nil => rfl
  | cons boost boosts ih =>
      exact (ih (onStatusDeleted db boost.accountId boost.visibility none)).trans
        (statuses_onStatusDeleted ..)

@[simp] theorem statusStats_uncountBoosts (db : Db) (boosts : List Status) :
    (uncountBoosts db boosts).statusStats = db.statusStats := by
  induction boosts generalizing db with
  | nil => rfl
  | cons boost boosts ih =>
      exact (ih (onStatusDeleted db boost.accountId boost.visibility none)).trans
        (statusStats_onStatusDeleted ..)

def takenOff (n : ℤ) (k : ℕ) : ℤ := if k = 0 then n else max (n - k) 0

@[simp] theorem takenOff_zero (n : ℤ) : takenOff n 0 = n := if_pos rfl

theorem takenOff_takenOff (n : ℤ) (j k : ℕ) : takenOff (takenOff n j) k = takenOff n (j + k) := by
  simp only [takenOff]
  split_ifs <;> omega

theorem takenOff_add (n k : ℕ) : takenOff (n + k) k = n := by
  simp only [takenOff]
  split_ifs <;> omega

theorem statusesCount_uncounted (db : Db) (a : ℕ) (v : Visibility) (r : Option ℕ) (x : ℕ) :
    statusesCount (onStatusDeleted db a v r).accountStats x =
      takenOff (statusesCount db.accountStats x) (if a = x ∧ v.counted = true then 1 else 0) := by
  simp only [statusesCount_onStatusDeleted, eq_comm (a := x)]
  split <;> rfl

theorem statusesCount_uncountBoosts (db : Db) (boosts : List Status) (x : ℕ) :
    statusesCount (uncountBoosts db boosts).accountStats x =
      takenOff (statusesCount db.accountStats x)
        (boosts.countP fun s => decide (s.accountId = x ∧ s.visibility.counted = true)) := by
  induction boosts generalizing db with
  | nil => exact (takenOff_zero _).symm
  | cons boost boosts ih =>
      refine (ih (onStatusDeleted db boost.accountId boost.visibility none)).trans ?_
      rw [statusesCount_uncounted, takenOff_takenOff, List.countP_cons, Nat.add_comm]
      simp only [decide_eq_true_eq]

def discardBoosts (db : Db) (id : ℕ) : Db :=
  uncountBoosts (discardStatuses db (isKeptBoostOf id)) (db.statuses.rows.filter (isKeptBoostOf id))

theorem count_discardBoosts (db : Db) (id : ℕ) (q : Status → Bool)
    (hq : ∀ s, q s = true → s.deleted = false) :
    (discardBoosts db id).statuses.count q +
        db.statuses.rows.countP (fun s => q s && isKeptBoostOf id s) = db.statuses.count q := by
  rw [discardBoosts, statuses_uncountBoosts]
  exact count_discardStatuses db _ q hq

theorem statusesCount_discardBoosts (db : Db) (id x : ℕ) :
    statusesCount (discardBoosts db id).accountStats x =
      takenOff (statusesCount db.accountStats x)
        (db.statuses.rows.countP fun s => isPost x s && isKeptBoostOf id s) := by
  have hsame : (db.statuses.rows.filter (isKeptBoostOf id)).countP
      (fun s => decide (s.accountId = x ∧ s.visibility.counted = true)) =
        db.statuses.rows.countP fun s => isPost x s && isKeptBoostOf id s := by
    rw [List.countP_filter]
    refine List.countP_congr fun s _ => ?_
    simp only [isPost, isKeptBoostOf, Bool.and_eq_true, decide_eq_true_eq]
    tauto
  rw [discardBoosts, statusesCount_uncountBoosts, hsame, discardStatuses_accountStats]

theorem posts_discardBoosts {db : Db} (id : ℕ) (h : PostsExact db) :
    PostsExact (discardBoosts db id) := by
  intro x
  have hcount := count_discardBoosts db id (isPost x) fun _ => kept_of_isPost
  rw [statusesCount_discardBoosts, h x, ← hcount, Int.natCast_add, takenOff_add]

/-- No kept boost of the status is a reply anyone can see. -/
def BoostsNoReplies (db : Db) (id : ℕ) : Prop :=
  ∀ s ∈ db.statuses.rows, isKeptBoostOf id s = true → ∀ x, isReplyTo x s = false

theorem replies_discardBoosts {db : Db} {id x : ℕ} (hboosts : BoostsNoReplies db id)
    (h : repliesCount db.statusStats x = db.statuses.count (isReplyTo x)) :
    repliesCount (discardBoosts db id).statusStats x =
      (discardBoosts db id).statuses.count (isReplyTo x) := by
  have hcount := count_discardBoosts db id (isReplyTo x) fun _ => kept_of_isReplyTo
  have hnone : db.statuses.rows.countP (fun s => isReplyTo x s && isKeptBoostOf id s) = 0 := by
    rw [List.countP_eq_zero]
    intro s hs hboth
    rw [Bool.and_eq_true] at hboth
    rw [hboosts s hs hboth.2 x] at hboth
    cases hboth.1
  rw [hnone, Nat.add_zero] at hcount
  rw [hcount, ← h, discardBoosts, statusStats_uncountBoosts]
  rfl

theorem reblogs_discardBoosts {db : Db} {id x : ℕ}
    (hx : x ≠ id ∨ ∀ s ∈ db.statuses.rows, isKeptBoostOf id s = false)
    (h : reblogsCount db.statusStats x = db.statuses.count (isKeptBoostOf x)) :
    reblogsCount (discardBoosts db id).statusStats x =
      (discardBoosts db id).statuses.count (isKeptBoostOf x) := by
  have hcount := count_discardBoosts db id (isKeptBoostOf x) fun _ => kept_of_isKeptBoostOf
  have hnone : db.statuses.rows.countP (fun s => isKeptBoostOf x s && isKeptBoostOf id s) = 0 := by
    rw [List.countP_eq_zero]
    intro s hs hboth
    rw [Bool.and_eq_true] at hboth
    rcases hx with hne | hnone
    · simp only [isKeptBoostOf, decide_eq_true_eq] at hboth
      exact hne (Option.some_inj.mp (hboth.1.1.symm.trans hboth.2.1))
    · rw [hnone s hs] at hboth
      cases hboth.2
  rw [hnone, Nat.add_zero] at hcount
  rw [hcount, ← h, discardBoosts, statusStats_uncountBoosts]
  rfl

theorem reblogsCount_dropReblogs (db : Db) (o x : ℕ) :
    reblogsCount (dropReblogs db o).statusStats x =
      if x = o then max (reblogsCount db.statusStats x - 1) 0
      else reblogsCount db.statusStats x :=
  read_updateStat (g := fun n => max (n - 1) 0) (fun _ => rfl) rfl db.statusStats o x

theorem repliesCount_dropReblogs (db : Db) (o : ℕ) :
    repliesCount (dropReblogs db o).statusStats = repliesCount db.statusStats :=
  read_updateStat_other (c := StatusStat.repliesCount)
    (f := fun a => { a with reblogsCount := max (a.reblogsCount - 1) 0 }) (fun _ => rfl) _ _

theorem reblogs_drop {db db' : Db} {row : Status} {x n : ℕ} (hkept : row.deleted = false)
    (hstats : reblogsCount db'.statusStats x = reblogsCount db.statusStats x)
    (hcount : n + (if isKeptBoostOf x row = true then 1 else 0) =
      db.statuses.count (isKeptBoostOf x))
    (h : reblogsCount db.statusStats x = db.statuses.count (isKeptBoostOf x)) :
    reblogsCount (row.reblogOfId.elim db' (dropReblogs db')).statusStats x = n := by
  cases hof : row.reblogOfId with
  | none =>
      simp only [isKeptBoostOf, hof, reduceCtorEq, false_and, decide_false, Bool.false_eq_true,
        if_false] at hcount
      change reblogsCount db'.statusStats x = n
      omega
  | some o =>
      simp only [isKeptBoostOf, hof, hkept, Option.some_inj, and_true, decide_eq_true_eq] at hcount
      change reblogsCount (dropReblogs db' o).statusStats x = n
      rw [reblogsCount_dropReblogs, hstats, h]
      by_cases hx : x = o
      · subst hx
        rw [if_pos rfl] at hcount ⊢
        omega
      · rw [if_neg fun he => hx he.symm] at hcount
        rw [if_neg hx]
        omega

theorem removeStatus_eq (db : Db) (status : Status) :
    removeStatus db status =
      status.reblogOfId.elim
        (onStatusDeleted (discardStatuses (discardBoosts db status.id) (·.id = status.id))
          status.accountId status.visibility status.inReplyToId)
        (dropReblogs (onStatusDeleted
          (discardStatuses (discardBoosts db status.id) (·.id = status.id))
          status.accountId status.visibility status.inReplyToId)) := by
  rw [removeStatus]
  cases status.reblogOfId <;> rfl

@[simp] theorem statuses_elim_dropReblogs (db : Db) (o : Option ℕ) :
    (o.elim db (dropReblogs db)).statuses = db.statuses := by
  cases o <;> rfl

theorem accountStats_elim_dropReblogs (db : Db) (o : Option ℕ) :
    (o.elim db (dropReblogs db)).accountStats = db.accountStats := by
  cases o <;> rfl

theorem repliesCount_elim_dropReblogs (db : Db) (o : Option ℕ) :
    repliesCount (o.elim db (dropReblogs db)).statusStats = repliesCount db.statusStats := by
  cases o with
  | none => rfl
  | some o => exact repliesCount_dropReblogs db o

theorem exact_removeStatus {all : Bool} {db : Db} {status : Status}
    (hrow : status ∈ db.statuses.rows) (hkept : status.deleted = false)
    (hself : status.reblogOfId ≠ some status.id) (hboosts : BoostsNoReplies db status.id)
    (hall : all = true → ∀ s ∈ db.statuses.rows, isKeptBoostOf status.id s = false)
    (h : Exact all db) : Exact all (removeStatus db status) := by
  have hnot : isKeptBoostOf status.id status = false := by
    simp [isKeptBoostOf, hself]
  have hrow' : status ∈ (discardBoosts db status.id).statuses.rows := by
    rw [discardBoosts, statuses_uncountBoosts, mem_discardStatuses]
    exact ⟨status, hrow, by rw [hnot]; rfl⟩
  have honly : ∀ s ∈ (discardBoosts db status.id).statuses.rows, s.deleted = false →
      decide (s.id = status.id) = true → s = status := by
    intro s hs _ hid
    exact eq_of_id hs hrow' (by simpa using hid)
  rw [removeStatus_eq]
  constructor
  · intro x
    rw [accountStats_elim_dropReblogs, statuses_elim_dropReblogs]
    exact posts_discardOne hrow' hkept (by simp) honly (posts_discardBoosts status.id h.posts) x
  · intro x
    rw [repliesCount_elim_dropReblogs, statuses_elim_dropReblogs, statuses_onStatusDeleted]
    exact replies_discardOne hrow' hkept (by simp) honly
      (replies_discardBoosts hboosts (h.replies x))
  · intro x hdue
    have hdueBoosts : due all (discardBoosts db status.id) x := by
      refine due_discard (p := fun s => s.id = status.id) ?_ hdue
      rw [statuses_elim_dropReblogs, statuses_onStatusDeleted]
    have hdueDb : due all db x := by
      refine due_discard (p := isKeptBoostOf status.id) ?_ hdueBoosts
      rw [discardBoosts, statuses_uncountBoosts]
    have hx : x ≠ status.id ∨ ∀ s ∈ db.statuses.rows, isKeptBoostOf status.id s = false := by
      rcases hdue with hall' | hnotDiscarded
      · exact .inr (hall hall')
      · refine .inl ?_
        rintro rfl
        refine hnotDiscarded ⟨{ status with deleted := true }, ?_, rfl, rfl⟩
        rw [statuses_elim_dropReblogs, statuses_onStatusDeleted, mem_discardStatuses]
        exact ⟨status, hrow', by simp⟩
    rw [statuses_elim_dropReblogs, statuses_onStatusDeleted]
    refine reblogs_drop hkept ?_ ?_ (reblogs_discardBoosts hx (h.reblogs x hdueDb))
    · rw [reblogsCount_onStatusDeleted]
      rfl
    · exact count_discardOne (fun _ => kept_of_isKeptBoostOf) hrow' (by simp) honly

/-! ### Rows deleted -/

theorem isPost_detach (gone : List ℕ) (x : ℕ) (s : Status) :
    isPost x (detach gone s) = isPost x s := by
  rw [detach]
  split <;> rfl

theorem isKeptBoostOf_detach (gone : List ℕ) (x : ℕ) (s : Status) :
    isKeptBoostOf x (detach gone s) = isKeptBoostOf x s := by
  rw [detach]
  split <;> rfl

theorem isReplyTo_detach {gone : List ℕ} {x : ℕ} (hx : x ∉ gone) (s : Status) :
    isReplyTo x (detach gone s) = isReplyTo x s := by
  rw [detach]
  split
  next hgone =>
    cases hparent : s.inReplyToId with
    | none => simp [hparent] at hgone
    | some parent =>
        have hne : parent ≠ x := by
          rintro rfl
          exact hx (by simpa [hparent] using hgone)
        simp [isReplyTo, hparent, hne]
  next => rfl

theorem posts_deleteStatuses {db : Db} {p : Status → Bool} {row : Status}
    (hrow : row ∈ db.statuses.rows) (hp : p row = true) (honly : OnlyTakes db p row) (x : ℕ) :
    (deleteStatuses db p).statuses.count (isPost x) + (if isPost x row = true then 1 else 0) =
      db.statuses.count (isPost x) :=
  count_deleteStatuses (fun _ => kept_of_isPost) (fun s _ _ => isPost_detach _ x s) hrow hp honly

theorem count_replies_gone {db : Db} {p : Status → Bool} {x : ℕ} (hx : x ∈ removedIds db p) :
    (deleteStatuses db p).statuses.count (isReplyTo x) = 0 := by
  rw [Table.count_eq_zero]
  intro s hs
  obtain ⟨r, _, _, rfl⟩ := mem_deleteStatuses.mp hs
  rw [detach]
  split
  next => simp [isReplyTo]
  next hnot =>
    simp only [isReplyTo, decide_eq_false_iff_not]
    rintro ⟨hparent, _⟩
    simp [hparent, hx] at hnot

theorem count_reblogs_gone {db : Db} {p : Status → Bool} {x : ℕ} (hx : x ∈ removedIds db p) :
    (deleteStatuses db p).statuses.count (isKeptBoostOf x) = 0 := by
  rw [Table.count_eq_zero]
  intro s hs
  obtain ⟨r, hr, hleft, rfl⟩ := mem_deleteStatuses.mp hs
  rw [isKeptBoostOf_detach]
  simp only [isKeptBoostOf, decide_eq_false_iff_not]
  rintro ⟨hof, _⟩
  exact hleft (boost_mem_removedIds hr hof hx)

theorem statusStats_gone {db : Db} {p : Status → Bool} {x : ℕ} (hx : x ∈ removedIds db p) :
    (deleteStatuses db p).statusStats x = none := by
  simp [deleteStatuses, hx]

theorem statusStats_left {db : Db} {p : Status → Bool} {x : ℕ} (hx : x ∉ removedIds db p) :
    (deleteStatuses db p).statusStats x = db.statusStats x := by
  simp [deleteStatuses, hx]

theorem replies_deleteStatuses {db : Db} {p : Status → Bool} {row : Status} {x : ℕ}
    (hrow : row ∈ db.statuses.rows) (hp : p row = true) (honly : OnlyTakes db p row)
    (hreply : isReplyTo x row = false)
    (h : repliesCount db.statusStats x = db.statuses.count (isReplyTo x)) :
    repliesCount (deleteStatuses db p).statusStats x =
      (deleteStatuses db p).statuses.count (isReplyTo x) := by
  by_cases hx : x ∈ removedIds db p
  · rw [count_replies_gone hx, repliesCount, Database.read, statusStats_gone hx]
    rfl
  · have hcount := count_deleteStatuses (q := isReplyTo x) (fun _ => kept_of_isReplyTo)
      (fun s _ _ => isReplyTo_detach hx s) hrow hp honly
    rw [hreply] at hcount
    simp only [Bool.false_eq_true, if_false, Nat.add_zero] at hcount
    rw [hcount, ← h, repliesCount, Database.read, Database.read, statusStats_left hx]

theorem due_deleteStatuses {all : Bool} {db db' : Db} {p : Status → Bool} {x : ℕ}
    (hstatuses : db'.statuses = (deleteStatuses db p).statuses) (hx : x ∉ removedIds db p)
    (h : due all db' x) : due all db x := by
  refine due_of_stay (fun s hs hid hdeleted => ?_) h
  subst hid
  rw [hstatuses]
  exact ⟨_, mem_deleteStatuses.mpr ⟨s, hs, hx, rfl⟩, id_detach _ s, by
    rw [deleted_detach, hdeleted]⟩

theorem count_reblogs_deleteStatuses {db : Db} {p : Status → Bool} {row : Status}
    (hrow : row ∈ db.statuses.rows) (hp : p row = true) (honly : OnlyTakes db p row) (x : ℕ) :
    (deleteStatuses db p).statuses.count (isKeptBoostOf x) +
        (if isKeptBoostOf x row = true then 1 else 0) =
      db.statuses.count (isKeptBoostOf x) :=
  count_deleteStatuses (fun _ => kept_of_isKeptBoostOf) (fun s _ _ => isKeptBoostOf_detach _ x s)
    hrow hp honly

def NoPosts (db : Db) (accountId : ℕ) : Prop :=
  ∀ s ∈ db.statuses.rows, isPost accountId s = false

/-- A deletion takes one row that is no reply anyone can see, and with it no other kept row. -/
structure Clean (db : Db) (p : Status → Bool) (row : Status) : Prop where
  only : OnlyTakes db p row
  noReply : ∀ x, isReplyTo x row = false

theorem exact_unboost {all : Bool} {db : Db} {row : Status} {accountId originalId : ℕ}
    (hrow : row ∈ db.statuses.rows) (hp : isBoostBy accountId originalId row = true)
    (hclean : Clean db (isBoostBy accountId originalId) row)
    (hcounted : row.visibility.counted = true ∨ NoPosts db accountId) (h : Exact all db) :
    Exact all
      { dropReblogs (deleteStatuses db (isBoostBy accountId originalId)) originalId with
        accountStats :=
          updateStat (fun a => { a with statusesCount := max (a.statusesCount - 1) 0 })
            db.accountStats accountId } := by
  obtain ⟨hauthor, hof, hkept⟩ : row.accountId = accountId ∧ row.reblogOfId = some originalId ∧
      row.deleted = false := by simpa [isBoostBy] using hp
  constructor
  · intro x
    have hcount := posts_deleteStatuses hrow hp hclean.only x
    have hread := read_updateStat (c := AccountStat.statusesCount) (g := fun n => max (n - 1) 0)
      (f := fun a => { a with statusesCount := max (a.statusesCount - 1) 0 })
      (fun _ => rfl) rfl db.accountStats accountId x
    refine hread.trans ?_
    change _ = (((deleteStatuses db _).statuses.count (isPost x) : ℕ) : ℤ)
    have hx' := h.posts x
    rw [statusesCount] at hx'
    rw [hx']
    by_cases hx : x = accountId
    · subst hx
      rw [if_pos rfl]
      rcases hcounted with hcounted | hnone
      · have hpost : isPost x row = true := by simp [isPost, hauthor, hcounted, hkept]
        rw [if_pos hpost] at hcount
        omega
      · have hzero : db.statuses.count (isPost x) = 0 := Table.count_eq_zero.mpr hnone
        omega
    · have hpost : isPost x row = false := by simp [isPost, hauthor, Ne.symm hx]
      rw [hpost] at hcount
      rw [if_neg hx]
      simp only [Bool.false_eq_true, if_false] at hcount
      omega
  · intro x
    change repliesCount (dropReblogs (deleteStatuses db _) originalId).statusStats x = _
    rw [repliesCount_dropReblogs]
    exact replies_deleteStatuses hrow hp hclean.only (hclean.noReply x) (h.replies x)
  · intro x hdue
    have hcount := count_reblogs_deleteStatuses hrow hp hclean.only x
    change reblogsCount (dropReblogs (deleteStatuses db _) originalId).statusStats x =
      (((deleteStatuses db _).statuses.count (isKeptBoostOf x) : ℕ) : ℤ)
    by_cases hx : x ∈ removedIds db (isBoostBy accountId originalId)
    · have hzero :
          reblogsCount (deleteStatuses db (isBoostBy accountId originalId)).statusStats x = 0 := by
        rw [reblogsCount, Database.read, statusStats_gone hx]
        rfl
      rw [count_reblogs_gone hx, reblogsCount_dropReblogs, hzero]
      split <;> rfl
    · have hsame : reblogsCount (deleteStatuses db (isBoostBy accountId originalId)).statusStats x =
          reblogsCount db.statusStats x := by
        rw [reblogsCount, Database.read, Database.read, statusStats_left hx]
      have hdrop := reblogs_drop hkept hsame hcount (h.reblogs x (due_deleteStatuses rfl hx hdue))
      rw [hof] at hdrop
      exact hdrop

theorem reblogsCount_recountReblogs (db : Db) (o x : ℕ) :
    reblogsCount (recountReblogs db o).statusStats x =
      if x = o ∧ (db.statusStats o).isSome then (db.statuses.count (isKeptBoostOf o) : ℤ)
      else reblogsCount db.statusStats x := by
  by_cases hx : x = o
  · subst hx
    cases hstat : db.statusStats x <;> simp [recountReblogs, updateStat, Database.read, hstat]
  · simp [recountReblogs, updateStat, Database.read, hx]

theorem repliesCount_recountReblogs (db : Db) (o : ℕ) :
    repliesCount (recountReblogs db o).statusStats = repliesCount db.statusStats :=
  read_updateStat_other (c := StatusStat.repliesCount)
    (f := fun a => { a with reblogsCount := (db.statuses.count (isKeptBoostOf o) : ℤ) })
    (fun _ => rfl) _ _

def recounted (db : Db) (row : Status) : Db := row.reblogOfId.elim db (recountReblogs db)

@[simp] theorem statuses_recounted (db : Db) (row : Status) :
    (recounted db row).statuses = db.statuses := by
  rw [recounted]
  cases row.reblogOfId <;> rfl

theorem accountStats_recounted (db : Db) (row : Status) :
    (recounted db row).accountStats = db.accountStats := by
  rw [recounted]
  cases row.reblogOfId <;> rfl

theorem repliesCount_recounted (db : Db) (row : Status) :
    repliesCount (recounted db row).statusStats = repliesCount db.statusStats := by
  rw [recounted]
  cases row.reblogOfId with
  | none => rfl
  | some o => exact repliesCount_recountReblogs db o

theorem reblogs_recounted {db : Db} {p : Status → Bool} {row : Status} {x : ℕ}
    (hrow : row ∈ db.statuses.rows) (hp : p row = true) (hclean : Clean db p row)
    (h : x ∉ removedIds db p →
      reblogsCount db.statusStats x = db.statuses.count (isKeptBoostOf x)) :
    reblogsCount (recounted (deleteStatuses db p) row).statusStats x =
      (deleteStatuses db p).statuses.count (isKeptBoostOf x) := by
  have hcount := count_reblogs_deleteStatuses hrow hp hclean.only x
  have hdeleted : reblogsCount (deleteStatuses db p).statusStats x =
      if x ∈ removedIds db p then 0 else reblogsCount db.statusStats x := by
    rw [reblogsCount, Database.read]
    split
    next hx =>
      rw [statusStats_gone hx]
      rfl
    next hx => rw [statusStats_left hx, Database.read]
  -- the boosts of a status that goes are gone, and its counter with them
  by_cases hx : x ∈ removedIds db p
  · rw [if_pos hx] at hdeleted
    rw [count_reblogs_gone hx, recounted]
    cases row.reblogOfId with
    | none => exact hdeleted
    | some o =>
        change reblogsCount (recountReblogs _ o).statusStats x = _
        rw [reblogsCount_recountReblogs]
        split
        next ho => rw [← ho.1, statusStats_gone hx] at ho; cases ho.2
        next => exact hdeleted
  · rw [if_neg hx, h hx] at hdeleted
    rw [recounted]
    cases hof : row.reblogOfId with
    | none =>
        rw [show isKeptBoostOf x row = false by simp [isKeptBoostOf, hof]] at hcount
        simp only [Bool.false_eq_true, if_false, Nat.add_zero] at hcount
        change reblogsCount (deleteStatuses db p).statusStats x = _
        rw [hdeleted, hcount]
    | some o =>
        change reblogsCount (recountReblogs _ o).statusStats x = _
        rw [reblogsCount_recountReblogs]
        split
        next ho => rw [ho.1]
        next ho =>
          rw [hdeleted]
          by_cases hxo : x = o
          · -- no counter: nothing was counted, and nothing is left to count
            subst hxo
            have hnone : db.statusStats x = none := by
              rw [statusStats_left hx] at ho
              simpa using ho
            have hzero := h hx
            rw [reblogsCount, Database.read, hnone] at hzero
            change (0 : ℤ) = _ at hzero
            omega
          · have hnot : isKeptBoostOf x row = false := by
              simp [isKeptBoostOf, hof, Ne.symm hxo]
            rw [hnot] at hcount
            simp only [Bool.false_eq_true, if_false, Nat.add_zero] at hcount
            rw [hcount]

theorem db_undoAnnounce {s : State} {actor uri : String} {row : Status} (hne : uri ≠ "")
    (hfind : s.db.statusByUri uri = some row) :
    (undoAnnounce s actor uri).db =
      onStatusDeleted (recounted (deleteStatuses s.db fun status => status.uri = some uri) row)
        row.accountId row.visibility none := by
  rw [undoAnnounce, if_neg hne, hfind, recounted]
  dsimp only
  cases row.reblogOfId <;> rfl

/-- What `Undo` of an `Announce` finds under the URI is counted, or there is nothing to
uncount, and nothing else goes with it. -/
structure UndoMeets (db : Db) (uri : String) (row : Status) : Prop where
  clean : Clean db (fun s => s.uri = some uri) row
  counted : row.deleted = false ∨ row.visibility.counted = false ∨ NoPosts db row.accountId

theorem exact_undoAnnounce {all : Bool} {s : State} {actor uri : String}
    (hmeets : uri ≠ "" → ∀ row ∈ s.db.statusByUri uri, UndoMeets s.db uri row)
    (h : Exact all s.db) : Exact all (undoAnnounce s actor uri).db := by
  by_cases hne : uri = ""
  · rw [undoAnnounce, if_pos hne]
    exact h
  · cases hfind : s.db.statusByUri uri with
    | none =>
        rw [undoAnnounce, if_neg hne, hfind, db_deleteLater]
        exact h
    | some row =>
        rw [db_undoAnnounce hne hfind]
        obtain ⟨hrow, huri⟩ := Db.statusByUri_mem hfind
        obtain ⟨hclean, hcounted⟩ := hmeets hne row hfind
        have hp : decide (row.uri = some uri) = true := by simpa using huri
        constructor
        · intro x
          have hcount := posts_deleteStatuses hrow hp hclean.only x
          rw [statuses_onStatusDeleted, statuses_recounted, statusesCount_onStatusDeleted,
            accountStats_recounted]
          change (if _ then max (statusesCount s.db.accountStats x - 1) 0
            else statusesCount s.db.accountStats x) = _
          rw [h.posts x]
          by_cases hx : x = row.accountId ∧ row.visibility.counted = true
          · obtain ⟨rfl, hvisible⟩ := hx
            rw [if_pos ⟨rfl, hvisible⟩]
            rcases hcounted with hkept | hnot | hnone
            · have hpost : isPost row.accountId row = true := by simp [isPost, hvisible, hkept]
              rw [if_pos hpost] at hcount
              omega
            · rw [hvisible] at hnot
              cases hnot
            · have hzero : s.db.statuses.count (isPost row.accountId) = 0 :=
                Table.count_eq_zero.mpr hnone
              omega
          · have hpost : isPost x row = false := by
              simp only [isPost, decide_eq_false_iff_not]
              rintro ⟨rfl, hvisible, _⟩
              exact hx ⟨rfl, hvisible⟩
            rw [hpost] at hcount
            rw [if_neg hx]
            simp only [Bool.false_eq_true, if_false] at hcount
            omega
        · intro x
          rw [statuses_onStatusDeleted, statuses_recounted, repliesCount_onStatusDeleted,
            if_neg (by simp), repliesCount_recounted]
          exact replies_deleteStatuses hrow hp hclean.only (hclean.noReply x) (h.replies x)
        · intro x hdue
          rw [statuses_onStatusDeleted, statuses_recounted, reblogsCount_onStatusDeleted]
          refine reblogs_recounted hrow hp hclean fun hx => h.reblogs x ?_
          refine due_deleteStatuses ?_ hx hdue
          rw [statuses_onStatusDeleted, statuses_recounted]

end Eunha.StatusCounts
