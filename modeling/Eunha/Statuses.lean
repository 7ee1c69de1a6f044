import Eunha.Database

/-!
# Status rows and their counters

Removing a row of `statuses` takes with it what refers to it: its boosts, and theirs, the
favourites and counters of all of these, while a reply only loses its parent. Discarding a
status keeps the row. The counters are kept by the callers, who say what happened.
-/
namespace Eunha.Statuses
open Tables Database

/-! ### Removing rows -/

def boostsOf (rows : List Status) (ids : List ℕ) : List ℕ :=
  (rows.filter fun s => s.reblogOfId.any (· ∈ ids) && decide (s.id ∉ ids)).map (·.id)

/-- The statuses that go when these do: `ON DELETE CASCADE` of `reblog_of_id`, a level at
a time. -/
def cascade (rows : List Status) : ℕ → List ℕ → List ℕ
  | 0, ids => ids
  | fuel + 1, ids =>
      match boostsOf rows ids with
      | [] => ids
      | boosts => cascade rows fuel (ids ++ boosts)

theorem subset_cascade (rows : List Status) (fuel : ℕ) (ids : List ℕ) :
    ∀ id ∈ ids, id ∈ cascade rows fuel ids := by
  induction fuel generalizing ids with
  | zero => exact fun id h => h
  | succ fuel ih =>
      intro id h
      rw [cascade]
      split
      · exact h
      · exact ih _ id (List.mem_append_left _ h)

theorem cascade_of_boostsOf_nil {rows : List Status} {ids : List ℕ} (fuel : ℕ)
    (h : boostsOf rows ids = []) : cascade rows fuel ids = ids := by
  cases fuel with
  | zero => rfl
  | succ fuel => simp only [cascade, h]

theorem boostsOf_eq_nil {rows : List Status} {ids : List ℕ} :
    boostsOf rows ids = [] ↔ ∀ s ∈ rows, ∀ id ∈ s.reblogOfId, id ∈ ids → s.id ∈ ids := by
  rw [boostsOf, List.map_eq_nil_iff, List.filter_eq_nil_iff]
  refine forall_congr' fun s => forall_congr' fun _ => ?_
  cases s.reblogOfId <;> simp

theorem boostsOf_cascade (rows : List Status) (fuel : ℕ) (ids : List ℕ)
    (hfuel : rows.countP (fun s => s.id ∉ ids) ≤ fuel) :
    boostsOf rows (cascade rows fuel ids) = [] := by
  induction fuel generalizing ids with
  | zero =>
      rw [cascade, boostsOf_eq_nil]
      intro s hs _ _ _
      have hnone := List.countP_eq_zero.mp (Nat.le_zero.mp hfuel) s hs
      simpa using hnone
  | succ fuel ih =>
      rw [cascade]
      split
      next hnil => exact hnil
      next hboosts =>
        apply ih
        -- the first of the boosts is a row that was left
        obtain ⟨id, hid⟩ := List.exists_mem_of_ne_nil _ hboosts
        obtain ⟨s, hs, rfl⟩ := List.mem_map.mp hid
        obtain ⟨hrow, hleft⟩ := List.mem_filter.mp hs
        have hsplit := List.countP_eq_countP_filter_add rows (fun s => decide (s.id ∉ ids))
          fun s => decide (s.id ∈ boostsOf rows ids)
        rw [List.countP_filter, List.countP_filter] at hsplit
        have hpos : 0 < rows.countP fun s =>
            decide (s.id ∉ ids) && decide (s.id ∈ boostsOf rows ids) := by
          rw [List.countP_pos_iff]
          refine ⟨s, hrow, ?_⟩
          rw [Bool.and_eq_true] at hleft ⊢
          exact ⟨hleft.2, by simpa using hid⟩
        have hsame : rows.countP (fun s => decide (s.id ∉ ids ++ boostsOf rows ids)) =
            rows.countP fun s => decide (s.id ∉ ids) && !decide (s.id ∈ boostsOf rows ids) := by
          refine List.countP_congr fun s _ => ?_
          simp
        omega

/-- The ids that `DELETE FROM statuses WHERE p` removes. -/
def removedIds (db : Db) (p : Status → Bool) : List ℕ :=
  cascade db.statuses.rows db.statuses.rows.length ((db.statuses.rows.filter p).map (·.id))

/-- `ON DELETE SET NULL` of `in_reply_to_id`. -/
def detach (gone : List ℕ) (s : Status) : Status :=
  if s.inReplyToId.any (· ∈ gone) then { s with inReplyToId := none } else s

@[simp] theorem keys_detach (gone : List ℕ) (s : Status) : (detach gone s).keys = s.keys := by
  rw [detach]
  split <;> rfl

@[simp] theorem id_detach (gone : List ℕ) (s : Status) : (detach gone s).id = s.id := by
  rw [detach]
  split <;> rfl

@[simp] theorem deleted_detach (gone : List ℕ) (s : Status) :
    (detach gone s).deleted = s.deleted := by
  rw [detach]
  split <;> rfl

theorem detach_of_not_mem {gone : List ℕ} {s : Status}
    (h : ∀ id ∈ s.inReplyToId, id ∉ gone) : detach gone s = s := by
  rw [detach, if_neg]
  cases hs : s.inReplyToId with
  | none => simp
  | some id => simpa [hs] using h id

/-- `DELETE FROM statuses WHERE p`, with what hangs on the rows. -/
def deleteStatuses (db : Db) (p : Status → Bool) : Db :=
  let gone := removedIds db p
  { db with
    statuses := (db.statuses.deleteWhere fun s => s.id ∈ gone).update (detach gone)
      (keys_detach gone)
    favourites := db.favourites.deleteWhere fun f => f.statusId ∈ gone
    statusStats := fun id => if id ∈ gone then none else db.statusStats id }

theorem mem_deleteStatuses {db : Db} {p : Status → Bool} {s : Status} :
    s ∈ (deleteStatuses db p).statuses.rows ↔
      ∃ r ∈ db.statuses.rows, r.id ∉ removedIds db p ∧ detach (removedIds db p) r = s := by
  simp [deleteStatuses, and_assoc]

theorem mem_removedIds {db : Db} {p : Status → Bool} {s : Status} (hs : s ∈ db.statuses.rows)
    (hp : p s = true) : s.id ∈ removedIds db p :=
  subset_cascade _ _ _ _ (List.mem_map_of_mem (List.mem_filter.mpr ⟨hs, hp⟩))

theorem boost_mem_removedIds {db : Db} {p : Status → Bool} {t : Status} {id : ℕ}
    (ht : t ∈ db.statuses.rows) (hboost : t.reblogOfId = some id) (hid : id ∈ removedIds db p) :
    t.id ∈ removedIds db p := by
  have hclosed := boostsOf_cascade db.statuses.rows db.statuses.rows.length
    ((db.statuses.rows.filter p).map (·.id)) List.countP_le_length
  exact boostsOf_eq_nil.mp hclosed t ht id hboost hid

theorem removedIds_of_no_boost {db : Db} {p : Status → Bool} {s : Status}
    (hs : s ∈ db.statuses.rows) (hp : ∀ t ∈ db.statuses.rows, p t = true ↔ t = s)
    (hboost : ∀ t ∈ db.statuses.rows, t.id ≠ s.id → t.reblogOfId ≠ some s.id) (id : ℕ) :
    id ∈ removedIds db p ↔ id = s.id := by
  have hids : ∀ id, id ∈ (db.statuses.rows.filter p).map (·.id) ↔ id = s.id := by
    intro id
    simp only [List.mem_map, List.mem_filter]
    constructor
    · rintro ⟨t, ⟨ht, hpt⟩, rfl⟩
      rw [(hp t ht).mp hpt]
    · rintro rfl
      exact ⟨s, ⟨hs, (hp s hs).mpr rfl⟩, rfl⟩
  rw [removedIds, cascade_of_boostsOf_nil, hids]
  rw [boostsOf_eq_nil]
  intro t ht of hof hmem
  rw [hids] at hmem ⊢
  by_contra hne
  exact hboost t ht hne (hmem ▸ hof)

/-- `UPDATE statuses SET deleted_at = now() WHERE p`. -/
def discardStatuses (db : Db) (p : Status → Bool) : Db :=
  { db with
    statuses := db.statuses.update (fun s => if p s then { s with deleted := true } else s)
      (fun s => by split <;> rfl) }

theorem mem_discardStatuses {db : Db} {p : Status → Bool} {s : Status} :
    s ∈ (discardStatuses db p).statuses.rows ↔
      ∃ r ∈ db.statuses.rows, (if p r then { r with deleted := true } else r) = s := by
  simp [discardStatuses]

theorem discardStatuses_eq_self {db : Db} {p : Status → Bool}
    (h : ∀ s ∈ db.statuses.rows, p s = true → s.deleted = true) : discardStatuses db p = db := by
  have hsame (s : Status) (hs : s ∈ db.statuses.rows) :
      (if p s then { s with deleted := true } else s) = s := by
    split
    next hp => rw [← h s hs hp]
    next => rfl
  simp only [discardStatuses, Table.update_eq_self hsame]

/-! ### Counters -/

def onStatusCreated (db : Db) (accountId : ℕ) (visibility : Visibility)
    (inReplyToId : Option ℕ) : Db :=
  if !visibility.counted then db
  else
    let count (a : AccountStat) := { a with statusesCount := a.statusesCount + 1 }
    let db := { db with accountStats := upsertStat .zero count db.accountStats accountId }
    match inReplyToId.filter fun _ => visibility.distributable with
    | some parentId =>
        let count (a : StatusStat) := { a with repliesCount := a.repliesCount + 1 }
        { db with statusStats := upsertStat .zero count db.statusStats parentId }
    | none => db

def onStatusDeleted (db : Db) (accountId : ℕ) (visibility : Visibility)
    (inReplyToId : Option ℕ) : Db :=
  if !visibility.counted then db
  else
    let uncount (a : AccountStat) := { a with statusesCount := max (a.statusesCount - 1) 0 }
    let db := { db with accountStats := updateStat uncount db.accountStats accountId }
    match inReplyToId.filter fun _ => visibility.distributable with
    | some parentId =>
        let uncount (a : StatusStat) := { a with repliesCount := max (a.repliesCount - 1) 0 }
        { db with statusStats := updateStat uncount db.statusStats parentId }
    | none => db

theorem onStatusCreated_eq (db : Db) (accountId : ℕ) (visibility : Visibility)
    (inReplyToId : Option ℕ) :
    onStatusCreated db accountId visibility inReplyToId =
      { db with
        accountStats := (onStatusCreated db accountId visibility inReplyToId).accountStats
        statusStats := (onStatusCreated db accountId visibility inReplyToId).statusStats } := by
  simp only [onStatusCreated]
  split
  · rfl
  · split <;> rfl

theorem onStatusDeleted_eq (db : Db) (accountId : ℕ) (visibility : Visibility)
    (inReplyToId : Option ℕ) :
    onStatusDeleted db accountId visibility inReplyToId =
      { db with
        accountStats := (onStatusDeleted db accountId visibility inReplyToId).accountStats
        statusStats := (onStatusDeleted db accountId visibility inReplyToId).statusStats } := by
  simp only [onStatusDeleted]
  split
  · rfl
  · split <;> rfl

theorem followersCount_onStatusDeleted (db : Db) (accountId : ℕ) (visibility : Visibility)
    (inReplyToId : Option ℕ) (x : ℕ) :
    followersCount (onStatusDeleted db accountId visibility inReplyToId).accountStats x =
      followersCount db.accountStats x := by
  have hother := read_updateStat_other (c := AccountStat.followersCount)
    (f := fun a => { a with statusesCount := max (a.statusesCount - 1) 0 }) fun _ => rfl
  simp only [onStatusDeleted]
  split
  · rfl
  · split <;> exact congrFun (hother _ _) x

theorem followingCount_onStatusDeleted (db : Db) (accountId : ℕ) (visibility : Visibility)
    (inReplyToId : Option ℕ) (x : ℕ) :
    followingCount (onStatusDeleted db accountId visibility inReplyToId).accountStats x =
      followingCount db.accountStats x := by
  have hother := read_updateStat_other (c := AccountStat.followingCount)
    (f := fun a => { a with statusesCount := max (a.statusesCount - 1) 0 }) fun _ => rfl
  simp only [onStatusDeleted]
  split
  · rfl
  · split <;> exact congrFun (hother _ _) x

def isKeptBoostOf (id : ℕ) (s : Status) : Bool := s.reblogOfId = some id ∧ s.deleted = false

/-- `UPDATE status_stats SET reblogs_count = (SELECT COUNT(*) …)`. -/
def recountReblogs (db : Db) (originalId : ℕ) : Db :=
  let boosts : ℤ := db.statuses.count (isKeptBoostOf originalId)
  { db with
    statusStats := updateStat (fun a => { a with reblogsCount := boosts }) db.statusStats originalId }

end Eunha.Statuses
