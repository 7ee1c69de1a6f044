import Eunha.StatusCounts
import Eunha.FeedInvariant

/-!
# Three ways a status is deleted

`remove_status`, for the author's own deletion and a moderator's, the `Delete` of its
server, and `remove_remote_status`, for one its server says is gone. Each is meant to
leave nothing of the status behind: no boost, no pin, no entry of a feed, and no count.
The first reaches the boosts, the pins and some of the feeds; the others only the row and
its own counts. Removing from feeds is finished here, where the source does it in a task.
-/
namespace Eunha.StatusRemoval
open Tables Database Statuses InboxRelationships StatusLifecycle StatusCounts Feed
open ScoredSets ScoredSet

/-! ### Feeds and who reads them -/

inductive FeedKey where
  | home (accountId : ℕ)
  | list (listId : ℕ)
  deriving DecidableEq

structure ListAccount where
  listId : ℕ
  accountId : ℕ
  followed : Bool
  deriving DecidableEq

/-- The accounts with a user, and their lists. -/
structure Readers where
  users : List ℕ
  signedInRecently : ℕ → Bool
  aggregates : ℕ → Bool
  /-- Lists by id, with their owners. -/
  lists : List (ℕ × ℕ)
  listAccounts : List ListAccount

/-- Who a removal reaches: the author and the followers who signed in recently. -/
def recipients (r : Readers) (db : Db) (authorId : ℕ) : List ℕ :=
  r.users.filter fun u => u = authorId || (r.signedInRecently u && alreadyFollows db u authorId)

def listsForLocalDistribution (r : Readers) (authorId : ℕ) : List (ℕ × ℕ) :=
  r.lists.filter fun l =>
    r.users.contains l.2 && r.signedInRecently l.2 &&
      r.listAccounts.any fun a =>
        a.listId = l.1 ∧ a.accountId = authorId ∧ (a.followed = true ∨ l.2 = authorId)

def reader (r : Readers) (db : Db) (authorId : ℕ) : FeedKey → Option ℕ
  | .home accountId => (recipients r db authorId).find? (· = accountId)
  | .list listId => ((listsForLocalDistribution r authorId).find? (·.1 = listId)).map (·.2)

structure World extends Server where
  /-- `status_pins`: an account and a status. -/
  pins : List (ℕ × ℕ)
  feed : FeedKey → Timeline

/-- `fanout_remove_status` and `fanout_remove_from_lists` -/
def fanoutRemove (r : Readers) (w : World) (s : Status) (k : FeedKey) : Timeline :=
  match reader r w.db s.accountId k with
  | some reader => (removeFromFeed (w.feed k) s.id s.reblogOfId (r.aggregates reader)).2
  | none => w.feed k

/-! ### The deletions -/

inductive Deletion where
  | removeStatus
  | inboundDelete (actor uri : String)
  | removeRemoteStatus

/-- The deletion is of the status: a `Delete` names it by its URI. -/
def Deletion.Names : Deletion → Status → Prop
  | .inboundDelete _ uri, s => s.uri = some uri
  | _, _ => True

def Deletion.perform (d : Deletion) (r : Readers) (w : World) (s : Status) : World :=
  match d with
  | .removeStatus =>
      { w with
        db := StatusLifecycle.removeStatus w.db s
        feed := fanoutRemove r w s
        pins := w.pins.filter fun pin => pin.2 ≠ s.id }
  | .inboundDelete actor uri => { w with toServer := handleDelete w.toServer actor uri }
  | .removeRemoteStatus => { w with db := StatusLifecycle.removeRemoteStatus w.db s.id }

/-! ### What should be left -/

def OfStatus (db : Db) (s : Status) (id : ℕ) : Prop :=
  id = s.id ∨ ∃ t ∈ db.statuses.rows, t.reblogOfId = some s.id ∧ t.id = id

def postsGoing (db : Db) (s : Status) (x : ℕ) : ℕ :=
  db.statuses.rows.countP fun t =>
    isPost x t && (decide (t.id = s.id) || decide (t.reblogOfId = some s.id))

/-- Nothing of the status is left but its row. -/
structure GoneEverywhere (w w' : World) (s : Status) : Prop where
  noBoost : ∀ t ∈ w'.db.statuses.rows, t.reblogOfId = some s.id → t.deleted = true
  noPin : ∀ pin ∈ w'.pins, pin.2 ≠ s.id
  noEntry : ∀ k, ∀ id ∈ (w'.feed k).key.members, ¬ OfStatus w.db s id
  posts : ∀ x, statusesCount w'.db.accountStats x =
    takenOff (statusesCount w.db.accountStats x) (postsGoing w.db s x)
  replies : ∀ x, repliesCount w'.db.statusStats x =
    takenOff (repliesCount w.db.statusStats x) (if isReplyTo x s = true then 1 else 0)

/-! ### When it is -/

/-- `remove_status` reaches every feed the status is in, none has a boost of it, nor puts
one in its place, and its author's post is counted once. -/
structure Reached (r : Readers) (w : World) (s : Status) : Prop where
  once : s.reblogOfId = some s.id → s.visibility.counted = true →
    statusesCount w.db.accountStats s.accountId ≤
      w.db.statuses.rows.countP fun t => isPost s.accountId t && isKeptBoostOf s.id t
  entries : ∀ k, ∀ id ∈ (w.feed k).key.members, OfStatus w.db s id →
    id = s.id ∧ (reader r w.db s.accountId k).isSome = true
  promoted : ∀ k, ∀ account ∈ reader r w.db s.accountId k, r.aggregates account = true →
    ∀ o ∈ s.reblogOfId, s.id ∈ (w.feed k).key.members →
      ∀ id ∈ oldest (((w.feed k).reblogSet o).erase s.id), ¬ OfStatus w.db s id

structure Alone (w : World) (s : Status) : Prop where
  noBoost : ∀ t ∈ w.db.statuses.rows, t.reblogOfId = some s.id → t.deleted = true ∨ t = s
  noPin : ∀ pin ∈ w.pins, pin.2 ≠ s.id
  noEntry : ∀ k, ∀ id ∈ (w.feed k).key.members, ¬ OfStatus w.db s id

def Deletion.Ready (d : Deletion) (r : Readers) (w : World) (s : Status) : Prop :=
  match d with
  | .removeStatus => Reached r w s
  | .inboundDelete _ _ => Alone w s
  | .removeRemoteStatus => Alone w s

/-! ### The feeds -/

theorem mem_removeFromFeed {t : Timeline} {s id : ℕ} {o : Option ℕ} {aggregate : Bool} :
    id ∈ (removeFromFeed t s o aggregate).2.key.members ↔
      id ≠ s ∧ (id ∈ t.key.members ∨
        aggregate = true ∧ ∃ r ∈ o, s ∈ t.key.members ∧ id ∈ oldest ((t.reblogSet r).erase s)) := by
  cases o with
  | none => simp [removeFromFeed, and_comm]
  | some r =>
      cases aggregate with
      | false => simp [removeFromFeed, and_comm]
      | true =>
          simp only [removeFromFeed, Option.filter_some, if_true]
          split
          next hr =>
            have hs := zrevrank_isNone.mp hr
            have hne (hid : id ∈ t.key.members) : id ≠ s := fun h => hs (h ▸ hid)
            simpa [hs] using hne
          next hr =>
            have hs : s ∈ t.key.members := by
              by_contra hs
              exact hr (zrevrank_isNone.mpr hs)
            cases hother : oldest ((t.reblogSet r).erase s) with
            | none => simp [hother, and_comm]
            | some other => simp [hs, hother, and_comm, or_comm, eq_comm]

theorem not_promoted_self {others : Finset ℕ} {s id : ℕ} (h : id ∈ oldest (others.erase s)) :
    id ≠ s :=
  Finset.ne_of_mem_erase (oldest_eq_some h)

theorem mem_fanoutRemove {r : Readers} {w : World} {s : Status} {k : FeedKey} {id : ℕ} :
    id ∈ (fanoutRemove r w s k).key.members ↔
      (reader r w.db s.accountId k = none ∧ id ∈ (w.feed k).key.members) ∨
        ∃ account ∈ reader r w.db s.accountId k, id ≠ s.id ∧ (id ∈ (w.feed k).key.members ∨
          r.aggregates account = true ∧ ∃ o ∈ s.reblogOfId, s.id ∈ (w.feed k).key.members ∧
            id ∈ oldest (((w.feed k).reblogSet o).erase s.id)) := by
  rw [fanoutRemove]
  cases reader r w.db s.accountId k with
  | none => simp
  | some account => simp [mem_removeFromFeed]

/-- `remove_status` leaves no entry exactly when it reaches every one, and puts none in. -/
theorem noEntry_fanoutRemove_iff (r : Readers) (w : World) (s : Status) :
    (∀ k, ∀ id ∈ (fanoutRemove r w s k).key.members, ¬ OfStatus w.db s id) ↔
      (∀ k, ∀ id ∈ (w.feed k).key.members, OfStatus w.db s id →
        id = s.id ∧ (reader r w.db s.accountId k).isSome = true) ∧
      ∀ k, ∀ account ∈ reader r w.db s.accountId k, r.aggregates account = true →
        ∀ o ∈ s.reblogOfId, s.id ∈ (w.feed k).key.members →
          ∀ id ∈ oldest (((w.feed k).reblogSet o).erase s.id), ¬ OfStatus w.db s id := by
  simp only [mem_fanoutRemove]
  constructor
  · intro hgone
    constructor
    · intro k id hid hof
      cases hreader : reader r w.db s.accountId k with
      | none => exact absurd hof (hgone k id (.inl ⟨hreader, hid⟩))
      | some account =>
          refine ⟨?_, rfl⟩
          by_contra hne
          exact hgone k id (.inr ⟨account, hreader, hne, .inl hid⟩) hof
    · intro k account hreader haggregates o ho hs id hid
      have hne := not_promoted_self hid
      exact hgone k id (.inr ⟨account, hreader, hne, .inr ⟨haggregates, o, ho, hs, hid⟩⟩)
  · rintro ⟨hentries, hpromoted⟩ k id (⟨hnone, hid⟩ | ⟨account, hreader, hne, hid | hid⟩) hof
    · have hsome := (hentries k id hid hof).2
      rw [hnone] at hsome
      cases hsome
    · exact hne (hentries k id hid hof).1
    · obtain ⟨haggregates, o, ho, hs, hother⟩ := hid
      exact hpromoted k account hreader haggregates o ho hs id hother hof

/-! ### The counters -/

theorem postsGoing_eq {db : Db} {s : Status} (hs : s ∈ db.statuses.rows) (x : ℕ) :
    postsGoing db s x =
      db.statuses.rows.countP (fun t => isPost x t && isKeptBoostOf s.id t) +
        if isPost x s = true ∧ s.reblogOfId ≠ some s.id then 1 else 0 := by
  have hboosts : (db.statuses.rows.filter fun t => decide (t.reblogOfId = some s.id)).countP
      (fun t => isPost x t && (decide (t.id = s.id) || decide (t.reblogOfId = some s.id))) =
        db.statuses.rows.countP fun t => isPost x t && isKeptBoostOf s.id t := by
    rw [List.countP_filter]
    refine List.countP_congr fun t _ => ?_
    simp only [isPost, isKeptBoostOf, Bool.and_eq_true, Bool.or_eq_true, decide_eq_true_eq]
    tauto
  have hself : (db.statuses.rows.filter fun t => !decide (t.reblogOfId = some s.id)).countP
      (fun t => isPost x t && (decide (t.id = s.id) || decide (t.reblogOfId = some s.id))) =
        db.statuses.rows.countP fun t =>
          (isPost x t && !decide (t.reblogOfId = some s.id)) && decide (t.id = s.id) := by
    rw [List.countP_filter]
    refine List.countP_congr fun t _ => ?_
    simp only [Bool.and_eq_true, Bool.or_eq_true, Bool.not_eq_true', decide_eq_true_eq,
      decide_eq_false_iff_not]
    tauto
  have hone : db.statuses.rows.countP (fun t =>
      (isPost x t && !decide (t.reblogOfId = some s.id)) && decide (t.id = s.id)) =
        if (isPost x s && !decide (s.reblogOfId = some s.id)) = true then 1 else 0 := by
    refine db.statuses.countP_of_only (by simp [Status.keys]) hs (by simp) ?_
    intro t ht _ hid
    exact eq_of_id ht hs (by simpa using hid)
  rw [postsGoing,
    List.countP_eq_countP_filter_add _ _ fun t => decide (t.reblogOfId = some s.id), hboosts, hself,
    hone]
  simp

theorem isPost_kept {s : Status} (hkept : s.deleted = false) (x : ℕ) :
    isPost x s = true ↔ s.accountId = x ∧ s.visibility.counted = true := by
  simp [isPost, hkept]

theorem posts_removeStatus (db : Db) (s : Status) (x : ℕ) (hkept : s.deleted = false) :
    statusesCount (StatusLifecycle.removeStatus db s).accountStats x =
      takenOff (statusesCount db.accountStats x)
        (db.statuses.rows.countP (fun t => isPost x t && isKeptBoostOf s.id t) +
          if isPost x s = true then 1 else 0) := by
  simp only [removeStatus_eq, accountStats_elim_dropReblogs, statusesCount_uncounted,
    discardStatuses_accountStats, statusesCount_discardBoosts, takenOff_takenOff, isPost_kept hkept]

theorem takenOff_succ {n : ℤ} {k : ℕ} (hk : 0 < k) : takenOff n (k + 1) = takenOff n k ↔ n ≤ k := by
  rw [takenOff, takenOff, if_neg (Nat.succ_ne_zero k), if_neg hk.ne']
  constructor <;> intro h <;> omega

theorem countP_boosts_pos {db : Db} {s : Status} {x : ℕ} (hs : s ∈ db.statuses.rows)
    (hkept : s.deleted = false) (hself : s.reblogOfId = some s.id) (hpost : isPost x s = true) :
    0 < db.statuses.rows.countP fun t => isPost x t && isKeptBoostOf s.id t := by
  rw [List.countP_pos_iff]
  exact ⟨s, hs, by simp [hpost, isKeptBoostOf, hself, hkept]⟩

theorem posts_removeStatus_iff {db : Db} {s : Status} (hs : s ∈ db.statuses.rows)
    (hkept : s.deleted = false) :
    (∀ x, statusesCount (StatusLifecycle.removeStatus db s).accountStats x =
      takenOff (statusesCount db.accountStats x) (postsGoing db s x)) ↔
      (s.reblogOfId = some s.id → s.visibility.counted = true →
        statusesCount db.accountStats s.accountId ≤
          db.statuses.rows.countP fun t => isPost s.accountId t && isKeptBoostOf s.id t) := by
  simp only [posts_removeStatus _ _ _ hkept, postsGoing_eq hs]
  constructor
  · intro hposts hself hcounted
    have hpost : isPost s.accountId s = true := (isPost_kept hkept _).mpr ⟨rfl, hcounted⟩
    have hpos := countP_boosts_pos hs hkept hself hpost
    have hsame := hposts s.accountId
    rw [if_pos hpost, if_neg fun h => h.2 hself, Nat.add_zero] at hsame
    exact (takenOff_succ hpos).mp hsame
  · intro honce x
    by_cases hself : s.reblogOfId = some s.id
    · by_cases hpost : isPost x s = true
      · obtain ⟨rfl, hcounted⟩ := (isPost_kept hkept x).mp hpost
        have hpos := countP_boosts_pos hs hkept hself hpost
        rw [if_pos hpost, if_neg fun h => h.2 hself, Nat.add_zero]
        exact (takenOff_succ hpos).mpr (honce hself hcounted)
      · rw [if_neg hpost, if_neg fun h => hpost h.1]
    · simp only [ne_eq, hself, not_false_eq_true, and_true]

theorem isReplyTo_kept {s : Status} (hkept : s.deleted = false) (x : ℕ) :
    isReplyTo x s = true ↔ s.inReplyToId = some x ∧ s.visibility.distributable = true := by
  simp [isReplyTo, hkept]

theorem repliesCount_uncounted {s : Status} (hkept : s.deleted = false) (db : Db) (x : ℕ) :
    repliesCount (onStatusDeleted db s.accountId s.visibility s.inReplyToId).statusStats x =
      takenOff (repliesCount db.statusStats x) (if isReplyTo x s = true then 1 else 0) := by
  simp only [repliesCount_onStatusDeleted, isReplyTo_kept hkept]
  split <;> rfl

theorem replies_removeStatus (db : Db) (s : Status) (x : ℕ) (hkept : s.deleted = false) :
    repliesCount (StatusLifecycle.removeStatus db s).statusStats x =
      takenOff (repliesCount db.statusStats x) (if isReplyTo x s = true then 1 else 0) := by
  rw [removeStatus_eq, repliesCount_elim_dropReblogs, repliesCount_uncounted hkept]
  congr 1
  change repliesCount (discardBoosts db s.id).statusStats x = _
  rw [discardBoosts, statusStats_uncountBoosts]
  rfl

/-! ### The boosts -/

theorem discarded_removeStatus {db : Db} {s t : Status}
    (ht : t ∈ (StatusLifecycle.removeStatus db s).statuses.rows)
    (hof : t.reblogOfId = some s.id) : t.deleted = true := by
  rw [removeStatus_eq, statuses_elim_dropReblogs, statuses_onStatusDeleted,
    mem_discardStatuses] at ht
  obtain ⟨b, hb, rfl⟩ := ht
  rw [discardBoosts, statuses_uncountBoosts, mem_discardStatuses] at hb
  obtain ⟨a, _, rfl⟩ := hb
  cases hdeleted : a.deleted with
  | true => split <;> split <;> simp_all
  | false =>
      have hboost : isKeptBoostOf s.id a = true := by
        simp only [isKeptBoostOf, decide_eq_true_eq]
        refine ⟨?_, hdeleted⟩
        split at hof <;> split at hof <;> exact hof
      simp only [hboost, if_true]
      split <;> rfl

theorem gone_removeStatus_iff (r : Readers) (w : World) (s : Status)
    (hs : s ∈ w.db.statuses.rows) (hkept : s.deleted = false) :
    GoneEverywhere w (Deletion.removeStatus.perform r w s) s ↔ Reached r w s := by
  constructor
  · intro hgone
    obtain ⟨hentries, hpromoted⟩ := (noEntry_fanoutRemove_iff r w s).mp hgone.noEntry
    exact ⟨(posts_removeStatus_iff hs hkept).mp hgone.posts, hentries, hpromoted⟩
  · intro hreached
    constructor
    · exact fun t ht hof => discarded_removeStatus ht hof
    · intro pin hpin
      simpa using (List.mem_filter.mp hpin).2
    · exact (noEntry_fanoutRemove_iff r w s).mpr ⟨hreached.entries, hreached.promoted⟩
    · exact (posts_removeStatus_iff hs hkept).mpr hreached.once
    · exact fun x => replies_removeStatus w.db s x hkept

theorem gone_discardOne_iff {w w' : World} {s : Status} {p : Status → Bool}
    (hs : s ∈ w.db.statuses.rows) (hkept : s.deleted = false) (hp : p s = true)
    (honly : ∀ t ∈ w.db.statuses.rows, t.deleted = false → p t = true → t = s)
    (hdb : w'.db =
      onStatusDeleted (discardStatuses w.db p) s.accountId s.visibility s.inReplyToId)
    (hpins : w'.pins = w.pins) (hfeed : w'.feed = w.feed) :
    GoneEverywhere w w' s ↔ Alone w s := by
  constructor
  · intro hgone
    constructor
    · intro t ht hof
      cases hdeleted : t.deleted with
      | true => exact .inl rfl
      | false =>
          refine .inr ?_
          by_contra hne
          have hnot : p t = false := by
            rw [Bool.eq_false_iff]
            exact fun hpt => hne (honly t ht hdeleted hpt)
          have ht' : t ∈ w'.db.statuses.rows := by
            rw [hdb, statuses_onStatusDeleted, mem_discardStatuses]
            exact ⟨t, ht, by rw [hnot]; rfl⟩
          have hgone' := hgone.noBoost t ht' hof
          rw [hdeleted] at hgone'
          cases hgone'
    · exact hpins ▸ hgone.noPin
    · exact hfeed ▸ hgone.noEntry
  · intro halone
    constructor
    · intro t ht hof
      rw [hdb, statuses_onStatusDeleted, mem_discardStatuses] at ht
      obtain ⟨a, ha, rfl⟩ := ht
      have hof' : a.reblogOfId = some s.id := by
        split at hof <;> exact hof
      rcases halone.noBoost a ha hof' with hdeleted | rfl
      · split
        · rfl
        · exact hdeleted
      · rw [if_pos hp]
    · exact hpins ▸ halone.noPin
    · exact hfeed ▸ halone.noEntry
    · intro x
      have hgoing : postsGoing w.db s x = if isPost x s = true then 1 else 0 := by
        refine w.db.statuses.countP_of_only (by simp [Status.keys]) hs (by simp) ?_
        intro t ht hpost hof
        rw [Bool.or_eq_true, decide_eq_true_eq, decide_eq_true_eq] at hof
        rcases hof with hid | hof
        · exact eq_of_id ht hs hid
        · refine (halone.noBoost t ht hof).resolve_left ?_
          rw [kept_of_isPost hpost]
          exact Bool.false_ne_true
      simp only [hdb, statusesCount_uncounted, discardStatuses_accountStats, hgoing,
        isPost_kept hkept]
    · intro x
      rw [hdb, repliesCount_uncounted hkept]
      rfl

theorem keptByUri_eq {db : Db} {s : Status} {uri : String} (hs : s ∈ db.statuses.rows)
    (hkept : s.deleted = false) (huri : s.uri = some uri) : keptByUri db uri = some s := by
  cases hfind : keptByUri db uri with
  | none =>
      have hnone := List.find?_eq_none.mp hfind s hs
      simp [huri, hkept] at hnone
  | some row =>
      obtain ⟨hrow, huri', _⟩ := keptByUri_mem hfind
      rw [eq_of_uri hrow hs huri' huri]

theorem keptStatus_eq {db : Db} {s : Status} (hs : s ∈ db.statuses.rows)
    (hkept : s.deleted = false) : db.keptStatus s.id = some s := by
  cases hfind : db.keptStatus s.id with
  | none =>
      have hnone := List.find?_eq_none.mp hfind s hs
      simp [hkept] at hnone
  | some row =>
      obtain ⟨hrow, hid, _⟩ := Db.keptStatus_mem hfind
      rw [eq_of_id hrow hs hid]

/-- A deleted status is gone everywhere exactly when the deletion finds it ready. -/
theorem gone_everywhere_iff (r : Readers) (w : World) (d : Deletion) (s : Status)
    (hs : s ∈ w.db.statuses.rows) (hkept : s.deleted = false) (hnames : d.Names s) :
    GoneEverywhere w (d.perform r w s) s ↔ d.Ready r w s := by
  cases d with
  | removeStatus => exact gone_removeStatus_iff r w s hs hkept
  | inboundDelete actor uri =>
      refine gone_discardOne_iff (p := fun t => t.uri = some uri) hs hkept
        (decide_eq_true hnames) ?_ ?_ rfl rfl
      · intro t ht _ huri
        exact eq_of_uri ht hs (by simpa using huri) hnames
      · change (handleDelete w.toServer actor uri).db = _
        rw [db_handleDelete, discardByUri, keptByUri_eq hs hkept hnames]
  | removeRemoteStatus =>
      refine gone_discardOne_iff (p := fun t => t.id = s.id ∧ t.deleted = false) hs hkept
        (by simpa using hkept) ?_ ?_ rfl rfl
      · intro t ht _ hid
        rw [decide_eq_true_eq] at hid
        exact eq_of_id ht hs hid.1
      · change StatusLifecycle.removeRemoteStatus w.db s.id = _
        rw [StatusLifecycle.removeRemoteStatus, keptStatus_eq hs hkept]

/-! ### A post boosted here -/

def account (id : ℕ) (username : String) (domain uri : Option String) : Account where
  id := id
  username := username
  domain := domain
  uri := uri
  locked := false
  silenced := false
  unavailable := false
  movedToAccountId := none

def bobsPost : Status where
  id := 20
  accountId := 2
  uri := some "https://b.example/posts/20"
  visibility := .pub
  inReplyToId := none
  reblogOfId := none
  deleted := false

/-- Alice follows Bob of another server, has his post in her home feed and boosts it. Carol
follows Alice. -/
def boosted : World where
  db :=
    { Db.empty with
      accounts :=
        { rows :=
            [account 1 "alice" none none,
              account 2 "bob" (some "b.example") (some "https://b.example/bob"),
              account 3 "carol" none none]
          distinct := by decide }
      follows := { rows := [⟨1, 2, none⟩, ⟨3, 1, none⟩], distinct := by decide }
      statuses :=
        { rows := [bobsPost, boostRow 21 1 none .pub 20]
          distinct := by decide }
      accountStats := fun id => if id = 1 ∨ id = 2 then some ⟨1, 0, 0⟩ else none }
  undone := []
  tombstones := []
  pins := []
  feed k := if k = .home 1 then (push .empty 20 none true).2 else .empty

def readers : Readers where
  users := [1, 3]
  signedInRecently _ := true
  aggregates _ := true
  lists := []
  listAccounts := []

theorem gone_everywhere_boosted :
    GoneEverywhere boosted (Deletion.removeStatus.perform readers boosted bobsPost) bobsPost := by
  have hentry : ∀ id ∈ (boosted.feed (.home 1)).key.members, id = bobsPost.id := by decide +kernel
  refine (gone_everywhere_iff readers boosted .removeStatus bobsPost (by decide) rfl trivial).mpr ?_
  constructor
  · rintro ⟨⟩
  · intro k id hid _
    by_cases hk : k = .home 1
    · subst hk
      exact ⟨hentry id hid, by decide⟩
    · simp [boosted, hk, Timeline.empty] at hid
  · rintro _ _ _ _ _ ⟨⟩

/-- The boost has reached Carol's home feed. -/
def delivered : World :=
  { boosted with
    feed := fun k => if k = .home 3 then (push .empty 21 (some 20) true).2 else boosted.feed k }

/-- Another server's `Delete`, and finding the post gone there, leave the boost; removing it
here leaves the boost in the feed of those who follow only the booster. -/
theorem boost_outlives_deletion :
    ¬ GoneEverywhere boosted
      ((Deletion.inboundDelete "https://b.example/bob" "https://b.example/posts/20").perform
        readers boosted bobsPost) bobsPost ∧
    ¬ GoneEverywhere boosted (Deletion.removeRemoteStatus.perform readers boosted bobsPost)
      bobsPost ∧
    ¬ GoneEverywhere delivered (Deletion.removeStatus.perform readers delivered bobsPost)
      bobsPost := by
  refine ⟨fun h => ?_, fun h => ?_, fun h => ?_⟩
  · have hboost := h.noBoost (boostRow 21 1 none .pub 20) (by decide +kernel) rfl
    cases hboost
  · have hboost := h.noBoost (boostRow 21 1 none .pub 20) (by decide +kernel) rfl
    cases hboost
  · refine h.noEntry (.home 3) 21 (by decide +kernel) (.inr ?_)
    exact ⟨boostRow 21 1 none .pub 20, by decide, rfl, rfl⟩

end Eunha.StatusRemoval
