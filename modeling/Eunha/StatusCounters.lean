import Eunha.StatusCounts
import Eunha.Runs
import Mathlib.Data.String.Basic

/-!
# The counters of posts, replies and boosts

Posts, boosts and their removal, here and by inbound activities, in any order. The
counters equal the rows all along as long as no step uncounts what was not counted or
takes away what it does not uncount.
-/
namespace Eunha.StatusCounters
open Tables Database Statuses InboxRelationships StatusLifecycle StatusCounts Runs

/-! ### The handlers of the inbox -/

variable (i : Instance)

def ActorCounted (db : Db) (actor : String) : Prop :=
  ∀ r ∈ resolveOrFetch i db actor, PostsExact r.1

variable {i}

theorem exact_resolved {all : Bool} {db : Db} {actor : String} {r : Db × ℕ}
    (hactor : ActorCounted i db actor) (hr : resolveOrFetch i db actor = some r)
    (h : Exact all db) : Exact all r.1 := by
  have heq : r.1 = { db with accounts := r.1.accounts, accountStats := r.1.accountStats } :=
    resolveOrFetch_eq hr
  constructor
  · exact hactor r hr
  · rw [heq]
    exact h.replies
  · rw [heq]
    exact h.reblogs

theorem exact_zeroStat {all : Bool} {db : Db} (h : Exact all db) (id : ℕ) :
    Exact all { db with statusStats := upsertStat .zero (fun a => a) db.statusStats id } where
  posts := h.posts
  replies x := by
    have hsame := read_upsertStat_other (c := StatusStat.repliesCount) (d := .zero)
      (f := fun a => a) (fun _ => rfl) rfl db.statusStats id
    exact (congrFun hsame x).trans (h.replies x)
  reblogs x hdue := by
    have hsame := read_upsertStat_other (c := StatusStat.reblogsCount) (d := .zero)
      (f := fun a => a) (fun _ => rfl) rfl db.statusStats id
    exact (congrFun hsame x).trans (h.reblogs x hdue)

def CreateMeets (s : Server) (c : Create) : Prop :=
  s.deleteArrivedFirst c.actor c.uri = false → s.tombstones.contains c.uri = false →
    ActorCounted i s.db c.actor

theorem exact_create {all : Bool} {s : Server} {c : Create} (hmeets : CreateMeets (i := i) s c)
    (h : Exact all s.db) : Exact all (create i s c).db := by
  rw [create]
  split
  · exact h
  next hfirst =>
    split
    · exact h
    next htombstone =>
      cases hr : resolveOrFetch i s.db c.actor with
      | none => exact h
      | some r =>
          have hactor : ActorCounted i s.db c.actor :=
            hmeets (by simpa using hfirst) (by simpa using htombstone)
          have hresolved := exact_resolved hactor hr h
          dsimp only
          split_ifs with haccepted hfree hreports
          · exact hresolved
          · exact hresolved
          · exact exact_zeroStat (exact_insertCounted rfl rfl hfree hresolved) c.id
          · exact exact_insertCounted rfl rfl hfree hresolved

def ResolveMeets (db : Db) (childId : ℕ) (parentUrl : String) : Prop :=
  (db.statusByUri parentUrl).isSome → ∀ s ∈ db.statuses.rows, s.id = childId →
    s.inReplyToId = none → s.deleted = true ∨ s.visibility.distributable = false

theorem exact_threadResolve {all : Bool} {db : Db} {childId : ℕ} {parentUrl : String}
    (hmeets : ResolveMeets db childId parentUrl) (h : Exact all db) :
    Exact all (threadResolve db childId parentUrl) := by
  rw [threadResolve]
  split
  · exact h
  next parent hfind =>
    have hlink {q : Status → Bool} (hq : ∀ s ∈ db.statuses.rows, s.id = childId →
        s.inReplyToId = none → q { s with inReplyToId := some parent.id } = q s) :
        (db.statuses.update (link childId parent.id) (keys_link childId parent.id)).count q =
          db.statuses.count q := by
      refine Table.count_update _ _ _ _ fun s hs => ?_
      rw [link]
      split
      next hchild => exact hq s hs hchild.1 hchild.2
      next => rfl
    constructor
    · intro x
      rw [hlink fun _ _ _ _ => rfl]
      exact h.posts x
    · intro x
      rw [hlink]
      · exact h.replies x
      · intro s hs hid hnone
        rcases hmeets (by rw [hfind]; rfl) s hs hid hnone with hdeleted | hnot
        · simp [isReplyTo, hdeleted]
        · simp [isReplyTo, hnot]
    · intro x hdue
      rw [hlink fun _ _ _ _ => rfl]
      refine h.reblogs x (due_of_stay (fun s hs hid hdeleted => ?_) hdue)
      refine ⟨link childId parent.id s, ?_, ?_⟩
      · exact List.mem_map_of_mem hs
      · rw [link]
        split <;> exact ⟨hid, hdeleted⟩

def AnnounceMeets (all : Bool) (db : Db) (boosterId : ℕ) (a : Announce) (found : Status) : Prop :=
  announceable boosterId found = true → a.throughRelay = false →
    db.statuses.rows.any (isBoostBy boosterId (originalOf found)) = false →
      db.statuses.Taken (boostRow a.id boosterId (some a.uri) a.visibility (originalOf found)) →
        due all db (originalOf found) → (db.statusStats (originalOf found)).isSome = true

theorem exact_announceOf {all : Bool} {db : Db} {boosterId : ℕ} {a : Announce} {found : Status}
    (hmeets : AnnounceMeets all db boosterId a found) (h : Exact all db) :
    Exact all (announceOf db boosterId a found) := by
  rw [announceOf]
  split_ifs with hallowed hrelay halready
  · exact h
  · exact h
  · exact h
  · refine exact_recordBoost (hmeets ?_ ?_ ?_) h
    · simpa using hallowed
    · simpa using hrelay
    · simpa using halready

variable (i) in
def AnnounceReaches (all : Bool) (s : Server) (a : Announce) : Prop :=
  s.deleteArrivedFirst a.actor a.uri = false → ¬ (a.actor = "" ∨ a.uri = "") →
    ActorCounted i s.db a.actor ∧
      ∀ r ∈ resolveOrFetch i s.db a.actor, a.related = true →
        ∀ found ∈ boostedStatus r.1 a, AnnounceMeets all r.1 r.2 a found

theorem exact_announce {all : Bool} {s : Server} {a : Announce}
    (hmeets : AnnounceReaches i all s a) (h : Exact all s.db) :
    Exact all (announce i s a).db := by
  rw [announce]
  split
  · exact h
  next hfirst =>
    split
    · exact h
    next hnamed =>
      obtain ⟨hactor, hfound⟩ := hmeets (by simpa using hfirst) hnamed
      cases hr : resolveOrFetch i s.db a.actor with
      | none => exact h
      | some r =>
          have hresolved := exact_resolved hactor hr h
          dsimp only
          split
          · exact hresolved
          next hrelated =>
            cases hb : boostedStatus r.1 a with
            | none => exact hresolved
            | some found =>
                exact exact_announceOf (hfound r hr (by simpa using hrelated) found hb) hresolved

/-! ### Runs -/

/-- The boost that `unreblog_status` undoes is counted, or there is nothing to uncount, and
nothing else goes with it. -/
structure UnboostMeets (db : Db) (accountId originalId : ℕ) (row : Status) : Prop where
  clean : Clean db (isBoostBy accountId originalId) row
  counted : row.visibility.counted = true ∨ NoPosts db accountId

theorem exact_unreblogStatus {all : Bool} {db : Db} {p : Policy} {accountId statusId : ℕ}
    (hmeets : ∀ status ∈ fetchStatus db statusId,
      p.checkStatusVisible db status accountId = true →
        ∀ row ∈ db.statuses.rows.find? (isBoostBy accountId (status.reblogOfId.getD statusId)),
          UnboostMeets db accountId (status.reblogOfId.getD statusId) row)
    (h : Exact all db) : Exact all (unreblogStatus p db accountId statusId) := by
  rw [unreblogStatus]
  cases hfetch : fetchStatus db statusId with
  | none => exact h
  | some status =>
      dsimp only
      split
      · exact h
      next hvisible =>
        cases hfind : db.statuses.rows.find?
            (isBoostBy accountId (status.reblogOfId.getD statusId)) with
        | none => exact h
        | some row =>
            have hrow := hmeets status hfetch (by simpa using hvisible) row hfind
            exact exact_unboost (List.mem_of_find?_eq_some hfind) (List.find?_some hfind)
              hrow.clean hrow.counted h

/-- A status removed boosts another, its boosts are no replies, and there are none if the
counters of discarded statuses matter. -/
structure RemoveMeets (all : Bool) (db : Db) (status : Status) : Prop where
  other : status.reblogOfId ≠ some status.id
  boosts : BoostsNoReplies db status.id
  none : all = true → ∀ s ∈ db.statuses.rows, isKeptBoostOf status.id s = false

theorem fetchStatus_mem {db : Db} {id : ℕ} {s : Status} (h : fetchStatus db id = some s) :
    s ∈ db.statuses.rows ∧ s.id = id ∧ s.deleted = false :=
  Db.keptStatus_mem (Option.filter_eq_some_iff.mp h).1

theorem exact_deleteStatus {all : Bool} {db : Db} {accountId statusId : ℕ}
    (hmeets : ∀ status ∈ fetchStatus db statusId, status.accountId = accountId →
      RemoveMeets all db status)
    (h : Exact all db) : Exact all (deleteStatus db accountId statusId) := by
  rw [deleteStatus]
  cases hfetch : fetchStatus db statusId with
  | none => exact h
  | some status =>
      dsimp only
      split
      · exact h
      next hown =>
        obtain ⟨hrow, _, hkept⟩ := fetchStatus_mem hfetch
        have hremove := hmeets status hfetch (not_not.mp hown)
        exact exact_removeStatus hrow hkept hremove.other hremove.boosts hremove.none h

section
variable (i : Instance) (p : Policy)

/-- Nothing is uncounted that was not counted, and nothing goes uncounted. -/
def guard (all : Bool) (s : Server) : Op → Prop
  | .post _ _ => True
  | .reblog _ _ _ _ => True
  | .unreblog accountId statusId =>
      ∀ status ∈ fetchStatus s.db statusId, p.checkStatusVisible s.db status accountId = true →
        ∀ row ∈ s.db.statuses.rows.find? (isBoostBy accountId (status.reblogOfId.getD statusId)),
          UnboostMeets s.db accountId (status.reblogOfId.getD statusId) row
  | .delete accountId statusId =>
      ∀ status ∈ fetchStatus s.db statusId, status.accountId = accountId →
        RemoveMeets all s.db status
  | .create c => CreateMeets (i := i) s c
  | .threadResolve childId parentUrl => ResolveMeets s.db childId parentUrl
  | .announce a => AnnounceReaches i all s a
  | .inboundDelete _ uri =>
      ∀ row ∈ keptByUri s.db uri, ∀ o ∈ row.reblogOfId, ¬ due all s.db o
  | .undoAnnounce _ uri => uri ≠ "" → ∀ row ∈ s.db.statusByUri uri, UndoMeets s.db uri row

theorem exact_handleDelete {all : Bool} {s : Server} {actor uri : String}
    (hboost : ∀ row ∈ keptByUri s.db uri, ∀ o ∈ row.reblogOfId, ¬ due all s.db o)
    (h : Exact all s.db) : Exact all (handleDelete s actor uri).db := by
  rw [db_handleDelete]
  exact exact_discardByUri hboost h

theorem exact_step {all : Bool} (s : Server) (op : Op) (h : Exact all s.db)
    (hmeets : guard i p all s op) : Exact all (step i p s op).db := by
  cases op with
  | post accountId post =>
      rw [step]
      split
      · exact h
      next account _ => exact exact_postStatus h account post
  | reblog accountId statusId boostId requested => exact exact_reblogStatus p h _ _ _ _
  | unreblog accountId statusId => exact exact_unreblogStatus hmeets h
  | delete accountId statusId => exact exact_deleteStatus hmeets h
  | create c => exact exact_create hmeets h
  | threadResolve childId parentUrl => exact exact_threadResolve hmeets h
  | announce a => exact exact_announce hmeets h
  | inboundDelete actor uri => exact exact_handleDelete hmeets h
  | undoAnnounce actor uri => exact exact_undoAnnounce hmeets h

/-- The counters are those of the rows all along. -/
theorem status_counters_exact (all : Bool) (s : Server) (ops : List Op) (hs : Exact all s.db)
    (hmeets : Guarded (step i p) (guard i p all) s ops) :
    Exact all (run (step i p) s ops).db :=
  run_guarded (P := fun s => Exact all s.db) (exact_step i p) s ops hs hmeets

end

/-! ### A boost that was not counted -/

def offlineInstance : Instance where
  actorUrl := "https://a.example/actor"
  path := fun _ => none
  lower := fun s => s
  isIri := fun _ => true
  fetchAccount := fun _ _ => none
  fetchAccount_uri := fetched_none

def everyoneSees : Policy where
  checkStatusVisible _ _ _ := true

def localAccount (id : ℕ) (username : String) : Account where
  id := id
  username := username
  domain := none
  uri := none
  locked := false
  silenced := false
  unavailable := false
  movedToAccountId := none

def publicPost (id accountId : ℕ) : Status where
  id := id
  accountId := accountId
  uri := none
  visibility := .pub
  inReplyToId := none
  reblogOfId := none
  deleted := false

def twoPosts : Server where
  db :=
    { Db.empty with
      accounts := { rows := [localAccount 1 "alice", localAccount 2 "bob"], distinct := by decide }
      statuses := { rows := [publicPost 11 1, publicPost 12 2], distinct := by decide }
      accountStats := fun id => if id = 1 ∨ id = 2 then some ⟨1, 0, 0⟩ else none }
  undone := []
  tombstones := []

theorem exact_twoPosts (all : Bool) : Exact all twoPosts.db := by
  constructor
  · intro x
    by_cases h1 : x = 1
    · subst h1
      decide
    · by_cases h2 : x = 2
      · subst h2
        decide
      · simp [twoPosts, Database.read, Table.count, isPost, publicPost, h1, h2, Ne.symm h1,
          Ne.symm h2]
  · intro x
    simp [twoPosts, Db.empty, Database.read, Table.count, isReplyTo, publicPost]
  · intro x _
    simp [twoPosts, Db.empty, Database.read, Table.count, isKeptBoostOf, publicPost]

/-- Account 1 boosts the post of account 2 for those mentioned, and takes it back. -/
def directBoost : List Op := [.reblog 1 12 13 .direct, .unreblog 1 12]

theorem direct_boost_uncounts_a_post :
    Exact true twoPosts.db ∧
      ¬ Exact false (run (step offlineInstance everyoneSees) twoPosts directBoost).db := by
  refine ⟨exact_twoPosts true, fun h => ?_⟩
  have hposts := h.posts 1
  revert hposts
  decide +kernel

/-- The same, for everyone, and a reply of account 2. -/
def publicBoost : List Op :=
  [.reblog 1 12 13 .pub, .unreblog 1 12,
    .post 2 ⟨14, "https://a.example/users/bob/statuses/14", .unlisted, some 11⟩]

theorem unboostMeets_publicBoost :
    UnboostMeets (reblogStatus everyoneSees twoPosts.db 1 12 13 .pub) 1 12
      (boostRow 13 1 none .pub 12) where
  clean :=
    { only := by
        rw [OnlyTakes]
        decide +kernel
      noReply := isReplyTo_boostRow 13 1 none .pub 12 }
  counted := .inl rfl

theorem status_counters_exact_publicBoost :
    Exact true (run (step offlineInstance everyoneSees) twoPosts publicBoost).db := by
  refine status_counters_exact offlineInstance everyoneSees true twoPosts publicBoost
    (exact_twoPosts true) ⟨trivial, ?_, trivial, trivial⟩
  intro status hstatus _ row hrow
  have hfetch : fetchStatus (reblogStatus everyoneSees twoPosts.db 1 12 13 .pub) 12 =
      some (publicPost 12 2) := by decide +kernel
  obtain rfl : publicPost 12 2 = status := Option.some.inj (hfetch.symm.trans hstatus)
  have hfind : (reblogStatus everyoneSees twoPosts.db 1 12 13 .pub).statuses.rows.find?
      (isBoostBy 1 12) = some (boostRow 13 1 none .pub 12) := by decide +kernel
  obtain rfl : boostRow 13 1 none .pub 12 = row := Option.some.inj (hfind.symm.trans hrow)
  exact unboostMeets_publicBoost

end Eunha.StatusCounters
