import Eunha.FollowTable
import Eunha.Runs
import Mathlib.Data.String.Basic

/-!
# The life cycle of a follow

A follow is asked for, promoted and ended here and by inbound activities, in any order.
Three things should hold all along: the counters equal the rows, a pair is followed or
requested but not both, and no row stands while one of the two blocks the other. They
hold exactly as long as three steps do not go wrong: an inbound Follow that records a row
beside a pending request or past its own block, an Undo whose URI finds several follows,
and an actor stored with totals that are not those of its rows here.
-/
namespace Eunha.FollowLifecycle
open Tables Database Statuses InboxRelationships FollowTable Runs

/-! ### The operations of the API -/

structure FollowOptions where
  bypassLocked : Bool
  bypassLimit : Bool

/-- What a local follow asks of the rest of the instance: the domains it does not federate
with, and `(followers as f64 * 1.1).round()`. -/
structure Policy where
  domainNotAllowed : String → Bool
  scaleFollowers : ℤ → ℤ

/-- `FollowLimitValidator`. -/
def followLimit (p : Policy) (following followers : ℤ) : ℤ :=
  if following < 7500 then 7500 else max (p.scaleFollowers followers) 7500

/-- `following_not_possible?` and `following_not_allowed?`. -/
def refused (p : Policy) (db : Db) (source target : Account) : Prop :=
  target.id = source.id ∨ target.unavailable = true ∨ target.domain.any p.domainNotAllowed = true ∨
    target.movedToAccountId.isSome = true ∨ blocking db source.id target.id ∨
    blocking db target.id source.id ∨
    ∃ domain ∈ target.domain, (source.id, domain) ∈ db.accountDomainBlocks

instance (p : Policy) (db : Db) (source target : Account) :
    Decidable (refused p db source target) :=
  inferInstanceAs (Decidable (_ ∨ _ ∨ _ ∨ _ ∨ _ ∨ _ ∨ _))

/-- `relationships::follow`, where `uri` names the activity sent to a remote target. -/
def follow (p : Policy) (db : Db) (source target : Account) (o : FollowOptions) (uri : String) :
    Db :=
  let following := followingCount db.accountStats source.id
  let followers := followersCount db.accountStats source.id
  if refused p db source target then db
  else if alreadyFollows db source.id target.id then db
  else if requested db source.id target.id then db
  else if !o.bypassLimit && followLimit p following followers ≤ following then db
  else if target.domain.isSome then
    { db with followRequests := upsertUri db.followRequests ⟨source.id, target.id, some uri⟩ }
  else if (target.locked && !o.bypassLocked) || source.silenced then
    { db with followRequests := db.followRequests.insert ⟨source.id, target.id, none⟩ }
  else
    { db with
      follows := db.follows.insert ⟨source.id, target.id, none⟩
      accountStats := onFollowCreated db.accountStats source.id target.id }

def unfollow (db : Db) (followerId targetId : ℕ) : Db :=
  match db.follows.rows.find? (isPair followerId targetId) with
  | some _ =>
      { db with
        follows := db.follows.deleteWhere (isPair followerId targetId)
        accountStats := onFollowRemoved db.accountStats followerId targetId }
  | none =>
      { db with followRequests := db.followRequests.deleteWhere (isPair followerId targetId) }

def block (db : Db) (accountId targetId : ℕ) : Db :=
  if accountId = targetId then db else recordBlock db accountId targetId

def authorize (db : Db) (requesterId targetId : ℕ) : Db :=
  match db.followRequests.rows.find? (isPair requesterId targetId) with
  | none => db
  | some request =>
      let f : Follow := ⟨requesterId, targetId, request.uri⟩
      { db with
        followRequests := db.followRequests.deleteWhere (isPair requesterId targetId)
        follows := db.follows.insert f
        accountStats :=
          if db.follows.Taken f then db.accountStats
          else onFollowCreated db.accountStats requesterId targetId }

def rejectFollowRequest (db : Db) (requesterId targetId : ℕ) : Db :=
  { db with followRequests := db.followRequests.deleteWhere (isPair requesterId targetId) }

def approvable (db : Db) (accountId : ℕ) (f : Follow) : Bool :=
  f.targetAccountId = accountId ∧ (db.account f.accountId).any (!·.silenced)

def approve (accountId : ℕ) (db : Db) (row : Follow) : Db :=
  { db with
    follows := db.follows.insert ⟨row.accountId, accountId, none⟩
    accountStats := onFollowCreated db.accountStats row.accountId accountId }

/-- `authorize_all_follow_requests` -/
def approveAll (db : Db) (accountId : ℕ) : Db :=
  let pending := db.followRequests.rows.filter (approvable db accountId)
  pending.foldl (approve accountId)
    { db with followRequests := db.followRequests.deleteWhere (approvable db accountId) }

/-- `UPDATE accounts SET locked = … WHERE id = …` -/
def setLocked (t : Table Account.keys) (accountId : ℕ) (locked : Bool) : Table Account.keys :=
  t.update (fun a => if a.id = accountId then { a with locked := locked } else a)
    (fun a => by split <;> rfl)

/-- `update_credentials`, of the locked flag. -/
def updateLocked (db : Db) (accountId : ℕ) (locked : Bool) : Db :=
  let db := { db with accounts := setLocked db.accounts accountId locked }
  if locked then db else approveAll db accountId

/-! ### Steps -/

inductive Op where
  | follow (sourceId targetId : ℕ) (options : FollowOptions) (uri : String)
  | unfollow (followerId targetId : ℕ)
  | block (accountId targetId : ℕ)
  | authorize (requesterId targetId : ℕ)
  | reject (requesterId targetId : ℕ)
  | inbound (type : ActivityType) (a : Activity)
  | updateLocked (accountId : ℕ) (locked : Bool)
  /-- The accounts change in any way, their locked flags among it. -/
  | accounts (t : Table Account.keys) (domainBlocks : List (ℕ × String))
  /-- A remembered Undo lapses. -/
  | forget (actor uri : String)

def State.mapDb (s : State) (f : Db → Db) : State := { s with db := f s.db }

section
variable (i : Instance) (p : Policy)

def step (s : State) : Op → State
  | .follow sourceId targetId options uri =>
      match s.db.account sourceId, s.db.account targetId with
      | some source, some target => State.mapDb s fun db => follow p db source target options uri
      | _, _ => s
  | .unfollow followerId targetId => State.mapDb s fun db => unfollow db followerId targetId
  | .block accountId targetId => State.mapDb s fun db => block db accountId targetId
  | .authorize requesterId targetId => State.mapDb s fun db => authorize db requesterId targetId
  | .reject requesterId targetId =>
      State.mapDb s fun db => rejectFollowRequest db requesterId targetId
  | .inbound type a => processActivity i s type a
  | .updateLocked accountId locked => State.mapDb s fun db => updateLocked db accountId locked
  | .accounts t domainBlocks =>
      State.mapDb s fun db => { db with accounts := t, accountDomainBlocks := domainBlocks }
  | .forget actor uri => { s with undone := s.undone.filter (· ≠ (actor, uri)) }

/-! ### The invariant and the guard -/

/-- No pair is both followed and requested, and none of either stands under a block. -/
structure Apart (db : Db) : Prop where
  exclusive : ∀ x y, Pairs db.follows x y → ¬ Pairs db.followRequests x y
  follows_unblocked : ∀ x y, Pairs db.follows x y → ¬ blocking db y x ∧ ¬ blocking db x y
  requests_unblocked : ∀ x y, Pairs db.followRequests x y → ¬ blocking db y x ∧ ¬ blocking db x y

structure Inv (s : State) : Prop where
  counted : Counted s.db.follows s.db.accountStats
  apart : Apart s.db

def RecordsApart (db : Db) (target : Account) (followerId : ℕ) (a : Activity) : Prop :=
  ¬ shouldReject db target followerId → alreadyFollows db followerId target.id = false →
    (i.isIri a.id && i.isIri a.actor && i.isIri a.object.asStr) = true →
      ¬ blocking db followerId target.id ∧
        (held db target followerId = false → requested db followerId target.id = false)

def ActorCounted (db : Db) (actor : String) : Prop :=
  ∀ r ∈ resolveOrFetch i db actor, Counted r.1.follows r.1.accountStats

/-- `handle_follow` gets to its actor, and records apart. -/
def FollowMeets (s : State) (a : Activity) : Prop :=
  if s.deleteArrivedFirst a.actor a.id then True
  else if a.object.asStr = i.actorUrl then ActorCounted i s.db a.actor
  else
    match (i.path a.object.asStr).bind (localByPath i s.db) with
    | none => True
    | some target =>
        ActorCounted i s.db a.actor ∧
          ∀ r ∈ resolveOrFetch i s.db a.actor, RecordsApart i r.1 target r.2 a

/-- `handle_undo` of a Follow finds one follow at most. -/
def UndoMeets (s : State) (a : Activity) : Prop :=
  match a.object with
  | .embedded o =>
      o.type = .follow →
        ∀ f ∈ s.db.follows.rows, f.uri = some (o.id.getD "") →
          ∀ g ∈ s.db.follows.rows, g.uri = some (o.id.getD "") → f = g
  | _ => True

/-- `handle_block` gets to its actor. -/
def BlockMeets (s : State) (a : Activity) : Prop :=
  s.deleteArrivedFirst a.actor a.id = false →
    (localByUri s.db (a.object.uriOrId.getD "")).isSome → ActorCounted i s.db a.actor

def guard (s : State) : Op → Prop
  | .inbound .follow a => FollowMeets i s a
  | .inbound .undo a => UndoMeets s a
  | .inbound .block a => BlockMeets i s a
  | _ => True

/-! ### What keeps pairs apart -/

namespace Apart
variable {db db' : Db} {a b : ℕ}

theorem shrink (h : Apart db) (hb : ∀ x y, blocking db' x y → blocking db x y)
    (hf : ∀ x y, Pairs db'.follows x y → Pairs db.follows x y)
    (hr : ∀ x y, Pairs db'.followRequests x y → Pairs db.followRequests x y) : Apart db' := by
  refine ⟨fun x y hxy hq => ?_, fun x y hxy => ?_, fun x y hxy => ?_⟩
  · exact h.exclusive x y (hf x y hxy) (hr x y hq)
  · have hold := h.follows_unblocked x y (hf x y hxy)
    exact ⟨fun hyx => hold.1 (hb y x hyx), fun hxy => hold.2 (hb x y hxy)⟩
  · have hold := h.requests_unblocked x y (hr x y hxy)
    exact ⟨fun hyx => hold.1 (hb y x hyx), fun hxy => hold.2 (hb x y hxy)⟩

theorem addFollow (h : Apart db) (hb : db'.blocks = db.blocks)
    (hf : ∀ x y, Pairs db'.follows x y → Pairs db.follows x y ∨ (a = x ∧ b = y))
    (hr : ∀ x y, Pairs db'.followRequests x y → Pairs db.followRequests x y ∧ ¬ (a = x ∧ b = y))
    (hab : ¬ blocking db b a ∧ ¬ blocking db a b) : Apart db' := by
  refine ⟨fun x y hxy hq => ?_, fun x y hxy => ?_, fun x y hxy => ?_⟩
  · rcases hf x y hxy with hxy | hxy
    · exact h.exclusive x y hxy (hr x y hq).1
    · exact (hr x y hq).2 hxy
  · rw [blocking, blocking, hb]
    rcases hf x y hxy with hxy | ⟨rfl, rfl⟩
    · exact h.follows_unblocked x y hxy
    · exact hab
  · rw [blocking, blocking, hb]
    exact h.requests_unblocked x y (hr x y hxy).1

theorem addRequest (h : Apart db) (hb : db'.blocks = db.blocks)
    (hf : ∀ x y, Pairs db'.follows x y → Pairs db.follows x y ∧ ¬ (a = x ∧ b = y))
    (hr : ∀ x y, Pairs db'.followRequests x y → Pairs db.followRequests x y ∨ (a = x ∧ b = y))
    (hab : ¬ blocking db b a ∧ ¬ blocking db a b) : Apart db' := by
  refine ⟨fun x y hxy hq => ?_, fun x y hxy => ?_, fun x y hxy => ?_⟩
  · rcases hr x y hq with hq | hq
    · exact h.exclusive x y (hf x y hxy).1 hq
    · exact (hf x y hxy).2 hq
  · rw [blocking, blocking, hb]
    exact h.follows_unblocked x y (hf x y hxy).1
  · rw [blocking, blocking, hb]
    rcases hr x y hxy with hxy | ⟨rfl, rfl⟩
    · exact h.requests_unblocked x y hxy
    · exact hab

end Apart

theorem between_iff {x y : ℕ} {f : Follow} :
    between x y f = true ↔ (f.accountId = x ∧ f.targetAccountId = y) ∨
      (f.accountId = y ∧ f.targetAccountId = x) := by
  simp [between, isPair]

theorem not_between {t : Table Follow.keys} {a b x y : ℕ}
    (h : Pairs (t.deleteWhere (between a b)) x y) :
    ¬ ((x = a ∧ y = b) ∨ (x = b ∧ y = a)) := by
  rintro (⟨rfl, rfl⟩ | ⟨rfl, rfl⟩)
  · exact not_pairs_deleteWhere (fun f hf ht => between_iff.mpr (.inl ⟨hf, ht⟩)) h
  · exact not_pairs_deleteWhere (fun f hf ht => between_iff.mpr (.inr ⟨hf, ht⟩)) h

theorem apart_recordBlock {db : Db} (h : Apart db) (a b : ℕ) : Apart (recordBlock db a b) := by
  have hblocking (x y : ℕ) :
      blocking (recordBlock db a b) x y → blocking db x y ∨ (x = a ∧ y = b) := by
    intro hxy
    rcases Table.mem_insert.mp hxy with hxy | ⟨_, hxy⟩
    · exact .inl hxy
    · obtain ⟨rfl, rfl⟩ := Block.mk.inj hxy
      exact .inr ⟨rfl, rfl⟩
  have hunblocked {t : Table Follow.keys} {x y : ℕ}
      (hold : ¬ blocking db y x ∧ ¬ blocking db x y)
      (hxy : Pairs (t.deleteWhere (between a b)) x y) :
      ¬ blocking (recordBlock db a b) y x ∧ ¬ blocking (recordBlock db a b) x y := by
    have hnot := not_between hxy
    constructor
    · intro hyx
      rcases hblocking y x hyx with hyx | ⟨rfl, rfl⟩
      · exact hold.1 hyx
      · exact hnot (.inr ⟨rfl, rfl⟩)
    · intro hxy
      rcases hblocking x y hxy with hxy | ⟨rfl, rfl⟩
      · exact hold.2 hxy
      · exact hnot (.inl ⟨rfl, rfl⟩)
  refine ⟨fun x y hxy hq => ?_, fun x y hxy => ?_, fun x y hxy => ?_⟩
  · exact h.exclusive x y (pairs_of_deleteWhere hxy) (pairs_of_deleteWhere hq)
  · exact hunblocked (h.follows_unblocked x y (pairs_of_deleteWhere hxy)) hxy
  · exact hunblocked (h.requests_unblocked x y (pairs_of_deleteWhere hxy)) hxy

/-! ### The operations of the API keep the invariant -/

/-- The invariant, of the database. -/
structure Kept (db : Db) : Prop where
  counted : Counted db.follows db.accountStats
  apart : Apart db

theorem kept_recordBlock {db : Db} (h : Kept db) (a b : ℕ) : Kept (recordBlock db a b) :=
  ⟨counted_deleteWhere _ h.counted, apart_recordBlock h.apart a b⟩

theorem kept_block {db : Db} (h : Kept db) (accountId targetId : ℕ) :
    Kept (block db accountId targetId) := by
  rw [block]
  split
  · exact h
  · exact kept_recordBlock h accountId targetId

theorem kept_deleteRequests {db : Db} (h : Kept db) (q : Follow → Bool) :
    Kept { db with followRequests := db.followRequests.deleteWhere q } :=
  ⟨h.counted, h.apart.shrink (fun _ _ hb => hb) (fun _ _ hxy => hxy) fun _ _ hxy =>
    pairs_of_deleteWhere hxy⟩

theorem find_isPair {t : Table Follow.keys} {x y : ℕ} {row : Follow}
    (h : t.rows.find? (isPair x y) = some row) :
    row ∈ t.rows ∧ row.accountId = x ∧ row.targetAccountId = y :=
  ⟨List.mem_of_find?_eq_some h, isPair_iff.mp (List.find?_some h)⟩

theorem kept_unfollow {db : Db} (h : Kept db) (followerId targetId : ℕ) :
    Kept (unfollow db followerId targetId) := by
  rw [unfollow]
  cases hfind : db.follows.rows.find? (isPair followerId targetId) with
  | none => exact kept_deleteRequests h _
  | some row =>
      obtain ⟨hmem, rfl, rfl⟩ := find_isPair hfind
      refine ⟨?_, h.apart.shrink (fun _ _ hb => hb) (fun _ _ hxy => pairs_of_deleteWhere hxy)
        fun _ _ hxy => hxy⟩
      refine (counted_uncountOne h.counted hmem (isPair_iff.mpr ⟨rfl, rfl⟩)).mpr fun f hf hp => ?_
      exact eq_of_pair hf hmem (isPair_iff.mp hp)

theorem kept_follow {db : Db} (h : Kept db) (source target : Account) (o : FollowOptions)
    (uri : String) : Kept (follow p db source target o uri) := by
  rw [follow]
  split_ifs with hrefused hfollows hrequested hlimit hremote hheld
  · exact h
  · exact h
  · exact h
  · exact h
  all_goals
    have hunblocked : ¬ blocking db target.id source.id ∧ ¬ blocking db source.id target.id := by
      simp only [refused, not_or] at hrefused
      exact ⟨hrefused.2.2.2.2.2.1, hrefused.2.2.2.2.1⟩
    have hnotFollows : ¬ Pairs db.follows source.id target.id := fun hp =>
      hfollows (follows_iff.mpr hp)
    have hnotRequested : ¬ Pairs db.followRequests source.id target.id :=
      fun hp => hrequested (requested_iff.mpr hp)
  · refine ⟨h.counted, h.apart.addRequest rfl (fun x y hxy => ⟨hxy, ?_⟩)
      (fun x y hxy => pairs_upsertUri.mp hxy) hunblocked⟩
    rintro ⟨rfl, rfl⟩
    exact hnotFollows hxy
  · refine ⟨h.counted, h.apart.addRequest rfl (fun x y hxy => ⟨hxy, ?_⟩)
      (fun x y hxy => pairs_insert.mp hxy) hunblocked⟩
    rintro ⟨rfl, rfl⟩
    exact hnotFollows hxy
  · refine ⟨(counted_insert _ fun htaken => hnotFollows (taken_iff.mp htaken)).mpr h.counted,
      h.apart.addFollow rfl (fun x y hxy => pairs_insert.mp hxy) (fun x y hxy => ⟨hxy, ?_⟩)
        hunblocked⟩
    rintro ⟨rfl, rfl⟩
    exact hnotRequested hxy

theorem kept_promote {db db' : Db} (row : Follow) (h : Kept db)
    (hrow : Pairs db.followRequests row.accountId row.targetAccountId)
    (hf : db'.follows = db.follows.insert row)
    (hr : ∀ x y, Pairs db'.followRequests x y →
      Pairs db.followRequests x y ∧ ¬ (row.accountId = x ∧ row.targetAccountId = y))
    (hb : db'.blocks = db.blocks)
    (hstats : db'.accountStats = onFollowCreated db.accountStats row.accountId row.targetAccountId) :
    Kept db' := by
  have hnew : ¬ db.follows.Taken row := fun htaken =>
    h.apart.exclusive _ _ (taken_iff.mp htaken) hrow
  refine ⟨?_, h.apart.addFollow hb ?_ hr (h.apart.requests_unblocked _ _ hrow)⟩
  · rw [hf, hstats]
    exact (counted_insert _ hnew).mpr h.counted
  · intro x y hxy
    rw [hf] at hxy
    exact pairs_insert.mp hxy

theorem pairs_deleteWhere_isPair {t : Table Follow.keys} {a b x y : ℕ}
    (h : Pairs (t.deleteWhere (isPair a b)) x y) : Pairs t x y ∧ ¬ (a = x ∧ b = y) := by
  refine ⟨pairs_of_deleteWhere h, ?_⟩
  rintro ⟨rfl, rfl⟩
  exact not_pairs_deleteWhere (fun f hf ht => isPair_iff.mpr ⟨hf, ht⟩) h

theorem kept_authorize {db : Db} (h : Kept db) (requesterId targetId : ℕ) :
    Kept (authorize db requesterId targetId) := by
  rw [authorize]
  cases hfind : db.followRequests.rows.find? (isPair requesterId targetId) with
  | none => exact h
  | some request =>
      obtain ⟨hmem, rfl, rfl⟩ := find_isPair hfind
      have hpair : Pairs db.followRequests request.accountId request.targetAccountId :=
        ⟨request, hmem, rfl, rfl⟩
      have hnew : ¬ db.follows.Taken ⟨request.accountId, request.targetAccountId, request.uri⟩ :=
        fun htaken => h.apart.exclusive _ _ (taken_iff.mp htaken) hpair
      refine kept_promote ⟨request.accountId, request.targetAccountId, request.uri⟩ h hpair rfl
        (fun x y hxy => pairs_deleteWhere_isPair hxy) rfl ?_
      exact if_neg hnew

/-! ### Unlocking an account -/

theorem kept_setAccounts {db : Db} (h : Kept db) (accounts : Table Account.keys)
    (domainBlocks : List (ℕ × String)) :
    Kept { db with accounts := accounts, accountDomainBlocks := domainBlocks } :=
  ⟨h.counted, h.apart.shrink (fun _ _ hb => hb) (fun _ _ hxy => hxy) fun _ _ hxy => hxy⟩

theorem kept_approveEach {accountId : ℕ} (pending : List Follow) {db : Db} (h : Kept db)
    (htarget : ∀ f ∈ pending, f.targetAccountId = accountId)
    (hfollows : ∀ f ∈ pending, ¬ Pairs db.follows f.accountId accountId)
    (hrequests : ∀ f ∈ pending, ¬ Pairs db.followRequests f.accountId accountId)
    (hblocks : ∀ f ∈ pending,
      ¬ blocking db accountId f.accountId ∧ ¬ blocking db f.accountId accountId)
    (hdistinct : pending.Pairwise fun f g => ¬ Clash Follow.keys f g) :
    Kept (pending.foldl (approve accountId) db) := by
  induction pending generalizing db with
  | nil => exact h
  | cons f pending ih =>
      rw [List.forall_mem_cons] at htarget hfollows hrequests hblocks
      rw [List.pairwise_cons] at hdistinct
      have hnew : ¬ db.follows.Taken ⟨f.accountId, accountId, none⟩ :=
        fun htaken => hfollows.1 (taken_iff.mp htaken)
      have happroved : Kept (approve accountId db f) := by
        refine ⟨(counted_insert _ hnew).mpr h.counted,
          h.apart.addFollow rfl (fun x y hxy => pairs_insert.mp hxy) (fun x y hxy => ⟨hxy, ?_⟩)
            hblocks.1⟩
        rintro ⟨rfl, rfl⟩
        exact hrequests.1 hxy
      refine ih happroved htarget.2 ?_ hrequests.2 hblocks.2 hdistinct.2
      intro g hg hpair
      rcases pairs_insert.mp hpair with hpair | ⟨heq, _⟩
      · exact hfollows.2 g hg hpair
      · exact hdistinct.1 g hg (clash_iff.mpr ⟨heq, htarget.1.trans (htarget.2 g hg).symm⟩)

theorem kept_approveAll {db : Db} (h : Kept db) (accountId : ℕ) :
    Kept (approveAll db accountId) := by
  have hpending : ∀ f ∈ db.followRequests.rows.filter (approvable db accountId),
      f ∈ db.followRequests.rows ∧ approvable db accountId f = true ∧
        f.targetAccountId = accountId := by
    intro f hf
    obtain ⟨hmem, hp⟩ := List.mem_filter.mp hf
    exact ⟨hmem, hp, (of_decide_eq_true hp).1⟩
  refine kept_approveEach _ (kept_deleteRequests h _) (fun f hf => (hpending f hf).2.2) ?_ ?_ ?_
    (db.followRequests.distinct.filter _)
  · intro f hf hpair
    obtain ⟨hmem, -, rfl⟩ := hpending f hf
    exact h.apart.exclusive _ _ hpair ⟨f, hmem, rfl, rfl⟩
  · rintro f hf ⟨g, hg, hpair⟩
    obtain ⟨hmem, hp, rfl⟩ := hpending f hf
    obtain ⟨hgmem, hgp⟩ := Table.mem_deleteWhere.mp hg
    rw [eq_of_pair hgmem hmem hpair, hp] at hgp
    cases hgp
  · intro f hf
    obtain ⟨hmem, -, rfl⟩ := hpending f hf
    exact h.apart.requests_unblocked _ _ ⟨f, hmem, rfl, rfl⟩

theorem kept_updateLocked {db : Db} (h : Kept db) (accountId : ℕ) (locked : Bool) :
    Kept (updateLocked db accountId locked) := by
  rw [updateLocked]
  have hset := kept_setAccounts h (setLocked db.accounts accountId locked) db.accountDomainBlocks
  split
  · exact hset
  · exact kept_approveAll hset accountId

/-! ### Inbound activities -/

theorem kept_of_same {db db' : Db} (h : Kept db) (hf : db'.follows = db.follows)
    (hr : db'.followRequests = db.followRequests) (hb : db'.blocks = db.blocks)
    (hfollowers : ∀ x, followersCount db'.accountStats x = followersCount db.accountStats x)
    (hfollowing : ∀ x, followingCount db'.accountStats x = followingCount db.accountStats x) :
    Kept db' := by
  refine ⟨fun x => ?_, h.apart.shrink (fun x y hxy => ?_) (fun x y hxy => hf ▸ hxy)
    fun x y hxy => hr ▸ hxy⟩
  · rw [hf, hfollowers, hfollowing]
    exact h.counted x
  · rw [blocking, hb] at hxy
    exact hxy

theorem kept_resolved {db db' : Db} {uri : String} {id : ℕ}
    (hresolve : resolveOrFetch i db uri = some (db', id)) (h : Apart db) : Apart db' := by
  rw [resolveOrFetch_eq hresolve]
  exact h.shrink (fun _ _ hb => hb) (fun _ _ hxy => hxy) fun _ _ hxy => hxy

theorem kept_iff {db : Db} (h : Apart db) : Kept db ↔ Counted db.follows db.accountStats :=
  ⟨Kept.counted, fun hc => ⟨hc, h⟩⟩

theorem kept_takeFollow {db : Db} (h : Apart db) (target : Account) (followerId : ℕ)
    (a : Activity) :
    Kept (takeFollow i db target followerId a) ↔
      Counted db.follows db.accountStats ∧ RecordsApart i db target followerId a := by
  rw [takeFollow, RecordsApart]
  by_cases hreject : shouldReject db target followerId
  · simp only [hreject, if_true, not_true_eq_false, false_implies, and_true]
    exact kept_iff h
  have htarget : ¬ blocking db target.id followerId := fun hb => hreject (.inr (.inl hb))
  cases hfollows : alreadyFollows db followerId target.id with
  | true =>
      simp only [hreject, if_false, if_true, Bool.true_eq_false, false_implies, implies_true, and_true]
      rw [kept_iff]
      · exact counted_setUri
      · exact h.shrink (fun _ _ hb => hb) (fun x y hxy => pairs_setUri.mp hxy) fun _ _ hxy => hxy
  | false =>
      have hnotFollows : ¬ Pairs db.follows followerId target.id := fun hp => by
        rw [follows_iff.mpr hp] at hfollows
        cases hfollows
      cases hiri : i.isIri a.id && i.isIri a.actor && i.isIri a.object.asStr with
      | false =>
          simp only [hreject, if_false, Bool.false_eq_true, Bool.not_false, if_true, false_implies,
            implies_true, and_true]
          exact kept_iff h
      | true =>
          simp only [hreject, if_false, Bool.false_eq_true, Bool.not_true, not_false_eq_true,
            forall_const]
          have hself : Pairs (upsertUri db.followRequests ⟨followerId, target.id, some a.id⟩)
              followerId target.id := pairs_upsertUri.mpr (.inr ⟨rfl, rfl⟩)
          have hselfFollows : Pairs (upsertUri db.follows ⟨followerId, target.id, some a.id⟩)
              followerId target.id := pairs_upsertUri.mpr (.inr ⟨rfl, rfl⟩)
          cases hheld : held db target followerId with
          | true =>
              simp only [if_true, Bool.true_eq_false, false_implies, and_true, recordFollowRequest]
              constructor
              · intro hk
                exact ⟨hk.counted, (hk.apart.requests_unblocked _ _ hself).2⟩
              · rintro ⟨hc, hb⟩
                refine ⟨hc, h.addRequest rfl (fun x y hxy => ⟨hxy, ?_⟩)
                  (fun x y hxy => pairs_upsertUri.mp hxy) ⟨htarget, hb⟩⟩
                rintro ⟨rfl, rfl⟩
                exact hnotFollows hxy
          | false =>
              have hnew : ¬ db.follows.Taken ⟨followerId, target.id, some a.id⟩ :=
                fun htaken => hnotFollows (taken_iff.mp htaken)
              have hcounted := counted_insert db.accountStats hnew
              simp only [Bool.false_eq_true, if_false, recordFollow, upsertUri, if_neg hnew,
                forall_const]
              rw [upsertUri, if_neg hnew] at hselfFollows
              constructor
              · intro hk
                refine ⟨hcounted.mp hk.counted, (hk.apart.follows_unblocked _ _ hselfFollows).2, ?_⟩
                rw [Bool.eq_false_iff]
                intro hrequested
                exact hk.apart.exclusive _ _ hselfFollows (requested_iff.mp hrequested)
              · rintro ⟨hc, hb, hrequested⟩
                have hnotRequested : ¬ Pairs db.followRequests followerId target.id := fun hp => by
                  rw [requested_iff.mpr hp] at hrequested
                  cases hrequested
                refine ⟨hcounted.mpr hc, h.addFollow rfl (fun x y hxy => pairs_insert.mp hxy)
                  (fun x y hxy => ⟨hxy, ?_⟩) ⟨htarget, hb⟩⟩
                rintro ⟨rfl, rfl⟩
                exact hnotRequested hxy

theorem kept_handleFollow {s : State} (h : Kept s.db) (a : Activity) :
    Kept (handleFollow i s a).db ↔ FollowMeets i s a := by
  rw [handleFollow, FollowMeets]
  split_ifs with harrived hinstance
  · exact iff_of_true h trivial
  · rw [ActorCounted]
    cases hresolve : resolveOrFetch i s.db a.actor with
    | none => simpa using h
    | some r =>
        obtain ⟨db, id⟩ := r
        simpa using kept_iff (kept_resolved i hresolve h.apart)
  · cases (i.path a.object.asStr).bind (localByPath i s.db) with
    | none => exact iff_of_true h trivial
    | some target =>
        rw [ActorCounted]
        cases hresolve : resolveOrFetch i s.db a.actor with
        | none => simpa using h
        | some r =>
            obtain ⟨db, followerId⟩ := r
            simpa using kept_takeFollow i (kept_resolved i hresolve h.apart) target followerId a

theorem kept_handleBlock {s : State} (h : Kept s.db) {a : Activity} (hmeets : BlockMeets i s a) :
    Kept (handleBlock i s a).db := by
  rw [handleBlock]
  split
  · exact h
  next harrived =>
    split
    · exact h
    next target htarget =>
      split
      · exact h
      next db blockerId hresolve =>
        have hcounted := hmeets (by simpa using harrived) (by rw [htarget]; rfl) _ hresolve
        exact kept_recordBlock ⟨hcounted, kept_resolved i hresolve h.apart⟩ blockerId target.id

theorem hasUri_iff {uri : String} {f : Follow} : hasUri uri f = true ↔ f.uri = some uri := by
  simp [hasUri]

theorem kept_undoFollow {s : State} (h : Kept s.db) (actor uri : String) :
    Kept (undoFollow s actor uri).db ↔
      ∀ f ∈ s.db.follows.rows, f.uri = some uri → ∀ g ∈ s.db.follows.rows, g.uri = some uri →
        f = g := by
  have hdb : (undoFollow s actor uri).db =
      { s.db with
        follows := s.db.follows.deleteWhere (hasUri uri)
        followRequests := s.db.followRequests.deleteWhere (hasUri uri)
        accountStats := uncountOne s.db.accountStats (s.db.follows.rows.find? (hasUri uri)) } := by
    simp only [undoFollow]
    split <;> simp
  have hapart : Apart (undoFollow s actor uri).db := by
    rw [hdb]
    exact h.apart.shrink (fun _ _ hb => hb) (fun _ _ hxy => pairs_of_deleteWhere hxy)
      fun _ _ hxy => pairs_of_deleteWhere hxy
  rw [kept_iff hapart, hdb]
  cases hfind : s.db.follows.rows.find? (hasUri uri) with
  | none =>
      have hnone : ∀ f ∈ s.db.follows.rows, hasUri uri f = false := by
        simpa using List.find?_eq_none.mp hfind
      rw [Table.deleteWhere_eq_self hnone]
      refine iff_of_true h.counted fun f hf hu => ?_
      have hfalse := hnone f hf
      rw [hasUri_iff.mpr hu] at hfalse
      cases hfalse
  | some row =>
      have hmem := List.mem_of_find?_eq_some hfind
      have hrow : hasUri uri row = true := List.find?_some hfind
      refine (counted_uncountOne h.counted hmem hrow).trans ?_
      constructor
      · intro honly f hf hu g hg hv
        rw [honly f hf (hasUri_iff.mpr hu), honly g hg (hasUri_iff.mpr hv)]
      · intro honly f hf hu
        exact honly f hf (hasUri_iff.mp hu) row hmem (hasUri_iff.mp hrow)

theorem kept_undoAnnounce {s : State} (h : Kept s.db) (actor uri : String) :
    Kept (undoAnnounce s actor uri).db := by
  rw [undoAnnounce]
  split
  · exact h
  split
  next row _ =>
    dsimp only
    have hsame (db : Db) (hf : db.follows = s.db.follows)
        (hr : db.followRequests = s.db.followRequests) (hb : db.blocks = s.db.blocks)
        (hstats : db.accountStats = s.db.accountStats) :
        Kept (onStatusDeleted db row.accountId row.visibility none) := by
      refine kept_of_same h ?_ ?_ ?_ (fun x => ?_) fun x => ?_
      · rw [onStatusDeleted_eq]
        exact hf
      · rw [onStatusDeleted_eq]
        exact hr
      · rw [onStatusDeleted_eq]
        exact hb
      · rw [followersCount_onStatusDeleted, hstats]
      · rw [followingCount_onStatusDeleted, hstats]
    split <;> exact hsame _ rfl rfl rfl rfl
  next =>
    rw [db_deleteLater]
    exact h

theorem kept_undoBlock {s : State} (h : Kept s.db) (actor uri objectUri : String) :
    Kept (undoBlock s actor uri objectUri).db := by
  rw [undoBlock]
  split
  next blocker blockee _ _ =>
    have hundone (q : Block → Bool) : Kept { s.db with blocks := s.db.blocks.deleteWhere q } :=
      ⟨h.counted, h.apart.shrink (fun x y hxy => (Table.mem_deleteWhere.mp hxy).1)
        (fun _ _ hxy => hxy) fun _ _ hxy => hxy⟩
    dsimp only
    split
    · exact hundone _
    · rw [db_deleteLater]
      exact hundone _
  next =>
    rw [db_deleteLater]
    exact h

theorem kept_undoLike {s : State} (h : Kept s.db) (actor uri statusUri : String) :
    Kept (undoLike s actor uri statusUri).db := by
  rw [undoLike]
  split
  next status account _ _ =>
    have hundone (q : Favourite → Bool) :
        Kept { s.db with favourites := s.db.favourites.deleteWhere q } :=
      kept_of_same h rfl rfl rfl (fun _ => rfl) fun _ => rfl
    dsimp only
    split
    · exact hundone _
    · rw [db_deleteLater]
      exact hundone _
  next =>
    rw [db_deleteLater]
    exact h

theorem kept_handleUndo {s : State} (h : Kept s.db) {a : Activity} (hmeets : UndoMeets s a) :
    Kept (handleUndo s a).db := by
  obtain ⟨id, actor, object⟩ := a
  cases object with
  | missing => exact h
  | uri u => exact h
  | embedded o =>
      obtain ⟨type, oid, object⟩ := o
      cases type with
      | follow => exact (kept_undoFollow h actor (oid.getD "")).mpr (hmeets rfl)
      | like => exact kept_undoLike h actor _ _
      | announce => exact kept_undoAnnounce h actor _
      | block => exact kept_undoBlock h actor _ _
      | other => exact h

theorem kept_acceptFollow {db : Db} (h : Kept db) (uri : String) : Kept (acceptFollow db uri) := by
  rw [acceptFollow]
  split
  · exact h
  next row hfind =>
    have hpair : Pairs db.followRequests row.accountId row.targetAccountId :=
      ⟨row, List.mem_of_find?_eq_some hfind, rfl, rfl⟩
    exact kept_promote ⟨row.accountId, row.targetAccountId, some uri⟩ h hpair rfl
      (fun x y hxy => pairs_deleteWhere_isPair hxy) rfl rfl

theorem kept_handleAcceptReject {s : State} (h : Kept s.db) (accept : Bool) (a : Activity) :
    Kept (handleAcceptReject s accept a).db := by
  rw [handleAcceptReject]
  split
  · exact h
  next uri _ =>
    have hanswered : Kept (answered s.db uri accept).2 :=
      kept_of_same h rfl rfl rfl (fun _ => rfl) fun _ => rfl
    dsimp only
    split_ifs
    · exact hanswered
    · exact kept_acceptFollow hanswered uri
    · exact kept_deleteRequests hanswered _

theorem kept_processActivity {s : State} (h : Kept s.db) (type : ActivityType) (a : Activity)
    (hmeets : guard i s (.inbound type a)) : Kept (processActivity i s type a).db := by
  cases type with
  | follow => exact (kept_handleFollow i h a).mpr hmeets
  | undo => exact kept_handleUndo h hmeets
  | accept => exact kept_handleAcceptReject h true a
  | reject => exact kept_handleAcceptReject h false a
  | block => exact kept_handleBlock i h hmeets

/-! ### Runs -/

theorem inv_step (s : State) (o : Op) (h : Inv s) (hmeets : guard i s o) : Inv (step i p s o) := by
  have hkept : Kept s.db := ⟨h.counted, h.apart⟩
  suffices hafter : Kept (step i p s o).db from ⟨hafter.counted, hafter.apart⟩
  cases o with
  | follow sourceId targetId options uri =>
      rw [step]
      split
      · exact kept_follow p hkept _ _ options uri
      · exact hkept
  | unfollow followerId targetId => exact kept_unfollow hkept followerId targetId
  | block accountId targetId => exact kept_block hkept accountId targetId
  | authorize requesterId targetId => exact kept_authorize hkept requesterId targetId
  | reject requesterId targetId => exact kept_deleteRequests hkept _
  | inbound type a => exact kept_processActivity i hkept type a hmeets
  | updateLocked accountId locked => exact kept_updateLocked hkept accountId locked
  | accounts t domainBlocks => exact kept_setAccounts hkept t domainBlocks
  | forget actor uri => exact hkept

/-- All through a run whose inbound Follows record apart, whose Undos find one follow and
whose actors are stored counted, the counters equal the rows, no pair is both followed and
requested, and no row stands under a block. -/
theorem follow_life_cycle (s : State) (ops : List Op) (h : Inv s)
    (hg : Guarded (step i p) (guard i) s ops) :
    ∀ before, before <+: ops → Inv (run (step i p) s before) := by
  rintro before ⟨rest, rfl⟩
  exact run_guarded (inv_step i p) s before h ((guarded_append s before rest).mp hg).1

end

/-! ### A follow and its Undo -/

/-- An instance whose local accounts are at `/users/`. -/
def exampleInstance : Instance where
  actorUrl := "https://a.example/actor"
  path := fun u =>
    if u = "https://a.example/users/a" then some ["users", "a"]
    else if u = "https://a.example/users/b" then some ["users", "b"]
    else none
  lower := fun s => s
  isIri := fun _ => true
  fetchAccount := fun _ _ => none
  fetchAccount_uri := fetched_none

def examplePolicy : Policy := ⟨fun _ => false, fun n => n⟩

def localAccount (id : ℕ) (username : String) : Account where
  id := id
  username := username
  domain := none
  uri := none
  locked := false
  silenced := false
  unavailable := false
  movedToAccountId := none

/-- Accounts 1 and 2 are local, account 3 is remote. -/
def strangers : State where
  db := { Db.empty with
    accounts := ⟨[localAccount 1 "a", localAccount 2 "b",
      { localAccount 3 "c" with
        domain := some "h.example", uri := some "https://h.example/users/c" }],
      by decide +kernel⟩ }
  undone := []

theorem strangers_inv : Inv strangers := by
  have hnone (x y : ℕ) : ¬ Pairs Table.empty x y := by
    rintro ⟨f, hf, -⟩
    cases hf
  exact ⟨fun x => ⟨rfl, rfl⟩, fun x y h => absurd h (hnone x y), fun x y h => absurd h (hnone x y),
    fun x y h => absurd h (hnone x y)⟩

def followOf (url : String) : Op := .inbound .follow
  { id := "https://h.example/follows/1", actor := "https://h.example/users/c", object := .uri url }

def undoOf : Op := .inbound .undo
  { id := "https://h.example/undos/1"
    actor := "https://h.example/users/c"
    object := .embedded ⟨.follow, some "https://h.example/follows/1", none⟩ }

theorem strangers_resolve :
    resolveOrFetch exampleInstance strangers.db "https://h.example/users/c" =
      some (strangers.db, 3) := rfl

/-- The invariant after a Follow and its Undo. -/
theorem follow_life_cycle_undone :
    Inv (run (step exampleInstance examplePolicy) strangers
      [followOf "https://a.example/users/a", undoOf]) := by
  have hfollow : guard exampleInstance strangers (followOf "https://a.example/users/a") := by
    refine ⟨fun r hr => ?_, fun r hr => ?_⟩
    · rw [strangers_resolve] at hr
      cases hr
      exact strangers_inv.counted
    · rw [strangers_resolve] at hr
      cases hr
      intro _ _ _
      exact ⟨by decide +kernel, fun _ => by decide +kernel⟩
  have hundo : guard exampleInstance (step exampleInstance examplePolicy strangers
      (followOf "https://a.example/users/a")) undoOf := by
    intro _
    decide +kernel
  exact follow_life_cycle exampleInstance examplePolicy strangers
    [followOf "https://a.example/users/a", undoOf] strangers_inv ⟨hfollow, hundo, trivial⟩ _
    (List.prefix_refl _)

/-- One activity id for two follows: its Undo removes both and uncounts one. -/
theorem shared_uri_uncounts_one :
    ¬ ∀ (i : Instance) (p : Policy) (s : State) (ops : List Op), Inv s →
      ∀ before, before <+: ops → Inv (run (step i p) s before) := by
  intro h
  have hinv := h exampleInstance examplePolicy strangers
    [followOf "https://a.example/users/a", followOf "https://a.example/users/b", undoOf]
    strangers_inv _ (List.prefix_refl _)
  have hcount := (hinv.counted 2).1
  revert hcount
  decide +kernel

end Eunha.FollowLifecycle
