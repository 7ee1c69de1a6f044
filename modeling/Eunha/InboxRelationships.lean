import Eunha.Roles
import Eunha.Statuses
import Mathlib.Data.String.Basic

/-!
# Inbound Follow, Undo, Accept, Reject and Block

Each handler takes the state an activity arrives in to the one it leaves, its statements
run in order. An activity is what the handlers read of it: a missing member reads as the
handlers' default. What an instance gets from elsewhere is a structure: which URLs are its
own, what counts as an IRI, and the actor document another server answers with, which is
stored under the actor's own URI.
-/
namespace Eunha.InboxRelationships
open Tables Database Statuses

/-! ### Activities -/

inductive ObjectType where
  | follow
  | like
  | announce
  | block
  | other
  deriving DecidableEq

/-- An embedded object: its `object` member is given by its URI, or the `id` in it. -/
structure Embedded where
  type : ObjectType
  id : Option String
  object : Option String
  deriving DecidableEq

inductive Object where
  | missing
  | uri (u : String)
  | embedded (e : Embedded)
  deriving DecidableEq

structure Activity where
  id : String
  actor : String
  object : Object
  deriving DecidableEq

def Object.uriOrId : Object → Option String
  | .missing => none
  | .uri u => some u
  | .embedded e => e.id

/-- `as_str().unwrap_or("")` -/
def Object.asStr : Object → String
  | .uri u => u
  | _ => ""

/-! ### The instance and its state -/

/-- What storing a fetched actor leaves: `process_fetched_actor` takes over the totals its
server reports. -/
structure Fetched where
  accounts : Table Account.keys
  accountStats : Stats AccountStat
  id : ℕ

structure Instance where
  /-- The URL of the instance actor. -/
  actorUrl : String
  /-- The path segments of a URL on our own host. -/
  path : String → Option (List String)
  lower : String → String
  isIri : String → Bool
  fetchAccount : Db → String → Option Fetched
  fetchAccount_uri : ∀ db uri f, fetchAccount db uri = some f →
    ∃ a ∈ f.accounts.rows, a.id = f.id ∧ a.uri = some uri

theorem fetched_none (db : Db) (uri : String) (f : Fetched) (h : (none : Option Fetched) = some f) :
    ∃ a ∈ f.accounts.rows, a.id = f.id ∧ a.uri = some uri := by
  cases h

instance lawfulPair : LawfulBEq (String × String) := inferInstance

/-- The database, and the Undos and Deletes remembered for what has not arrived. -/
structure State where
  db : Db
  undone : List (String × String)

def State.deleteLater (s : State) (actor uri : String) : State :=
  if actor = "" ∨ uri = "" then s else { s with undone := (actor, uri) :: s.undone }

def State.deleteArrivedFirst (s : State) (actor uri : String) : Bool :=
  actor ≠ "" ∧ uri ≠ "" ∧ (actor, uri) ∈ s.undone

@[simp] theorem db_deleteLater (s : State) (actor uri : String) :
    (s.deleteLater actor uri).db = s.db := by
  rw [State.deleteLater]
  split <;> rfl

def localByPath (i : Instance) (db : Db) : List String → Option Account
  | ["users", username] =>
      db.accounts.rows.find? fun a => i.lower a.username = i.lower username ∧ a.domain = none
  | ["ap", "users", id] =>
      (Roles.parseI64 id.toList).bind fun numeric =>
        db.accounts.rows.find? fun a => (a.id : ℤ) = numeric ∧ a.domain = none
  | _ => none

/-- `resolve_or_fetch_remote_account` -/
def resolveOrFetch (i : Instance) (db : Db) (actorUri : String) : Option (Db × ℕ) :=
  match i.path actorUri with
  | some path => (localByPath i db path).map fun a => (db, a.id)
  | none =>
      match db.accountByUri actorUri with
      | some a => some (db, a.id)
      | none =>
          (i.fetchAccount db actorUri).map fun f =>
            ({ db with accounts := f.accounts, accountStats := f.accountStats }, f.id)

theorem resolveOrFetch_eq {i : Instance} {db db' : Db} {uri : String} {id : ℕ}
    (h : resolveOrFetch i db uri = some (db', id)) :
    db' = { db with accounts := db'.accounts, accountStats := db'.accountStats } := by
  rw [resolveOrFetch] at h
  split at h
  · obtain ⟨a, _, he⟩ := Option.map_eq_some_iff.mp h
    rw [← (Prod.mk.inj he).1]
  · split at h
    · rw [← (Prod.mk.inj (Option.some.inj h)).1]
    · obtain ⟨f, _, he⟩ := Option.map_eq_some_iff.mp h
      rw [← (Prod.mk.inj he).1]

/-! ### Follow -/

/-- `UPDATE … SET uri = … WHERE account_id = … AND target_account_id = …` -/
def setUri (t : Table Follow.keys) (accountId targetAccountId : ℕ) (uri : Option String) :
    Table Follow.keys :=
  t.update
    (fun f =>
      if f.accountId = accountId ∧ f.targetAccountId = targetAccountId then { f with uri := uri }
      else f)
    (fun f => by split <;> rfl)

/-- `INSERT … ON CONFLICT (account_id, target_account_id) DO UPDATE SET uri = EXCLUDED.uri` -/
def upsertUri (t : Table Follow.keys) (f : Follow) : Table Follow.keys :=
  if t.Taken f then setUri t f.accountId f.targetAccountId f.uri else t.insert f

def blocking (db : Db) (accountId targetAccountId : ℕ) : Prop :=
  (⟨accountId, targetAccountId⟩ : Block) ∈ db.blocks.rows

instance (db : Db) (accountId targetAccountId : ℕ) :
    Decidable (blocking db accountId targetAccountId) :=
  inferInstanceAs (Decidable ((⟨accountId, targetAccountId⟩ : Block) ∈ db.blocks.rows))

def isPair (accountId targetAccountId : ℕ) (f : Follow) : Bool :=
  f.accountId = accountId ∧ f.targetAccountId = targetAccountId

def alreadyFollows (db : Db) (accountId targetAccountId : ℕ) : Bool :=
  db.follows.rows.any (isPair accountId targetAccountId)

def requested (db : Db) (accountId targetAccountId : ℕ) : Bool :=
  db.followRequests.rows.any (isPair accountId targetAccountId)

def shouldReject (db : Db) (target : Account) (followerId : ℕ) : Prop :=
  target.movedToAccountId.isSome ∨ blocking db target.id followerId ∨
    ∃ domain ∈ (db.account followerId).bind (·.domain),
      (target.id, domain) ∈ db.accountDomainBlocks

instance (db : Db) (target : Account) (followerId : ℕ) :
    Decidable (shouldReject db target followerId) :=
  inferInstanceAs (Decidable (_ ∨ _ ∨ _))

def held (db : Db) (target : Account) (followerId : ℕ) : Bool :=
  target.locked || (db.account followerId).any (·.silenced)

def recordFollowRequest (db : Db) (f : Follow) : Db :=
  { db with followRequests := upsertUri db.followRequests f }

/-- `Action::RecordFollow`: counted when the row is new. -/
def recordFollow (db : Db) (f : Follow) : Db :=
  { db with
    follows := upsertUri db.follows f
    accountStats :=
      if db.follows.Taken f then db.accountStats
      else onFollowCreated db.accountStats f.accountId f.targetAccountId }

/-- `handle_follow` from the target and the follower on. -/
def takeFollow (i : Instance) (db : Db) (target : Account) (followerId : ℕ) (a : Activity) : Db :=
  let f : Follow := ⟨followerId, target.id, some a.id⟩
  if shouldReject db target followerId then db
  else if alreadyFollows db followerId target.id then
    { db with follows := setUri db.follows followerId target.id (some a.id) }
  else if !(i.isIri a.id && i.isIri a.actor && i.isIri a.object.asStr) then db
  else if held db target followerId then recordFollowRequest db f
  else recordFollow db f

def handleFollow (i : Instance) (s : State) (a : Activity) : State :=
  if s.deleteArrivedFirst a.actor a.id then s
  else if a.object.asStr = i.actorUrl then
    match resolveOrFetch i s.db a.actor with
    | some (db, _) => { s with db := db }
    | none => s
  else
    match (i.path a.object.asStr).bind (localByPath i s.db) with
    | none => s
    | some target =>
        match resolveOrFetch i s.db a.actor with
        | none => s
        | some (db, followerId) => { s with db := takeFollow i db target followerId a }

/-! ### Undo -/

def hasUri (uri : String) (f : Follow) : Bool := f.uri = some uri

/-- `on_follow_removed`, of the row a deletion gave back. -/
def uncountOne (stats : Stats AccountStat) : Option Follow → Stats AccountStat
  | some row => onFollowRemoved stats row.accountId row.targetAccountId
  | none => stats

/-- `Undo` of a `Follow`: of the rows removed, the first is uncounted. -/
def undoFollow (s : State) (actor uri : String) : State :=
  let undoneFollow := s.db.follows.rows.find? (hasUri uri)
  let undoneRequest := s.db.followRequests.rows.find? (hasUri uri)
  let db := { s.db with
    follows := s.db.follows.deleteWhere (hasUri uri)
    followRequests := s.db.followRequests.deleteWhere (hasUri uri)
    accountStats := uncountOne s.db.accountStats undoneFollow }
  let s := { s with db := db }
  if undoneFollow.isNone && undoneRequest.isNone then s.deleteLater actor uri else s

/-- `Undo` of a `Like`. -/
def undoLike (s : State) (actor uri statusUri : String) : State :=
  match s.db.statusByUri statusUri, s.db.accountByUri actor with
  | some status, some account =>
      let liked (f : Favourite) : Bool := f.accountId = account.id ∧ f.statusId = status.id
      let undone := { s with
        db := { s.db with favourites := s.db.favourites.deleteWhere liked } }
      if s.db.favourites.rows.any liked then undone else undone.deleteLater actor uri
  | _, _ => s.deleteLater actor uri

/-- `Undo` of an `Announce`. -/
def undoAnnounce (s : State) (actor uri : String) : State :=
  if uri = "" then s
  else
    match s.db.statusByUri uri with
    | some row =>
        let db := deleteStatuses s.db fun status => status.uri = some uri
        let db :=
          match row.reblogOfId with
          | some originalId => recountReblogs db originalId
          | none => db
        { s with db := onStatusDeleted db row.accountId row.visibility none }
    | none => s.deleteLater actor uri

/-- `SELECT id FROM accounts WHERE uri = … AND domain IS NULL` -/
def localByUri (db : Db) (uri : String) : Option Account :=
  db.accounts.rows.find? fun a => a.uri = some uri ∧ a.domain = none

/-- `Undo` of a `Block`. -/
def undoBlock (s : State) (actor uri objectUri : String) : State :=
  match s.db.accountByUri actor, localByUri s.db objectUri with
  | some blocker, some blockee =>
      let blocked (b : Block) : Bool := b.accountId = blocker.id ∧ b.targetAccountId = blockee.id
      let undone := { s with db := { s.db with blocks := s.db.blocks.deleteWhere blocked } }
      if s.db.blocks.rows.any blocked then undone else undone.deleteLater actor uri
  | _, _ => s.deleteLater actor uri

def handleUndo (s : State) (a : Activity) : State :=
  match a.object with
  | .embedded o =>
      match o.type with
      | .follow => undoFollow s a.actor (o.id.getD "")
      | .like => undoLike s a.actor (o.id.getD "") (o.object.getD "")
      | .announce => undoAnnounce s a.actor (o.id.getD "")
      | .block => undoBlock s a.actor (o.id.getD "") (o.object.getD "")
      | .other => s
  | _ => s

/-! ### Accept and Reject -/

def isRelayFollow (db : Db) (uri : String) : Bool :=
  db.relays.any (·.followActivityId = some uri)

/-- `relays::answered`, which says whether the Follow was a relay's. -/
def answered (db : Db) (uri : String) (accepted : Bool) : Bool × Db :=
  let state : RelayState := if accepted then .accepted else .rejected
  (isRelayFollow db uri,
    { db with
      relays := db.relays.map fun r =>
        if r.followActivityId = some uri then { r with state := state } else r })

/-- `FollowRequest#authorize!`, of the request the URI finds. -/
def acceptFollow (db : Db) (uri : String) : Db :=
  match db.followRequests.rows.find? (hasUri uri) with
  | none => db
  | some row =>
      { db with
        follows := db.follows.insert ⟨row.accountId, row.targetAccountId, some uri⟩
        followRequests := db.followRequests.deleteWhere (isPair row.accountId row.targetAccountId)
        accountStats := onFollowCreated db.accountStats row.accountId row.targetAccountId }

/-- What `Reject` does to `follow_requests`. -/
def rejectFollow (db : Db) (uri : String) : Db :=
  { db with followRequests := db.followRequests.deleteWhere (hasUri uri) }

def handleAcceptReject (s : State) (accept : Bool) (a : Activity) : State :=
  match a.object.uriOrId with
  | none => s
  | some uri =>
      let relay := answered s.db uri accept
      if relay.1 then { s with db := relay.2 }
      else if accept then { s with db := acceptFollow relay.2 uri }
      else { s with db := rejectFollow relay.2 uri }

/-! ### Block -/

/-- The pair, in either direction. -/
def between (x y : ℕ) (f : Follow) : Bool := isPair x y f || isPair y x f

/-- `on_follow_removed` for each of the rows. -/
def uncountAll (stats : Stats AccountStat) (rows : List Follow) : Stats AccountStat :=
  rows.foldl (fun stats row => onFollowRemoved stats row.accountId row.targetAccountId) stats

/-- The block, and the end of the follows and requests between the two. -/
def recordBlock (db : Db) (blockerId targetId : ℕ) : Db :=
  { db with
    blocks := db.blocks.insert ⟨blockerId, targetId⟩
    follows := db.follows.deleteWhere (between blockerId targetId)
    accountStats := uncountAll db.accountStats (db.follows.rows.filter (between blockerId targetId))
    followRequests := db.followRequests.deleteWhere (between blockerId targetId) }

def handleBlock (i : Instance) (s : State) (a : Activity) : State :=
  if s.deleteArrivedFirst a.actor a.id then s
  else
    match localByUri s.db (a.object.uriOrId.getD "") with
    | none => s
    | some target =>
        match resolveOrFetch i s.db a.actor with
        | none => s
        | some (db, blockerId) => { s with db := recordBlock db blockerId target.id }

/-! ### The dispatcher -/

inductive ActivityType where
  | follow
  | undo
  | accept
  | reject
  | block
  deriving DecidableEq

/-- `process_activity`, of these types. -/
def processActivity (i : Instance) (s : State) (type : ActivityType) (a : Activity) : State :=
  match type with
  | .follow => handleFollow i s a
  | .undo => handleUndo s a
  | .accept => handleAcceptReject s true a
  | .reject => handleAcceptReject s false a
  | .block => handleBlock i s a

end Eunha.InboxRelationships
