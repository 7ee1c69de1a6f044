import Eunha.InboxRelationships

/-!
# Posts and boosts, from the API and from the inbox

What puts a row of `statuses` there and what takes it away, each with the counters it
moves. A post that a handler fetches on its way is the `Create` that comes before it. What
`check_status_visible` answers, and whether an activity concerns anyone here, is given.
-/
namespace Eunha.StatusLifecycle
open Tables Database Statuses InboxRelationships

structure Policy where
  checkStatusVisible : Db → Status → ℕ → Bool

/-- `fetch_status_with_account`: a kept status of an account that is available. -/
def fetchStatus (db : Db) (id : ℕ) : Option Status :=
  (db.keptStatus id).filter fun s => (db.account s.accountId).any fun a => !a.unavailable

/-! ### The API -/

structure Post where
  id : ℕ
  uri : String
  visibility : Visibility
  inReplyToId : Option ℕ

def postVisibility (account : Account) (v : Visibility) : Visibility :=
  if v = .pub ∧ account.silenced then .unlisted else v

def insertCounted (db : Db) (row : Status) : Db :=
  onStatusCreated { db with statuses := db.statuses.insert row } row.accountId row.visibility
    row.inReplyToId

def postStatus (db : Db) (account : Account) (p : Post) : Db :=
  let row : Status :=
    { id := p.id
      accountId := account.id
      uri := some p.uri
      visibility := postVisibility account p.visibility
      inReplyToId := p.inReplyToId
      reblogOfId := none
      deleted := false }
  if p.inReplyToId.any fun parent => (db.keptStatus parent).isNone then db
  else if db.statuses.Taken row then db
  else insertCounted db row

/-- `status_stats.reblogs_count` plus one, the row made if there is none. -/
def bumpReblogs (db : Db) (originalId : ℕ) : Db :=
  let bump (a : StatusStat) := { a with reblogsCount := a.reblogsCount + 1 }
  { db with statusStats := upsertStat .zero bump db.statusStats originalId }

/-- `status_stats.reblogs_count` minus one, never below zero. -/
def dropReblogs (db : Db) (originalId : ℕ) : Db :=
  let drop (a : StatusStat) := { a with reblogsCount := max (a.reblogsCount - 1) 0 }
  { db with statusStats := updateStat drop db.statusStats originalId }

def boostVisibility (original : Status) (requested : Visibility) : Visibility :=
  match original.visibility with
  | .priv | .direct | .limited => original.visibility
  | _ => requested

def isBoostBy (accountId originalId : ℕ) (s : Status) : Bool :=
  s.accountId = accountId ∧ s.reblogOfId = some originalId ∧ s.deleted = false

def boostRow (id accountId : ℕ) (uri : Option String) (v : Visibility) (originalId : ℕ) :
    Status where
  id := id
  accountId := accountId
  uri := uri
  visibility := v
  inReplyToId := none
  reblogOfId := some originalId
  deleted := false

/-- `reblog_status`, with the visibility asked for or defaulted to. -/
def reblogStatus (p : Policy) (db : Db) (accountId statusId boostId : ℕ) (requested : Visibility) :
    Db :=
  match fetchStatus db statusId with
  | none => db
  | some fetched =>
      match fetchStatus db (fetched.reblogOfId.getD statusId) with
      | none => db
      | some original =>
          let row :=
            boostRow boostId accountId none (boostVisibility original requested) original.id
          if !p.checkStatusVisible db original accountId then db
          else if original.visibility = .direct ∨
              (original.visibility = .priv ∧ original.accountId ≠ accountId) then db
          else if db.statuses.rows.any (isBoostBy accountId original.id) then db
          else if db.statuses.Taken row then db
          else
            let db := { db with statuses := db.statuses.insert row }
            onStatusCreated (bumpReblogs db original.id) accountId row.visibility none

/-- `unreblog_status`: of the rows removed, the first is uncounted, whatever its
visibility. -/
def unreblogStatus (p : Policy) (db : Db) (accountId statusId : ℕ) : Db :=
  match fetchStatus db statusId with
  | none => db
  | some status =>
      let originalId := status.reblogOfId.getD statusId
      if !p.checkStatusVisible db status accountId then db
      else
        match db.statuses.rows.find? (isBoostBy accountId originalId) with
        | none => db
        | some _ =>
            let uncount (a : AccountStat) := { a with statusesCount := max (a.statusesCount - 1) 0 }
            let db := dropReblogs (deleteStatuses db (isBoostBy accountId originalId)) originalId
            { db with accountStats := updateStat uncount db.accountStats accountId }

/-- `on_status_deleted` for each of the boosts. -/
def uncountBoosts (db : Db) (boosts : List Status) : Db :=
  boosts.foldl (fun db boost => onStatusDeleted db boost.accountId boost.visibility none) db

/-- `remove_status`, of the rows and the counters: the boosts are discarded with it. -/
def removeStatus (db : Db) (status : Status) : Db :=
  let boosts := db.statuses.rows.filter (isKeptBoostOf status.id)
  let db := uncountBoosts (discardStatuses db (isKeptBoostOf status.id)) boosts
  let db := discardStatuses db (·.id = status.id)
  let db := onStatusDeleted db status.accountId status.visibility status.inReplyToId
  match status.reblogOfId with
  | some originalId => dropReblogs db originalId
  | none => db

/-- `delete_status`: one's own. -/
def deleteStatus (db : Db) (accountId statusId : ℕ) : Db :=
  match fetchStatus db statusId with
  | none => db
  | some status => if status.accountId ≠ accountId then db else removeStatus db status

/-! ### The inbox -/

/-- The database and the Undos remembered, and the URIs that are not to be created again. -/
structure Server extends State where
  tombstones : List String

def Server.withDb (s : Server) (db : Db) : Server := { s with db := db }

structure Create where
  actor : String
  uri : String
  id : ℕ
  visibility : Visibility
  inReplyTo : Option String
  /-- It concerns someone here, and is no vote in a poll. -/
  accepted : Bool
  /-- Its server reports counts of its own, which have columns of their own. -/
  reportsCounts : Bool

/-- `create`, from the lock on. -/
def create (i : Instance) (s : Server) (c : Create) : Server :=
  if s.deleteArrivedFirst c.actor c.uri then s
  else if s.tombstones.contains c.uri then s
  else
    match resolveOrFetch i s.db c.actor with
    | none => s
    | some (db, accountId) =>
        let row : Status :=
          { id := c.id
            accountId := accountId
            uri := some c.uri
            visibility := c.visibility
            inReplyToId := (c.inReplyTo.bind db.statusByUri).map (·.id)
            reblogOfId := none
            deleted := false }
        if !c.accepted then s.withDb db
        else if db.statuses.Taken row then s.withDb db
        else
          let db := insertCounted db row
          s.withDb <|
            if c.reportsCounts then
              { db with statusStats := upsertStat .zero id db.statusStats c.id }
            else db

/-- `UPDATE statuses SET in_reply_to_id = … WHERE id = … AND in_reply_to_id IS NULL` -/
def link (childId parentId : ℕ) (s : Status) : Status :=
  if s.id = childId ∧ s.inReplyToId = none then { s with inReplyToId := some parentId } else s

theorem keys_link (childId parentId : ℕ) (s : Status) :
    (link childId parentId s).keys = s.keys := by
  rw [link]
  split <;> rfl

/-- `ThreadResolveWorker`: a parent learned about later is linked, and not counted. -/
def threadResolve (db : Db) (childId : ℕ) (parentUrl : String) : Db :=
  match db.statusByUri parentUrl with
  | none => db
  | some parent =>
      { db with
        statuses := db.statuses.update (link childId parent.id) (keys_link childId parent.id) }

structure Announce where
  actor : String
  uri : String
  id : ℕ
  visibility : Visibility
  boosted : String
  /-- What fetching the boosted post found, when it was not kept here. -/
  fetched : Option ℕ
  /-- The booster is followed here, or a relay, or the post is ours. -/
  related : Bool
  throughRelay : Bool

/-- `INSERT INTO status_stats … VALUES (…, 1) ON CONFLICT DO UPDATE`, of the number of kept
boosts. -/
def upsertReblogs (db : Db) (originalId : ℕ) : Db :=
  let boosts : ℤ := db.statuses.count (isKeptBoostOf originalId)
  { db with
    statusStats := Function.update db.statusStats originalId <|
      match db.statusStats originalId with
      | none => some { StatusStat.zero with reblogsCount := 1 }
      | some a => some { a with reblogsCount := boosts } }

def recordBoost (db : Db) (row : Status) (originalId : ℕ) : Db :=
  if db.statuses.rows.any (·.id = row.id) then db
  else upsertReblogs (if db.statuses.Taken row then db else insertCounted db row) originalId

/-- A boost that is kept stands for what it boosts. -/
def originalOf (found : Status) : ℕ :=
  if found.deleted then found.id else found.reblogOfId.getD found.id

def announceable (boosterId : ℕ) (found : Status) : Bool :=
  found.accountId = boosterId || found.visibility.distributable

/-- `handle_announce`, of the status found for its object. -/
def announceOf (db : Db) (boosterId : ℕ) (a : Announce) (found : Status) : Db :=
  if !announceable boosterId found then db
  else if a.throughRelay then db
  else if db.statuses.rows.any (isBoostBy boosterId (originalOf found)) then db
  else
    recordBoost db (boostRow a.id boosterId (some a.uri) a.visibility (originalOf found))
      (originalOf found)

/-- `SELECT … FROM statuses WHERE uri = … AND deleted_at IS NULL` -/
def keptByUri (db : Db) (uri : String) : Option Status :=
  db.statuses.rows.find? fun s => s.uri = some uri ∧ s.deleted = false

/-- The status an `Announce` is of: one kept under the URI, or the one fetched. -/
def boostedStatus (db : Db) (a : Announce) : Option Status :=
  (keptByUri db a.boosted).or (a.fetched.bind fun id => db.statuses.rows.find? (·.id = id))

/-- `handle_announce` -/
def announce (i : Instance) (s : Server) (a : Announce) : Server :=
  if s.deleteArrivedFirst a.actor a.uri then s
  else if a.actor = "" ∨ a.uri = "" then s
  else
    match resolveOrFetch i s.db a.actor with
    | none => s
    | some (db, boosterId) =>
        if !a.related then s.withDb db
        else
          match boostedStatus db a with
          | none => s.withDb db
          | some found => s.withDb (announceOf db boosterId a found)

/-- What a `Delete` does to the rows and the counters. -/
def discardByUri (db : Db) (uri : String) : Db :=
  let discarded := discardStatuses db (·.uri = some uri)
  match keptByUri db uri with
  | some row => onStatusDeleted discarded row.accountId row.visibility row.inReplyToId
  | none => discarded

/-- `handle_delete`, of a status, from an actor of its host. -/
def handleDelete (s : Server) (actor uri : String) : Server :=
  let known := (s.db.statusByUri uri).isSome
  let s := s.withDb (discardByUri s.db uri)
  let s : Server := if known then s else { s with toState := s.toState.deleteLater actor uri }
  if (s.db.accountByUri actor).isSome ∧ uri ∉ s.tombstones then
    { s with tombstones := uri :: s.tombstones }
  else s

def removeRemoteStatus (db : Db) (statusId : ℕ) : Db :=
  match db.keptStatus statusId with
  | none => db
  | some row =>
      onStatusDeleted (discardStatuses db fun s => s.id = statusId ∧ s.deleted = false)
        row.accountId row.visibility row.inReplyToId

/-! ### Steps -/

inductive Op where
  | post (accountId : ℕ) (p : Post)
  | reblog (accountId statusId boostId : ℕ) (requested : Visibility)
  | unreblog (accountId statusId : ℕ)
  | delete (accountId statusId : ℕ)
  | create (c : Create)
  | threadResolve (childId : ℕ) (parentUrl : String)
  | announce (a : Announce)
  | inboundDelete (actor uri : String)
  | undoAnnounce (actor uri : String)

def step (i : Instance) (p : Policy) (s : Server) : Op → Server
  | .post accountId post =>
      match s.db.account accountId with
      | none => s
      | some account => s.withDb (postStatus s.db account post)
  | .reblog accountId statusId boostId requested =>
      s.withDb (reblogStatus p s.db accountId statusId boostId requested)
  | .unreblog accountId statusId => s.withDb (unreblogStatus p s.db accountId statusId)
  | .delete accountId statusId => s.withDb (deleteStatus s.db accountId statusId)
  | .create c => create i s c
  | .threadResolve childId parentUrl => s.withDb (threadResolve s.db childId parentUrl)
  | .announce a => announce i s a
  | .inboundDelete actor uri => handleDelete s actor uri
  | .undoAnnounce actor uri => { s with toState := undoAnnounce s.toState actor uri }

end Eunha.StatusLifecycle
