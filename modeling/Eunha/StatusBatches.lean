import Eunha.BatchReads
import Eunha.StatusReads

/-!
# One status, and several at once

`get_status` reads one status with a query for each part of it, and `get_statuses_batch`
reads several with a query for each part of all of them. Each asks by itself who may see a
status, and each builds what it shows by itself. Looked up by one id, what the batch reads is
what the single query reads; the batch asks less of the author, and fills in less.
-/
namespace Eunha.StatusBatches
open Tables Database BatchReads
open StatusReads (PollView Shown QuoteView ReadError notFound blockedFrom visibleTo quoteData)
open Polls (Poll Vote)

/-! ### The database -/

structure Application where
  name : String
  website : Option String
  deriving DecidableEq

structure AccountRole where
  id : ℤ
  name : String
  color : String
  deriving DecidableEq

/-- A user: whether the setting shows the applications, and the role if it is highlighted. -/
structure User where
  accountId : ℕ
  showApplication : Bool
  role : Option AccountRole

structure World extends StatusReads.World where
  /-- The spoiler and the text of a status. -/
  texts : ℕ → String
  /-- `emojifiable_text` of an account. -/
  bios : ℕ → String
  /-- The emojis of a domain that a text uses. -/
  emojisOf : Option String → String → List String
  /-- The rows of `media_attachments` in order of their ids: a status, and the file. -/
  media : List (ℕ × String)
  /-- `statuses_tags` with the names of the tags, in their order. -/
  tags : List (ℕ × String)
  /-- Pairs of an account and a status. -/
  bookmarks : List (ℕ × ℕ)
  pins : List (ℕ × ℕ)
  /-- Pairs of an account and a conversation. -/
  conversationMutes : List (ℕ × ℕ)
  users : List User
  /-- The application a status was posted with. -/
  applications : ℕ → Option Application

structure ViewerContext where
  accountId : ℕ
  followsAuthor : Bool
  authorFollows : Bool
  favourited : Bool
  reblogged : Bool
  muted : Bool
  bookmarked : Bool
  pinned : Bool
  deriving DecidableEq

/-- A status as it is shown, less what it boosts and quotes. -/
structure Entry extends Shown where
  accountEmojis : List String
  accountRoles : List AccountRole
  media : List String
  tags : List String
  emojis : List String
  context : Option ViewerContext
  application : Option Application
  deriving DecidableEq

structure View where
  entry : Entry
  reblog : Option Entry
  quote : Option QuoteView
  deriving DecidableEq

variable (w : World)

/-! ### What is read for several statuses -/

def batchValues (rows : List (ℕ × String)) (ids : List ℕ) (id : ℕ) : List String :=
  ((readAny Prod.fst ids rows).filter (·.1 = id)).map Prod.snd

def batchStatusMentions (ids : List ℕ) (id : ℕ) : List ℕ :=
  ((readAny Prod.fst ids w.mentions).filter (·.1 = id)).map Prod.snd

/-- `batch_status_emojis`, of the domain of the author. -/
def batchStatusEmojis (statuses : List Status) (id : ℕ) : List String :=
  let accounts := readAny (·.id) (statuses.map (·.accountId)) w.db.accounts.rows
  match statuses.find? (·.id = id) with
  | none => []
  | some s =>
      w.emojisOf ((accounts.find? (·.id = s.accountId)).bind (·.domain)) (w.texts s.id)

def pollOf (votes : List Vote) (viewer : Option ℕ) (now : ℤ) (p : Poll) : PollView :=
  let votes := votes.filter (·.pollId = p.id)
  let own (id : ℕ) := (votes.filter (·.accountId = id)).map (·.choice)
  { poll := p
    expired := p.expired now
    tallies := (List.range p.options.length).map fun i => votes.countP (·.choice = Roles.asI32 i)
    votesCount := votes.length
    votersCount := ((votes.map (·.accountId)).dedup).length
    voted := viewer.map fun id => id = p.accountId || own id ≠ []
    ownVotes := viewer.map own }

/-- `batch_status_polls`: of two polls of one status the map keeps the one read last. -/
def batchStatusPolls (ids : List ℕ) (viewer : Option ℕ) (now : ℤ) (id : ℕ) : Option PollView :=
  let rows := readAny (·.statusId) ids w.polls.polls.rows
  let votes := readAny (·.pollId) (rows.map (·.id)) w.polls.pollVotes
  ((rows.filter (·.statusId = id)).getLast?).map (pollOf votes viewer now)

def batchViewerContexts (viewerId : ℕ) (ids : List ℕ) (id : ℕ) : ViewerContext :=
  let favourites := readAny (·.statusId) ids (w.db.favourites.rows.filter (·.accountId = viewerId))
  let reblogs := readAny (·.reblogOfId) (ids.map some)
    (w.db.statuses.rows.filter fun s => s.accountId = viewerId ∧ s.deleted = false)
  let bookmarks := readAny Prod.snd ids (w.bookmarks.filter (·.1 = viewerId))
  let statuses := readAny (·.id) ids w.db.statuses.rows
  let mutes := statuses.filter fun s =>
    (w.conversations s.id).any fun c => w.conversationMutes.contains (viewerId, c)
  let pins := readAny Prod.snd ids (w.pins.filter (·.1 = viewerId))
  -- a boost answers for the author of what it boosts
  let author (s : Status) : ℕ :=
    ((s.reblogOfId.bind fun o => w.db.statuses.rows.find? (·.id = o)).map (·.accountId)).getD
      s.accountId
  let authors := statuses.map author
  let authorId := ((statuses.find? (·.id = id)).map author).getD 0
  let followed := readAny (·.targetAccountId) authors
    (w.db.follows.rows.filter (·.accountId = viewerId))
  let following := readAny (·.accountId) authors
    (w.db.follows.rows.filter (·.targetAccountId = viewerId))
  { accountId := viewerId
    followsAuthor := followed.any (·.targetAccountId = authorId)
    authorFollows := following.any (·.accountId = authorId)
    favourited := favourites.any (·.statusId = id)
    reblogged := reblogs.any (·.reblogOfId = some id)
    muted := mutes.any (·.id = id)
    bookmarked := bookmarks.any (·.2 = id)
    pinned := pins.any (·.2 = id) }

/-- A boost of a boost is of the original. -/
def resolved (nested : List Status) (r : Status) : Status :=
  (r.reblogOfId.bind fun id => nested.find? (·.id = id)).getD r

def batchReblogData (statuses : List Status) (s : Status) : Option (Status × Account) :=
  let kept := w.db.statuses.rows.filter fun r => r.deleted = false
  let reblogs := readAny (·.id) (statuses.filterMap (·.reblogOfId)) kept
  let nested := readAny (·.id) (reblogs.filterMap (·.reblogOfId)) kept
  let accounts := readAny (·.id) ((reblogs.map (resolved nested)).map (·.accountId))
    w.db.accounts.rows
  (s.reblogOfId.bind fun id => reblogs.find? (·.id = id)).bind fun r =>
    (accounts.find? (·.id = (resolved nested r).accountId)).map fun a => (resolved nested r, a)

/-! ### What is read for one -/

def fetchStatusEmojis (s : Status) : List String := batchStatusEmojis w [s] s.id

def fetchAccountEmojis (a : Account) : List String := w.emojisOf a.domain (w.bios a.id)

def fetchAccountRoles (accountId : ℕ) : List AccountRole :=
  ((w.users.filter (·.accountId = accountId)).filterMap (·.role)).head?.toList

/-- `fetch_status_applications`, of one status. -/
def fetchStatusApplication (viewer : Option ℕ) (s : Status) : Option Application :=
  (w.applications s.id).filter fun _ =>
    viewer = some s.accountId ∨
      (w.users.any fun u => u.accountId = s.accountId && u.showApplication) = true

def fetchReblogData (s : Status) : Option (Status × Account) :=
  (StatusReads.reblogOf w.toWorld s).bind fun r => (w.db.account r.accountId).map fun a => (r, a)

def buildViewerContext (viewerId id : ℕ) : ViewerContext := batchViewerContexts w viewerId [id] id

/-- What `build_status_with_app` fills in of a status, or of what one boosts. -/
def filledIn (viewer pollViewer : Option ℕ) (now : ℤ) (context : Option ViewerContext) (s : Status)
    (account : Account) : Entry :=
  { StatusReads.statusFromDb w.toWorld pollViewer now s account with
    accountEmojis := fetchAccountEmojis w account
    accountRoles := fetchAccountRoles w account.id
    media := batchValues w.media [s.id] s.id
    tags := batchValues w.tags [s.id] s.id
    emojis := fetchStatusEmojis w s
    context := context
    application := fetchStatusApplication w viewer s }

/-- `build_status_with_app`: the poll of what is boosted is read for no viewer. -/
def buildStatus (viewer : Option ℕ) (now : ℤ) (s : Status) (account : Account) : View :=
  let context := viewer.map fun id => buildViewerContext w id s.id
  { entry := filledIn w viewer viewer now context s account
    reblog := (fetchReblogData w s).map fun reblog =>
      filledIn w viewer none now context reblog.1 reblog.2
    quote := quoteData w.toWorld viewer now s }

def fetchStatusWithAccount (id : ℕ) : Option (Status × Account) :=
  (w.db.keptStatus id).bind fun s =>
    ((w.db.account s.accountId).filter (!·.unavailable)).map fun a => (s, a)

def getStatus (viewer : Option ℕ) (now : ℤ) (id : ℕ) : Except ReadError View :=
  match w.db.statuses.rows.find? (·.id = id) with
  | none => .error notFound
  | some row =>
      if row.deleted then .error (.gone "Status has been deleted")
      else
        match fetchStatusWithAccount w id with
        | none => .error notFound
        | some (status, account) =>
            if blockedFrom w.toWorld viewer status then .error notFound
            else if !visibleTo w.toWorld viewer status then .error notFound
            else .ok (buildStatus w viewer now status account)

/-! ### Several -/

def blockedAccountIds (viewer : Option ℕ) (statuses : List Status) : List ℕ :=
  match viewer with
  | none => []
  | some id =>
      let others := (statuses.filter (·.accountId ≠ id)).map (·.accountId)
      (readAny (·.targetAccountId) others (w.db.blocks.rows.filter (·.accountId = id))).map
          (·.targetAccountId) ++
        (readAny (·.accountId) others (w.db.blocks.rows.filter (·.targetAccountId = id))).map
          (·.accountId)

def followedIds (viewer : Option ℕ) (statuses : List Status) : List ℕ :=
  match viewer with
  | none => []
  | some id =>
      let authors := (statuses.filter fun s => s.visibility = .priv ∧ s.accountId ≠ id).map
        (·.accountId)
      (readAny (·.targetAccountId) authors (w.db.follows.rows.filter (·.accountId = id))).map
        (·.targetAccountId)

def mentionedStatusIds (viewer : Option ℕ) (statuses : List Status) : List ℕ :=
  match viewer with
  | none => []
  | some id =>
      let checked := (statuses.filter fun s =>
        (s.visibility = .priv ∨ s.visibility = .direct) ∧ s.accountId ≠ id).map (·.id)
      (readAny Prod.fst checked (w.mentions.filter (·.2 = id))).map Prod.fst

def batchVisible (viewer : Option ℕ) (statuses : List Status) (s : Status) : Bool :=
  if viewer ≠ some s.accountId ∧ s.accountId ∈ blockedAccountIds w viewer statuses then false
  else
    match s.visibility with
    | .priv =>
        viewer = some s.accountId ∨ s.accountId ∈ followedIds w viewer statuses ∨
          s.id ∈ mentionedStatusIds w viewer statuses
    | .direct => viewer = some s.accountId ∨ s.id ∈ mentionedStatusIds w viewer statuses
    | _ => true

/-- `status_from_db` with what the maps hold, of a status or of what one boosts. The emojis and
roles of the account and the application are left as they are made. -/
def batchEntry (viewer : Option ℕ) (now : ℤ) (ids : List ℕ) (shown : List Status)
    (context : Option ViewerContext) (s : Status) (account : Account) : Entry where
  status := s
  account := account
  mentions := batchStatusMentions w ids s.id
  poll := batchStatusPolls w ids viewer now s.id
  card := w.cards s.id
  accountEmojis := []
  accountRoles := []
  media := batchValues w.media ids s.id
  tags := batchValues w.tags ids s.id
  emojis := batchStatusEmojis w shown s.id
  context := context
  application := none

def batchView (viewer : Option ℕ) (now : ℤ) (visible : List Status) (s : Status) : Option View :=
  let reblogs := visible.filterMap fun v => (batchReblogData w visible v).map (·.1)
  let shown := visible ++ reblogs
  let ids := shown.map (·.id)
  let accounts := readAny (·.id) (visible.map (·.accountId)) w.db.accounts.rows
  (accounts.find? (·.id = s.accountId)).map fun account =>
    let context := viewer.map fun id => batchViewerContexts w id (visible.map (·.id)) s.id
    { entry := batchEntry w viewer now ids shown context s account
      reblog := (batchReblogData w visible s).map fun reblog =>
        batchEntry w viewer now ids shown context reblog.1 reblog.2
      quote := none }

def getStatusesBatch (viewer : Option ℕ) (now : ℤ) (ids : List ℕ) :
    Except ReadError (List View) :=
  if 20 < ids.length then .error (.app (.unprocessable "Too many IDs requested"))
  else
    let statuses := readAny (·.id) ids (w.db.statuses.rows.filter fun s => s.deleted = false)
    let visible := statuses.filter (batchVisible w viewer statuses)
    .ok (inOrder (2 ^ 64 - 1) ids (·.id) (batchView w viewer now visible) visible)

end Eunha.StatusBatches
