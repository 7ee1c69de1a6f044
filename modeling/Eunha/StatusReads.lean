import Eunha.Polls
import Eunha.Quotes
import Eunha.ReplyThreads

/-!
# Reading statuses, and acting on them

The endpoints that show a status or its poll, and those that name one to do something with
it. Each has its own check of who may see it. The queries for the thread of a status take
the first rows before they look at who may see them.
-/
namespace Eunha.StatusReads
open Tables Database ReplyThreads
open StatusLifecycle (fetchStatus)
open Quotes (Quote QuoteState blocked follows)
open Polls (Poll)
open Roles (AppError)

/-! ### The database -/

structure World where
  db : Db
  /-- The rows of `mentions`: a status and an account. -/
  mentions : List (ℕ × ℕ)
  /-- The rows of `mutes` that have not expired. -/
  mutes : List (ℕ × ℕ)
  polls : Polls.Store
  quotes : Table Quote.keys
  /-- `statuses.conversation_id` and `statuses.in_reply_to_account_id`, by the status's id. -/
  conversations : ℕ → Option ℕ
  replyAuthors : ℕ → Option ℕ
  /-- The preview card shown with a status. -/
  cards : ℕ → Option String
  /-- `statuses.account_id` refers to `accounts`. -/
  authors : ∀ s ∈ db.statuses.rows, (db.account s.accountId).isSome

variable (w : World)

def mentioned (statusId accountId : ℕ) : Bool := w.mentions.contains (statusId, accountId)

/-! ### What is shown of a status -/

structure PollView where
  poll : Poll
  expired : Bool
  tallies : List ℕ
  votesCount : ℕ
  votersCount : ℕ
  voted : Option Bool
  ownVotes : Option (List ℤ)
  deriving DecidableEq

def pollFromDb (viewer : Option ℕ) (now : ℤ) (p : Poll) : PollView :=
  let votes := w.polls.pollVotes.filter (·.pollId = p.id)
  let own (id : ℕ) := (votes.filter (·.accountId = id)).map (·.choice)
  { poll := p
    expired := p.expired now
    tallies := (List.range p.options.length).map fun i => votes.countP (·.choice = Roles.asI32 i)
    votesCount := votes.length
    votersCount := ((votes.map (·.accountId)).dedup).length
    voted := viewer.map fun id => id = p.accountId || own id ≠ []
    ownVotes := viewer.map own }

/-- A status, less what it boosts and quotes. -/
structure Shown where
  status : Status
  account : Account
  mentions : List ℕ
  poll : Option PollView
  card : Option String
  deriving DecidableEq

/-- `status_from_db`, with what is fetched by the status's id. -/
def statusFromDb (viewer : Option ℕ) (now : ℤ) (s : Status) (account : Account) : Shown where
  status := s
  account := account
  mentions := (w.mentions.filter (·.1 = s.id)).map (·.2)
  poll := (w.polls.polls.rows.find? (·.statusId = s.id)).map (pollFromDb w viewer now)
  card := w.cards s.id

/-- `fetch_reblog_data` and `batch_reblog_data`: what a boost is of, a boost of a boost
being of the original. -/
def reblogOf (s : Status) : Option Status :=
  (s.reblogOfId.bind w.db.keptStatus).map fun reblog =>
    (reblog.reblogOfId.bind w.db.keptStatus).getD reblog

inductive QuoteFilter where
  | unauthorized
  | blockedDomain
  | blockedAccount
  | mutedAccount
  deriving DecidableEq

/-- `StatusFilter#filter_state_for_quote`, of a viewer who is not the author. -/
def quoteFilter (viewer : Option ℕ) (quoted : Status) (author : Account) : Option QuoteFilter :=
  let blocks (x y : ℕ) := w.db.blocks.rows.any fun b => b.accountId = x ∧ b.targetAccountId = y
  let domainBlocks (x : ℕ) (domain : Option String) :=
    domain.any fun d => w.db.accountDomainBlocks.contains (x, d)
  let domainOf (id : ℕ) := (w.db.account id).bind (·.domain)
  let shown := !author.unavailable &&
    match quoted.visibility with
    | .direct | .limited => viewer.any (mentioned w quoted.id)
    | .priv => viewer.any fun id => follows w.db id author.id || mentioned w quoted.id id
    | _ => !viewer.any fun id => blocks author.id id || domainBlocks author.id (domainOf id)
  if !shown then some .unauthorized
  else if viewer.any fun id => domainBlocks id author.domain then some .blockedDomain
  else if viewer.any fun id => blocks id author.id then some .blockedAccount
  else if viewer.any fun id => w.mutes.contains (id, author.id) then some .mutedAccount
  else none

inductive QuoteView where
  | notAccepted (state : QuoteState)
  | deleted
  | filtered (filter : Option QuoteFilter) (quoted : Option Shown)
  deriving DecidableEq

/-- `batch_quote_data` -/
def quoteData (viewer : Option ℕ) (now : ℤ) (s : Status) : Option QuoteView :=
  (w.quotes.rows.find? fun q => q.statusId = s.id ∧ (q.state = .accepted ∨ q.legacy = false)).map
    fun q =>
      if q.state ≠ .accepted then .notAccepted q.state
      else
        match q.quotedStatusId.bind w.db.keptStatus with
        | none => .deleted
        | some quoted =>
            match w.db.account quoted.accountId with
            | none => .deleted
            | some author =>
                let filter :=
                  if viewer = some author.id then none else quoteFilter w viewer quoted author
                .filtered filter
                  (if filter = some .unauthorized then none
                  else some (statusFromDb w viewer now quoted author))

structure View where
  shown : Shown
  reblog : Option Shown
  quote : Option QuoteView
  deriving DecidableEq

def withReblog (viewer reblogViewer : Option ℕ) (now : ℤ) (s : Status) : Option View :=
  (w.db.account s.accountId).map fun account =>
    { shown := statusFromDb w viewer now s account
      reblog := (reblogOf w s).bind fun reblog =>
        (w.db.account reblog.accountId).map (statusFromDb w reblogViewer now reblog)
      quote := none }

def listed (viewer : Option ℕ) (now : ℤ) (s : Status) : Option View :=
  withReblog w viewer viewer now s

/-- `build_status_with_app`, which reads the poll of what is boosted for no viewer. -/
def buildStatus (viewer : Option ℕ) (now : ℤ) (s : Status) : Option View :=
  (withReblog w viewer none now s).map fun view => { view with quote := quoteData w viewer now s }

/-! ### Who may see it -/

def checkStatusVisible (s : Status) (viewerId : ℕ) : Bool :=
  match s.visibility with
  | .priv =>
      s.accountId = viewerId || follows w.db viewerId s.accountId || mentioned w s.id viewerId
  | .direct => s.accountId = viewerId || mentioned w s.id viewerId
  | _ => true

/-- As `get_status` and the lists have it: without a viewer nothing private or direct. -/
def visibleTo (viewer : Option ℕ) (s : Status) : Bool :=
  match viewer with
  | some id => checkStatusVisible w s id
  | none => s.visibility ≠ .priv ∧ s.visibility ≠ .direct

/-- As `get_status_context` and `get_status_card` have it: without a viewer public and
unlisted statuses only. -/
def distributableTo (viewer : Option ℕ) (s : Status) : Bool :=
  match viewer with
  | some id => checkStatusVisible w s id
  | none => s.visibility.distributable

def blockedFrom (viewer : Option ℕ) (s : Status) : Bool :=
  viewer.any fun id => id ≠ s.accountId && blocked w.db id s.accountId

/-! ### The endpoints -/

inductive ReadError where
  | app (e : AppError)
  | unauthorized
  | gone (message : String)
  deriving DecidableEq

def notFound : ReadError := .app .notFound

inductive Answer where
  | error (e : ReadError)
  | status (view : View)
  | statuses (views : List View)
  | context (ancestors descendants : List View)
  | card (card : Option String)
  | accounts (ids : List ℕ)
  | poll (view : PollView)
  /-- The post is made, in reply to a status of this account. -/
  | replied (parentAccountId : ℕ)
  deriving DecidableEq

def Answer.ofView : Option View → Answer
  | some view => .status view
  | none => .error (.app .internal)

def getStatus (viewer : Option ℕ) (now : ℤ) (id : ℕ) : Answer :=
  match w.db.statuses.rows.find? (·.id = id) with
  | none => .error notFound
  | some row =>
      if row.deleted then .error (.gone "Status has been deleted")
      else
        match fetchStatus w.db id with
        | none => .error notFound
        | some status =>
            if blockedFrom w viewer status then .error notFound
            else if !visibleTo w viewer status then .error notFound
            else .ofView (buildStatus w viewer now status)

/-- `get_statuses_batch`, in the order asked for. -/
def getStatusesBatch (viewer : Option ℕ) (now : ℤ) (ids : List ℕ) : Answer :=
  if 20 < ids.length then .error (.app (.unprocessable "Too many IDs requested"))
  else
    .statuses <| ids.dedup.filterMap fun id =>
      ((w.db.keptStatus id).filter fun s => !blockedFrom w viewer s && visibleTo w viewer s).bind
        (listed w viewer now)

def replies (rows : List Status) (id : ℕ) : List Status :=
  rows.filter fun s => s.inReplyToId = some id ∧ s.deleted = false

/-- `reply_tree`: the paths down to the replies, no deeper than the limit and through no
status twice. -/
def replyTree (rows : List Status) : ℕ → List ℕ → ℕ → List (List ℕ)
  | 0, _, _ => []
  | depth + 1, path, id =>
      ((replies rows id).filter (·.id ∉ path)).flatMap fun s =>
        (path ++ [s.id]) :: replyTree rows depth (path ++ [s.id]) s.id

/-- The paths, in order. -/
def sortedTree (db : Db) (id depth : ℕ) : List (List ℕ) :=
  (replyTree db.statuses.rows depth [] id).mergeSort fun p q =>
    decide (@LE.le (List ℕ) List.instLE p q)

def endOf (db : Db) (path : List ℕ) : Option Status := path.getLast?.bind db.keptStatus

/-- The descendants `get_status_context` reads. -/
def descendants (db : Db) (id limit depth : ℕ) : List Status :=
  ((sortedTree db id depth).take limit).filterMap (endOf db)

/-- Replies of an author to themselves come first. -/
def promote (rows : List Status) : List Status :=
  let toSelf (s : Status) : Bool := w.replyAuthors s.id = some s.accountId
  rows.filter toSelf ++ rows.filter fun s => !toSelf s

def inThread (viewer : Option ℕ) (s : Status) : Bool :=
  !blockedFrom w viewer s && visibleTo w viewer s

structure Limits where
  ancestors : ℕ
  descendants : ℕ
  depth : ℕ

def threadLimits (viewer : Option ℕ) : Limits :=
  if viewer.isSome then ⟨4096, 4096, 4096⟩ else ⟨40, 60, 20⟩

/-- `get_status_context`, unless the query of the ancestors has more levels than fuel. -/
def getStatusContext (viewer : Option ℕ) (now : ℤ) (id fuel : ℕ) : Option Answer :=
  match w.db.keptStatus id with
  | none => some (.error notFound)
  | some root =>
      if !distributableTo w viewer root then some (.error notFound)
      else
        let limits := threadLimits viewer
        (ancestors w.db id limits.ancestors fuel).map fun above =>
          let below := descendants w.db id limits.descendants limits.depth
          .context ((above.filter (inThread w viewer)).filterMap (listed w viewer now))
            ((promote w (below.filter (inThread w viewer))).filterMap (listed w viewer now))

def getStatusCard (viewer : Option ℕ) (id : ℕ) : Answer :=
  match w.db.keptStatus id with
  | none => .error notFound
  | some status =>
      if !distributableTo w viewer status then .error notFound else .card (w.cards id)

def accountShown (viewer : Option ℕ) (accountId : ℕ) : Bool :=
  (w.db.account accountId).any fun a =>
    !a.unavailable && !viewer.any fun id =>
      blocked w.db id accountId || w.mutes.contains (id, accountId)

/-- `favourited_by`, of the page asked for. -/
def favouritedBy (viewer : Option ℕ) (id : ℕ) (page : List ℕ → List ℕ) : Answer :=
  match fetchStatus w.db id with
  | none => .error notFound
  | some status =>
      if !visibleTo w viewer status then .error notFound
      else
        let rows := w.db.favourites.rows.filter fun f =>
          f.statusId = id && accountShown w viewer f.accountId
        .accounts (page (rows.reverse.map (·.accountId)))

/-- `reblogged_by`, of the page asked for. -/
def rebloggedBy (viewer : Option ℕ) (id : ℕ) (page : List ℕ → List ℕ) : Answer :=
  match fetchStatus w.db id with
  | none => .error notFound
  | some status =>
      if !visibleTo w viewer status then .error notFound
      else
        let rows := w.db.statuses.rows.filter fun s =>
          s.reblogOfId = some id && !s.deleted && s.visibility.distributable &&
            accountShown w viewer s.accountId
        .accounts (page ((rows.mergeSort (·.id ≥ ·.id)).map (·.accountId)))

def findPoll (id : ℕ) : Option Poll := w.polls.polls.rows.find? (·.id = id)

def getPoll (viewer : Option ℕ) (now : ℤ) (id : ℕ) : Answer :=
  match findPoll w id with
  | none => .error notFound
  | some poll => .poll (pollFromDb w viewer now poll)

def runVote : ℕ → Polls.Store → Polls.Next → Except AppError Polls.Store
  | _, _, .error e => .error e
  | _, s, .done => .ok s
  | 0, s, .go _ => .ok s
  | fuel + 1, s, .go c => runVote fuel (Polls.exec s c).1 (Polls.exec s c).2

/-- `vote_poll`: two checks, an insert for each choice, and the two counts. -/
def votePoll (viewer : Option ℕ) (now : ℤ) (id : ℕ) (choices : List ℤ) : Answer :=
  match viewer with
  | none => .error .unauthorized
  | some accountId =>
      let vote := Polls.votePoll w.polls id accountId choices now
      match runVote (choices.length + 4) w.polls vote with
      | .error e => .error (.app e)
      | .ok polls => getPoll { w with polls := polls } viewer now id

/-- `post_status`, as far as the status it replies to. -/
def replyTo (viewer : Option ℕ) (id : ℕ) : Answer :=
  match viewer with
  | none => .error .unauthorized
  | some _ =>
      match w.db.keptStatus id with
      | none => .error (.app (.unprocessable "in_reply_to_id does not exist"))
      | some parent => .replied parent.accountId

def muteStatus (viewer : Option ℕ) (now : ℤ) (id : ℕ) : Answer :=
  match viewer with
  | none => .error .unauthorized
  | some _ =>
      match fetchStatus w.db id with
      | none => .error notFound
      | some status =>
          if (w.conversations status.id).isNone then .error notFound
          else .ofView (buildStatus w viewer now status)

inductive Request where
  | getStatus (id : ℕ)
  | getStatusesBatch (ids : List ℕ)
  | getStatusContext (id : ℕ)
  | getStatusCard (id : ℕ)
  | favouritedBy (id : ℕ) (page : List ℕ → List ℕ)
  | rebloggedBy (id : ℕ) (page : List ℕ → List ℕ)
  | getPoll (id : ℕ)
  | votePoll (id : ℕ) (choices : List ℤ)
  | replyTo (id : ℕ)
  | muteStatus (id : ℕ)

def answer (viewer : Option ℕ) (now : ℤ) (fuel : ℕ) : Request → Option Answer
  | .getStatus id => some (getStatus w viewer now id)
  | .getStatusesBatch ids => some (getStatusesBatch w viewer now ids)
  | .getStatusContext id => getStatusContext w viewer now id fuel
  | .getStatusCard id => some (getStatusCard w viewer id)
  | .favouritedBy id page => some (favouritedBy w viewer id page)
  | .rebloggedBy id page => some (rebloggedBy w viewer id page)
  | .getPoll id => some (getPoll w viewer now id)
  | .votePoll id choices => some (votePoll w viewer now id choices)
  | .replyTo id => some (replyTo w viewer id)
  | .muteStatus id => some (muteStatus w viewer now id)

def Answers (viewer : Option ℕ) (now : ℤ) (r : Request) (a : Answer) : Prop :=
  ∃ fuel, answer w viewer now fuel r = some a

end Eunha.StatusReads
