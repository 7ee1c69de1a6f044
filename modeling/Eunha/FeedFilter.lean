import Eunha.Maps
import Mathlib.Data.Finset.Union

/-!
# What filters a status from a feed

`filterFromHome` reads facts about the receiver and the accounts of a status that
were gathered beforehand, its crutches. Two functions gather them: `build`, for
one receiver and the statuses a feed is filled with, and `crutchesFor`, for one
status and all the receivers it is fanned out to. The fan-out to lists rewrites
what `crutchesFor` gathered for a list's owner.

A table is the list of its rows, and a query the rows it selects in table order;
a query with a join keeps what its `WHERE` says of the joined rows. Ids are
`bigint`s. A query that fails gives no crutches; here every query succeeds.
-/
namespace Eunha.FeedFilter
open Maps

/-! ### Tables -/

structure Follow where
  accountId : ℤ
  targetAccountId : ℤ
  showReblogs : Bool
  notify : Bool
  languages : Option (List String)

structure Block where
  accountId : ℤ
  targetAccountId : ℤ

structure Mute where
  accountId : ℤ
  targetAccountId : ℤ

structure AccountDomainBlock where
  accountId : ℤ
  domain : String

structure Mention where
  statusId : ℤ
  accountId : ℤ
  silent : Bool

structure FeedList where
  id : ℤ
  accountId : ℤ
  repliesPolicy : ℤ
  exclusive : Bool

structure ListAccount where
  listId : ℤ
  accountId : ℤ
  followId : Option ℤ

/-- A user's sign-in time, in seconds. -/
structure User where
  accountId : ℤ
  currentSignInAt : Option ℤ

structure Database where
  follows : List Follow
  blocks : List Block
  mutes : List Mute
  accountDomainBlocks : List AccountDomainBlock
  mentions : List Mention
  lists : List FeedList
  listAccounts : List ListAccount
  users : List User

/-! ### Statuses, receivers and crutches -/

/-- `db::models::replies`. -/
def repliesList : ℤ := 0
def repliesFollowed : ℤ := 1

/-- `db::models::vis`. -/
def visPublic : ℤ := 0
def visUnlisted : ℤ := 1
def visPrivate : ℤ := 2

/-- `home_feed::ACTIVE_DAYS`, in seconds. -/
def activeSeconds : ℤ := 7 * 24 * 3600

/-- A status as the filter reads it. The boosted status is there when it is kept:
its author and their domain. -/
structure Candidate where
  id : ℤ
  accountId : ℤ
  reply : Bool
  inReplyToId : Option ℤ
  inReplyToAccountId : Option ℤ
  language : Option String
  reblogOfId : Option ℤ
  reblog : Option (ℤ × Option String)

inductive Receiver where
  | home
  | list (id repliesPolicy : ℤ)

/-- `matches!(receiver, Receiver::Home)`. -/
def Receiver.isHome : Receiver → Bool
  | .home => true
  | .list _ _ => false

structure Crutches where
  activeMentions : HashMap ℤ (List ℤ) := .empty
  following : Finset ℤ := ∅
  languages : HashMap ℤ (List String) := .empty
  hidingReblogs : Finset ℤ := ∅
  blocking : Finset ℤ := ∅
  muting : Finset ℤ := ∅
  domainBlocking : Finset String := ∅
  blockedBy : Finset ℤ := ∅
  exclusiveListUsers : Finset ℤ := ∅
  notifying : Bool := false

def activeMentions (db : Database) (statusIds : List ℤ) : HashMap ℤ (List ℤ) :=
  (db.mentions.filter fun m => m.statusId ∈ statusIds ∧ ¬m.silent).foldl
    (fun h m => h.push m.statusId m.accountId) .empty

/-- The accounts a block or a mute of which keeps the status out. -/
def checkForBlocks (mentions : HashMap ℤ (List ℤ)) (s : Candidate) : List ℤ :=
  (mentions s.id).getD [] ++ [s.accountId] ++
    match s.reblogOfId, s.reblog with
    | some reblogOfId, some (reblogAccountId, _) =>
        reblogAccountId :: (mentions reblogOfId).getD []
    | _, _ => []

def Follow.named (f : Follow) : Option (List String) := f.languages.filter fun l => !l.isEmpty

def build (db : Database) (receiverId : ℤ) (statuses : List Candidate) (receiver : Receiver) :
    Crutches :=
  let mentionedIds := statuses.flatMap fun s => s.id :: s.reblogOfId.toList
  let mentions := activeMentions db mentionedIds
  let checked := statuses.flatMap (checkForBlocks mentions)
  let accountIds := statuses.map Candidate.accountId
  let rebloggerIds := (statuses.filter fun s => s.reblogOfId.isSome).map Candidate.accountId
  let inReplyToIds := statuses.filterMap Candidate.inReplyToAccountId
  let domains := statuses.filterMap fun s => s.reblog.bind Prod.snd
  let authorsAndBoosted := statuses.flatMap fun s => s.accountId :: (s.reblog.map Prod.fst).toList
  let followed :=
    ((db.follows.filter fun f => f.accountId = receiverId ∧ f.targetAccountId ∈ inReplyToIds).map
      Follow.targetAccountId).toFinset
  { activeMentions := mentions
    following :=
      match receiver with
      | .home => followed
      | .list id repliesPolicy =>
          if repliesPolicy = repliesFollowed then followed
          else if repliesPolicy = repliesList then
            ((db.listAccounts.filter fun la => la.listId = id ∧ la.accountId ∈ inReplyToIds).map
              ListAccount.accountId).toFinset
          else ∅
    languages :=
      ((db.follows.filter fun f =>
          f.accountId = receiverId ∧ f.targetAccountId ∈ accountIds).filterMap fun f =>
        f.named.map fun l => (f.targetAccountId, l)).foldl
        (fun h p => h.insert p.1 p.2) .empty
    hidingReblogs :=
      ((db.follows.filter fun f =>
          f.accountId = receiverId ∧ f.targetAccountId ∈ rebloggerIds ∧ ¬f.showReblogs).map
        Follow.targetAccountId).toFinset
    blocking :=
      ((db.blocks.filter fun b => b.accountId = receiverId ∧ b.targetAccountId ∈ checked).map
        Block.targetAccountId).toFinset
    muting :=
      ((db.mutes.filter fun m => m.accountId = receiverId ∧ m.targetAccountId ∈ checked).map
        Mute.targetAccountId).toFinset
    domainBlocking :=
      ((db.accountDomainBlocks.filter fun d => d.accountId = receiverId ∧ d.domain ∈ domains).map
        AccountDomainBlock.domain).toFinset
    blockedBy :=
      ((db.blocks.filter fun b =>
          b.targetAccountId = receiverId ∧ b.accountId ∈ authorsAndBoosted).map
        Block.accountId).toFinset
    exclusiveListUsers :=
      match receiver with
      | .home =>
          ((db.listAccounts.filter fun la =>
              la.accountId ∈ accountIds ∧
                ∃ l ∈ db.lists, l.id = la.listId ∧ l.accountId = receiverId ∧ l.exclusive).map
            ListAccount.accountId).toFinset
      | .list _ _ => ∅
    notifying := false }

/-- What `crutchesFor` makes of one follow of the author. -/
def Crutches.addFollow (author : ℤ) (reblogOfId : Option ℤ) (f : Follow) (c : Crutches) :
    Crutches :=
  let c :=
    match f.named with
    | some languages => { c with languages := c.languages.insert author languages }
    | none => c
  let c :=
    if reblogOfId.isSome ∧ ¬f.showReblogs then
      { c with hidingReblogs := insert author c.hidingReblogs }
    else c
  { c with notifying := f.notify }

/-- The crutches of every receiver of one status. `home` adds the exclusive lists;
`following` is the follows, which a list replaces as its policy says. -/
def crutchesFor (db : Database) (status : Candidate) (authorDomain : Option String)
    (receivers : List ℤ) (home : Bool) : HashMap ℤ Crutches :=
  let crutches : HashMap ℤ Crutches :=
    receivers.foldl (fun m r => m.insert r ({} : Crutches)) .empty
  if receivers.isEmpty then crutches
  else
    let author := status.accountId
    let mentions := activeMentions db (status.id :: status.reblogOfId.toList)
    let checked := checkForBlocks mentions status
    let reblogAuthor := status.reblog.map Prod.fst
    let domains := authorDomain.toList ++ (status.reblog.bind Prod.snd).toList
    let authors := author :: reblogAuthor.toList
    let crutches :=
      match status.inReplyToAccountId with
      | some inReplyTo =>
          crutches.modifyEach
            (db.follows.filter fun f : Follow =>
              f.accountId ∈ receivers ∧ f.targetAccountId = inReplyTo)
            Follow.accountId
            fun _ c => { c with following := insert inReplyTo c.following }
      | none => crutches
    let crutches :=
      crutches.modifyEach
        (db.follows.filter fun f : Follow => f.accountId ∈ receivers ∧ f.targetAccountId = author)
        Follow.accountId (Crutches.addFollow author status.reblogOfId)
    let crutches :=
      crutches.modifyEach
        (db.blocks.filter fun b : Block => b.accountId ∈ receivers ∧ b.targetAccountId ∈ checked)
        Block.accountId
        fun b c => { c with blocking := insert b.targetAccountId c.blocking }
    let crutches :=
      crutches.modifyEach
        (db.mutes.filter fun m : Mute => m.accountId ∈ receivers ∧ m.targetAccountId ∈ checked)
        Mute.accountId
        fun m c => { c with muting := insert m.targetAccountId c.muting }
    let crutches :=
      if domains.isEmpty then crutches
      else
        crutches.modifyEach
          (db.accountDomainBlocks.filter fun d : AccountDomainBlock =>
            d.accountId ∈ receivers ∧ d.domain ∈ domains)
          AccountDomainBlock.accountId
          fun d c => { c with domainBlocking := insert d.domain c.domainBlocking }
    let crutches :=
      crutches.modifyEach
        (db.blocks.filter fun b : Block => b.targetAccountId ∈ receivers ∧ b.accountId ∈ authors)
        Block.targetAccountId
        fun b c => { c with blockedBy := insert b.accountId c.blockedBy }
    let crutches :=
      if home then
        crutches.modifyEach
          (db.lists.filter fun l : FeedList =>
            l.accountId ∈ receivers ∧ l.exclusive ∧
              ∃ la ∈ db.listAccounts, la.listId = l.id ∧ la.accountId = author)
          FeedList.accountId
          fun _ c => { c with exclusiveListUsers := insert author c.exclusiveListUsers }
      else crutches
    fun r => (crutches r).map fun c => { c with activeMentions := mentions }

/-! ### The filter -/

/-- Why a status stays out; `skipHome` is an exclusive list's doing. -/
inductive Filtered where
  | filter
  | skipHome
  deriving DecidableEq, Repr

def filteredAfterLists (status : Candidate) (receiverId : ℤ) (crutches : Crutches) : Bool :=
  let otherLanguage :=
    match crutches.languages status.accountId, status.language.filter fun l => !l.isEmpty with
    | some languages, some language => !languages.contains language
    | _, _ => false
  if otherLanguage then true
  else if status.reblogOfId.isSome && status.reblog.isNone then true
  else if (checkForBlocks crutches.activeMentions status).any fun id =>
      id ∈ crutches.blocking ∨ id ∈ crutches.muting then true
  else if status.accountId ∈ crutches.blockedBy then true
  else
    match status.inReplyToAccountId, status.reply with
    | some inReplyTo, true =>
        inReplyTo ∉ crutches.following ∧ receiverId ≠ inReplyTo ∧ status.accountId ≠ inReplyTo
    | _, _ => hidesReblog status crutches
where
  /-- The last arms of the match: a boost its receiver would rather not see. -/
  hidesReblog (status : Candidate) (crutches : Crutches) : Bool :=
    match status.reblog with
    | some (reblogAccountId, reblogDomain) =>
        status.accountId ∈ crutches.hidingReblogs ∨ reblogAccountId ∈ crutches.blockedBy ∨
          reblogDomain.any fun d => d ∈ crutches.domainBlocking
    | none => false

def filterResult (status : Candidate) (receiverId : ℤ) (crutches : Crutches)
    (receiver : Receiver) : Option Filtered :=
  if receiverId = status.accountId then none
  else if status.reply ∧ (status.inReplyToId.isNone ∨ status.inReplyToAccountId.isNone) then
    some .filter
  else if receiver.isHome ∧ status.accountId ∈ crutches.exclusiveListUsers then some .skipHome
  else if filteredAfterLists status receiverId crutches then some .filter
  else none

def filterFromHome (status : Candidate) (receiverId : ℤ) (crutches : Crutches)
    (receiver : Receiver) : Bool :=
  (filterResult status receiverId crutches receiver).isSome

/-! ### The fan-out to lists -/

structure Distributed where
  status : Candidate
  visibility : ℤ
  authorDomain : Option String

/-- The lists holding the author whose owner signed in recently and which follow
it or are its own: their ids, owners and policies. -/
def listsForLocalDistribution (db : Database) (now authorId : ℤ) : List (ℤ × ℤ × ℤ) :=
  ((db.lists.filter fun l =>
      (∃ la ∈ db.listAccounts, la.listId = l.id ∧ la.accountId = authorId ∧
        (la.followId.isSome ∨ l.accountId = authorId)) ∧
      ∃ u ∈ db.users, u.accountId = l.accountId ∧
        u.currentSignInAt.any fun at' => now - activeSeconds ≤ at').map
    fun l => (l.id, l.accountId, l.repliesPolicy)).dedup

def listKeepsOut (status : Candidate) (ownerCrutches : HashMap ℤ Crutches)
    (listingReplyTarget : List ℤ) (list : ℤ × ℤ × ℤ) : Option Bool :=
  let (listId, ownerId, repliesPolicy) := list
  let inReplyTo := status.inReplyToAccountId
  let listed : Bool := listId ∈ listingReplyTarget
  (ownerCrutches ownerId).map fun owner =>
    let filteredFromList : Bool :=
      status.reply ∧ inReplyTo ≠ some status.accountId ∧ inReplyTo ≠ some ownerId ∧
        repliesPolicy ≠ repliesFollowed ∧ ¬(repliesPolicy = repliesList ∧ listed)
    let following : Finset ℤ :=
      if repliesPolicy = repliesFollowed then owner.following
      else if repliesPolicy = repliesList then (inReplyTo.filter fun _ => listed).toList.toFinset
      else ∅
    let crutches : Crutches :=
      { owner with following, exclusiveListUsers := ∅, notifying := false }
    filteredFromList || filterFromHome status ownerId crutches (.list listId repliesPolicy)

/-- The lists of the fan-out that hold the account replied to. -/
def listingReplyTarget (db : Database) (lists : List (ℤ × ℤ × ℤ)) (inReplyTo : Option ℤ) :
    List ℤ :=
  match inReplyTo with
  | some target =>
      (db.listAccounts.filter fun la =>
        la.listId ∈ lists.map Prod.fst ∧ la.accountId = target).map ListAccount.listId
  | none => []

def fanOutLists (db : Database) (now : ℤ) (d : Distributed) : List (ℤ × Bool) :=
  if d.visibility ∉ [visPublic, visUnlisted, visPrivate] then []
  else
    let lists := listsForLocalDistribution db now d.status.accountId
    let owners := (lists.map fun l => l.2.1).dedup
    let ownerCrutches := crutchesFor db d.status d.authorDomain owners false
    let listing := listingReplyTarget db lists d.status.inReplyToAccountId
    lists.filterMap fun l =>
      (listKeepsOut d.status ownerCrutches listing l).map fun out => (l.1, out)

end Eunha.FeedFilter
