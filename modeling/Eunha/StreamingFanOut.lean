import Eunha.FeedFanOut

/-!
# The streaming half of the fan-out

What is published on the channels of homes and lists somebody is streaming. The filters are
those of the feeds, written again over the database for one status and one receiver. A home
or list gets the update only where the feeds took the status in.
-/
namespace Eunha.StreamingFanOut
open FeedFilter

/-- `REAL_TIME_WINDOW_HOURS`, in seconds. -/
def realTimeWindow : ℤ := 6 * 3600

/-- What a status needs for the feed filters. -/
structure Subject where
  status : StatusRow
  isLocal : Bool
  authorSilenced : Bool
  authorDomain : Option String
  /-- The author of the boosted post, which is kept, and their domain. -/
  reblog : Option (ℤ × Option String)
  mentions : List ℤ
  tagIds : List ℤ

structure DistributingList where
  id : ℤ
  accountId : ℤ
  repliesPolicy : ℤ

section
variable {c : Content} (db : Relations c)

def subject (statusId : ℤ) : Option Subject := do
  let status ← c.status statusId
  let author ← c.account status.accountId
  let reblog : Option (ℤ × Option String × Bool) := do
    let boosted ← status.reblogOfId.bind c.keptStatus
    let account ← c.account boosted.accountId
    some (boosted.accountId, account.domain, account.suspended)
  let properSuspended :=
    match reblog with
    | some (_, _, suspended) => suspended
    | none => author.suspended
  if properSuspended then none
  else
    let mentionOf := status.id :: status.reblogOfId.toList
    some
      { status := status
        isLocal := author.domain.isNone
        authorSilenced := author.silenced
        authorDomain := author.domain
        reblog := reblog.map fun r => (r.1, r.2.1)
        mentions :=
          (db.mentions.filter fun m => m.statusId ∈ mentionOf ∧ ¬m.silent).map (·.accountId)
        tagIds := c.tagIds status.id }

/-! ### The filters -/

def blocksOrMutesAny (receiver : ℤ) (targets : List ℤ) : Bool :=
  (db.blocks.any fun b => b.accountId = receiver ∧ b.targetAccountId ∈ targets) ||
    db.mutes.any fun m => m.accountId = receiver ∧ m.targetAccountId ∈ targets

def blockedBy (receiver accountId : ℤ) : Bool :=
  db.blocks.any fun b => b.accountId = accountId ∧ b.targetAccountId = receiver

def domainBlocking (receiver : ℤ) (domain : Option String) : Bool :=
  domain.any fun domain =>
    db.accountDomainBlocks.any fun d => d.accountId = receiver ∧ d.domain = domain

def listed (listId accountId : ℤ) : Bool :=
  db.listAccounts.any fun la => la.listId = listId ∧ la.accountId = accountId

/-- `st.reply || st.in_reply_to_id.is_some()` -/
def isReply (st : StatusRow) : Bool := st.reply || st.inReplyToId.isSome

def filterFromList (s : Subject) (list : DistributingList) : Bool :=
  let st := s.status
  if isReply st ∧ st.inReplyToAccountId ≠ some st.accountId then
    st.inReplyToAccountId ≠ some list.accountId ∧ list.repliesPolicy ≠ repliesFollowed ∧
      ¬(list.repliesPolicy = repliesList ∧ st.inReplyToAccountId.any (listed db list.id))
  else false

/-- `crutches[:exclusive_list_users]` -/
def exclusivelyListed (receiver accountId : ℤ) : Bool :=
  db.listAccounts.any fun la => la.accountId = accountId ∧
    ∃ l ∈ db.lists, l.id = la.listId ∧ l.accountId = receiver ∧ l.exclusive

/-- `crutches[:languages]` -/
def languagesOf (receiver accountId : ℤ) : List String :=
  ((db.follows.find? fun f => f.accountId = receiver ∧ f.targetAccountId = accountId).bind
    (·.languages)).getD []

def otherLanguage (receiver : ℤ) (st : StatusRow) : Bool :=
  match st.language.filter fun l => !l.isEmpty with
  | none => false
  | some language =>
      let languages := languagesOf db receiver st.accountId
      !languages.isEmpty && !languages.contains language

/-- `crutches[:following]`, of the account replied to. -/
def following (receiver replyTo : ℤ) (list : Option DistributingList) : Bool :=
  match list with
  | none => follows db receiver replyTo
  | some list =>
      if list.repliesPolicy = repliesList then listed db list.id replyTo
      else if list.repliesPolicy ≠ repliesFollowed then false
      else follows db receiver replyTo

def hidingReblogs (receiver accountId : ℤ) : Bool :=
  db.follows.any fun f => f.accountId = receiver ∧ f.targetAccountId = accountId ∧ ¬f.showReblogs

/-- The last tests of `filter_from_home`: a reply to someone else, or a boost. -/
def shouldFilter (s : Subject) (receiver : ℤ) (list : Option DistributingList) : Bool :=
  let st := s.status
  match st.inReplyToAccountId, isReply st with
  | some replyTo, true =>
      !following db receiver replyTo list ∧ receiver ≠ replyTo ∧ st.accountId ≠ replyTo
  | _, _ =>
      match s.reblog with
      | some (reblogAuthor, reblogDomain) =>
          hidingReblogs db receiver st.accountId || blockedBy db receiver reblogAuthor ||
            domainBlocking db receiver reblogDomain
      | none => false

def filterFromHome (s : Subject) (receiver : ℤ) (list : Option DistributingList) :
    Option Filtered :=
  let st := s.status
  let checkForBlocks := s.mentions ++ [st.accountId] ++ (s.reblog.map (·.1)).toList
  if receiver = st.accountId then none
  else if isReply st ∧ (st.inReplyToId.isNone ∨ st.inReplyToAccountId.isNone) then some .filter
  else if list.isNone ∧ exclusivelyListed db receiver st.accountId then some .skipHome
  else if otherLanguage db receiver st then some .filter
  else if st.reblogOfId.isSome ∧ s.reblog.isNone then some .filter
  else if blocksOrMutesAny db receiver checkForBlocks then some .filter
  else if blockedBy db receiver st.accountId then some .filter
  else if shouldFilter db s receiver list then some .filter
  else none

def filterFromTags (s : Subject) (receiver : ℤ) : Bool :=
  let st := s.status
  receiver = st.accountId || blocksOrMutesAny db receiver (s.mentions ++ [st.accountId]) ||
    blockedBy db receiver st.accountId || domainBlocking db receiver s.authorDomain

/-! ### Homes -/

def Subject.broadcastable (s : Subject) : Bool :=
  s.status.visibility = visPublic ∧ s.status.reblogOfId.isNone ∧ !s.authorSilenced

inductive Delivery where
  | self
  | follower
  | tags
  deriving DecidableEq

def followsTag (receiver : ℤ) (s : Subject) : Bool :=
  db.tagFollows.any fun tf => tf.accountId = receiver ∧ tf.tagId ∈ s.tagIds

def homeDeliveries (s : Subject) (receiver : ℤ) : List Delivery :=
  let st := s.status
  let toFollowers := follows db receiver st.accountId &&
    (distributedVisibility st.visibility || mentioned db st.id receiver)
  (if receiver = st.accountId then [.self] else if toFollowers then [.follower] else []) ++
    if s.broadcastable ∧ s.tagIds ≠ [] ∧ followsTag db receiver s then [.tags] else []

variable (now : ℤ)

/-- The accounts whose homes the status may have gone to. -/
def candidates (s : Subject) : List ℤ :=
  ((db.users.filter fun u =>
    (c.account u.accountId).any (·.domain.isNone) ∧
      (u.currentSignInAt.any fun at' => now - activeSeconds ≤ at') ∧
      (u.accountId = s.status.accountId ∨ follows db u.accountId s.status.accountId ∨
        (s.broadcastable ∧ followsTag db u.accountId s))).map (·.accountId))

def passes (s : Subject) (receiver : ℤ) : Delivery → Bool
  | .self => true
  | .follower => (filterFromHome db s receiver none).isNone
  | .tags => !filterFromTags db s receiver

/-! ### Lists -/

def distributingList (listId authorId : ℤ) : Option DistributingList :=
  (db.lists.find? fun l => l.id = listId ∧
    (∃ la ∈ db.listAccounts, la.listId = l.id ∧ la.accountId = authorId ∧
      (la.followId.isSome ∨ l.accountId = authorId)) ∧
    ∃ u ∈ db.users, u.accountId = l.accountId ∧
      u.currentSignInAt.any fun at' => now - activeSeconds ≤ at').map fun l =>
    ⟨l.id, l.accountId, l.repliesPolicy⟩

def listLetsIn (s : Subject) (listId : ℤ) : Bool :=
  (distributingList db now listId s.status.accountId).any fun list =>
    !filterFromList db s list && (filterFromHome db s list.accountId (some list)).isNone

/-! ### What is published -/

/-- Who is streaming. -/
structure Subscribed where
  home : ℤ → Bool
  list : ℤ → Bool

/-- The messages of a status: to which homes and which lists. -/
structure Published where
  homes : List ℤ
  lists : List ℤ

/-- `try_distribute`, for homes and lists, given what the feeds took in. -/
def distribute (statusId : ℤ) (update : Bool) (subscribed : Subscribed) (fed : Pushed) :
    Published :=
  match subject db statusId with
  | none => ⟨[], []⟩
  | some s =>
      if s.status.deleted then ⟨[], []⟩
      else if !s.isLocal ∧ !update ∧ realTimeWindow < now - s.status.createdAt then ⟨[], []⟩
      else
        { homes := ((candidates db now s).filter subscribed.home).flatMap fun receiver =>
            ((homeDeliveries db s receiver).filter fun kind =>
              passes db s receiver kind && fed.homes receiver).map fun _ => receiver
          lists :=
            if distributedVisibility s.status.visibility then
              ((((db.listAccounts.filter (·.accountId = s.status.accountId)).map
                (·.listId)).dedup.filter subscribed.list).filter
                  (listLetsIn db now s)).filter fed.lists
            else [] }

end
end Eunha.StreamingFanOut
