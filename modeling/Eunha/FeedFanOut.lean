import Eunha.FeedFilterAgreement

/-!
# The fan-out of a status to home feeds

`fan_out_home` reads a status as it is distributed and pushes it to its author's home, to
the homes of followers and to those of followers of its hashtags, where the filters let it
in. Times are in seconds.
-/
namespace Eunha.FeedFilter
open Maps

/-! ### Statuses and accounts -/

structure StatusRow where
  id : ℤ
  accountId : ℤ
  reply : Bool
  inReplyToId : Option ℤ
  inReplyToAccountId : Option ℤ
  language : Option String
  reblogOfId : Option ℤ
  visibility : ℤ
  createdAt : ℤ
  deleted : Bool
  deriving DecidableEq

structure AccountRow where
  id : ℤ
  domain : Option String
  silenced : Bool
  suspended : Bool
  deriving DecidableEq

structure Tagging where
  statusId : ℤ
  tagId : ℤ
  deriving DecidableEq

/-- What is posted and by whom. A foreign key holds the author of every status. -/
structure Content where
  statuses : List StatusRow
  accounts : List AccountRow
  statusesTags : List Tagging
  authors : ∀ s ∈ statuses, (accounts.find? (·.id = s.accountId)).isSome

namespace Content
variable (c : Content)

def status (id : ℤ) : Option StatusRow := c.statuses.find? (·.id = id)
def keptStatus (id : ℤ) : Option StatusRow := (c.status id).filter (!·.deleted)
def account (id : ℤ) : Option AccountRow := c.accounts.find? (·.id = id)
def tagIds (statusId : ℤ) : List ℤ :=
  (c.statusesTags.filter (·.statusId = statusId)).map (·.tagId)

end Content

structure TagFollow where
  accountId : ℤ
  tagId : ℤ
  deriving DecidableEq

/-- The relations of accounts. Unique indexes hold the follows and the lists, and only a
local account has a user. -/
structure Relations (c : Content) extends Database where
  tagFollows : List TagFollow
  followsOnce : follows.Pairwise fun f g =>
    ¬ (f.accountId = g.accountId ∧ f.targetAccountId = g.targetAccountId)
  listsOnce : lists.Pairwise fun l m => l.id ≠ m.id
  usersLocal : ∀ u ∈ users, (c.account u.accountId).any (·.domain.isNone)

/-! ### A status as it is distributed -/

structure DistributedStatus extends Distributed where
  authorSilenced : Bool

def DistributedStatus.broadcastable (d : DistributedStatus) : Bool :=
  d.visibility = visPublic ∧ d.status.reblogOfId.isNone ∧ !d.authorSilenced

/-- `distributed`: the status, unless it is gone or what it shows is by a suspended account. -/
def distributed (c : Content) (statusId : ℤ) : Option DistributedStatus := do
  let row ← c.keptStatus statusId
  let author ← c.account row.accountId
  let reblog : Option StatusRow := row.reblogOfId.bind c.keptStatus
  let reblogAuthor : Option AccountRow := reblog.bind fun r => c.account r.accountId
  let properSuspended :=
    match reblog with
    | some _ => reblogAuthor.any AccountRow.suspended
    | none => author.suspended
  if properSuspended then none
  else
    some
      { status :=
          { id := row.id
            accountId := row.accountId
            reply := row.reply
            inReplyToId := row.inReplyToId
            inReplyToAccountId := row.inReplyToAccountId
            language := row.language
            reblogOfId := row.reblogOfId
            reblog := reblog.map fun r : StatusRow =>
            (r.accountId, reblogAuthor.bind AccountRow.domain) }
        visibility := row.visibility
        authorDomain := author.domain
        authorSilenced := author.silenced }

/-! ### Home feeds -/

/-- `filter_from_tags`: whether the status stays out of a follower's of its hashtags. -/
def filterFromTags (status : Candidate) (authorDomain : Option String) (receiverId : ℤ)
    (crutches : Crutches) : Bool :=
  receiverId = status.accountId ∨
    (((crutches.activeMentions status.id).getD [] ++ [status.accountId]).any fun id =>
      id ∈ crutches.blocking ∨ id ∈ crutches.muting) ∨
    status.accountId ∈ crutches.blockedBy ∨
    authorDomain.any fun d => d ∈ crutches.domainBlocking

section
variable {c : Content} (db : Relations c) (now : ℤ)

def signedInRecently (accountId : ℤ) : Bool :=
  db.users.any fun u => u.accountId = accountId ∧
    u.currentSignInAt.any fun at' => now - activeSeconds ≤ at'

def follows (accountId targetAccountId : ℤ) : Bool :=
  db.follows.any fun f => f.accountId = accountId ∧ f.targetAccountId = targetAccountId

def mentioned (statusId accountId : ℤ) : Bool :=
  db.mentions.any fun m => m.statusId = statusId ∧ m.accountId = accountId

def distributedVisibility (visibility : ℤ) : Bool :=
  visibility ∈ [visPublic, visUnlisted, visPrivate]

def followersFor (d : DistributedStatus) : List ℤ :=
  let active := (db.users.map (·.accountId)).filter (signedInRecently db now)
  let followers := active.filter fun id => follows db id d.status.accountId
  if distributedVisibility d.visibility then followers
  else followers.filter (mentioned db d.status.id)

def tagFollowersFor (d : DistributedStatus) : List ℤ :=
  if d.broadcastable then
    ((db.tagFollows.filter fun tf => tf.tagId ∈ c.tagIds d.status.id).map
      (·.accountId)).dedup.filter (signedInRecently db now)
  else []

/-- `fan_out_home`: the homes the status is pushed to. -/
def fanOutHome (d : DistributedStatus) : List ℤ :=
  let followers := followersFor db now d
  let tagFollowers := tagFollowersFor db now d
  let crutches := crutchesFor db.toDatabase d.status d.authorDomain
    (followers ++ tagFollowers).dedup true
  [d.status.accountId].filter (signedInRecently db now) ++
    followers.filter (fun id => (crutches id).any fun c =>
      (filterResult d.status id c .home).isNone) ++
    tagFollowers.filter fun id => (crutches id).any fun c =>
      !filterFromTags d.status d.authorDomain id c

/-- `Pushed`: the homes and lists a status went in, given into which of those it is pushed
to `push` puts it. -/
structure Pushed where
  homes : ℤ → Bool
  lists : ℤ → Bool

def fanoutStatus (statusId : ℤ) (pushHome pushList : ℤ → Bool) : Pushed :=
  match distributed c statusId with
  | none => ⟨fun _ => false, fun _ => false⟩
  | some d =>
      { homes := fun id => id ∈ fanOutHome db now d ∧ pushHome id
        lists := fun id => (id, false) ∈ fanOutLists db.toDatabase now d.toDistributed ∧
          pushList id }

end
end Eunha.FeedFilter
