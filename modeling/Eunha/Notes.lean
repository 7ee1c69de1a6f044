import Mathlib.Data.List.Sort
import Mathlib.Tactic.Ring
import Eunha.Addressing
import Eunha.JsonText
import Eunha.LocalUri
import Eunha.Quotes

/-!
# Notes of local statuses

What `build_note` writes of a status: its members one after another, some of them only where
the status has something to say, and what is said twice replaced where it is. How the text,
the media and the emojis of a status are written is given, and so is how a time is.
-/
namespace Eunha.Notes
open JsonText (Value)
open Database (Visibility)
open LocalUri (accountUri)

/-! ### Values with members -/

abbrev Json := Value ℤ

abbrev Members := List (String × Json)

def str (s : String) : Json := .string s.toList

def strOrNull (s : Option String) : Json := (s.map str).getD .null

def strings (ss : List String) : Json := .array (ss.map str)

def obj (members : Members) : Json := .object (members.map fun m => (m.1.toList, m.2))

def member (key : String) (v : Json) : Option Json := v.get key.toList

def asString (v : Json) : Option String := v.asStr.map String.ofList

/-- `members[key] = value`: replaced where it is, or appended. -/
def setMember (key : String) (value : Json) : Members → Members
  | [] => [(key, value)]
  | m :: members =>
      if m.1 = key then (key, value) :: members else m :: setMember key value members

@[simp] theorem asString_str (s : String) : asString (str s) = some s := by
  simp [asString, str, Value.asStr]

theorem member_obj (key : String) (members : Members) :
    member key (obj members) = members.lookup key := by
  rw [member, obj, Value.get]
  induction members with
  | nil => rfl
  | cons m members ih =>
      rw [List.map_cons, List.lookup_cons, List.lookup_cons, ih]
      congr 1
      by_cases hkey : key = m.1
      · simp [hkey]
      · have hne : key.toList ≠ m.1.toList := fun h => hkey (String.toList_inj.mp h)
        simp [hkey, hne]

theorem lookup_cons (key other : String) (value : Json) (members : Members) :
    List.lookup key ((other, value) :: members) =
      if key = other then some value else members.lookup key := by
  rw [List.lookup_cons]
  by_cases h : key = other
  · rw [if_pos h, beq_iff_eq.mpr h]
  · rw [if_neg h, beq_false_of_ne h]

theorem lookup_setMember (key other : String) (value : Json) (members : Members) :
    (setMember other value members).lookup key =
      if key = other then some value else members.lookup key := by
  induction members with
  | nil =>
      rw [setMember, lookup_cons]
  | cons m members ih =>
      rw [setMember, lookup_cons key m.1 m.2]
      by_cases hm : m.1 = other
      · rw [if_pos hm, lookup_cons, hm]
        split <;> rfl
      · rw [if_neg hm, lookup_cons key m.1 m.2, ih]
        by_cases hkey : key = m.1
        · rw [if_pos hkey, if_pos hkey, if_neg fun h => hm (hkey.symm.trans h)]
        · rw [if_neg hkey, if_neg hkey]

/-! ### The database -/

structure Account extends LocalUri.Account where
  url : Option String
  actorType : Option String
  followersUrl : String
  silenced : Bool
  sensitized : Bool
  deriving DecidableEq

structure Status extends LocalUri.Status where
  spoilerText : String
  visibility : Visibility
  sensitive : Bool
  createdAt : ℤ
  editedAt : Option ℤ
  inReplyToId : Option ℤ
  reblogOfId : Option ℤ
  language : Option String
  quoteApprovalPolicy : BitVec 32
  deriving DecidableEq

structure Quote where
  id : ℤ
  statusId : ℤ
  quotedStatusId : Option ℤ
  quotedAccountId : Option ℤ
  state : Quotes.QuoteState
  approvalUri : Option String
  deriving DecidableEq

structure Poll where
  id : ℤ
  statusId : ℤ
  options : List String
  multiple : Bool
  hideTotals : Bool
  expiresAt : Option ℤ
  votersCount : Option ℤ
  deriving DecidableEq

structure Vote where
  pollId : ℤ
  choice : ℤ
  deriving DecidableEq

/-- The tables. Follows, requests and mentions are pairs of ids, in the order of their
columns, and the votes are so few that a `bigint` counts them. -/
structure Db where
  accounts : List Account
  statuses : List Status
  follows : List (ℤ × ℤ)
  followRequests : List (ℤ × ℤ)
  mentions : List (ℤ × ℤ)
  tags : List (ℤ × String)
  quotes : List Quote
  polls : List Poll
  votes : List Vote
  votes_lt : votes.length < 2 ^ 63

def Db.account (db : Db) (id : ℤ) : Option Account := db.accounts.find? (·.id = id)

def Db.status (db : Db) (id : ℤ) : Option Status := db.statuses.find? (·.id = id)

structure Env where
  domain : String
  now : ℤ
  context : Json
  iso8601 : ℤ → String
  /-- The content, from the text. -/
  content : ℤ → String
  attachments : ℤ → List Json
  emojis : ℤ → List Json

/-! ### URIs -/

def storedUri (s : Status) : Option String := s.uri.filter (· ≠ "")

/-- `tag::status_uri` -/
def madeUri (domain : String) (author : Account) (s : Status) : String :=
  accountUri domain author.toAccount ++ "/statuses/" ++ toString s.id

def noteUri (domain : String) (author : Account) (s : Status) : String :=
  (storedUri s).getD (madeUri domain author s)

def statusUri (domain : String) (db : Db) (s : Status) : Option String :=
  (db.account s.accountId).map fun author => noteUri domain author s

def Account.uriAt (domain : String) (a : Account) : String := accountUri domain a.toAccount

/-! ### The audience -/

/-- `a.id` of the accounts mentioned. -/
def mentioned (db : Db) (s : Status) : List Account :=
  (db.mentions.filter (·.1 = s.id)).filterMap fun m => db.account m.2

def mentionHref (domain : String) (m : Account) : String :=
  if m.domain = none then m.uriAt domain
  else
    match m.uri.filter (· ≠ "") with
    | some uri => uri
    | none => (m.url.filter (· ≠ "")).getD ("https://" ++ domain ++ "/users/" ++ m.username)

def groupFollowers (domain : String) (m : Account) : List String :=
  if m.actorType = some "Group" then
    if m.domain = none then [m.uriAt domain ++ "/followers"]
    else if m.followersUrl ≠ "" then [m.followersUrl]
    else []
  else []

def mentionUris (domain : String) (db : Db) (author : Account) (s : Status) : List String :=
  (mentioned db s).flatMap fun m =>
    if author.silenced && !((m.id, author.id) ∈ db.follows || (m.id, author.id) ∈ db.followRequests)
    then []
    else mentionHref domain m :: groupFollowers domain m

def followersUrl (domain : String) (author : Account) : String :=
  author.uriAt domain ++ "/followers"

def followingUrl (domain : String) (author : Account) : String :=
  author.uriAt domain ++ "/following"

def audience (domain : String) (db : Db) (author : Account) (s : Status) :
    List String × List String :=
  Addressing.audience s.visibility (followersUrl domain author) (mentionUris domain db author s)

/-! ### The members -/

def acct (m : Account) : String :=
  match m.domain with
  | some domain => m.username ++ "@" ++ domain
  | none => m.username

def mentionTag (domain : String) (m : Account) : Json :=
  obj [("type", str "Mention"), ("href", str (mentionHref domain m)),
    ("name", str ("@" ++ acct m))]

def hashtagTag (domain name : String) : Json :=
  obj [("type", str "Hashtag"), ("href", str ("https://" ++ domain ++ "/tags/" ++ name)),
    ("name", str ("#" ++ name))]

def tag (e : Env) (db : Db) (s : Status) : List Json :=
  let names := ((db.tags.filter (·.1 = s.id)).map (·.2)).insertionSort (· ≤ ·)
  (mentioned db s).map (mentionTag e.domain) ++ names.map (hashtagTag e.domain) ++ e.emojis s.id

/-- The URI stored for the parent. -/
def inReplyTo (db : Db) (s : Status) : Option String :=
  (s.inReplyToId.bind db.status).bind storedUri

def baseNote (e : Env) (db : Db) (author : Account) (s : Status) : Members :=
  [("id", str (noteUri e.domain author s)),
    ("type", str "Note"),
    ("summary", strOrNull (if s.spoilerText = "" then none else some s.spoilerText)),
    ("inReplyTo", strOrNull (inReplyTo db s)),
    ("published", str (e.iso8601 s.createdAt)),
    ("url", str ("https://" ++ e.domain ++ "/@" ++ author.username ++ "/" ++ toString s.id)),
    ("attributedTo", str (author.uriAt e.domain)),
    ("to", strings (audience e.domain db author s).1),
    ("cc", strings (audience e.domain db author s).2),
    ("sensitive", .bool (s.sensitive || author.sensitized)),
    ("content", str (e.content s.id)),
    ("attachment", .array (e.attachments s.id)),
    ("tag", .array (tag e db s))]

def pollOf (db : Db) (s : Status) : Option Poll := db.polls.find? (·.statusId = s.id)

def expired (e : Env) (poll : Poll) : Bool := poll.expiresAt.any (· ≤ e.now)

def showTotals (e : Env) (poll : Poll) : Bool := expired e poll || !poll.hideTotals

/-- The votes for each option, as they are in `poll_votes`. -/
def tallies (db : Db) (poll : Poll) : List ℤ :=
  (List.range poll.options.length).map fun i =>
    db.votes.countP fun v => v.pollId = poll.id ∧ v.choice = (i : ℤ)

def pollOption (shown : Bool) (option : String × ℤ) : Json :=
  obj [("type", str "Note"), ("name", str option.1),
    ("replies", obj [("type", str "Collection"),
      ("totalItems", if shown then .number option.2 else .null)])]

def pollOptions (e : Env) (db : Db) (poll : Poll) : List Json :=
  (poll.options.zip (tallies db poll)).map (pollOption (showTotals e poll))

def withEnd (e : Env) (poll : Poll) (note : Members) : Members :=
  match poll.expiresAt with
  | none => note
  | some expiresAt =>
      let timestamp := str (e.iso8601 expiresAt)
      let note := setMember "endTime" timestamp note
      if expired e poll then setMember "closed" timestamp note else note

def withVoters (poll : Poll) (note : Members) : Members :=
  match poll.votersCount with
  | none => note
  | some votersCount => setMember "votersCount" (.number votersCount) note

/-- A status with a poll is a `Question`. -/
def withPoll (e : Env) (db : Db) (s : Status) (note : Members) : Members :=
  match pollOf db s with
  | none => note
  | some poll =>
      let note := setMember "type" (str "Question") note
      let options := Value.array (pollOptions e db poll)
      let note := setMember (if poll.multiple then "anyOf" else "oneOf") options note
      withVoters poll (withEnd e poll note)

def withLanguage (e : Env) (s : Status) (note : Members) : Members :=
  match s.language.filter (· ≠ "") with
  | none => note
  | some language => setMember "contentMap" (obj [(language, str (e.content s.id))]) note

def withEdited (e : Env) (s : Status) (note : Members) : Members :=
  match s.editedAt with
  | none => note
  | some edited => setMember "updated" (str (e.iso8601 edited)) note

def quoteOf (db : Db) (s : Status) : Option Quote := db.quotes.find? (·.statusId = s.id)

def quotedOf (db : Db) (quote : Quote) : Option Status :=
  (quote.quotedStatusId.bind db.status).filter (·.deleted = false)

/-- `approval_uri_for`, named once the quote is accepted. -/
def approvalUriFor (domain : String) (db : Db) (quote : Quote) : Option String :=
  match (quote.quotedAccountId.bind db.account).filter (·.domain = none) with
  | none => quote.approvalUri
  | some quoted =>
      if quote.state = .accepted then
        some (quoted.uriAt domain ++ "/quote_authorizations/" ++ toString quote.id)
      else none

/-- What names the quoted post: a Tombstone where no URI of it is found. -/
def withQuoted (quoted : Option String) (note : Members) : Members :=
  match quoted with
  | some uri =>
      setMember "quoteUri" (str uri)
        (setMember "_misskey_quote" (str uri) (setMember "quote" (str uri) note))
  | none => setMember "quote" (obj [("type", str "Tombstone")]) note

def withStamp (stamp : Option String) (note : Members) : Members :=
  match stamp with
  | none => note
  | some stamp => setMember "quoteAuthorization" (str stamp) note

def withQuote (e : Env) (db : Db) (s : Status) (note : Members) : Members :=
  match quoteOf db s with
  | none => note
  | some quote =>
      withStamp (approvalUriFor e.domain db quote)
        (withQuoted ((quotedOf db quote).bind storedUri) note)

def automatic (policy : BitVec 32) : BitVec 32 := policy.sshiftRight 16

/-- Whom `quote_interaction_policy` names: those the automatic policy lets quote, or the author
alone. -/
def approved (policy : BitVec 32) (followersUrl followingUrl actorUrl : String) : List String :=
  let named :=
    (if automatic policy &&& Quotes.publicPolicy ≠ 0 then [Addressing.activityStreamsPublic]
      else []) ++
    (if automatic policy &&& Quotes.followersPolicy ≠ 0 then [followersUrl] else []) ++
    (if automatic policy &&& Quotes.followingPolicy ≠ 0 then [followingUrl] else [])
  if named = [] then [actorUrl] else named

def withPolicy (e : Env) (author : Account) (s : Status) (note : Members) : Members :=
  let named := approved s.quoteApprovalPolicy (followersUrl e.domain author)
    (followingUrl e.domain author) (author.uriAt e.domain)
  setMember "interactionPolicy"
    (obj [("canQuote", obj [("automaticApproval", strings named)])]) note

/-- A built `Note` plus the addressing needed to wrap it in a `Create`. -/
structure NoteBundle where
  note : Members
  actorUrl : String
  noteUri : String
  tos : List String
  cc : List String
  createdAt : ℤ

def bundle (e : Env) (db : Db) (author : Account) (s : Status) : NoteBundle where
  note := withPolicy e author s (withQuote e db s (withEdited e s (withLanguage e s
    (withPoll e db s (baseNote e db author s)))))
  actorUrl := author.uriAt e.domain
  noteUri := noteUri e.domain author s
  tos := (audience e.domain db author s).1
  cc := (audience e.domain db author s).2
  createdAt := s.createdAt

/-- `build_note`, of a kept local status that is no boost. -/
def buildNote (e : Env) (db : Db) (statusId : ℤ) : Option NoteBundle :=
  match (db.status statusId).filter fun s => s.deleted = false ∧ s.reblogOfId = none with
  | none => none
  | some s =>
      ((db.account s.accountId).filter (·.domain = none)).map fun author => bundle e db author s

def NoteBundle.intoCreate (e : Env) (b : NoteBundle) : Json :=
  obj [("@context", e.context), ("id", str (b.noteUri ++ "/activity")), ("type", str "Create"),
    ("actor", str b.actorUrl), ("published", str (e.iso8601 b.createdAt)), ("to", strings b.tos),
    ("cc", strings b.cc), ("object", obj b.note)]

end Eunha.Notes
