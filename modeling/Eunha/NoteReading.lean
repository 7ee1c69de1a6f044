import Eunha.Notes
import Eunha.Sanitizer

/-!
# Notes from other servers

What a `Create` of a note leaves here: the note is read member by member, each with its own
treatment of what is missing, and the status, its quote and its poll are stored. Media, tags,
mentions and what follows a status are left out. How times and converted objects are read and
what other servers answer is given.
-/
namespace Eunha.NoteReading
open JsonText (Value)
open Database StatusLifecycle InboxRelationships
open Quotes (QuoteFields isLocal)
open Notes (Json Members member asString)

/-! ### Reading values -/

def asI64 : Json → Option ℤ
  | .number n => if -2 ^ 63 ≤ n ∧ n < 2 ^ 63 then some n else none
  | _ => none

def asBool : Json → Option Bool
  | .bool b => some b
  | _ => none

def asArray : Json → Option (List Json)
  | .array values => some values
  | _ => none

/-- `s.trim().is_empty()` -/
def blank (s : String) : Bool := s.toList.all Sanitizer.isWhitespace

def asStringVec : Option Json → List String
  | some (.string s) => [String.ofList s]
  | some (.array values) => values.filterMap asString
  | _ => []

/-- `sort` and `dedup` -/
def sortDedup (ss : List String) : List String := (ss.mergeSort fun a b => decide (a ≤ b)).dedup

def valueOrId : Json → Option String
  | .string s => some (String.ofList s)
  | .object members => (member "id" (.object members)).bind asString
  | _ => none

def first : Option Json → Option Json
  | some (.array values) => values.head?
  | some .null => none
  | v => v

def present : Option Json → Bool
  | none => false
  | some .null => false
  | some (.string s) => !blank (String.ofList s)
  | some (.array values) => !values.isEmpty
  | some (.object members) => !members.isEmpty
  | some (.bool b) => b
  | some (.number _) => true

def typeMatches (object : Json) (types : List String) : Bool :=
  match member "type" object with
  | some (.string s) => types.contains (String.ofList s)
  | some (.array values) => (values.filterMap asString).any types.contains
  | _ => false

/-! ### `StatusParser` -/

def supportedTypes : List String := ["Note", "Question"]

def convertedTypes : List String := ["Image", "Audio", "Video", "Article", "Page", "Event"]

def isStatusType (object : Json) : Bool :=
  typeMatches object supportedTypes || typeMatches object convertedTypes

def isConverted (object : Json) : Bool := typeMatches object convertedTypes

def presentStr (v : Option Json) : Option String := (v.bind asString).filter fun s => !blank s

def firstOfMap (object : Json) (key : String) : Option String :=
  match member key object with
  | some (.object (m :: _)) => asString m.2
  | _ => none

def text (object : Json) : Option String :=
  (presentStr (member "content" object)).or (firstOfMap object "contentMap")

def spoilerText (object : Json) : Option String :=
  (presentStr (member "summary" object)).or (firstOfMap object "summaryMap")

def processedSpoilerText (object : Json) : String :=
  if isConverted object then "" else (spoilerText object).getD ""

/-- The codes of `SUPPORTED_LOCALES`. -/
def supportedLocales : List String :=
  ["aa", "ab", "ae", "af", "ak", "am", "an", "ar", "as", "av", "ay", "az", "ba", "be", "bg", "bh",
    "bi", "bm", "bn", "bo", "br", "bs", "ca", "ce", "ch", "co", "cr", "cs", "cu", "cv", "cy",
    "da", "de", "dv", "dz", "ee", "el", "en", "eo", "es", "et", "eu", "fa", "ff", "fi", "fj",
    "fo", "fr", "fy", "ga", "gd", "gl", "gu", "gv", "ha", "he", "hi", "ho", "hr", "ht", "hu",
    "hy", "hz", "ia", "id", "ie", "ig", "ii", "ik", "io", "is", "it", "iu", "ja", "jv", "ka",
    "kg", "ki", "kj", "kk", "kl", "km", "kn", "ko", "kr", "ks", "ku", "kv", "kw", "ky", "la",
    "lb", "lg", "li", "ln", "lo", "lt", "lu", "lv", "mg", "mh", "mi", "mk", "ml", "mn", "mn-Mong",
    "mr", "ms", "ms-Arab", "mt", "my", "na", "nb", "nd", "ne", "ng", "nl", "nn", "no", "nr", "nv",
    "ny", "oc", "oj", "om", "or", "os", "pa", "pi", "pl", "ps", "pt", "qu", "rm", "rn", "ro",
    "ru", "rw", "sa", "sc", "sd", "se", "sg", "si", "sk", "sl", "sn", "so", "sq", "sr", "ss",
    "st", "su", "sv", "sw", "ta", "te", "tg", "th", "ti", "tk", "tl", "tn", "to", "tr", "ts",
    "tt", "tw", "ty", "ug", "uk", "ur", "uz", "ve", "vi", "vo", "wa", "wo", "xh", "yi", "yo",
    "za", "zh", "zu", "zh-CN", "zh-HK", "zh-TW", "zh-YUE", "ast", "chr", "ckb", "cnr", "csb",
    "gsw", "jbo", "kab", "ldn", "lfn", "lzz", "moh", "nds", "ota", "pdc", "sco", "sma", "smj",
    "szl", "tok", "vai", "xal", "xmf", "zba", "zgh", "nan-TW"]

def normalizedLocaleName (lang : String) : String :=
  (supportedLocales.find? fun code => LocalUri.eqIgnoreAsciiCase code lang).getD lang

def firstKey (object : Json) (key : String) : Option String :=
  match member key object with
  | some (.object (m :: _)) => some (String.ofList m.1)
  | _ => none

def language (object : Json) : Option String :=
  let raw := ((firstKey object "contentMap").or (firstKey object "nameMap")).or
    (firstKey object "summaryMap")
  (raw.filter fun l => !blank l).map normalizedLocaleName

/-! ### Quotes and who may quote -/

def quoteKeys : List String := ["quote", "_misskey_quote", "quoteUrl", "quoteUri"]

/-- `QuoteFields::parse` -/
def parseQuote (object : Json) : Option QuoteFields :=
  if quoteKeys.any fun key => present (member key object) then
    some
      { uri := quoteKeys.findSome? fun key => (first (member key object)).bind valueOrId
        deleted :=
          ((member "quote" object).bind (member "type")).bind asString = some "Tombstone"
        legacy := (member "quote" object).isNone
        approvalUri := (first (member "quoteAuthorization" object)).bind valueOrId }
  else none

def publicActors : List String := ["as:Public", "Public", Addressing.activityStreamsPublic]

def take (candidates actors : List String) : List String × Bool :=
  let left := actors.filter fun a => !candidates.contains a || decide (a = "")
  (left, decide (left.length ≠ actors.length))

def policyActors : Option Json → List String
  | some (.string s) => [String.ofList s]
  | some (.array values) => values.filterMap valueOrId
  | _ => []

/-- `sub`, the flags of the actors that a policy names. -/
def sub (followers following actor : String) (v : Option Json) : BitVec 32 :=
  let actors := sortDedup (policyActors v)
  let anyone := take publicActors actors
  let followed :=
    if followers = "" then (anyone.1, false) else take [followers] anyone.1
  let follows :=
    if following = "" then (followed.1, false) else take [following] followed.1
  let others := (take [actor] follows.1).1
  (if anyone.2 then Quotes.publicPolicy else 0) |||
    (if followed.2 then Quotes.followersPolicy else 0) |||
    (if follows.2 then Quotes.followingPolicy else 0) |||
    (if others = [] then 0 else Quotes.unsupportedPolicy)

/-- `quote_policy::parse` -/
def quotePolicy (object : Json) (followers following actor : String) : BitVec 32 :=
  match (member "interactionPolicy" object).bind (member "canQuote") with
  | some (.object members) =>
      let policy := Value.object members
      (sub followers following actor (member "automaticApproval" policy)) <<< 16 |||
        sub followers following actor (member "manualApproval" policy)
  | _ => 0

/-! ### The database -/

/-- Columns of `statuses` beside those that other tables refer to. -/
structure Columns where
  text : String
  spoilerText : String
  sensitive : Bool
  reply : Bool
  language : Option String
  createdAt : ℤ
  editedAt : Option ℤ
  deriving DecidableEq

structure Poll where
  id : ℕ
  statusId : ℕ
  accountId : ℕ
  options : List String
  cachedTallies : List ℤ
  votesCount : ℤ
  votersCount : Option ℤ
  multiple : Bool
  expiresAt : Option ℤ
  deriving DecidableEq

structure Vote where
  accountId : ℕ
  pollId : ℕ
  choice : ℕ
  uri : String
  deriving DecidableEq

/-- What else is stored, by the ids of accounts and of statuses. -/
structure World extends Quotes.World where
  followersUrls : ℕ → String
  followingUrls : ℕ → String
  sensitized : ℕ → Bool
  columns : ℕ → Option Columns
  polls : List Poll
  votes : List Vote
  tombstones : List String
  undone : List (String × String)

structure Env extends Instance where
  quotes : Quotes.Env
  nonMatchingUriHosts : String → String → Bool
  sameOrigin : String → String → Bool
  parseRfc3339 : String → Option ℤ
  /-- The text of a converted object. -/
  convertedText : Json → String
  /-- `fetch_resource_without_id_validation` -/
  fetchResource : String → Option Json
  fetchRemoteStatus : World → String → World

/-- What comes with a `Create`: the ids that are next, the time, and what other servers answer
about its quote. -/
structure Arrival where
  statusId : ℕ
  quoteId : ℕ
  pollId : ℕ
  now : ℤ
  fetched : Bool
  answers : Quotes.Answers

/-! ### Polls -/

/-- `handle_poll_vote_note`, and whether the note is a vote. -/
def handlePollVoteNote (w : World) (now : ℤ) (voterId statusId : ℕ) (choiceName voteUri : String) :
    World × Bool :=
  match w.polls.find? (·.statusId = statusId) with
  | none => (w, false)
  | some poll =>
      if poll.expiresAt.any (· < now) then (w, true)
      else
        match poll.options.findIdx? (· = choiceName) with
        | none => (w, true)
        | some choice =>
            let alreadyVoted := w.votes.any fun v => v.pollId = poll.id ∧ v.accountId = voterId
            if !poll.multiple && alreadyVoted then (w, true)
            else
              let votes := w.votes ++ [⟨voterId, poll.id, choice, voteUri⟩]
              let count (p : Poll) : Poll :=
                { p with
                  votesCount := votes.countP fun v => v.pollId = poll.id
                  votersCount :=
                    if poll.multiple && !alreadyVoted then some (p.votersCount.getD 0 + 1)
                    else p.votersCount }
              let polls := w.polls.map fun p => if p.id = poll.id then count p else p
              ({ w with votes := votes, polls := polls }, true)

/-- The poll of a `Create`, of the status just stored. -/
def pollOf (e : Env) (a : Arrival) (accountId : ℕ) (object : Json) : Option Poll :=
  (((member "oneOf" object).or (member "anyOf" object)).bind asArray).map fun items =>
    let cachedTallies := items.map fun item =>
      (((member "replies" item).bind (member "totalItems")).bind asI64).getD 0
    { id := a.pollId
      statusId := a.statusId
      accountId := accountId
      options := items.filterMap fun item => (member "name" item).bind asString
      cachedTallies := cachedTallies
      votesCount := cachedTallies.sum
      votersCount := none
      multiple := (member "anyOf" object).isSome
      expiresAt := ((member "endTime" object).bind asString).bind e.parseRfc3339 }

def insertPoll (w : World) (poll : Poll) : World :=
  if w.polls.any (·.statusId = poll.statusId) then w else { w with polls := w.polls ++ [poll] }

/-! ### `create` -/

def actorOf (activity : Json) : String := ((member "actor" activity).bind asString).getD ""

def objectOf (e : Env) (activity : Json) : Option Json :=
  match member "object" activity with
  | some (.object members) => some (.object members)
  | some (.string uri) =>
      if e.nonMatchingUriHosts (actorOf activity) (String.ofList uri) then none
      else
        (e.fetchResource (String.ofList uri)).filter fun object =>
          decide ((member "id" object).bind asString = some (String.ofList uri))
  | _ => none

/-- Whom the note says it is by. -/
def attributed (object : Json) : List String :=
  match member "attributedTo" object with
  | some (.string uri) => [String.ofList uri]
  | some (.array items) => items.filterMap valueOrId
  | some (.object members) => ((member "id" (.object members)).bind asString).toList
  | _ => []

def audience (activity object : Json) : List String :=
  sortDedup (asStringVec (member "to" activity) ++ asStringVec (member "cc" activity) ++
    asStringVec (member "to" object) ++ asStringVec (member "cc" object))

def visibility (object : Json) : Visibility :=
  Addressing.fromAudience (asStringVec (member "to" object)) (asStringVec (member "cc" object))

def inReplyTo (db : Db) (object : Json) : Option (Status × Account) :=
  ((member "inReplyTo" object).bind asString).bind fun uri =>
    (db.statusByUri uri).bind fun s => (db.account s.accountId).map fun a => (s, a)

/-- It concerns someone here. -/
def related (db : Db) (accountId : ℕ) (activity object : Json) : Bool :=
  let isFollowedLocally := db.follows.rows.any fun f =>
    f.targetAccountId = accountId ∧ isLocal db f.accountId = true
  let addressesLocal := (audience activity object).any fun uri =>
    db.accounts.rows.any fun a => a.uri = some uri ∧ a.domain = none
  let inReplyToLocal := (inReplyTo db object).any fun parent => parent.2.domain.isNone
  let throughRelay :=
    ((member "eunha:requestedThroughRelay" activity).bind asBool).getD false &&
      (visibility object).distributable
  isFollowedLocally || addressesLocal || inReplyToLocal || throughRelay

def columnsOf (e : Env) (w : World) (a : Arrival) (accountId : ℕ) (object : Json) : Columns :=
  let time (key : String) := ((member key object).bind asString).bind e.parseRfc3339
  let published := time "published"
  { text := if isConverted object then e.convertedText object else (text object).getD ""
    spoilerText := processedSpoilerText object
    sensitive := ((member "sensitive" object).bind asBool).getD false || w.sensitized accountId
    reply := ((member "inReplyTo" object).bind asString).isSome
    language := language object
    createdAt := published.getD a.now
    editedAt := (time "updated").filter fun edited => some edited ≠ published }

def remoteQuotePolicy (w : World) (accountId : ℕ) (object : Json) : BitVec 32 :=
  match w.db.account accountId with
  | none => 0
  | some account =>
      quotePolicy object (w.followersUrls accountId) (w.followingUrls accountId)
        (account.uri.getD "")

def rowOf (a : Arrival) (db : Db) (accountId : ℕ) (noteUri : String) (object : Json) : Status where
  id := a.statusId
  accountId := accountId
  uri := some noteUri
  visibility := visibility object
  inReplyToId := (inReplyTo db object).map (·.1.id)
  reblogOfId := none
  deleted := false

def insertStatus (e : Env) (w : World) (a : Arrival) (accountId : ℕ) (noteUri : String)
    (object : Json) : World :=
  { w with
    db := insertCounted w.db (rowOf a w.db accountId noteUri object)
    quotePolicies :=
      Function.update w.quotePolicies a.statusId (remoteQuotePolicy w accountId object)
    columns := Function.update w.columns a.statusId (some (columnsOf e w a accountId object)) }

def processQuote (e : Env) (w : World) (a : Arrival) (accountId : ℕ) (object : Json) : World :=
  match parseQuote object with
  | none => w
  | some fields =>
      { w with
        toWorld :=
          Quotes.processQuote e.quotes w.toWorld a.statusId accountId a.quoteId fields a.answers }

def store (e : Env) (w : World) (a : Arrival) (accountId : ℕ) (noteUri : String) (object : Json) :
    World :=
  if w.db.statuses.Taken (rowOf a w.db accountId noteUri object) then w
  else
    let w := processQuote e (insertStatus e w a accountId noteUri object) a accountId object
    match pollOf e a accountId object with
    | none => w
    | some poll => insertPoll w poll

/-- A note that its sender may vouch for: a vote, something that concerns someone here, or
nothing. -/
def perform (e : Env) (w : World) (a : Arrival) (accountId : ℕ) (noteUri : String)
    (activity object : Json) : World :=
  let voted :=
    match inReplyTo w.db object, ((member "name" object).bind asString).filter (· ≠ "") with
    | some parent, some choiceName =>
        handlePollVoteNote w a.now accountId parent.1.id choiceName noteUri
    | _, _ => (w, false)
  if voted.2 then voted.1
  else if !a.fetched && !related w.db accountId activity object then w
  else store e w a accountId noteUri object

def create (e : Env) (w : World) (a : Arrival) (activity : Json) : World :=
  match objectOf e activity with
  | none => w
  | some object =>
      if !isStatusType object then w
      else
        let actorUri := actorOf activity
        let noteUri := ((member "id" object).bind asString).getD ""
        if noteUri = "" ∨ actorUri = "" then w
        else if e.nonMatchingUriHosts actorUri noteUri then w
        else if !e.sameOrigin noteUri actorUri ||
            (!(attributed object).isEmpty && !(attributed object).contains actorUri) then
          e.fetchRemoteStatus w noteUri
        else if State.deleteArrivedFirst ⟨w.db, w.undone⟩ actorUri noteUri then w
        else if w.tombstones.contains noteUri then w
        else
          match resolveOrFetch e.toInstance w.db actorUri with
          | none => w
          | some (db, accountId) =>
              perform e { w with db := db } a accountId noteUri activity object

end Eunha.NoteReading
