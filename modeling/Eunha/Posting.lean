import Eunha.Polls
import Eunha.Programs
import Eunha.Quotes
import Eunha.SignedIds

/-!
# Posting, statement by statement

`post_status` as the statements it runs. What it reads decides whether it replays an earlier
answer, schedules, posts or refuses, before anything is written. A post is then a row of
`statuses` and what is hung on it afterwards, each in a statement of its own and none of them
in a transaction. Times are in microseconds.
-/
namespace Eunha.Posting
open Tables Database Statuses Quotes Programs Program
open Roles (AppError)
open Polls (Poll)
open Sanitizer (trim)

/-! ### The database -/

/-- `vis::from_str` -/
def visFromStr : String → Visibility
  | "public" => .pub
  | "unlisted" => .unlisted
  | "private" => .priv
  | _ => .direct

/-- The columns of `statuses` that come with a post, beside those of the row. -/
structure Columns where
  text : String
  spoilerText : String
  language : Option String
  sensitive : Bool
  inReplyToAccountId : Option ℕ
  reply : Bool
  url : String
  applicationId : Option ℕ
  conversationId : Option ℕ
  pollId : Option ℕ
  deriving DecidableEq

structure Media where
  id : ℕ
  accountId : ℕ
  statusId : Option ℕ
  type : ℕ
  processing : Option ℕ
  deriving DecidableEq

def Media.keys (m : Media) : List ℕ := [m.id]

structure PollForm where
  options : List String
  expiresIn : Option ℤ
  multiple : Option Bool
  hideTotals : Option Bool
  deriving DecidableEq

/-- `scheduled_statuses.params`: a member that is missing or of another type reads as none. -/
structure Params where
  text : Option String
  visibility : Option String
  spoilerText : Option String
  sensitive : Option Bool
  language : Option String
  inReplyToId : Option String
  mediaIds : Option (List String)
  poll : Option PollForm
  deriving DecidableEq

structure Scheduled where
  id : ℕ
  accountId : ℕ
  scheduledAt : Option ℤ
  params : Option Params
  deriving DecidableEq

structure AccountConversation where
  accountId : ℕ
  conversationId : ℕ
  participantAccountIds : List ℕ
  statusIds : List ℕ
  lastStatusId : ℕ
  unread : Bool
  deriving DecidableEq

/-- A value of `users.settings`. -/
inductive Setting where
  | string (s : String)
  | bool (b : Bool)
  | other
  deriving DecidableEq

def Setting.asStr : Setting → Option String
  | .string s => some s
  | _ => none

def Setting.asBool : Setting → Option Bool
  | .bool b => some b
  | _ => none

/-- What goes out to other servers. -/
inductive Activity where
  | create (statusId : ℕ)
  | quoteRequest (uri quotedStatusUri instrument : String)
  deriving DecidableEq

structure Delivery where
  activity : Activity
  inboxes : List String
  deriving DecidableEq

/-- The database, what Redis coordinates, and what is queued for delivery. -/
structure World extends Quotes.World where
  /-- `accounts.id_scheme` and `accounts.inbox_url`, by the account's id. -/
  idSchemes : ℕ → Option ℤ
  inboxUrls : ℕ → String
  /-- `users.settings`, by the account's id. -/
  settings : ℕ → String → Option Setting
  columns : ℕ → Option Columns
  media : Table Media.keys
  polls : Serial Poll.id
  /-- `polls.hide_totals`, by the poll's id. -/
  hideTotals : ℕ → Bool
  /-- The rows of `statuses_tags`: a status and a tag's name. -/
  tags : List (ℕ × String)
  nextConversationId : ℕ
  accountConversations : List AccountConversation
  scheduled : Serial Scheduled.id
  /-- `idempotency:<account>:<key>`, with the time it expires. -/
  keys : ℕ × String → Option (ℕ × ℤ)
  deliveries : List Delivery

def World.setColumns (w : World) (id : ℕ) (f : Columns → Columns) : World :=
  { w with columns := Function.update w.columns id ((w.columns id).map f) }

@[simp] theorem World.columns_setColumns (w : World) (id : ℕ) (f : Columns → Columns) :
    (w.setColumns id f).columns = Function.update w.columns id ((w.columns id).map f) := rfl

/-- `SELECT conversation_id FROM statuses WHERE id = …` -/
def World.conversation (w : World) (id : ℕ) : Option ℕ :=
  (w.columns id).bind (·.conversationId)

/-- What is not in the database, and the code that reads texts. -/
structure Env where
  domain : String
  countableLength : String → String → ℕ
  graphemes : String → ℕ
  extractHashtags : String → List String
  extractMentionHandles : String → List (String × Option String)
  /-- `search::tags::normalize`, of a name as it is written. -/
  tagName : String → String
  /-- `LOWER` of the database. -/
  lower : String → String
  /-- The account that WebFinger and its actor document lead to. -/
  resolveActor : String → String → Option ℕ
  /-- `SUPPORTED_LOCALES` -/
  supportedLocale : String → Bool
  parseRfc3339 : String → Option ℤ
  hasSigningKey : ℕ → Bool
  /-- `status_reach_inboxes` -/
  reach : World → ℕ → Option ℕ → List String

def defaultLocale : String := "en"
def second : ℤ := 1000000
def minute : ℤ := 60 * second
def day : ℤ := 86400 * second
def numericApId : ℤ := 1
def mediaAttachmentsLimit : ℕ := 4

/-- `tag::account_uri`, of an account that is not the instance's own. -/
def accountUri (domain : String) (id : ℕ) (idScheme : Option ℤ) (username : String) : String :=
  if idScheme = some numericApId then s!"https://{domain}/ap/users/{id}"
  else s!"https://{domain}/users/{username}"

def statusUri (domain : String) (accountId : ℕ) (idScheme : Option ℤ) (username : String)
    (statusId : ℕ) : String :=
  let account := accountUri domain accountId idScheme username
  s!"{account}/statuses/{statusId}"

/-! ### Settings and languages -/

structure UserDefaults where
  privacy : String
  sensitive : Bool
  language : Option String
  quotePolicy : String
  deriving DecidableEq

/-- What `user_defaults` makes of the settings and of whether the account is locked. -/
def UserDefaults.read (s : String → Option Setting) (locked : Bool) : UserDefaults where
  privacy := (((s "default_privacy").or (s "privacy")).bind Setting.asStr).getD
    (if locked then "private" else "public")
  sensitive := (((s "default_sensitive").or ((s "web.default_sensitive").or (s "sensitive"))).bind
    Setting.asBool).getD false
  language := ((s "default_language").or (s "language")).bind Setting.asStr
  quotePolicy := (((s "default_quote_policy").or (s "quote_policy")).bind Setting.asStr).getD
    "public"

section
variable (e : Env)

def validLocaleOrNil (locale : Option String) : Option String :=
  match locale.filter fun l => !(trim l.toList).isEmpty with
  | none => none
  | some locale =>
      let code := String.ofList (locale.toList.takeWhile fun c => c ≠ '_' ∧ c ≠ '-')
      if e.supportedLocale locale then some locale
      else if e.supportedLocale code then some code
      else none

def validLocaleCascade (locales : List (Option String)) : Option String :=
  locales.findSome? (validLocaleOrNil e)

/-! ### The statements of a post -/

inductive Statement where
  | account
  | getKey
  | keptByKey
  | mediaOfKept
  | buildKept
  | countTotal
  | countDaily
  | insertScheduled
  | settings
  | locked
  | parent
  | quoted
  | properQuoted
  | quoteRelation
  | mention (username : String) (domain : Option String)
  | mentionActor (username : String) (domain : String)
  | media (id : ℤ)
  | insertStatus
  | quotedAuthor
  | insertQuote
  | findQuote
  | clearTags
  | findTag (name : String)
  | insertTag (name : String)
  | featuredTags
  | clearMentions
  | insertMention (accountId : ℕ)
  | quotedAccess
  | parentConversation
  | insertConversation
  | setConversation
  | touchConversation
  | ownConversation
  | theirConversation (accountId : ℕ)
  | countPost
  | countReply
  | attachMedia (id : ℤ)
  | insertPoll
  | linkPoll
  | loadMedia
  | buildStatus
  | signingKey
  | buildNote
  | quotedInbox
  | enqueueQuoteRequest
  | reach
  | enqueueCreate
  | setKey
  deriving DecidableEq

inductive Error where
  | app (e : AppError)
  | notFoundMsg (message : String)
  | database
  /-- The 422 that names the accounts mentioned beyond those allowed. -/
  | unexpectedAccounts (ids : List ℕ)
  deriving DecidableEq

def unprocessable (message : String) : Error := .app (.unprocessable message)

inductive Answer where
  | status (id : ℕ)
  | scheduled (id : ℕ)
  deriving DecidableEq

abbrev Post (α : Type) : Type := Program Statement World Error α

variable {ε : Type}

def read (l : Statement) (f : World → α) : Post α := ask l .database f

def write (l : Statement) (f : World → World) : Post Unit := exec l .database f

def require (c : Bool) (error : Error) : Post Unit := if c then done () else fail error

def orFail (a : Option α) (error : Error) : Post α :=
  match a with
  | some a => done a
  | none => fail error

/-! ### The request -/

structure PostStatusForm where
  status : Option String
  inReplyToId : Option String
  quotedStatusId : Option String
  quoteApprovalPolicy : Option String
  spoilerText : Option String
  sensitive : Option Bool
  language : Option String
  visibility : Option String
  mediaIds : Option (List String)
  poll : Option PollForm
  scheduledAt : Option String
  allowedMentions : Option (List String)
  deriving DecidableEq

/-- An authenticated request, with the clock and the ids it runs into. -/
structure Request where
  accountId : ℕ
  applicationId : Option ℕ
  idempotencyKey : Option String
  form : PostStatusForm
  now : ℤ
  statusId : ℕ
  quoteId : ℕ
  quoteRequestId : String

/-- A lone content warning is promoted into the body. -/
def promoted (form : PostStatusForm) : String × String :=
  let text := form.status.getD ""
  let spoilerText := form.spoilerText.getD ""
  if text.isEmpty ∧ !spoilerText.isEmpty ∧ form.quotedStatusId.isNone then (spoilerText, "")
  else (text, spoilerText)

def pollMaxOptions : ℕ := 4
def pollMaxOptionChars : ℕ := 50
def pollMinExpiration : ℤ := 5 * 60
def pollMaxExpiration : ℤ := 2629746

def validatePollForm (poll : PollForm) : Except Error Unit :=
  if poll.options.length < 2 then
    .error (unprocessable "Validation failed: Poll must have at least 2 options")
  else if pollMaxOptions < poll.options.length then
    .error (unprocessable s!"Validation failed: Poll can have at most {pollMaxOptions} options")
  else if poll.options.any fun o => (trim o.toList).isEmpty then
    .error (unprocessable "Validation failed: Poll options cannot be blank")
  else if poll.options.any fun o => pollMaxOptionChars < e.graphemes o then
    .error (unprocessable
      s!"Validation failed: Poll options cannot be longer than {pollMaxOptionChars} characters")
  else if !decide poll.options.Nodup then
    .error (unprocessable "Validation failed: Poll options must be unique")
  else
    match poll.expiresIn with
    | none => .error (unprocessable "Validation failed: Poll expiration can't be blank")
    | some secs =>
        if secs < pollMinExpiration then
          .error (unprocessable "Validation failed: Poll duration is too short")
        else if pollMaxExpiration < secs then
          .error (unprocessable "Validation failed: Poll duration is too long")
        else .ok ()

def attempt (x : Except Error α) : Post α :=
  match x with
  | .ok a => done a
  | .error error => fail error

def checkForm (form : PostStatusForm) : Except Error Unit :=
  let (text, spoilerText) := promoted form
  if text.isEmpty ∧ form.mediaIds.all (·.isEmpty) ∧ form.poll.isNone then
    .error (unprocessable "Status must have text or media")
  else if 500 < e.countableLength text spoilerText then
    .error (unprocessable "Validation failed: Text character limit of 500 exceeded")
  else
    match form.poll with
    | some poll => validatePollForm e poll
    | none => .ok ()

def paramsOf (form : PostStatusForm) : Params where
  text := some (promoted form).1
  visibility := form.visibility
  spoilerText := some (promoted form).2
  sensitive := form.sensitive
  language := form.language
  inReplyToId := form.inReplyToId
  mediaIds := form.mediaIds
  poll := form.poll

/-! ### What is read before anything is written -/

def parseId (text : String) : Option ℤ := (SignedIds.parseI64 text.toList).map Int64.toInt

/-- `SELECT … FROM statuses WHERE id = … AND deleted_at IS NULL`, of an id as it is sent. -/
def keptAt (db : Db) (id : ℤ) : Option Status := id.toNat?.bind db.keptStatus

/-- `redis.get`, of a key that has not expired. -/
def storedKey (w : World) (key : ℕ × String) (now : ℤ) : Option ℕ :=
  ((w.keys key).filter fun (_, expiry) => now < expiry).map (·.1)

def replay (r : Request) : Post (Option ℕ) :=
  match r.idempotencyKey with
  | none => done none
  | some key => do
      let stored ← askOr .getKey (fun w => storedKey w (r.accountId, key) r.now) none
      match stored with
      | none => done none
      | some id => do
          let kept ← read .keptByKey fun w => w.db.keptStatus id
          match kept with
          | none => done none
          | some status => do
              read .mediaOfKept fun _ => ()
              read .buildKept fun _ => ()
              done (some status.id)

def schedule (r : Request) : Post (Option ℤ) :=
  match r.form.scheduledAt with
  | none => done none
  | some text => do
      let time ← orFail (e.parseRfc3339 text) (unprocessable "Invalid scheduled_at format")
      if time ≤ r.now then done none
      else do
        require (r.now + 5 * minute < time)
          (unprocessable "Validation failed: Scheduled date must be in the future")
        let total ← read .countTotal fun w =>
          w.scheduled.rows.countP (·.accountId = r.accountId)
        require (total < 300)
          (unprocessable "Validation failed: Total number of scheduled statuses exceeded")
        let daily ← read .countDaily fun w =>
          w.scheduled.rows.countP fun s =>
            s.accountId = r.accountId ∧ s.scheduledAt.any (· / day = time / day)
        require (daily < 25)
          (unprocessable "Validation failed: Daily number of scheduled statuses exceeded")
        done (some time)

def clientVisibilities : List String := ["public", "unlisted", "private", "direct"]

def checkVisibility (visibility : Option String) : Post Unit :=
  match visibility with
  | none => done ()
  | some v =>
      require (clientVisibilities.contains v)
        (unprocessable s!"Validation failed: Visibility is not included in the list: {v}")

/-- `user_defaults`: a read that fails leaves what it reads out. -/
def userDefaults (accountId : ℕ) : Program Statement World ε UserDefaults := do
  let settings ← askOr .settings (fun w => w.settings accountId) fun _ => none
  let locked ← askOr .locked (fun w => (w.db.account accountId).any (·.locked)) false
  done (.read settings locked)

def parentAuthor (inReplyToId : Option ℤ) : Post (Option ℕ) :=
  match inReplyToId with
  | none => done none
  | some id => do
      let author ← read .parent fun w => (keptAt w.db id).map (·.accountId)
      let author ← orFail author (unprocessable "in_reply_to_id does not exist")
      done (some author)

def quotedNotFound : Error :=
  .notFoundMsg "The post you are trying to quote does not appear to exist."

/-- `set_quoted_status` -/
def quotedStatus (accountId : ℕ) (quotedStatusId : Option String) : Post (Option Status) :=
  match quotedStatusId with
  | none => done none
  | some text => do
      let id ← orFail (parseId text) quotedNotFound
      let found ← read .quoted fun w => (keptAt w.db id).map fun s => s.reblogOfId.getD s.id
      let found ← orFail found quotedNotFound
      let quoted ← read .properQuoted fun w => w.db.keptStatus found
      let quoted ← orFail quoted quotedNotFound
      let relation ← read .quoteRelation fun w =>
        (w.db.account quoted.accountId).map fun _ => quotable w.toWorld accountId quoted
      let allowed ← orFail relation quotedNotFound
      require allowed quotedNotFound
      done (some quoted)

/-- One handle of `resolve_mention_accounts`. -/
def resolveMention (username : String) (domain : Option String) :
    Program Statement World ε (Option Account) := do
  let domain := domain.filter fun d => e.domain.isEmpty || d.toLower ≠ e.domain.toLower
  let known ← askOr (.mention username domain)
    (fun w => w.db.accounts.rows.find? fun a =>
      e.lower a.username = username ∧ a.domain = domain) none
  match known, domain with
  | none, some d =>
      askOr (.mentionActor username d) (fun w => (e.resolveActor username d).bind w.db.account)
        none
  | known, _ => done known

def resolveMentionAccounts :
    List (String × Option String) → Program Statement World ε (List Account)
  | [] => done []
  | (username, domain) :: handles => do
      let account ← resolveMention e username domain
      let accounts ← resolveMentionAccounts handles
      done (account.toList ++ accounts)

def attachable (accountId : ℕ) : List String → Post (List Media)
  | [] => done []
  | text :: texts => do
      let id ← orFail (parseId text) (unprocessable s!"media_ids: invalid id '{text}'")
      let row ← read (.media id) fun w =>
        w.media.rows.find? fun m => (m.id : ℤ) = id ∧ m.accountId = accountId ∧
          m.statusId.isNone
      let media ← orFail row (unprocessable
        s!"media_ids: '{text}' not found, already attached, or not owned by you")
      let rest ← attachable accountId texts
      done (media :: rest)

def validateMedia (accountId : ℕ) (mediaIds : Option (List String)) : Post (List Media) :=
  match mediaIds with
  | none => done []
  | some ids => do
      require (ids.length ≤ mediaAttachmentsLimit) (unprocessable
        s!"Validation failed: Cannot attach more than {mediaAttachmentsLimit} files")
      let media ← attachable accountId ids
      require (!(decide (1 < media.length) && media.any fun m => m.type = 2 || m.type = 3))
        (unprocessable ("Validation failed: Cannot attach a video or audio file to a post that " ++
          "contains other media"))
      require (media.all fun m => m.processing.all (· = 2))
        (unprocessable ("Validation failed: Cannot attach files that have not finished " ++
          "processing. Try again in a moment!"))
      done media

def fromApi : String → Option (BitVec 32)
  | "public" => some (publicPolicy <<< 16)
  | "followers" => some (followersPolicy <<< 16)
  | "nobody" => some 0
  | _ => none

/-- A post only some may see lets nobody quote it. -/
def downgradeQuotePolicy (visibility : Visibility) (policy : BitVec 32) : BitVec 32 :=
  match visibility with
  | .pub | .unlisted => policy
  | _ => 0

/-- A post that is in order, as it is to be inserted. -/
structure Draft where
  id : ℕ
  accountId : ℕ
  uri : String
  visibility : String
  inReplyToId : Option ℤ
  columns : Columns
  quotePolicy : BitVec 32
  quoted : Option Status
  resolved : List Account
  hashtags : List String
  mediaIds : List ℕ
  poll : Option PollForm

/-- The row of `statuses` for a post. -/
def Draft.row (d : Draft) : Status where
  id := d.id
  accountId := d.accountId
  uri := some d.uri
  visibility := visFromStr d.visibility
  inReplyToId := d.inReplyToId.map Int.toNat
  reblogOfId := none
  deleted := false

def silencedVisibility (account : Account) (visibility : String) : String :=
  if visibility = "public" ∧ account.silenced then "unlisted" else visibility

def quotingVisibility (quoted : Option Status) (visibility : String) : String :=
  match quoted with
  | some quoted =>
      if quoted.visibility = .priv ∧ (visibility = "public" ∨ visibility = "unlisted") then
        "private"
      else visibility
  | none => visibility

/-- `safeguard_private_mention_quote!` -/
def quoteMentioned (accountId : ℕ) (visibility : String) (quoted : Option Status)
    (resolved : List Account) : Bool :=
  visibility ≠ "direct" || quoted.all fun q =>
    q.accountId = accountId || resolved.any (·.id = q.accountId)

def unexpected (allowed : Option (List String)) (resolved : List Account) : List ℕ :=
  match allowed with
  | none => []
  | some ids => (resolved.filter fun a => !ids.contains (toString a.id)).map (·.id)

def prepare (account : Account) (idScheme : Option ℤ) (r : Request) : Post Draft := do
  let form := r.form
  checkVisibility form.visibility
  let defaults ← userDefaults r.accountId
  let visibility := silencedVisibility account (form.visibility.getD defaults.privacy)
  let sensitive := form.sensitive.getD defaults.sensitive || !(form.spoilerText.getD "").isEmpty
  let language := validLocaleCascade e [form.language, defaults.language, some defaultLocale]
  let inReplyToId := form.inReplyToId.bind parseId
  let inReplyToAccountId ← parentAuthor inReplyToId
  let quoted ← quotedStatus account.id form.quotedStatusId
  let visibility := quotingVisibility quoted visibility
  let text := (promoted form).1
  let resolved ← resolveMentionAccounts e (e.extractMentionHandles text)
  require (quoteMentioned account.id visibility quoted resolved)
    (unprocessable ("Validation failed: Cannot quote a non-mentioned user in a Private Mention " ++
      "post."))
  require (unexpected form.allowedMentions resolved).isEmpty
    (.unexpectedAccounts (unexpected form.allowedMentions resolved))
  let media ← validateMedia account.id form.mediaIds
  let requested := (form.quoteApprovalPolicy.filter (!·.isEmpty)).getD defaults.quotePolicy
  let policy ← orFail (fromApi requested) (unprocessable "Record invalid")
  done
    { id := r.statusId
      accountId := account.id
      uri := statusUri e.domain account.id idScheme account.username r.statusId
      visibility := visibility
      inReplyToId := inReplyToId
      columns :=
        { text := text
          spoilerText := (promoted form).2
          language := language
          sensitive := sensitive
          inReplyToAccountId := inReplyToAccountId
          reply := inReplyToId.isSome
          url := s!"https://{e.domain}/@{account.username}/{r.statusId}"
          applicationId := r.applicationId
          conversationId := none
          pollId := none }
      quotePolicy := downgradeQuotePolicy (visFromStr visibility) policy
      quoted := quoted
      resolved := resolved
      hashtags := e.extractHashtags text
      mediaIds := media.map (·.id)
      poll := form.poll }

/-- `fetch_account`, with the scheme its URI is under. -/
def fetchAccount (accountId : ℕ) : Post (Account × Option ℤ) := do
  let row ← read .account fun w => (w.db.account accountId).map (·, w.idSchemes accountId)
  orFail row (.app .notFound)

/-- What becomes of a request. -/
inductive Plan where
  | replay (statusId : ℕ)
  | schedule (time : ℤ)
  | post (account : Account) (idScheme : Option ℤ) (draft : Draft)

/-- `post_status`, up to what it writes first. -/
def plan (r : Request) : Post Plan := do
  let (account, idScheme) ← fetchAccount r.accountId
  let replayed ← replay r
  match replayed with
  | some id => done (.replay id)
  | none => do
      attempt (checkForm e r.form)
      let scheduled ← schedule e r
      match scheduled with
      | some time => done (.schedule time)
      | none => do
          let draft ← prepare e account idScheme r
          done (.post account idScheme draft)

/-! ### What is written -/

/-- `INSERT INTO scheduled_statuses` -/
def insertScheduled (r : Request) (time : ℤ) : Post ℕ :=
  .statement .insertScheduled
    (fun w =>
      { w with
        scheduled := w.scheduled.insert
          (fun id =>
            { id := id
              accountId := r.accountId
              scheduledAt := some time
              params := some (paramsOf r.form) }) fun _ => rfl })
    (fun w => done w.scheduled.next) (fail .database)

/-- A unique index or a foreign key of `statuses` refuses the row. -/
def refused (w : World) (d : Draft) : Bool :=
  w.db.statuses.Taken d.row || (w.db.account d.accountId).isNone ||
    d.inReplyToId.any fun id => !w.db.statuses.rows.any fun s => (s.id : ℤ) = id

def insertRow (d : Draft) (w : World) : World :=
  if refused w d then w
  else
    { w with
      db := { w.db with statuses := w.db.statuses.insert d.row }
      quotePolicies := Function.update w.quotePolicies d.id d.quotePolicy
      columns := Function.update w.columns d.id (some d.columns) }

/-- `INSERT INTO statuses` -/
def insertStatus (d : Draft) : Post Unit :=
  .statement .insertStatus (insertRow d)
    (fun w => if refused w d then fail .database else done ()) (fail .database)

/-- The row of `quotes` for a post. -/
def quoteRow (e : Env) (account : Account) (idScheme : Option ℤ) (r : Request) (d : Draft)
    (quoted : Status) (remote : Bool) : Quote where
  id := r.quoteId
  accountId := d.accountId
  statusId := d.id
  quotedStatusId := some quoted.id
  quotedAccountId := some quoted.accountId
  state := if remote then .pending else .accepted
  approvalUri := none
  activityUri :=
    if remote then
      let actor := accountUri e.domain account.id idScheme account.username
      some s!"{actor}/quote_requests/{r.quoteRequestId}"
    else none
  legacy := false

/-- A unique index of `quotes` holds the row off. -/
def quoteTaken (w : World) (quote : Quote) : Bool :=
  w.quotes.Taken quote || w.quotes.rows.any (sameActivity quote)

/-- `INSERT INTO quotes … ON CONFLICT DO NOTHING RETURNING id` -/
def insertQuote (quote : Quote) : Post (Option ℕ) :=
  .statement .insertQuote
    (fun w => if quoteTaken w quote then w else { w with quotes := w.quotes.insert quote })
    (fun w => done (if quoteTaken w quote then none else some quote.id)) (fail .database)

def attachQuote (account : Account) (idScheme : Option ℤ) (r : Request) (d : Draft) :
    Post (Option Quote) :=
  match d.quoted with
  | none => done none
  | some quoted => do
      let remote ← read .quotedAuthor fun w => !isLocal w.db quoted.accountId
      let id ← insertQuote (quoteRow e account idScheme r d quoted remote)
      match id with
      | none => done none
      | some id => read .findQuote fun w => w.quote id

def storeStatusesTags (statusId : ℕ) (hashtags : List String) : Post Unit := do
  write .clearTags fun w => { w with tags := w.tags.filter (·.1 ≠ statusId) }
  each
    (fun written => do
      let name := e.tagName written
      if name.isEmpty then done ()
      else do
        read (.findTag written) fun _ => ()
        write (.insertTag written) fun w =>
          { w with
            tags := if w.tags.contains (statusId, name) then w.tags
              else w.tags ++ [(statusId, name)] })
    hashtags
  write .featuredTags id

def storeStatusMentions (statusId : ℕ) (resolved : List Account) : Post Unit := do
  write .clearMentions fun w => { w with mentions := w.mentions.filter (·.1 ≠ statusId) }
  each
    (fun account => write (.insertMention account.id) fun w =>
      { w with
        mentions := if w.mentions.contains (statusId, account.id) then w.mentions
          else w.mentions ++ [(statusId, account.id)] })
    resolved

def ensureQuotedAccess (quote : Option Quote) : Post Unit :=
  match quote with
  | none => done ()
  | some quote =>
      (write .quotedAccess fun w =>
        { w with toWorld := Quotes.ensureQuotedAccess w.toWorld quote }).logged

def parentConversation (inReplyToId : Option ℕ) : Post (Option ℕ) :=
  match inReplyToId with
  | none => done none
  | some id => askOr .parentConversation (fun w => w.conversation id) none

def conversationFor (inReplyToId : Option ℕ) : Post ℕ := do
  let inherited ← parentConversation inReplyToId
  match inherited with
  | some id => done id
  | none =>
      .statement .insertConversation
        (fun w => { w with nextConversationId := w.nextConversationId + 1 })
        (fun w => done w.nextConversationId) (fail .database)

/-- `INSERT INTO account_conversations … ON CONFLICT DO UPDATE` -/
def fileConversation (row : AccountConversation) (w : World) : World :=
  let same (c : AccountConversation) : Bool :=
    c.accountId = row.accountId ∧ c.conversationId = row.conversationId ∧
      c.participantAccountIds = row.participantAccountIds
  { w with
    accountConversations :=
      if w.accountConversations.any same then
        w.accountConversations.map fun c =>
          if same c then
            { c with
              unread := row.unread
              lastStatusId := row.lastStatusId
              statusIds := c.statusIds ++ [row.lastStatusId] }
          else c
      else w.accountConversations ++ [row] }

def sortedIds (ids : List ℕ) : List ℕ := ids.dedup.mergeSort (· ≤ ·)

/-- The rows of `account_conversations` of a direct post. -/
def fileConversations (d : Draft) (conversationId : ℕ) : Post Unit := do
  let row (accountId : ℕ) (participants : List ℕ) (unread : Bool) : AccountConversation :=
    { accountId := accountId
      conversationId := conversationId
      participantAccountIds := sortedIds participants
      statusIds := [d.id]
      lastStatusId := d.id
      unread := unread }
  write .ownConversation (fileConversation (row d.accountId (d.resolved.map (·.id)) false))
  each
    (fun mentioned =>
      let others := (d.resolved.filter (·.id ≠ mentioned.id)).map (·.id)
      write (.theirConversation mentioned.id)
        (fileConversation (row mentioned.id (d.accountId :: others) true)))
    d.resolved

def assignConversation (d : Draft) : Post Unit := do
  let conversationId ← conversationFor d.row.inReplyToId
  write .setConversation fun w =>
    w.setColumns d.id fun c => { c with conversationId := some conversationId }
  write .touchConversation id
  if d.visibility = "direct" then fileConversations d conversationId else done ()

/-- `counters::on_status_created`, a statement for each counter. -/
def countCreated (row : Status) : Post Unit :=
  if !row.visibility.counted then done ()
  else do
    write .countPost fun w =>
      { w with
        db := { w.db with
          accountStats := upsertStat .zero
            (fun a => { a with statusesCount := a.statusesCount + 1 }) w.db.accountStats
            row.accountId } }
    match row.inReplyToId.filter fun _ => row.visibility.distributable with
    | some parentId =>
        write .countReply fun w =>
          { w with
            db := { w.db with
              statusStats := upsertStat .zero
                (fun a => { a with repliesCount := a.repliesCount + 1 }) w.db.statusStats
                parentId } }
    | none => done ()

/-- `UPDATE media_attachments SET status_id = … WHERE … status_id IS NULL` -/
def attachOne (accountId statusId : ℕ) (id : ℤ) (w : World) : World :=
  { w with
    media := w.media.update
      (fun m =>
        if (m.id : ℤ) = id ∧ m.accountId = accountId ∧ m.statusId.isNone then
          { m with statusId := some statusId }
        else m) fun m => by split <;> rfl }

def attachMedia (d : Draft) : Post Unit :=
  each (fun id => write (.attachMedia id) (attachOne d.accountId d.id id))
    (d.mediaIds.map Int.ofNat)

/-- The row of `polls` for a post. -/
def pollRow (row : Status) (poll : PollForm) (now : ℤ) (id : ℕ) : Poll where
  id := id
  accountId := row.accountId
  statusId := row.id
  options := poll.options
  multiple := poll.multiple.getD false
  expiresAt := poll.expiresIn.map fun secs => now + secs * second
  cachedTallies := []
  votesCount := 0
  votersCount := none

/-- `INSERT INTO polls` -/
def addPoll (row : Status) (poll : PollForm) (now : ℤ) (w : World) : World :=
  { w with
    polls := w.polls.insert (pollRow row poll now) fun _ => rfl
    hideTotals := Function.update w.hideTotals w.polls.next (poll.hideTotals.getD false) }

def createPoll (d : Draft) (now : ℤ) : Post Unit :=
  match d.poll with
  | none => done ()
  | some poll => do
      let id ← .statement .insertPoll (addPoll d.row poll now) (fun w => done w.polls.next)
        (fail .database)
      write .linkPoll fun w => w.setColumns d.id fun c => { c with pollId := some id }

def deliver (l : Statement) (activity : Activity) (inboxes : List String) : Post Unit :=
  (write l fun w => { w with deliveries := w.deliveries ++ [⟨activity, inboxes⟩] }).logged

/-- `QuoteRequestWorker`: a remote author is asked. -/
def requestQuote (d : Draft) (quote : Option Quote) : Post Unit :=
  match quote.bind fun q => q.activityUri.map (q.quotedStatusId, ·) with
  | none => done ()
  | some (none, _) => done ()
  | some (some quotedStatusId, requestUri) => do
      let quoted ← read .quotedInbox fun w =>
        (w.db.statuses.rows.find? (·.id = quotedStatusId)).map fun s =>
          (s.uri, w.inboxUrls s.accountId)
      match quoted with
      | some (some uri, inbox) =>
          if inbox.isEmpty then done ()
          else
            deliver .enqueueQuoteRequest
              (.quoteRequest requestUri uri d.uri) [inbox]
      | _ => done ()

/-- The post sent to other servers, by an account that can sign. -/
def federate (d : Draft) (quote : Option Quote) : Post Unit := do
  let signs ← askOr .signingKey (fun _ => e.hasSigningKey d.accountId) false
  if clientVisibilities.contains d.visibility ∧ signs then do
    read .buildNote fun _ => ()
    requestQuote d quote
    let inboxes ← askOr .reach
      (fun w => e.reach w d.id d.columns.inReplyToAccountId) []
    if inboxes.isEmpty then done () else deliver .enqueueCreate (.create d.id) inboxes
  else done ()

/-- Six hours. -/
def keyLifetime : ℤ := 21600 * second

/-- `redis.set_ex`, whose failure is passed over. -/
def recordKey (r : Request) (statusId : ℕ) : Post Unit :=
  match r.idempotencyKey with
  | none => done ()
  | some key =>
      .statement .setKey
        (fun w =>
          { w with
            keys := Function.update w.keys (r.accountId, key)
              (some (statusId, r.now + keyLifetime)) })
        (fun _ => done ()) (done ())

/-- What is hung on a post once its row is there, up to its delivery. -/
def attach (account : Account) (idScheme : Option ℤ) (r : Request) (d : Draft) : Post Unit := do
  let quote ← attachQuote e account idScheme r d
  storeStatusesTags e d.id d.hashtags
  storeStatusMentions d.id d.resolved
  ensureQuotedAccess quote
  assignConversation d
  (countCreated d.row).logged
  attachMedia d
  createPoll d r.now
  read .loadMedia fun _ => ()
  read .buildStatus fun _ => ()
  federate e d quote

/-- `post_status`, of what it decided on. -/
def carryOut (r : Request) : Plan → Post Answer
  | .replay id => done (.status id)
  | .schedule time => do
      let id ← insertScheduled r time
      done (.scheduled id)
  | .post account idScheme d => do
      insertStatus d
      attach e account idScheme r d
      recordKey r d.id
      done (.status d.id)

def postStatus (r : Request) : Post Answer := do
  let decided ← plan e r
  carryOut e r decided

end
end Eunha.Posting
