import Eunha.Sanitizer
import Eunha.Tables
import Eunha.Interleaving

/-!
# Authorization codes and access tokens

Clients register applications, users grant them authorization codes, and clients exchange
the codes for access tokens. The web client Elk is signed in by endpoints of its own: one
registers its application, or makes the one there is redirect to where the request comes
from, and the other exchanges a code and sends the token on. Requests run a statement at a
time and interleave.

The log says which applications were registered and how, which codes were granted, and which
tokens were issued, on whose showing, and sent where.
-/
namespace Eunha.OAuth
open Tables Interleaving

/-! ### URLs and scopes -/

/-- A parsed URL: its scheme, its query, and all the rest of it. -/
structure Url where
  scheme : String
  rest : String
  query : Option String
  deriving DecidableEq

/-- What is taken from elsewhere. -/
structure Env where
  domain : String
  parse : String → Option Url
  /-- `Url::query_pairs`, of a query. -/
  queryPairs : String → List (String × String)
  encode : String → String
  decode : String → Option String

def Url.pairs (env : Env) (url : Url) : List (String × String) :=
  ((url.query.map env.queryPairs).getD []).mergeSort fun p q =>
    decide (p.1 < q.1 ∨ p.1 = q.1 ∧ p.2 ≤ q.2)

def redirectUriMatches (env : Env) (url registered : String) : Bool :=
  if url = registered then true
  else
    match env.parse url, env.parse registered with
    | some u, some r =>
        if r.query.isSome then
          if u.pairs env ≠ r.pairs env then false
          else { u with query := none } = { r with query := none }
        else { u with query := none } = r
    | _, _ => false

/-- `split(p)`, without the pieces that are empty. -/
def pieces (p : Char → Bool) (text : String) : List String :=
  ((text.toList.splitOnP p).filter (· ≠ [])).map String.ofList

def splitWhitespace (text : String) : List String := pieces Sanitizer.isWhitespace text

def redirectUriAllowed (env : Env) (url registered : String) : Bool :=
  let forbidden := match env.parse url with
    | none => true
    | some u =>
        String.ofList (u.scheme.toList.map Char.toLower) ∈ ["data", "javascript", "vbscript"]
  !forbidden && (splitWhitespace registered).any (redirectUriMatches env url)

def normalizeScopes (s : String) : String :=
  " ".intercalate (pieces (fun c => Sanitizer.isWhitespace c || c = ',') s)

def validOauthScopes : List String :=
  ["read", "write", "follow", "push", "profile", "read:accounts", "read:blocks",
    "read:bookmarks", "read:collections", "read:favourites", "read:filters", "read:follows",
    "read:lists", "read:mutes", "read:notifications", "read:search", "read:statuses",
    "write:accounts", "write:blocks", "write:bookmarks", "write:collections",
    "write:conversations", "write:favourites", "write:filters", "write:follows", "write:lists",
    "write:media", "write:mutes", "write:notifications", "write:reports", "write:statuses",
    "admin:read", "admin:read:accounts", "admin:read:reports", "admin:read:domain_allows",
    "admin:read:domain_blocks", "admin:read:ip_blocks", "admin:read:email_domain_blocks",
    "admin:read:canonical_email_blocks", "admin:write", "admin:write:accounts",
    "admin:write:reports", "admin:write:domain_allows", "admin:write:domain_blocks",
    "admin:write:ip_blocks", "admin:write:email_domain_blocks",
    "admin:write:canonical_email_blocks"]

def scopesOf (s : String) : List String := pieces (· = ' ') s

def validateOauthScopes (scopes : String) : Bool :=
  (scopesOf scopes).all (· ∈ validOauthScopes)

def scopeIsSubset (requested granted : String) : Bool :=
  (scopesOf requested).all (· ∈ scopesOf granted)

/-! ### The store -/

structure Application where
  id : ℕ
  name : String
  uid : String
  secret : String
  redirectUri : String
  scopes : Option String
  website : Option String
  deriving DecidableEq

inductive ApplicationKey where
  | id (n : ℕ)
  | uid (u : String)
  deriving DecidableEq

def Application.keys (a : Application) : List ApplicationKey := [.id a.id, .uid a.uid]

def Application.registeredScopes (a : Application) : String := a.scopes.getD "read"

structure Grant where
  applicationId : ℕ
  resourceOwnerId : ℕ
  token : String
  redirectUri : String
  scopes : Option String
  expiresIn : ℕ
  createdAt : ℕ
  revoked : Bool
  deriving DecidableEq

def Grant.keys (g : Grant) : List String := [g.token]

structure AccessToken where
  applicationId : ℕ
  resourceOwnerId : Option ℕ
  token : String
  scopes : String
  deriving DecidableEq

def AccessToken.keys (t : AccessToken) : List String := [t.token]

structure User where
  id : ℕ
  accountId : ℕ
  disabled : Bool
  deriving DecidableEq

structure Issue where
  token : AccessToken
  grant : Option Grant
  secret : Option String
  redirectUri : Option String
  /-- Whether the user was enabled when they were looked up. -/
  enabled : Bool
  deriving DecidableEq

inductive Fact where
  | registered (application : Application)
  | granted (grant : Grant)
  | issued (issue : Issue)
  /-- A token sent on by a redirect. -/
  | sent (token : AccessToken) (destination : String)
  deriving DecidableEq

structure Store where
  applications : Table Application.keys
  nextApplication : ℕ
  grants : Table Grant.keys
  tokens : Table AccessToken.keys
  users : List User
  now : ℕ
  log : List Fact

def Store.note (s : Store) (facts : List Fact) : Store := { s with log := s.log ++ facts }

def Store.isEnabled (s : Store) (userId : ℕ) : Bool :=
  s.users.any fun u => u.id = userId && !u.disabled

/-! ### Requests -/

structure RegisterAppForm where
  clientName : String
  redirectUris : Option String
  scopes : Option String
  website : Option String

structure TokenRequest where
  grantType : String
  clientId : String
  clientSecret : String
  redirectUri : Option String
  code : Option String

structure GrantRequest where
  clientId : String
  redirectUri : String
  scope : Option String
  userId : ℕ

inductive Request where
  | registerApp (form : RegisterAppForm)
  | elkLogin (origin : String)
  | issueGrant (form : GrantRequest)
  | issueToken (form : TokenRequest)
  | elkOauthCallback (encodedOrigin : String) (code : Option String)
  /-- A user is disabled or enabled by others. -/
  | setDisabled (userId : ℕ) (disabled : Bool)
  | wait (seconds : ℕ)

inductive Phase where
  | registerInsert (form : RegisterAppForm) (redirectUris scopes : String)
  | elkFind (redirectUri : String)
  | elkUpdate (redirectUri : String) (app : Application)
  | elkInsert (redirectUri : String)
  | grantFind (form : GrantRequest)
  | grantInsert (form : GrantRequest) (app : Application) (scopes : String)
  | tokenFind (form : TokenRequest)
  | tokenIssuedFor (form : TokenRequest) (app : Application) (code : String)
  | tokenTake (form : TokenRequest) (app : Application) (code : String)
  | tokenUser (form : TokenRequest) (app : Application) (grant : Grant)
  | tokenInsert (form : TokenRequest) (app : Application) (grant : Option Grant) (enabled : Bool)
  | callbackFind (origin code : String)
  | callbackTake (origin code : String) (app : Application)
  | callbackUser (origin : String) (app : Application) (grant : Grant)
  | callbackInsert (origin : String) (app : Application) (grant : Grant) (enabled : Bool)

/-- What a statement is answered: whether it fails, which of the rows that it may take it
takes, and the values that are drawn for it. -/
structure Answer where
  fails : Bool
  pick : ℕ
  drawnUid : String
  drawnSecret : String
  drawnToken : String

/-! ### Statements -/

/-- `trim_end_matches('/')` -/
def trimEndSlashes (s : String) : String :=
  String.ofList ((s.toList.reverse.dropWhile (· = '/')).reverse)

def elkRedirectUri (env : Env) (origin server : String) : String :=
  let origin := trimEndSlashes origin
  origin ++ "/api/" ++ server ++ "/oauth/" ++ env.encode origin

def elkScopes : String := "read write follow push"

/-- `SELECT * FROM oauth_applications WHERE uid = $1` -/
def findByUid (s : Store) (uid : String) : Option Application :=
  s.applications.rows.find? (·.uid = uid)

/-- `SELECT * FROM oauth_applications WHERE name = 'Elk' LIMIT 1`, which may be any of them. -/
def findElk (s : Store) (pick : ℕ) : Option Application :=
  let named := s.applications.rows.filter (·.name = "Elk")
  named[pick % named.length]?

/-- `INSERT INTO oauth_applications …` -/
def insertApplication (s : Store) (app : Application) : Option Store :=
  (s.applications.insert? app).map fun applications =>
    ({ s with
      applications := applications
      nextApplication := s.nextApplication + 1 }).note [.registered app]

/-- `UPDATE oauth_applications SET redirect_uri = $1 WHERE id = $2` -/
def setRedirectUri (s : Store) (id : ℕ) (redirectUri : String) : Store :=
  { s with
    applications := s.applications.update
      (fun a => if a.id = id then { a with redirectUri := redirectUri } else a)
      (fun a => by
        split
        · rfl
        · rfl) }

def Grant.live (g : Grant) (now : ℕ) : Bool := now < g.createdAt + g.expiresIn

/-- `INSERT INTO oauth_access_grants …`, and the code is sent to its redirect URI. -/
def insertGrant (s : Store) (grant : Grant) : Option Store :=
  (s.grants.insert? grant).map fun grants => ({ s with grants := grants }).note [.granted grant]

/-- `SELECT redirect_uri FROM oauth_access_grants WHERE …` -/
def issuedFor (s : Store) (code : String) (applicationId : ℕ) : Option String :=
  (s.grants.rows.find? fun g => g.token = code && g.applicationId = applicationId && !g.revoked &&
    g.live s.now).map Grant.redirectUri

def takes (s : Store) (code : String) (applicationId : ℕ) (g : Grant) : Bool :=
  g.token = code && g.applicationId = applicationId && g.live s.now

/-- `DELETE FROM oauth_access_grants WHERE … RETURNING resource_owner_id, scopes` -/
def takeGrant (s : Store) (code : String) (applicationId : ℕ) : Store × Option Grant :=
  ({ s with grants := s.grants.deleteWhere (takes s code applicationId) },
    s.grants.rows.find? (takes s code applicationId))

/-- `INSERT INTO oauth_access_tokens …` -/
def insertToken (s : Store) (issue : Issue) : Option Store :=
  (s.tokens.insert? issue.token).map fun tokens =>
    ({ s with tokens := tokens }).note [.issued issue]

/-! ### Requests, a statement at a time -/

def enter (env : Env) (s : Store) : Request → Store × Option Phase
  | .registerApp form =>
      let redirectUris := form.redirectUris.getD "urn:ietf:wg:oauth:2.0:oob"
      let scopes := normalizeScopes (form.scopes.getD "read")
      (s, if validateOauthScopes scopes then some (.registerInsert form redirectUris scopes)
        else none)
  | .elkLogin origin => (s, some (.elkFind (elkRedirectUri env origin env.domain)))
  | .issueGrant form => (s, some (.grantFind form))
  | .issueToken form =>
      (s, if form.grantType ∈ ["authorization_code", "client_credentials"] then
        some (.tokenFind form) else none)
  | .elkOauthCallback encodedOrigin code =>
      (s, code.map (.callbackFind ((env.decode encodedOrigin).getD "")))
  | .setDisabled userId disabled =>
      ({ s with users := s.users.map fun u => if u.id = userId then { u with disabled := disabled }
        else u }, none)
  | .wait seconds => ({ s with now := s.now + seconds }, none)

/-- A statement that writes, after which the request is over. -/
def conclude (s : Store) (s' : Option Store) : Store × Option Phase := (s'.getD s, none)

/-- The next statement of a request. One that fails ends it. -/
def exec (env : Env) (s : Store) (call : Phase) (w : Answer) : Store × Option Phase :=
  if w.fails then (s, none)
  else
    match call with
    | .registerInsert form redirectUris scopes =>
        conclude s (insertApplication s ⟨s.nextApplication, form.clientName, w.drawnUid,
          w.drawnSecret, redirectUris, some scopes, form.website⟩)
    | .elkFind redirectUri =>
        match findElk s w.pick with
        | none => (s, some (.elkInsert redirectUri))
        | some a =>
            (s, if a.redirectUri = redirectUri then none else some (.elkUpdate redirectUri a))
    | .elkUpdate redirectUri a => (setRedirectUri s a.id redirectUri, none)
    | .elkInsert redirectUri =>
        conclude s (insertApplication s ⟨s.nextApplication, "Elk", w.drawnUid, w.drawnSecret,
          redirectUri, some elkScopes, none⟩)
    | .grantFind form =>
        match findByUid s form.clientId with
        | none => (s, none)
        | some app =>
            let scopes := form.scope.getD app.registeredScopes
            if redirectUriAllowed env form.redirectUri app.redirectUri &&
                scopeIsSubset scopes app.registeredScopes
            then (s, some (.grantInsert form app scopes)) else (s, none)
    | .grantInsert form app scopes =>
        conclude s (insertGrant s ⟨app.id, form.userId, w.drawnToken, form.redirectUri, some scopes,
          600, s.now, false⟩)
    | .tokenFind form =>
        match findByUid s form.clientId with
        | none => (s, none)
        | some app =>
            if app.secret ≠ form.clientSecret then (s, none)
            else if form.grantType = "client_credentials" then
              (s, some (.tokenInsert form app none true))
            else (s, form.code.map (.tokenIssuedFor form app))
    | .tokenIssuedFor form app code =>
        match issuedFor s code app.id with
        | none => (s, none)
        | some uri =>
            (s, if form.redirectUri.any (redirectUriMatches env · uri) then
              some (.tokenTake form app code) else none)
    | .tokenTake form app code =>
        ((takeGrant s code app.id).1, (takeGrant s code app.id).2.map (.tokenUser form app))
    | .tokenUser form app grant =>
        match s.users.find? fun u => u.id = grant.resourceOwnerId && !u.disabled with
        | none => (s, none)
        | some _ => (s, some (.tokenInsert form app (some grant)
            (s.isEnabled grant.resourceOwnerId)))
    | .tokenInsert form app grant enabled =>
        let scopes := match grant with
          | none => app.registeredScopes
          | some g => g.scopes.getD "read"
        conclude s (insertToken s ⟨⟨app.id, grant.map Grant.resourceOwnerId, w.drawnToken, scopes⟩,
          grant, some form.clientSecret, form.redirectUri, enabled⟩)
    | .callbackFind origin code => (s, (findElk s w.pick).map (.callbackTake origin code))
    | .callbackTake origin code app =>
        ((takeGrant s code app.id).1, (takeGrant s code app.id).2.map (.callbackUser origin app))
    | .callbackUser origin app grant =>
        match s.users.find? (·.id = grant.resourceOwnerId) with
        | none => (s, none)
        | some _ => (s, some (.callbackInsert origin app grant (s.isEnabled grant.resourceOwnerId)))
    | .callbackInsert origin app grant enabled =>
        let token : AccessToken :=
          ⟨app.id, some grant.resourceOwnerId, w.drawnToken, grant.scopes.getD "read"⟩
        conclude s ((insertToken s ⟨token, some grant, none, none, enabled⟩).map (Store.note ·
          [.sent token (trimEndSlashes origin ++ "/signin/callback?server=" ++ env.domain ++
            "&token=" ++ w.drawnToken)]))

def machine (env : Env) : Machine Store Phase Request Answer := ⟨enter env, exec env⟩

end Eunha.OAuth
