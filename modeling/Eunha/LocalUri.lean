import Eunha.Tables
import Eunha.Roles

/-!
# Who an IRI names

Each handler of an activity looks up the account its object names in its own way. Some
compare the `uri` column; others read the path of a URL on this instance's host. Here are
the look-ups, as each handler makes them, and what they find of the local accounts.
-/
namespace Eunha.LocalUri
open Tables Roles

/-! ### URLs -/

structure Url where
  host : Option String
  /-- `path_segments`, which a URL that cannot be a base has none of. -/
  segments : Option (List String)
  deriving DecidableEq

/-- The instance, and what it takes from elsewhere: the parser of URLs, the database's
`lower`, and the canonical form of a portable id, which no other IRI has. -/
structure Site where
  domain : String
  aliases : List String
  parse : String → Option Url
  lower : String → String
  portable : String → Option String

def eqIgnoreAsciiCase (a b : String) : Bool :=
  a.toList.map Char.toLower = b.toList.map Char.toLower

def Site.canonical (site : Site) (uri : String) : String := (site.portable uri).getD uri

def Site.actorUrl (site : Site) : String := "https://" ++ site.domain ++ "/actor"

def Site.onOurHost (site : Site) (url : Url) : Bool :=
  url.host.any fun host => eqIgnoreAsciiCase host site.domain

def Site.localPath (site : Site) (uri : String) : Option (List String) := do
  let url ← site.parse uri
  let host ← url.host
  let ours := eqIgnoreAsciiCase host site.domain ||
    site.aliases.any (eqIgnoreAsciiCase host)
  if ours then url.segments else none

/-! ### The rows -/

def instanceActorId : ℤ := -99

def numericApId : ℤ := 1

structure Account where
  id : ℤ
  username : String
  domain : Option String
  uri : Option String
  idScheme : Option ℤ
  deriving DecidableEq

inductive AccountKey where
  | id (n : ℤ)
  | uri (u : String)
  | name (username domain : String)
  deriving DecidableEq

def Account.keys (lower : String → String) (a : Account) : List AccountKey :=
  .id a.id :: .name (lower a.username) ((a.domain.map lower).getD "") ::
    (a.uri.map .uri).toList

structure Status where
  id : ℤ
  accountId : ℤ
  uri : Option String
  deleted : Bool
  deriving DecidableEq

inductive StatusKey where
  | id (n : ℤ)
  | uri (u : String)
  deriving DecidableEq

def Status.keys (s : Status) : List StatusKey := .id s.id :: (s.uri.map .uri).toList

structure Db (lower : String → String) where
  accounts : Table (Account.keys lower)
  statuses : Table Status.keys

def accountUri (domain : String) (a : Account) : String :=
  if a.id = instanceActorId then "https://" ++ domain ++ "/actor"
  else if a.idScheme = some numericApId then
    "https://" ++ domain ++ "/ap/users/" ++ toString a.id
  else "https://" ++ domain ++ "/users/" ++ a.username

/-! ### The look-ups -/

section
variable (site : Site) (db : Db site.lower)

def byUri (uri : String) (a : Account) : Bool := a.uri = some uri ∧ a.domain = none

def byUsername (username : String) (a : Account) : Bool :=
  a.domain = none ∧ site.lower a.username = site.lower username

def byId (id : String) (a : Account) : Bool :=
  a.domain = none ∧ parseI64 id.toList = some a.id

/-- The accounts that `/users/{username}` and `/ap/users/{id}` name. -/
def byActorPath : List String → Account → Bool
  | ["users", username], a => byUsername site username a
  | ["ap", "users", id], a => byId id a
  | _, _ => false

/-- The accounts that a path names to `local_uri::account`. -/
def byLocalPath (path : List String) (a : Account) : Bool :=
  match path with
  | ["actor"] => a.id = instanceActorId ∧ a.domain = none
  | [handle] =>
      handle.toList.head? = some '@' ∧ byUsername site (String.ofList handle.toList.tail) a
  | path => byActorPath site path a

def findId (p : Account → Bool) : Option ℤ := (db.accounts.rows.find? p).map Account.id

/-- `SELECT id FROM accounts WHERE uri = $1` -/
def knownUnder (uri : String) : Option ℤ :=
  (db.accounts.rows.find? fun a => a.uri = some uri).map Account.id

/-- The target of a Follow: `handle_follow`. -/
def followTarget (objectUri : String) : Option ℤ :=
  if objectUri = site.actorUrl then none
  else
    match site.parse objectUri with
    | none => none
    | some parsed =>
        if site.onOurHost parsed then
          findId site db (byActorPath site (parsed.segments.getD []))
        else none

def account (uri : String) : Option ℤ :=
  match site.localPath uri with
  | some ["actor"] => some instanceActorId
  | some path => findId site db (byLocalPath site path)
  | none => knownUnder site db uri

inductive Found where
  | known (id : ℤ)
  | fetched
  | notFound
  deriving DecidableEq

def Found.id? : Found → Option ℤ
  | .known id => some id
  | _ => none

/-- `resolve_or_fetch_remote_account`, as far as the account is not fetched. A mention in a
Create is resolved so, and the actor of every activity. -/
def resolveOrFetch (actorUri : String) : Found :=
  let uri := site.canonical actorUri
  match site.parse uri with
  | none => (knownUnder site db uri).elim .fetched .known
  | some parsed =>
      if site.onOurHost parsed then
        (findId site db (byActorPath site (parsed.segments.getD []))).elim .notFound .known
      else (knownUnder site db uri).elim .fetched .known

/-- The account blocked: `handle_block`. -/
def blockTarget (objectUri : String) : Option ℤ := findId site db (byUri objectUri)

/-- The account no longer blocked: `handle_undo` of a Block. -/
def blockee (objectUri : String) : Option ℤ := findId site db (byUri objectUri)

/-- The account featured: `handle_feature_request`. -/
def featured (accountUri : String) : Option ℤ := findId site db (byUri accountUri)

/-- `SELECT EXISTS(… WHERE uri = ANY($1) AND domain IS NULL)`, of a Create. -/
def addressesLocal (audience : List String) : Bool :=
  db.accounts.rows.any fun a => a.uri.any (audience.contains ·) && a.domain.isNone

def addressed (address : String) : Option ℤ := findId site db (byUri address)

def localAuthor (s : Status) : Bool :=
  db.accounts.rows.any fun a => a.id = s.accountId ∧ a.domain = none

/-- The status that a path names to `local_uri::status`. -/
def statusIdOfPath : List String → Option ℤ
  | ["users", _, "statuses", id] => parseI64 id.toList
  | ["ap", "users", _, "statuses", id] => parseI64 id.toList
  | [handle, id] => if handle.toList.head? = some '@' then parseI64 id.toList else none
  | _ => none

def status (uri : String) : Option ℤ :=
  match site.localPath uri with
  | some path =>
      (statusIdOfPath path).bind fun id =>
        (db.statuses.rows.find? fun s => s.id = id ∧ localAuthor site db s = true).map Status.id
  | none => (db.statuses.rows.find? fun s => s.uri = some uri).map Status.id

/-- The status a QuoteRequest is about: `handle_quote_request`. -/
def quoted (objectUri : String) : Option Status :=
  db.statuses.rows.find? fun s =>
    s.uri = some objectUri ∧ s.deleted = false ∧ localAuthor site db s = true

end
end Eunha.LocalUri
