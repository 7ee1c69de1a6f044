import Eunha.RemoteSuspension
import Eunha.Tables
import Eunha.Interleaving

/-!
# The keys of remote actors

`process` stores the account an actor's document describes and the keys it publishes. It
asks WebFinger for the handle, looks the account up by its id and then by the handle, stores
the id, reads the keys, some of them from where the document says they are, and binds each
by its URI. It runs a statement at a time, and other calls run between its statements.

The store keeps a log of what has been said: which ids an account was stored under, whom a
document fetched at a URL named, and which handles were confirmed.
-/
namespace Eunha.RemoteKeys
open Tables Interleaving RemoteSuspension

/-! ### Documents -/

structure KeyObject where
  id : Option String
  owner : Option String
  controller : Option String
  type : Option String
  publicKeyPem : Option String
  publicKeyMultibase : Option String
  deriving DecidableEq

def KeyObject.absent : KeyObject := ⟨none, none, none, none, none, none⟩

/-- An item of `publicKey` or of `assertionMethod`. -/
inductive Entry where
  | object (key : KeyObject)
  | link (id : String)
  | other
  deriving DecidableEq

def Entry.asObject : Entry → KeyObject
  | .object key => key
  | _ => .absent

/-- A document fetched at the id of a key: its own fields, and the first of its `publicKey`. -/
structure KeyDocument where
  self : KeyObject
  publicKey : Option Entry
  deriving DecidableEq

structure Actor where
  id : String
  inbox : Bool
  /-- The domain of the first gateway, which a portable actor has. -/
  gateway : Option String
  webfinger : Option String
  preferredUsername : Option String
  suspended : Bool
  publicKey : List Entry
  assertionMethod : List Entry

structure RemoteKey where
  kind : ℤ
  pem : String
  uri : String
  deriving DecidableEq

/-- What `process` takes from elsewhere. -/
structure Net where
  canonical : String → String
  host : String → Option String
  domainNotAllowed : String → Bool
  splitAcct : String → String × String
  isBlank : String → Bool
  squish : String → String
  normalizeDomain : String → String
  isValidUsername : String → Bool
  lower : String → String
  /-- `key_from_multikey` -/
  multikey : String → Option (ℤ × String)
  /-- `apply_to_new_account`, of a domain that is suspended. -/
  bornSuspended : String → Bool

/-! ### The store -/

structure Account where
  id : ℕ
  username : String
  domain : Option String
  uri : Option String
  suspension : Suspension
  deriving DecidableEq

inductive AccountKey where
  | id (n : ℕ)
  | uri (u : String)
  | name (username domain : String)
  deriving DecidableEq

def Account.keys (lower : String → String) (a : Account) : List AccountKey :=
  .id a.id :: .name (lower a.username) ((a.domain.map lower).getD "") ::
    (a.uri.map .uri).toList

def Account.storedUri (a : Account) : Option String := a.uri.filter (· ≠ "")

structure Keypair where
  uri : Option String
  accountId : ℕ
  kind : ℤ
  publicKey : String
  deriving DecidableEq

def Keypair.keys (k : Keypair) : List String := k.uri.toList

inductive Fact where
  | stored (account : ℕ) (uri : String)
  | named (key owner : String)
  | confirmed (username domain uri : String)
  | held (account : ℕ) (username domain : String)
  deriving DecidableEq

structure Store (net : Net) where
  accounts : Table (Account.keys net.lower)
  keypairs : Table Keypair.keys
  log : List Fact

/-! ### Keys in documents -/

def maxPublicKeys : ℕ := 10

def keyTypeRsa : ℤ := 0

/-- `id.split('#').next()` -/
def fragmentless (uri : String) : String := String.ofList (uri.toList.takeWhile (· ≠ '#'))

/-- What an item comes to: a key, a URL to fetch it from, or nothing. -/
inductive Wanted where
  | embedded (key : RemoteKey)
  | elsewhere (id : String)
  | skipped

/-- An item of `publicKey`: `legacy_public_keys`. -/
def legacyWanted (uri : String) : Entry → Wanted
  | .object key =>
      if key.owner ≠ some uri then .skipped
      else
        match key.id with
        | none => .skipped
        | some id =>
            if fragmentless id = uri then
              (key.publicKeyPem.map fun pem => RemoteKey.mk keyTypeRsa pem id).elim .skipped
                .embedded
            else .elsewhere id
  | .link id => .elsewhere id
  | .other => .skipped

/-- The key in what was fetched for an item of `publicKey`. -/
def legacyFetched (uri id : String) (document : KeyDocument) : Option RemoteKey :=
  let key := document.publicKey.elim document.self Entry.asObject
  if key.owner ≠ some uri then none
  else key.publicKeyPem.map fun pem => ⟨keyTypeRsa, pem, id⟩

/-- An item of `assertionMethod`: `fep_521a_public_keys`. -/
def multikeyWanted (net : Net) (uri : String) : Entry → Wanted
  | .object key =>
      if key.type ≠ some "Multikey" ∨ key.controller ≠ some uri then .skipped
      else
        match key.publicKeyMultibase.bind net.multikey, key.id with
        | some (kind, pem), some id =>
            if fragmentless id = uri then .embedded ⟨kind, pem, id⟩ else .elsewhere id
        | _, _ => .skipped
  | .link id => .elsewhere id
  | .other => .skipped

/-- The key in what was fetched for an item of `assertionMethod`. -/
def multikeyFetched (net : Net) (uri id : String) (document : KeyDocument) : Option RemoteKey :=
  let key := document.self
  if key.id ≠ some id ∨ key.type ≠ some "Multikey" ∨ key.controller ≠ some uri then none
  else (key.publicKeyMultibase.bind net.multikey).map fun (kind, pem) => ⟨kind, pem, id⟩

inductive Format where
  | multikey
  | legacy
  deriving DecidableEq

def wanted (net : Net) (uri : String) : Format × Entry → Wanted
  | (.multikey, entry) => multikeyWanted net uri entry
  | (.legacy, entry) => legacyWanted uri entry

def fetched (net : Net) (uri id : String) : Format → KeyDocument → Option RemoteKey
  | .multikey, document => multikeyFetched net uri id document
  | .legacy, document => legacyFetched uri id document

/-- The items whose keys are read, in their order. -/
def Actor.entries (actor : Actor) : List (Format × Entry) :=
  (actor.assertionMethod.take maxPublicKeys).map (.multikey, ·) ++
    (actor.publicKey.take maxPublicKeys).map (.legacy, ·)

def retainFirst (keys : List RemoteKey) : List RemoteKey :=
  keys.foldl (fun kept key => if kept.any (·.uri = key.uri) then kept else kept ++ [key]) []

def KeyDocument.names (document : KeyDocument) : List String :=
  document.self.owner.toList ++ document.self.controller.toList ++
    ((document.publicKey.map Entry.asObject).bind KeyObject.owner).toList

/-! ### Statements -/

section Statements
variable {net : Net}

def Store.note (s : Store net) (facts : List Fact) : Store net := { s with log := s.log ++ facts }

def findByUri (s : Store net) (uri : String) : Option Account :=
  s.accounts.rows.find? fun a => a.uri = some uri ∧ a.domain.isSome

def findRemote (s : Store net) (username domain : String) : Option Account :=
  if domain = "handle.invalid" then none
  else
    s.accounts.rows.find? fun a =>
      net.lower a.username = net.lower username ∧ a.domain.map net.lower = some (net.lower domain)

def findById (s : Store net) (id : ℕ) : Option Account := s.accounts.rows.find? (·.id = id)

/-- `UPDATE accounts SET … WHERE id = …` -/
def Store.setAccount (s : Store net) (id : ℕ) (f : Account → Account) : Option (Store net) :=
  (s.accounts.update? fun a => if a.id = id then f a else a).map fun accounts =>
    { s with accounts := accounts }

/-- `INSERT INTO keypairs … ON CONFLICT (uri) DO UPDATE …` -/
def bindKey (t : Table Keypair.keys) (accountId : ℕ) (key : RemoteKey) : Table Keypair.keys :=
  (t.update
    (fun k =>
      if k.uri = some key.uri then
        { k with accountId := accountId, kind := key.kind, publicKey := key.pem }
      else k)
    (fun k => by
      split
      · rfl
      · rfl)).insert
    ⟨some key.uri, accountId, key.kind, key.pem⟩

/-- `DELETE FROM keypairs WHERE account_id = $1 AND uri <> ALL($2)` -/
def purgeKeys (t : Table Keypair.keys) (accountId : ℕ) (uris : List String) :
    Table Keypair.keys :=
  t.deleteWhere fun k => k.accountId = accountId && k.uri.any fun uri => !uris.contains uri

def invalidateConflictingHandle (s : Store net) (accountId : ℕ) (username domain : String) :
    Option (Store net) :=
  match s.accounts.rows.find? fun a =>
      net.lower a.username = net.lower username ∧
        a.domain.map net.lower = some (net.lower domain) ∧ a.id ≠ accountId with
  | none => some s
  | some conflicting =>
      s.setAccount conflicting.id fun a => { a with username := "! " ++ toString a.id }

/-- `set_suspension`, of an account as it was loaded. -/
def Store.setSuspension (s : Store net) (a : Account) (suspended : Bool) : Store net :=
  match decision a.suspension suspended with
  | none => s
  | some suspension =>
      { s with
        accounts := s.accounts.update
          (fun b => if b.id = a.id then { b with suspension := suspension } else b)
          (fun b => by
            split
            · rfl
            · rfl) }

end Statements

/-! ### Calls of `process` -/

structure Call where
  actor : Actor
  uri : String
  /-- The account the document is expected to describe. -/
  sender : Option Account
  onlyKey : Bool
  username : String
  domain : String
  verified : Bool

inductive Phase where
  | confirm (c : Call)
  | byUri (c : Call)
  | byHandle (c : Call)
  | create (c : Call)
  | rename (c : Call) (a : Account)
  | invalidate (c : Call) (a : Account)
  | renameAgain (c : Call) (a : Account)
  | load (c : Call) (id : ℕ)
  | suspension (c : Call) (a : Account)
  | store (c : Call) (id : ℕ) (suspendedLocally : Bool)
  | fetch (c : Call) (id : ℕ) (todo : List (Format × Entry)) (keys : List RemoteKey)
  | bind (c : Call) (id : ℕ) (keys todo : List RemoteKey)
  | purge (c : Call) (id : ℕ) (uris : List String)

def Phase.call : Phase → Call
  | .confirm c => c
  | .byUri c => c
  | .byHandle c => c
  | .create c => c
  | .rename c _ => c
  | .invalidate c _ => c
  | .renameAgain c _ => c
  | .load c _ => c
  | .suspension c _ => c
  | .store c _ _ => c
  | .fetch c _ _ _ => c
  | .bind c _ _ _ => c
  | .purge c _ _ => c

structure Request where
  actor : Actor
  sender : Option ℕ
  onlyKey : Bool

/-- What a statement is answered, here or elsewhere. -/
structure Answer where
  fails : Bool
  handle : Option (String × String)
  document : Option KeyDocument
  snowflake : ℕ
  overDiscoveryLimits : Bool

section Process
variable {net : Net}

/-- `extract_username_and_domain!` -/
def Net.handle (net : Net) (uri : String) (actor : Actor) : Option (String × String) :=
  let given :=
    match actor.webfinger with
    | some acct => if net.isBlank acct then ("", "") else net.splitAcct acct
    | none => ("", "")
  if net.isBlank given.1 || net.isBlank given.2 then
    (actor.preferredUsername.filter fun name => !net.isBlank name).map fun preferred =>
      (preferred, actor.gateway.getD ((net.host uri).getD ""))
  else some given

def unsupportedUriScheme (uri : String) : Bool :=
  !("http://".toList.isPrefixOf uri.toList || "https://".toList.isPrefixOf uri.toList)

/-- Once the handle is settled: `domain_not_allowed`, of who is not yet known. -/
def settled (c : Call) : Option Phase :=
  if c.sender.isNone && net.domainNotAllowed c.domain then none else some (.byUri c)

/-- What `process` does before it looks anything up. -/
def enter (s : Store net) (r : Request) : Store net × Option Phase :=
  let uri := net.canonical r.actor.id
  let sender := r.sender.bind (findById s)
  if r.actor.gateway.isNone && unsupportedUriScheme r.actor.id then (s, none)
  else if !r.actor.inbox then (s, none)
  else if sender.any fun a => a.storedUri ≠ some uri then (s, none)
  else if net.domainNotAllowed uri || sender.any (·.domain.isNone) then (s, none)
  else
    match net.handle uri r.actor with
    | none => (s, none)
    | some (username, domain) =>
        let username := net.squish username
        let domain := net.normalizeDomain domain
        let known := sender.any fun a => a.username = username ∧ a.domain = some domain
        let c : Call := ⟨r.actor, uri, sender, r.onlyKey, username, domain, known⟩
        if !known && !r.onlyKey then
          -- a portable actor's handle is taken as its document gives it
          if r.actor.gateway.isSome then (s, @settled net { c with verified := true })
          else (s, some (.confirm c))
        else (s, @settled net c)

def found (c : Call) (a : Account) : Phase := if c.verified then .rename c a else .load c a.id

def exec (s : Store net) (phase : Phase) (w : Answer) : Store net × Option Phase :=
  match phase with
  | .confirm c =>
      match w.handle with
      | none => (s, none)
      | some (username, domain) =>
          (s.note [.confirmed username domain c.uri], @settled net
            { c with username := username, domain := domain, verified := true })
  | .byUri c =>
      if w.fails then (s, none)
      else
        match c.sender.or (findByUri s c.uri) with
        | some a => (s, some (found c a))
        | none =>
            if c.onlyKey then (s, none)
            else if c.verified then (s, some (.byHandle c))
            else (s, some (.create c))
  | .byHandle c =>
      if w.fails then (s, none)
      else
        match findRemote s c.username c.domain with
        | some a => (s.note [.held a.id c.username c.domain], some (.rename c a))
        | none => (s, some (.create c))
  | .create c =>
      if w.fails || w.overDiscoveryLimits || !c.verified || !net.isValidUsername c.username then
        (s, none)
      else
        let suspension := if net.bornSuspended c.domain then ⟨true, some .here⟩ else .none
        match s.accounts.insert?
            ⟨w.snowflake, c.username, some c.domain, some c.uri, suspension⟩ with
        | none => (s, none)
        | some accounts =>
            ({ s with accounts := accounts, log := s.log ++ [.stored w.snowflake c.uri] },
              some (.load c w.snowflake))
  | .rename c a =>
      if a.username = c.username ∧ a.domain = some c.domain then (s, some (.load c a.id))
      else if w.fails then (s, some (.invalidate c a))
      else
        match s.setAccount a.id fun b =>
            { b with username := c.username, domain := some c.domain } with
        | some s' => (s', some (.load c a.id))
        | none => (s, some (.invalidate c a))
  | .invalidate c a =>
      if w.fails then (s, none)
      else
        match findRemote s c.username c.domain with
        | none => (s, some (.renameAgain c a))
        | some conflicting =>
            if conflicting.domain.isSome && conflicting.uri ≠ a.uri then
              match invalidateConflictingHandle s a.id c.username c.domain with
              | some s' => (s', some (.renameAgain c a))
              | none => (s, none)
            else (s, some (.renameAgain c a))
  | .renameAgain c a =>
      if w.fails then (s, none)
      else
        match s.setAccount a.id fun b =>
            { b with username := c.username, domain := some c.domain } with
        | some s' => (s', some (.load c a.id))
        | none => (s, none)
  | .load c id =>
      if w.fails then (s, none)
      else
        match findById s id with
        | some a => (s, some (.suspension c a))
        | none => (s, none)
  | .suspension c a =>
      if w.fails then (s, none)
      else
        (s.setSuspension a c.actor.suspended, some (.store c a.id a.suspension.made))
  | .store c id suspendedLocally =>
      if w.fails then (s, none)
      else
        match s.setAccount id fun a => { a with uri := some c.uri } with
        | none => (s, none)
        | some s' =>
            (s'.note [.stored id c.uri],
              -- a moderator's suspension keeps the keys as they are
              if suspendedLocally then none else some (.fetch c id c.actor.entries []))
  | .fetch c id [] keys => (s, some (.bind c id (retainFirst keys) (retainFirst keys)))
  | .fetch c id (item :: todo) keys =>
      match wanted net c.uri item with
      | .skipped => (s, some (.fetch c id todo keys))
      | .embedded key => (s, some (.fetch c id todo (keys ++ [key])))
      | .elsewhere keyId =>
          match w.document with
          | none => (s, some (.fetch c id todo keys))
          | some document =>
              (s.note (document.names.map (.named keyId)), some (.fetch c id todo
                (keys ++ (fetched net c.uri keyId item.1 document).toList)))
  | .bind c id keys [] => (s, some (.purge c id (keys.map (·.uri))))
  | .bind c id keys (key :: todo) =>
      if w.fails then (s, none)
      else ({ s with keypairs := bindKey s.keypairs id key }, some (.bind c id keys todo))
  | .purge _ id uris =>
      if w.fails then (s, none)
      else ({ s with keypairs := purgeKeys s.keypairs id uris }, none)

/-- `process`, of many actors at once. -/
def machine (net : Net) : Machine (Store net) Phase Request Answer := ⟨enter, exec⟩

end Process
end Eunha.RemoteKeys
