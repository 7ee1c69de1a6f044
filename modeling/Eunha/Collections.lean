import Eunha.InboxRelationships

/-!
# Mirrored collections in the inbox

The collections a remote account features are mirrored into `collections` and
`collection_items`, where those of local accounts are kept with the answers of whom they
feature. Here is each activity that writes the two tables, given the documents other
servers answer with. Every statement runs later than the one before it, and its time
numbers the row it inserts.
-/
namespace Eunha.Collections
open Tables Database

/-! ### The tables -/

structure Collection where
  id : ℕ
  accountId : ℕ
  name : String
  discoverable : Bool
  isLocal : Bool
  sensitive : Bool
  itemCount : ℕ
  uri : Option String
  updatedAt : ℕ
  deriving DecidableEq

def Collection.keys (c : Collection) : List Index := .id c.id :: (c.uri.map .uri).toList

inductive ItemState where
  | pending
  | accepted
  | rejected
  | revoked
  deriving DecidableEq

structure CollectionItem where
  id : ℕ
  collectionId : ℕ
  accountId : Option ℕ
  position : ℕ
  state : ItemState
  uri : Option String
  approvalUri : Option String
  activityUri : Option String
  updatedAt : ℕ
  deriving DecidableEq

inductive ItemIndex where
  | id (n : ℕ)
  | featured (accountId collectionId : ℕ)
  | uri (u : String)
  | approvalUri (u : String)
  deriving DecidableEq

def CollectionItem.keys (it : CollectionItem) : List ItemIndex :=
  .id it.id :: ((it.accountId.map fun a => .featured a it.collectionId).toList ++
    ((it.uri.map .uri).toList ++ (it.approvalUri.map .approvalUri).toList))

structure World where
  db : Db
  collections : Table Collection.keys
  items : Table CollectionItem.keys
  clock : ℕ

/-! ### What other servers send -/

/-- A reference to an object: its URI, or the `id` of one embedded. -/
inductive Reference where
  | missing
  | uri (u : String)
  | embedded (id : Option String)
  deriving DecidableEq

/-- `json_uri`, before its default. -/
def Reference.uriOrId : Reference → Option String
  | .missing => none
  | .uri u => some u
  | .embedded id => id

structure FeaturedItem where
  id : Option String
  featuredObject : Reference

structure FeaturedCollection where
  type : Option String
  supportedContext : Bool
  id : Option String
  name : Option String
  sensitive : Option Bool
  discoverable : Option Bool
  attributedTo : Reference
  orderedItems : List FeaturedItem

structure Network extends InboxRelationships.Instance where
  domain : String
  sameHost : String → String → Bool
  /-- `signed_get_json`: a document's `id` is on the host that served it. -/
  document : String → Option FeaturedCollection
  /-- Storing an actor removes no account, and makes none local or remote. -/
  fetchAccount_keeps : ∀ db uri f, fetchAccount db uri = some f → ∀ a ∈ db.accounts.rows,
    ∃ b ∈ f.accounts.rows, b.id = a.id ∧ (b.domain = none ↔ a.domain = none)

def resolve (n : Network) (db : Db) (uri : String) : Option (Db × ℕ) :=
  InboxRelationships.resolveOrFetch n.toInstance db uri

/-! ### Writing the tables -/

/-- What `ON CONFLICT (uri) DO UPDATE` sets, the `settings` or only the name. -/
def overwrite (uri : String) (doc : FeaturedCollection) (settings : Bool) (now : ℕ)
    (c : Collection) : Collection :=
  if c.uri = some uri then
    { c with
      name := doc.name.getD "Featured collection"
      discoverable := if settings then doc.discoverable.getD true else c.discoverable
      sensitive := if settings then doc.sensitive.getD false else c.sensitive
      updatedAt := now }
  else c

theorem keys_overwrite (uri : String) (doc : FeaturedCollection) (settings : Bool) (now : ℕ)
    (c : Collection) : (overwrite uri doc settings now c).keys = c.keys := by
  rw [overwrite]
  split <;> rfl

def upsertCollection (w : World) (uri : String) (ownerId : ℕ) (doc : FeaturedCollection)
    (settings : Bool) : World × ℕ :=
  match w.collections.rows.find? (·.uri = some uri) with
  | some c =>
      ({ w with
          collections := w.collections.update (overwrite uri doc settings w.clock)
            (keys_overwrite uri doc settings w.clock)
          clock := w.clock + 1 }, c.id)
  | none =>
      let row : Collection :=
        { id := w.clock
          accountId := ownerId
          name := doc.name.getD "Featured collection"
          discoverable := doc.discoverable.getD true
          isLocal := false
          sensitive := doc.sensitive.getD false
          itemCount := 0
          uri := some uri
          updatedAt := w.clock }
      ({ w with collections := w.collections.insert row, clock := w.clock + 1 }, w.clock)

def upsertRemoteCollection (w : World) (ownerId : ℕ) (doc : FeaturedCollection) :
    World × Option ℕ :=
  let uri := doc.id.getD ""
  if uri = "" then (w, none)
  else
    let (w, id) := upsertCollection w uri ownerId doc true
    (w, some id)

/-- The row written in the place of the one with its id, unless a unique index is in the
way. -/
def saveItem (w : World) (it : CollectionItem) : Option World :=
  let others := w.items.deleteWhere (·.id = it.id)
  if others.Taken it then none
  else some { w with items := others.insert it, clock := w.clock + 1 }

def nextPosition (w : World) (collectionId : ℕ) : ℕ :=
  ((w.items.rows.filter (·.collectionId = collectionId)).map (·.position)).foldr max 0 + 1

def itemOf (w : World) (collectionId accountId : ℕ) : CollectionItem :=
  (w.items.rows.find? fun it =>
      it.accountId = some accountId ∧ it.collectionId = collectionId).getD
    { id := w.clock
      collectionId := collectionId
      accountId := some accountId
      position := nextPosition w collectionId
      state := .accepted
      uri := none
      approvalUri := none
      activityUri := none
      updatedAt := w.clock }

def recount (w : World) (collectionId : ℕ) (c : Collection) : Collection :=
  if c.id = collectionId then
    { c with
      itemCount := w.items.count fun it =>
        it.collectionId = collectionId ∧ (it.state = .pending ∨ it.state = .accepted) }
  else c

theorem keys_recount (w : World) (collectionId : ℕ) (c : Collection) :
    (recount w collectionId c).keys = c.keys := by
  rw [recount]
  split <;> rfl

/-- `refresh_collection_item_count` -/
def refreshItemCount (w : World) (collectionId : ℕ) : World :=
  { w with
    collections := w.collections.update (recount w collectionId) (keys_recount w collectionId)
    clock := w.clock + 1 }

def saveCounted (w : World) (it : CollectionItem) : World :=
  match saveItem w it with
  | none => w
  | some w => refreshItemCount w it.collectionId

def mirrorItemInto (n : Network) (w : World) (collectionId : ℕ) (item : FeaturedItem) : World :=
  let accountUri := item.featuredObject.uriOrId.getD ""
  if accountUri = "" then w
  else
    match resolve n w.db accountUri with
    | none => w
    | some (db, accountId) =>
        let w := { w with db := db }
        saveCounted w
          { itemOf w collectionId accountId with
            state := .accepted
            uri := item.id
            updatedAt := w.clock }

def mirrorRemoteCollection (n : Network) (w : World) (ownerId : ℕ) (doc : FeaturedCollection) :
    World :=
  match upsertRemoteCollection w ownerId doc with
  | (w, none) => w
  | (w, some id) => doc.orderedItems.foldl (fun w item => mirrorItemInto n w id item) w

/-! ### The activities -/

def mirrorOf (n : Network) (w : World) (actor : String) (doc : FeaturedCollection) : World :=
  match resolve n w.db actor with
  | none => w
  | some (db, ownerId) => mirrorRemoteCollection n { w with db := db } ownerId doc

/-- `Add` of a `FeaturedCollection` -/
def addCollection (n : Network) (w : World) (actor : String) (doc : FeaturedCollection) : World :=
  if actor = "" ∨ doc.id.getD "" = "" then w else mirrorOf n w actor doc

/-- `Add` of a `FeaturedItem` -/
def addItem (n : Network) (w : World) (actor : String) (item : FeaturedItem) (target : String) :
    World :=
  if actor = "" ∨ item.id.getD "" = "" then w
  else
    match w.collections.rows.find? fun c => c.uri = some target ∧ c.isLocal = false with
    | none => w
    | some c => mirrorItemInto n w c.id item

/-- `Update` of a `FeaturedCollection` -/
def updateCollection (n : Network) (w : World) (actor : String) (doc : FeaturedCollection) :
    World :=
  if doc.type ≠ some "FeaturedCollection" ∨ actor = "" then w else mirrorOf n w actor doc

def requestItem (w : World) (collectionId accountId : ℕ) (reqId : String) : CollectionItem :=
  { itemOf w collectionId accountId with
    state := .accepted
    activityUri := some reqId
    updatedAt := w.clock }

def authorizationUri (n : Network) (account : Account) (it : CollectionItem) : String :=
  s!"https://{n.domain}/users/{account.username}/feature_authorizations/{it.id}"

def recordFeatured (n : Network) (w : World) (collectionId : ℕ) (account : Account)
    (reqId : String) : World :=
  let item := requestItem w collectionId account.id reqId
  match saveItem w item with
  | none => w
  | some w => (saveItem w { item with approvalUri := some (authorizationUri n account item) }).getD w

/-- `handle_feature_request`, up to the answer it sends. -/
def handleFeatureRequest (n : Network) (w : World) (reqId accountUri collectionUri : String) :
    World :=
  if reqId = "" ∨ accountUri = "" ∨ collectionUri = "" then w
  else
    match (InboxRelationships.localByUri w.db accountUri).filter fun a => !a.unavailable with
    | none => w
    | some account =>
        match n.document collectionUri with
        | none => w
        | some doc =>
            let ownerUri := doc.attributedTo.uriOrId.getD ""
            if ownerUri = "" then w
            else
              match resolve n w.db ownerUri with
              | none => w
              | some (db, ownerId) =>
                  let (w, id) :=
                    upsertCollection { w with db := db } collectionUri ownerId doc false
                  recordFeatured n w id account reqId

/-- `SELECT id FROM accounts WHERE uri = …` is the collection's owner. -/
def ownedBy (w : World) (actor : String) (c : Collection) : Bool :=
  (w.db.accountByUri actor).any fun a => a.id = c.accountId

/-- `handle_remove`, of a collection or an item. -/
def handleRemove (w : World) (actor object : String) : World :=
  match w.collections.rows.find? fun c =>
      c.uri = some object ∧ c.isLocal = false ∧ ownedBy w actor c with
  | some c =>
      { w with
        collections := w.collections.deleteWhere (·.id = c.id)
        items := w.items.deleteWhere (·.collectionId = c.id)
        clock := w.clock + 1 }
  | none =>
      match w.items.rows.find? fun it =>
          it.uri = some object ∧
            w.collections.rows.any fun c => c.id = it.collectionId ∧ ownedBy w actor c with
      | some it =>
          refreshItemCount
            { w with items := w.items.deleteWhere (·.id = it.id), clock := w.clock + 1 }
            it.collectionId
      | none => w

/-- `handle_delete`, of a `FeatureAuthorization`. Purging the actor itself deletes from
neither table. -/
def handleDelete (w : World) (actor object : String) : World :=
  if object = actor then w
  else
    match w.items.rows.find? fun it => it.approvalUri = some object ∧ it.state = .accepted with
    | none => w
    | some it => saveCounted w { it with state := .revoked, updatedAt := w.clock }

def featuredAccount (w : World) (it : CollectionItem) : Option Account :=
  it.accountId.bind w.db.account

def requestedItem (w : World) (object : String) : Option CollectionItem :=
  w.items.rows.find? fun it =>
    it.activityUri = some object ∧ it.state = .pending ∧ (featuredAccount w it).isSome

def answered (it : CollectionItem) (accepted : Bool) (result : Option String) (now : ℕ) :
    CollectionItem :=
  if accepted then
    { it with
      state := .accepted
      approvalUri := result.filter (· ≠ "")
      updatedAt := now }
  else { it with state := .rejected, updatedAt := now }

/-- The consent in an `Accept` or a `Reject`: of the featured account itself. -/
def handleConsent (w : World) (actor : String) (accepted : Bool) (object : String)
    (result : Option String) : World :=
  if InboxRelationships.isRelayFollow w.db object then w
  else
    match requestedItem w object with
    | none => w
    | some it =>
        if (featuredAccount w it).bind (·.uri) ≠ some actor then w
        else saveCounted w (answered it accepted result w.clock)

/-- An entry of an account's collections: a link, or the document itself. -/
inductive Listed where
  | link (uri : String)
  | embedded (doc : FeaturedCollection)

def Listed.document (n : Network) (w : World) (accountId : ℕ) : Listed → Option FeaturedCollection
  | .embedded doc => some doc
  | .link uri =>
      if w.collections.rows.any fun c => c.uri = some uri ∧ c.accountId = accountId then none
      else
        (n.document uri).filter fun doc =>
          doc.id = some uri ∧ doc.supportedContext = true ∧ doc.type = some "FeaturedCollection"

/-- `fetch_featured_collections_collection`, of one entry: the refresh of an actor. -/
def fetchFeatured (n : Network) (w : World) (actor : String) (entry : Listed) : World :=
  match w.db.accounts.rows.find? fun a =>
      a.uri = some actor ∧ a.domain ≠ none ∧ a.unavailable = false with
  | none => w
  | some account =>
      match entry.document n w account.id with
      | none => w
      | some doc =>
          if n.sameHost actor (doc.id.getD "") = false ∨ doc.attributedTo ≠ .uri actor then w
          else mirrorRemoteCollection n w account.id doc

inductive Inbound where
  | addCollection (doc : FeaturedCollection)
  | addItem (item : FeaturedItem) (target : String)
  | updateEmbedded (doc : FeaturedCollection)
  | updateLink (uri : String)
  | featureRequest (id account collection : String)
  | remove (object : String)
  | delete (object : String)
  | consent (accepted : Bool) (object : String) (result : Option String)
  | refresh (entry : Listed)

def step (n : Network) (w : World) (actor : String) : Inbound → World
  | .addCollection doc => addCollection n w actor doc
  | .addItem item target => addItem n w actor item target
  | .updateEmbedded doc => updateCollection n w actor doc
  | .updateLink uri =>
      match n.document uri with
      | none => w
      | some doc => updateCollection n w actor doc
  | .featureRequest id account collection => handleFeatureRequest n w id account collection
  | .remove object => handleRemove w actor object
  | .delete object => handleDelete w actor object
  | .consent accepted object result => handleConsent w actor accepted object result
  | .refresh entry => fetchFeatured n w actor entry

end Eunha.Collections
