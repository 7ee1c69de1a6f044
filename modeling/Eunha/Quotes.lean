import Eunha.StatusLifecycle

/-!
# Quotes and the consent to them

A status quotes another in a row of `quotes`, whose state says whether the quoted author
lets it. What writes the state: a post from here, an author who takes a quote back, the
removal of a status, and from other servers a request to quote, an answer to one of ours,
a post or its edit, the stamp of a quoted author and its deletion. A post or an account
that a handler fetches on its way is one that came before.
-/
namespace Eunha.Quotes
open Tables Database Statuses StatusLifecycle

/-! ### Policies -/

inductive ForAccount where
  | automatic
  | manual
  | unknown
  | denied
  deriving DecidableEq

def unsupportedPolicy : BitVec 32 := 1
def publicPolicy : BitVec 32 := 2
def followersPolicy : BitVec 32 := 4
def followingPolicy : BitVec 32 := 8

def forAccount (bitmap : BitVec 32) (isAuthor followsAuthor followedByAuthor : Bool) : ForAccount :=
  if isAuthor then .automatic
  else
    let allows (sub : BitVec 32) : Bool :=
      (sub &&& publicPolicy != 0) || (sub &&& followersPolicy != 0 && followsAuthor) ||
        (sub &&& followingPolicy != 0 && followedByAuthor)
    let auto := bitmap.sshiftRight 16
    let manual := bitmap &&& 0xFFFF
    if allows auto then .automatic
    else if allows manual then .manual
    else if (auto ||| manual) &&& unsupportedPolicy != 0 then .unknown
    else .denied

/-! ### Rows -/

inductive QuoteState where
  | pending
  | accepted
  | rejected
  | revoked
  | deleted
  deriving DecidableEq

structure Quote where
  id : ℕ
  accountId : ℕ
  statusId : ℕ
  quotedStatusId : Option ℕ
  quotedAccountId : Option ℕ
  state : QuoteState
  approvalUri : Option String
  activityUri : Option String
  legacy : Bool
  deriving DecidableEq

inductive QuoteIndex where
  | id (n : ℕ)
  | status (n : ℕ)
  deriving DecidableEq

def Quote.keys (q : Quote) : List QuoteIndex := [.id q.id, .status q.statusId]

structure World where
  db : Db
  /-- `statuses.quote_approval_policy`, by the status's id. -/
  quotePolicies : ℕ → BitVec 32
  /-- The rows of `mentions`: a status and an account. -/
  mentions : List (ℕ × ℕ)
  quotes : Table Quote.keys

def World.quote (w : World) (id : ℕ) : Option Quote := w.quotes.rows.find? (·.id = id)

def World.findByStatus (w : World) (statusId : ℕ) : Option Quote :=
  w.quotes.rows.find? (·.statusId = statusId)

/-- `UPDATE quotes SET … WHERE id = …` -/
def World.setQuote (w : World) (id : ℕ) (f : Quote → Quote) (hf : ∀ q, (f q).keys = q.keys) :
    World :=
  { w with
    quotes := w.quotes.update (fun q => if q.id = id then f q else q) fun q => by
      split
      · exact hf q
      · rfl }

def accept (w : World) (id : ℕ) (approvalUri : Option String) : World :=
  w.setQuote id
    (fun q => { q with state := .accepted, approvalUri := approvalUri.or q.approvalUri })
    fun _ => rfl

def Quote.rejected (q : Quote) : Quote :=
  match q.state with
  | .revoked => q
  | .accepted => { q with state := .revoked, approvalUri := none }
  | _ => { q with state := .rejected, approvalUri := none }

theorem keys_rejected (q : Quote) : q.rejected.keys = q.keys := by
  rw [Quote.rejected]
  split <;> rfl

def reject (w : World) (id : ℕ) : World := w.setQuote id Quote.rejected keys_rejected

def destroy (w : World) (id : ℕ) : World :=
  { w with quotes := w.quotes.deleteWhere (·.id = id) }

def ensureQuotedAccess (w : World) (q : Quote) : World :=
  match q.quotedAccountId with
  | some accountId => { w with mentions := w.mentions ++ [(q.statusId, accountId)] }
  | none => w

/-- `UPDATE quotes SET activity_uri = …`, an error where the unique index has it already. -/
def setActivityUri (w : World) (id : ℕ) (uri : String) : World :=
  if w.quotes.rows.any fun q => q.activityUri = some uri ∧ q.id ≠ id then w
  else w.setQuote id (fun q => { q with activityUri := some uri }) fun _ => rfl

def isLocal (db : Db) (accountId : ℕ) : Bool := (db.account accountId).any (·.domain.isNone)

def quotedAccountLocal (w : World) (q : Quote) : Bool := q.quotedAccountId.any (isLocal w.db)

def follows (db : Db) (accountId targetAccountId : ℕ) : Bool :=
  db.follows.rows.any fun f => f.accountId = accountId ∧ f.targetAccountId = targetAccountId

def blocked (db : Db) (x y : ℕ) : Bool :=
  db.blocks.rows.any fun b =>
    (b.accountId = x ∧ b.targetAccountId = y) ∨ (b.accountId = y ∧ b.targetAccountId = x)

/-- `quote_policy_for_account`, of a status and who would quote it. -/
def policyFor (w : World) (quoted : Status) (quoterId : ℕ) : ForAccount :=
  forAccount (w.quotePolicies quoted.id) (decide (quoterId = quoted.accountId))
    (follows w.db quoterId quoted.accountId) (follows w.db quoted.accountId quoterId)

/-! ### From here -/

structure QuotePost where
  accountId : ℕ
  statusId : ℕ
  uri : String
  visibility : Visibility
  quotedStatusId : ℕ
  quoteId : ℕ
  activityUri : String
  policy : BitVec 32

/-- `authorize(@quoted_status, :quote?)`, as `post_status` has it. -/
def quotable (w : World) (accountId : ℕ) (quoted : Status) : Bool :=
  let own := decide (accountId = quoted.accountId)
  let mentioned := w.mentions.contains (quoted.id, accountId)
  let shown := !(w.db.account quoted.accountId).any (·.unavailable) &&
    match quoted.visibility with
    | .direct | .limited => own || mentioned
    | .priv => own || follows w.db accountId quoted.accountId || mentioned
    | _ => own || !blocked w.db accountId quoted.accountId
  let policyDenies := quoted.visibility = .direct ∨ quoted.visibility = .limited ∨
    policyFor w quoted accountId = .denied
  shown && !(blocked w.db accountId quoted.accountId && !own) && !policyDenies

/-- A followers-only post forces its quote down to followers-only. -/
def quoteVisibility (quoted : Status) (v : Visibility) : Visibility :=
  if quoted.visibility = .priv ∧ (v = .pub ∨ v = .unlisted) then .priv else v

/-- `attach_quote!`: a quote of a post here is accepted at once, a remote author is asked. -/
def quoteRow (w : World) (p : QuotePost) (quoted : Status) : Quote where
  id := p.quoteId
  accountId := p.accountId
  statusId := p.statusId
  quotedStatusId := some quoted.id
  quotedAccountId := some quoted.accountId
  state := if isLocal w.db quoted.accountId then .accepted else .pending
  approvalUri := none
  activityUri := if isLocal w.db quoted.accountId then none else some p.activityUri
  legacy := false

/-- The unique index of `activity_uri` holds one of the two. -/
def sameActivity (q r : Quote) : Bool := q.activityUri.isSome ∧ r.activityUri = q.activityUri

def properStatus (db : Db) (id : ℕ) : Option Status :=
  (db.keptStatus id).bind fun s => db.keptStatus (s.reblogOfId.getD s.id)

/-- `post_status`, of a post that quotes and is otherwise in order. -/
def postQuote (w : World) (p : QuotePost) : World :=
  match properStatus w.db p.quotedStatusId with
  | none => w
  | some quoted =>
      let row : Status :=
        { id := p.statusId
          accountId := p.accountId
          uri := some p.uri
          visibility := quoteVisibility quoted p.visibility
          inReplyToId := none
          reblogOfId := none
          deleted := false }
      let quote := quoteRow w p quoted
      if !quotable w p.accountId quoted then w
      else if w.db.statuses.Taken row then w
      else
        let w := { w with
          db := insertCounted w.db row
          quotePolicies := Function.update w.quotePolicies p.statusId p.policy }
        if w.quotes.Taken quote ∨ w.quotes.rows.any (sameActivity quote) = true then w
        else ensureQuotedAccess { w with quotes := w.quotes.insert quote } quote

/-- `revoke_quote`, of a quoted status the caller may see. -/
def revokeQuote (w : World) (accountId quotedStatusId quotingStatusId : ℕ) : World :=
  match w.quotes.rows.find? fun q =>
      q.quotedStatusId = some quotedStatusId ∧ q.statusId = quotingStatusId with
  | none => w
  | some quote =>
      if (w.db.keptStatus quotingStatusId).isNone then w
      else if quote.quotedAccountId ≠ some accountId then w
      else reject w quote.id

def statusRemoved (w : World) (statusId : ℕ) : World :=
  match w.findByStatus statusId with
  | none => w
  | some quote =>
      if quote.state = .accepted ∧ quotedAccountLocal w quote = true then reject w quote.id else w

/-- `delete_status`: one's own, its boosts with it. -/
def deleteQuoting (w : World) (accountId statusId : ℕ) : World :=
  statusRemoved { w with db := deleteStatus w.db accountId statusId } statusId

/-- `DELETE FROM statuses WHERE p`: quotes of what goes keep their row without it. -/
def purgeStatuses (w : World) (p : Status → Bool) : World :=
  let gone := removedIds w.db p
  { w with
    db := deleteStatuses w.db p
    quotes := (w.quotes.deleteWhere fun q => q.statusId ∈ gone).update
      (fun q =>
        if q.quotedStatusId.any (· ∈ gone) then { q with quotedStatusId := none } else q)
      fun q => by split <;> rfl }

/-! ### From other servers -/

structure Env where
  sameHost : String → String → Bool
  /-- A web URL. -/
  isWeb : String → Bool
  /-- `TagManager#local_url?` -/
  localUrl : String → Bool
  /-- `quotes::status_uri` and `quotes::account_uri` -/
  statusUri : Db → ℕ → Option String
  accountUri : Db → ℕ → Option String
  /-- `resolve_or_fetch_remote_account` -/
  resolve : Db → String → Option ℕ
  hasSigningKey : ℕ → Bool
  hasInbox : ℕ → Bool

structure QuoteRequest where
  id : String
  actor : String
  object : String
  instrument : String

/-- `StatusPolicy#quote?`, as `handle_quote_request` has it. -/
def allowed (w : World) (quoted : Status) (quoterId : ℕ) : Bool :=
  !(w.db.account quoted.accountId).any (·.unavailable) &&
    !blocked w.db quoterId quoted.accountId &&
    !w.db.accountDomainBlocks.contains
      (quoted.accountId, ((w.db.account quoterId).bind (·.domain)).getD "") &&
    decide (policyFor w quoted quoterId ≠ .denied)

def requested (w : World) (uri : String) : Option Status :=
  (w.db.statuses.rows.find? fun s =>
    s.uri = some uri ∧ s.deleted = false ∧ isLocal w.db s.accountId = true).filter fun s =>
      s.visibility.distributable && s.reblogOfId.isNone

def requestedQuote (e : Env) (w : World) (r : QuoteRequest) : Option Quote :=
  if r.id = "" ∨ r.object = "" ∨ r.actor = "" then none
  else if !e.sameHost r.actor r.id then none
  else
    match requested w r.object with
    | none => none
    | some quoted =>
        match e.resolve w.db r.actor with
        | none => none
        | some quoterId =>
            if !e.hasSigningKey quoted.accountId || !e.hasInbox quoterId then none
            else if !allowed w quoted quoterId then none
            else
              match keptByUri w.db r.instrument with
              | none => none
              | some quoting =>
                  (w.findByStatus quoting.id).filter fun quote =>
                    quote.quotedStatusId = some quoted.id ∧ quoting.accountId = quoterId

def handleQuoteRequest (e : Env) (w : World) (r : QuoteRequest) : World :=
  match requestedQuote e w r with
  | none => w
  | some quote => accept (setActivityUri (ensureQuotedAccess w quote) quote.id r.id) quote.id none

/-- What `StatusParser` reads of a post's quote. -/
structure QuoteFields where
  uri : Option String
  deleted : Bool
  legacy : Bool
  approvalUri : Option String

/-- `quote_approval_uri`, less one we could not fetch or that is ours. -/
def QuoteFields.stampUri (e : Env) (f : QuoteFields) : Option String :=
  f.approvalUri.filter fun uri => e.isWeb uri && !e.localUrl uri

structure StampDocument where
  id : Option String
  supportedContext : Bool
  isAuthorization : Bool
  attributedTo : Option String
  interactingObject : Option String
  interactionTarget : Option String
  /-- The target is inlined. -/
  inlined : Bool

/-- How fetching a stamp went. -/
inductive Stamp where
  | unanswered
  | gone
  | found (d : StampDocument)

/-- What other servers answer while a quote is verified. -/
structure Answers where
  /-- The quoted post, where it was not here: unanswered, or what was found. -/
  quoted : Option (Option ℕ)
  stamp : Stamp
  /-- The post inlined in the stamp could be stored. -/
  imported : Bool

def setQuotedStatus (w : World) (q : Quote) (statusId : ℕ) : World :=
  match w.db.statuses.rows.find? (·.id = statusId) with
  | none => w
  | some quoted =>
      if quoted.reblogOfId.isSome ||
          (quoted.accountId ≠ q.accountId && !quoted.visibility.distributable) then w
      else
        w.setQuote q.id
          (fun q => { q with
            quotedStatusId := some quoted.id, quotedAccountId := some quoted.accountId })
          fun _ => rfl

/-- `fast_track`: always allow someone to quote themselves. -/
def fastTrack (w : World) (q : Quote) : World :=
  if q.quotedStatusId.isSome ∧ some q.accountId = q.quotedAccountId then accept w q.id none else w

/-- `fetch_quoted_post_if_needed!`, or nothing when it was not answered. -/
def fetchQuotedPost (w : World) (q : Quote) (quotedUri : Option String) (a : Answers) :
    Option World :=
  match q.quotedStatusId, quotedUri with
  | none, some uri =>
      match keptByUri w.db uri with
      | some found => some (setQuotedStatus w q found.id)
      | none => a.quoted.map fun found => found.elim w (setQuotedStatus w q)
  | _, _ => some w

/-- The post another server's account wrote under a URI, once stored. -/
def remoteByUri (w : World) (uri : String) : Option Status :=
  w.db.statuses.rows.find? fun s => s.uri = some uri ∧ isLocal w.db s.accountId = false

/-- `import_quoted_post_if_needed!` -/
def importQuotedPost (e : Env) (w : World) (q : Quote) (approvalUri : String)
    (quotedUri : Option String) (d : StampDocument) (imported : Bool) : World :=
  match q.quotedStatusId, quotedUri with
  | none, some uri =>
      if d.inlined && decide (d.interactionTarget = some uri) && e.sameHost approvalUri uri &&
          imported then
        match remoteByUri w uri with
        | none => w
        | some found =>
            let w := setQuotedStatus w q found.id
            fastTrack w ((w.quote q.id).getD q)
      else w
  | _, _ => w

/-- `matching_quoted_post?` and `matching_quoted_author?` -/
def matchesQuoted (e : Env) (w : World) (q : Quote) (d : StampDocument) : Bool :=
  match q.quotedStatusId with
  | none => false
  | some statusId =>
      decide (e.statusUri w.db statusId = d.interactionTarget) &&
        decide (q.quotedAccountId.bind (e.accountUri w.db) = d.attributedTo)

def verifyStamp (e : Env) (w : World) (q : Quote) (approvalUri : String)
    (quotedUri : Option String) (d : StampDocument) (imported : Bool) : World :=
  if d.id ≠ some approvalUri then reject w q.id
  else if !d.attributedTo.any (e.sameHost approvalUri) then w
  else if !d.supportedContext || !d.isAuthorization ||
      decide (e.statusUri w.db q.statusId ≠ d.interactingObject) then w
  else
    let w := importQuotedPost e w q approvalUri quotedUri d imported
    let q := (w.quote q.id).getD q
    if matchesQuoted e w q d then accept w q.id (some approvalUri) else w

def verify (e : Env) (w : World) (q : Quote) (stampUri quotedUri : Option String) (a : Answers) :
    World :=
  match fetchQuotedPost w q quotedUri a with
  | none => w
  | some w =>
      let q' := (w.quote q.id).getD q
      if quotedAccountLocal w q' then w
      else
        let w := fastTrack w q'
        match (stampUri.or q.approvalUri).filter (· ≠ "") with
        | none => w
        | some approvalUri =>
            match a.stamp with
            | .unanswered => w
            | .gone => reject w q.id
            | .found d => verifyStamp e w q' approvalUri quotedUri d a.imported

def insertPending (w : World) (statusId accountId quoteId : ℕ) (f : QuoteFields) : World :=
  { w with
    quotes := w.quotes.insert
      { id := quoteId
        accountId := accountId
        statusId := statusId
        quotedStatusId := none
        quotedAccountId := none
        state := if f.deleted then .deleted else .pending
        approvalUri := none
        activityUri := none
        legacy := f.legacy } }

/-- `process_quote`, of the status just stored. -/
def processQuote (e : Env) (w : World) (statusId accountId quoteId : ℕ) (f : QuoteFields)
    (a : Answers) : World :=
  if (w.findByStatus statusId).isSome ∨ (w.quote quoteId).isSome then w
  else
    let w := insertPending w statusId accountId quoteId f
    match w.quote quoteId with
    | none => w
    | some quote => verify e w quote (f.stampUri e) f.uri a

def resetIfStampChanged (w : World) (q : Quote) (stampUri : Option String) (legacy : Bool) :
    World :=
  if q.approvalUri.isNone ∨ q.approvalUri = stampUri then w
  else
    w.setQuote q.id (fun q => { q with approvalUri := none, state := .pending, legacy := legacy })
      fun _ => rfl

def updateQuoteApproval (e : Env) (w : World) (statusId : ℕ) (f : QuoteFields) (a : Answers) :
    World :=
  match w.findByStatus statusId, f.uri with
  | some quote, some uri =>
      let quotedUri := quote.quotedStatusId.bind (e.statusUri w.db)
      if quotedUri.any fun quoted => quoted ≠ uri || quotedAccountLocal w quote then w
      else
        let w := resetIfStampChanged w quote (f.stampUri e) f.legacy
        verify e w ((w.quote quote.id).getD quote) (f.stampUri e) (some uri) a
  | _, _ => w

def updateQuote (e : Env) (w : World) (statusId accountId quoteId : ℕ) (f : Option QuoteFields)
    (a : Answers) : World :=
  match w.findByStatus statusId, f with
  | none, none => w
  | some quote, none => destroy w quote.id
  | none, some f => processQuote e w statusId accountId quoteId f a
  | some quote, some f =>
      let quotedUri := quote.quotedStatusId.bind (e.statusUri w.db)
      if quotedUri.isSome ∧ quotedUri ≠ f.uri then
        -- the old quote goes, revoked first if it was an accepted quote of ours
        let w :=
          if quote.state = .accepted ∧ quotedAccountLocal w quote = true then reject w quote.id
          else w
        processQuote e (destroy w quote.id) statusId accountId quoteId f a
      else
        let w := resetIfStampChanged w quote (f.stampUri e) f.legacy
        verify e w ((w.quote quote.id).getD quote) (f.stampUri e) f.uri a

/-- `RefetchAndVerifyQuoteWorker` -/
def refetchAndVerify (e : Env) (w : World) (quoteId : ℕ) (stampUri quotedUri : Option String)
    (a : Answers) : World :=
  match w.quote quoteId with
  | none => w
  | some quote => verify e w quote stampUri quotedUri a

def quotedBy (w : World) (actor : String) (q : Quote) : Bool :=
  q.quotedAccountId.any fun id => (w.db.account id).any (·.uri = some actor)

def handleQuoteAnswer (e : Env) (w : World) (accepts : Bool) (actor object : String)
    (result : Option String) : World :=
  match w.quotes.rows.find? fun q => q.activityUri = some object ∧ quotedBy w actor q = true with
  | none => w
  | some quote =>
      if object = "" then w
      else if !(w.db.keptStatus quote.statusId).any fun s => isLocal w.db s.accountId then w
      else if !accepts then reject w quote.id
      else
        match result.filter fun uri => e.isWeb uri && e.sameHost uri actor with
        | none => w
        | some approvalUri =>
            if quote.state ≠ .pending then w else accept w quote.id (some approvalUri)

/-- `revoke_by_stamp`, and whether there was such a quote. -/
def revokeByStamp (w : World) (actor approvalUri : String) : World × Bool :=
  match w.quotes.rows.find? fun q => q.approvalUri = some approvalUri ∧ quotedBy w actor q = true ∧
      (q.state = .pending ∨ q.state = .accepted) with
  | none => (w, false)
  | some quote => (reject w quote.id, true)

inductive DeletedType where
  | quoteAuthorization
  | note
  | other
  deriving DecidableEq

/-- `handle_delete`, of a stamp or a status. -/
def handleDelete (e : Env) (w : World) (actor uri : String) (type : DeletedType) : World :=
  if type = .quoteAuthorization then (revokeByStamp w actor uri).1
  else if !e.sameHost actor uri then
    if type = .other then (revokeByStamp w actor uri).1 else w
  else
    let deleted := keptByUri w.db uri
    let known := w.db.statuses.rows.any (·.uri = some uri)
    let w := { w with db := discardByUri w.db uri }
    match deleted with
    | some row => statusRemoved w row.id
    | none => if known ∨ type = .note then w else (revokeByStamp w actor uri).1

/-! ### Steps -/

inductive Op where
  | post (p : QuotePost)
  | revoke (accountId quotedStatusId quotingStatusId : ℕ)
  | delete (accountId statusId : ℕ)
  | purge (p : Status → Bool)
  /-- Whatever else changes accounts, statuses, relationships, policies and mentions. -/
  | other (db : Db) (quotePolicies : ℕ → BitVec 32) (mentions : List (ℕ × ℕ))
  | quoteRequest (r : QuoteRequest)
  | create (statusId accountId quoteId : ℕ) (f : QuoteFields) (a : Answers)
  | update (statusId accountId quoteId : ℕ) (f : Option QuoteFields) (a : Answers)
  | updateApproval (statusId : ℕ) (f : QuoteFields) (a : Answers)
  | answer (accepts : Bool) (actor object : String) (result : Option String)
  | inboundDelete (actor uri : String) (type : DeletedType)
  | refetchAndVerify (quoteId : ℕ) (stampUri quotedUri : Option String) (a : Answers)

def step (e : Env) (w : World) : Op → World
  | .post p => postQuote w p
  | .revoke accountId quotedStatusId quotingStatusId =>
      revokeQuote w accountId quotedStatusId quotingStatusId
  | .delete accountId statusId => deleteQuoting w accountId statusId
  | .purge p => purgeStatuses w p
  | .other db quotePolicies mentions =>
      { w with db := db, quotePolicies := quotePolicies, mentions := mentions }
  | .quoteRequest r => handleQuoteRequest e w r
  | .create statusId accountId quoteId f a => processQuote e w statusId accountId quoteId f a
  | .update statusId accountId quoteId f a => updateQuote e w statusId accountId quoteId f a
  | .updateApproval statusId f a => updateQuoteApproval e w statusId f a
  | .answer accepts actor object result => handleQuoteAnswer e w accepts actor object result
  | .inboundDelete actor uri type => handleDelete e w actor uri type
  | .refetchAndVerify quoteId stampUri quotedUri a =>
      Quotes.refetchAndVerify e w quoteId stampUri quotedUri a

end Eunha.Quotes
