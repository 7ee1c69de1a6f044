import Eunha.NoteMembers
import Eunha.QuoteRecording

/-!
# Posts that survive federation

A note that one instance builds of a local status, and what another makes of it. What the
second stores is compared with what the first has, part by part, and is the same just where
none of the ways applies in which one of the two loses something.
-/
namespace Eunha.NoteSurvival
open Tables Database StatusLifecycle InboxRelationships
open NoteReading (World Arrival Columns)
open Notes (Json member asString)
open NoteMembers QuoteRecording

/-! ### What is sent -/

def parentOf (db : Notes.Db) (s : Notes.Status) : Option Notes.Status :=
  s.inReplyToId.bind db.status

def quotedOf (db : Notes.Db) (s : Notes.Status) : Option Notes.Status :=
  (Notes.quoteOf db s).bind (Notes.quotedOf db)

def parentUri (domain : String) (db : Notes.Db) (s : Notes.Status) : Option String :=
  (parentOf db s).bind (Notes.statusUri domain db)

def quotedUri (domain : String) (db : Notes.Db) (s : Notes.Status) : Option String :=
  (quotedOf db s).bind (Notes.statusUri domain db)

/-- A kept status of a local account that is no boost, under a URI of its instance where one
is stored. -/
structure Sendable (e : Notes.Env) (db : Notes.Db) (s : Notes.Status) (author : Notes.Account) :
    Prop where
  found : db.status s.id = some s
  kept : s.deleted = false
  no_boost : s.reblogOfId = none
  posted : db.account s.accountId = some author
  ours : author.domain = none
  stored : ∀ u, Notes.storedUri s = some u → ∃ path, u = "https://" ++ e.domain ++ "/" ++ path
  authors : ∀ t ∈ db.statuses, ∃ a, db.account t.accountId = some a

/-! ### Where it arrives -/

/-- The times that RFC 3339 can write. -/
def fourDigitYear (t : ℤ) : Prop := -62167219200000000 ≤ t ∧ t < 253402300800000000

instance decidableFourDigitYear (t : ℤ) : Decidable (fourDigitYear t) :=
  inferInstanceAs (Decidable (_ ∧ _))

/-- Another instance, where the author is known and has a local follower, the status is not
known yet, and the parent and the quoted post are under the URIs the first gives them. Times
are read as they are written, to the second. -/
structure Receives (e : Notes.Env) (db : Notes.Db) (s : Notes.Status) (author : Notes.Account)
    (r : NoteReading.Env) (w : World) (a : Arrival) (accountId : ℕ) : Prop where
  elsewhere : r.path (author.uriAt e.domain) = none
  known : ∃ account, w.db.accountByUri (author.uriAt e.domain) = some account ∧
    account.id = accountId
  followers : w.followersUrls accountId = Notes.followersUrl e.domain author
  following : w.followingUrls accountId = Notes.followingUrl e.domain author
  followed : ∃ f ∈ w.db.follows.rows, f.targetAccountId = accountId ∧
    Quotes.isLocal w.db f.accountId = true
  hosts : ∀ p q, r.nonMatchingUriHosts ("https://" ++ e.domain ++ "/" ++ p)
    ("https://" ++ e.domain ++ "/" ++ q) = false
  origin : ∀ p q, r.sameOrigin ("https://" ++ e.domain ++ "/" ++ p)
    ("https://" ++ e.domain ++ "/" ++ q) = true
  unseen : w.db.statusByUri (Notes.noteUri e.domain author s) = none
  undeleted : Notes.noteUri e.domain author s ∉ w.tombstones ∧
    (author.uriAt e.domain, Notes.noteUri e.domain author s) ∉ w.undone
  freshStatus : ∀ t ∈ w.db.statuses.rows, t.id ≠ a.statusId
  freshQuote : ∀ q ∈ w.quotes.rows, q.id ≠ a.quoteId ∧ q.statusId ≠ a.statusId
  freshPoll : ∀ p ∈ w.polls, p.statusId ≠ a.statusId
  parent : ∀ u, parentUri e.domain db s = some u → ∃ t account,
    w.db.statusByUri u = some t ∧ w.db.account t.accountId = some account
  quoted : ∀ p u, quotedOf db s = some p → Notes.statusUri e.domain db p = some u →
    ∃ t, keptByUri w.db u = some t ∧ t.reblogOfId.isSome = p.reblogOfId.isSome ∧
      t.visibility.distributable = p.visibility.distributable ∧
      (t.accountId = accountId ↔ p.accountId = author.id)
  times : ∀ poll t, Notes.pollOf db s = some poll → poll.expiresAt = some t →
    r.parseRfc3339 (e.iso8601 t) =
      if fourDigitYear t then some (t / 1000000 * 1000000) else none

/-! ### What has to come back -/

/-- The same options, multiplicity and expiry, and the tallies where they are shown. -/
structure SamePoll (e : Notes.Env) (db : Notes.Db) (p : Notes.Poll) (q : NoteReading.Poll) :
    Prop where
  options : q.options = p.options
  multiple : q.multiple = p.multiple
  expiresAt : q.expiresAt.map (· / 1000000) = p.expiresAt.map (· / 1000000)
  tallies : Notes.showTotals e p = true → q.cachedTallies = Notes.tallies db p

structure SameStatus (e : Notes.Env) (db : Notes.Db) (s : Notes.Status) (author : Notes.Account)
    (w : World) (row : Status) (columns : Columns) : Prop where
  account : (w.db.account row.accountId).bind (·.uri) = some (author.uriAt e.domain)
  visibility : row.visibility = Addressing.readBack s.visibility
  spoilerText : columns.spoilerText = s.spoilerText
  language : columns.language = s.language
  parent : row.inReplyToId =
    (parentUri e.domain db s).bind fun u => (w.db.statusByUri u).map (·.id)
  quoted : (w.findByStatus row.id).bind (·.quotedStatusId) =
    (quotedUri e.domain db s).bind fun u => (keptByUri w.db u).map (·.id)
  policy : Notes.automatic (w.quotePolicies row.id) = Notes.automatic s.quoteApprovalPolicy
  poll : Option.Rel (SamePoll e db) (Notes.pollOf db s)
    (w.polls.find? (·.statusId = row.id))

def Survives (e : Notes.Env) (db : Notes.Db) (s : Notes.Status) (author : Notes.Account)
    (w : World) : Prop :=
  ∃ row columns, w.db.statusByUri (Notes.noteUri e.domain author s) = some row ∧
    w.columns row.id = some columns ∧ SameStatus e db s author w row columns

/-- Nothing is lost: the audience says what the visibility is, a content warning is more than
spaces, the language is spelled as it is everywhere, the parent and the quoted post have their
URIs stored, the quoted post is the author's own or for everyone, no one else is let quote,
and the poll ends in a year of four digits. -/
structure Survivable (e : Notes.Env) (db : Notes.Db) (s : Notes.Status)
    (author : Notes.Account) : Prop where
  visibility : Addressing.WellSpelled s.visibility (Notes.followersUrl e.domain author)
    (Notes.mentionUris e.domain db author s)
  spoilerText : NoteReading.blank s.spoilerText = true → s.spoilerText = ""
  language : ∀ l, s.language = some l →
    NoteReading.blank l = false ∧ NoteReading.normalizedLocaleName l = l
  parent : ∀ p, parentOf db s = some p → Notes.storedUri p ≠ none
  quoted : ∀ p, quotedOf db s = some p →
    (∃ u, Notes.storedUri p = some u ∧ NoteReading.blank u = false) ∧ p.reblogOfId = none ∧
      (p.accountId = author.id ∨ p.visibility.distributable = true)
  policy : Notes.automatic s.quoteApprovalPolicy &&& advertised =
    Notes.automatic s.quoteApprovalPolicy
  expiresAt : ∀ poll t, Notes.pollOf db s = some poll → poll.expiresAt = some t →
    fourDigitYear t

/-! ### URIs of this instance -/

theorem uriAt_ours (domain : String) (author : Notes.Account) :
    ∃ path, author.uriAt domain = "https://" ++ domain ++ "/" ++ path := by
  rw [Notes.Account.uriAt, LocalUri.accountUri]
  split_ifs
  · exact ⟨"actor", String.toList_inj.mp (by simp)⟩
  · exact ⟨"ap/users/" ++ toString author.id, String.toList_inj.mp (by simp)⟩
  · exact ⟨"users/" ++ author.username, String.toList_inj.mp (by simp)⟩

theorem Sendable.noteUri_ours {e : Notes.Env} {db : Notes.Db} {s : Notes.Status}
    {author : Notes.Account} (hs : Sendable e db s author) :
    ∃ path, Notes.noteUri e.domain author s = "https://" ++ e.domain ++ "/" ++ path := by
  rw [Notes.noteUri]
  cases hstored : Notes.storedUri s with
  | some u => exact hs.stored u hstored
  | none =>
      obtain ⟨path, hpath⟩ := uriAt_ours e.domain author
      refine ⟨path ++ "/statuses/" ++ toString s.id, ?_⟩
      rw [Option.getD_none, Notes.madeUri]
      rw [Notes.Account.uriAt] at hpath
      rw [hpath, String.append_assoc, String.append_assoc, String.append_assoc,
        String.append_assoc, String.append_assoc, String.append_assoc, String.append_assoc]

theorem ours_ne (domain path : String) : "https://" ++ domain ++ "/" ++ path ≠ "" := by
  intro h
  have hlength := congrArg (fun s => s.toList.length) h
  simp at hlength

theorem ne_of_not_suffix {a suffix c : String} (h : ¬ suffix.toList <:+ c.toList) :
    a ++ suffix ≠ c := by
  intro heq
  apply h
  rw [← heq, String.toList_append]
  exact List.suffix_append _ _

theorem ne_of_not_infix {a i b c : String} (h : ¬ i.toList <:+: c.toList) :
    a ++ i ++ b ≠ c := by
  intro heq
  apply h
  rw [← heq, String.toList_append, String.toList_append]
  exact ⟨a.toList, b.toList, rfl⟩

theorem apart_collections (domain : String) (author : Notes.Account) :
    Apart (Notes.followersUrl domain author) (Notes.followingUrl domain author)
      (author.uriAt domain) where
  followers_public := by
    simp only [NoteReading.publicActors, List.mem_cons, List.not_mem_nil, or_false, not_or]
    refine ⟨?_, ?_, ?_⟩ <;> exact ne_of_not_suffix (by decide)
  following_public := by
    simp only [NoteReading.publicActors, List.mem_cons, List.not_mem_nil, or_false, not_or]
    refine ⟨?_, ?_, ?_⟩ <;> exact ne_of_not_suffix (by decide)
  actor_public := by
    rw [Notes.Account.uriAt, LocalUri.accountUri]
    simp only [NoteReading.publicActors, List.mem_cons, List.not_mem_nil, or_false, not_or]
    split_ifs
    · refine ⟨?_, ?_, ?_⟩ <;> exact ne_of_not_suffix (by decide)
    · refine ⟨?_, ?_, ?_⟩ <;> exact ne_of_not_infix (by decide)
    · refine ⟨?_, ?_, ?_⟩ <;> exact ne_of_not_infix (by decide)
  collections := by
    intro h
    rw [Notes.followersUrl, Notes.followingUrl] at h
    have hlist := congrArg String.toList h
    rw [String.toList_append, String.toList_append] at hlist
    exact absurd (List.append_cancel_left hlist) (by decide)
  actor_followers := by
    intro h
    have hlength := congrArg (fun s => s.toList.length) h
    simp [Notes.followersUrl] at hlength
  actor_following := by
    intro h
    have hlength := congrArg (fun s => s.toList.length) h
    simp [Notes.followingUrl] at hlength
  followers_ne := by
    intro h
    have hlength := congrArg (fun s => s.toList.length) h
    simp [Notes.followersUrl] at hlength
  following_ne := by
    intro h
    have hlength := congrArg (fun s => s.toList.length) h
    simp [Notes.followingUrl] at hlength
  actor_ne := by
    obtain ⟨path, hpath⟩ := uriAt_ours domain author
    rw [hpath]
    exact ours_ne domain path

/-! ### The Create that arrives -/

section
variable {e : Notes.Env} {db : Notes.Db} {author : Notes.Account} {s : Notes.Status}

theorem buildNote_eq (hs : Sendable e db s author) :
    Notes.buildNote e db s.id = some (Notes.bundle e db author s) := by
  have hpicked : (s.deleted = false ∧ s.reblogOfId = none) := ⟨hs.kept, hs.no_boost⟩
  rw [Notes.buildNote, hs.found, Option.filter_some, if_pos (by simpa using hpicked)]
  dsimp only
  rw [hs.posted, Option.filter_some, if_pos (by simpa using hs.ours)]
  rfl

def activity (e : Notes.Env) (db : Notes.Db) (author : Notes.Account) (s : Notes.Status) : Json :=
  (Notes.bundle e db author s).intoCreate e

theorem object_activity :
    member "object" (activity e db author s) = some (object e db author s) := by
  rw [activity, Notes.NoteBundle.intoCreate, Notes.member_obj]
  simp [Notes.lookup_cons, object]

theorem actorOf_activity :
    NoteReading.actorOf (activity e db author s) = author.uriAt e.domain := by
  rw [NoteReading.actorOf, activity, Notes.NoteBundle.intoCreate, Notes.member_obj]
  simp [Notes.lookup_cons, Notes.bundle]

theorem objectOf_activity (r : NoteReading.Env) :
    NoteReading.objectOf r (activity e db author s) = some (object e db author s) := by
  rw [NoteReading.objectOf, object_activity]
  rfl

variable {r : NoteReading.Env} {w : World} {a : Arrival} {accountId : ℕ}

theorem related_activity (hr : Receives e db s author r w a accountId) :
    NoteReading.related w.db accountId (activity e db author s) (object e db author s) = true := by
  obtain ⟨f, hf, htarget, hlocal⟩ := hr.followed
  have hfollowed : (w.db.follows.rows.any fun f =>
      f.targetAccountId = accountId ∧ Quotes.isLocal w.db f.accountId = true) = true := by
    rw [List.any_eq_true]
    exact ⟨f, hf, by simp [htarget, hlocal]⟩
  rw [NoteReading.related, hfollowed, Bool.true_or, Bool.true_or, Bool.true_or]

theorem perform_eq (hr : Receives e db s author r w a accountId) :
    NoteReading.perform r w a accountId (Notes.noteUri e.domain author s)
        (activity e db author s) (object e db author s) =
      NoteReading.store r w a accountId (Notes.noteUri e.domain author s)
        (object e db author s) := by
  have hrelated : ¬ (!a.fetched && !NoteReading.related w.db accountId (activity e db author s)
      (object e db author s)) = true := by
    simp [related_activity hr]
  rw [NoteReading.perform, name_object]
  cases NoteReading.inReplyTo w.db (object e db author s) with
  | none => exact (if_neg Bool.false_ne_true).trans (if_neg hrelated)
  | some parent => exact (if_neg Bool.false_ne_true).trans (if_neg hrelated)

theorem create_eq (hs : Sendable e db s author) (hr : Receives e db s author r w a accountId) :
    NoteReading.create r w a (activity e db author s) =
      NoteReading.store r w a accountId (Notes.noteUri e.domain author s)
        (object e db author s) := by
  obtain ⟨path, hactor⟩ := uriAt_ours e.domain author
  obtain ⟨path', hnote⟩ := hs.noteUri_ours
  obtain ⟨account, haccount, hid⟩ := hr.known
  have hhosts : r.nonMatchingUriHosts (author.uriAt e.domain)
      (Notes.noteUri e.domain author s) = false := by
    rw [hactor, hnote]
    exact hr.hosts path path'
  have horigin : r.sameOrigin (Notes.noteUri e.domain author s) (author.uriAt e.domain) =
      true := by
    rw [hactor, hnote]
    exact hr.origin path' path
  have hnonempty : ¬ (Notes.noteUri e.domain author s = "" ∨ author.uriAt e.domain = "") := by
    rw [hactor, hnote]
    simp only [ours_ne, or_self, not_false_eq_true]
  have harrived : State.deleteArrivedFirst ⟨w.db, w.undone⟩ (author.uriAt e.domain)
      (Notes.noteUri e.domain author s) = false := by
    simp [State.deleteArrivedFirst, hr.undeleted.2]
  have htombstones : w.tombstones.contains (Notes.noteUri e.domain author s) = false := by
    simpa using hr.undeleted.1
  have hresolved : resolveOrFetch r.toInstance w.db (author.uriAt e.domain) =
      some (w.db, accountId) := by
    rw [resolveOrFetch, hr.elsewhere]
    dsimp only
    rw [haccount, ← hid]
  rw [NoteReading.create, objectOf_activity]
  dsimp only
  rw [isStatusType_object, actorOf_activity, id_object, Option.getD_some, if_neg (by simp),
    if_neg hnonempty, if_neg (by simp [hhosts]), horigin, attributed_object, if_neg (by simp),
    if_neg (by simp [harrived]), if_neg (by simp [hr.undeleted.1]), hresolved]
  exact perform_eq hr

/-! ### What is stored -/

theorem rows_insertCounted {db : Db} {row : Status} (h : ¬ db.statuses.Taken row) :
    (insertCounted db row).statuses.rows = db.statuses.rows ++ [row] := by
  rw [insertCounted, Statuses.onStatusCreated_eq]
  exact Table.rows_insert h

theorem accounts_insertCounted (db : Db) (row : Status) :
    (insertCounted db row).accounts = db.accounts := by
  rw [insertCounted, Statuses.onStatusCreated_eq]

theorem processQuote_spec (r : NoteReading.Env) (w : World) (a : Arrival) (accountId : ℕ)
    (object : Json) (hfresh : ∀ q ∈ w.quotes.rows, q.id ≠ a.quoteId ∧ q.statusId ≠ a.statusId)
    (hknown : ∀ f u, NoteReading.parseQuote object = some f → f.uri = some u →
      ∃ found, keptByUri w.db u = some found) :
    ∃ t, NoteReading.processQuote r w a accountId object =
        { w with toWorld := { w.toWorld with quotes := t } } ∧
      (t.rows.find? (·.statusId = a.statusId)).bind (·.quotedStatusId) =
        quotedBy w.db accountId ((NoteReading.parseQuote object).bind (·.uri)) := by
  rw [NoteReading.processQuote]
  cases hparse : NoteReading.parseQuote object with
  | none =>
      have hnone : w.quotes.rows.find? (·.statusId = a.statusId) = none := by
        rw [List.find?_eq_none]
        intro q hq
        simp [(hfresh q hq).2]
      exact ⟨w.quotes, rfl, by rw [hnone]; rfl⟩
  | some f =>
      have hquoting : Quoting w.toWorld (Quotes.processQuote r.quotes w.toWorld a.statusId
          accountId a.quoteId f a.answers) a.statusId a.quoteId accountId
          (quotedBy w.db accountId f.uri) :=
        quoting_processQuote r.quotes f a.answers hfresh fun u hu => hknown f u hparse hu
      refine ⟨(Quotes.processQuote r.quotes w.toWorld a.statusId accountId a.quoteId f
        a.answers).quotes, ?_, ?_⟩
      · dsimp only
        rw [← hquoting.rest]
      · obtain ⟨q, -, hfound, -, hq⟩ := hquoting.row
        rw [Quotes.World.findByStatus] at hfound
        rw [hfound]
        exact hq

structure Stored (e : Notes.Env) (db : Notes.Db) (author : Notes.Account) (s : Notes.Status)
    (r : NoteReading.Env) (w : World) (a : Arrival) (accountId : ℕ) (w' : World) : Prop where
  accounts : w'.db.accounts = w.db.accounts
  rows : w'.db.statuses.rows = w.db.statuses.rows ++
    [NoteReading.rowOf a w.db accountId (Notes.noteUri e.domain author s) (object e db author s)]
  columns : w'.columns a.statusId =
    some (NoteReading.columnsOf r w a accountId (object e db author s))
  policy : w'.quotePolicies a.statusId =
    NoteReading.remoteQuotePolicy w accountId (object e db author s)
  quoted : (w'.findByStatus a.statusId).bind (·.quotedStatusId) =
    quotedBy w'.db accountId
      ((NoteReading.parseQuote (object e db author s)).bind (·.uri))
  poll : w'.polls.find? (·.statusId = a.statusId) =
    NoteReading.pollOf r a accountId (object e db author s)

theorem not_taken (hr : Receives e db s author r w a accountId) (object : Json) :
    ¬ w.db.statuses.Taken
      (NoteReading.rowOf a w.db accountId (Notes.noteUri e.domain author s) object) := by
  rintro ⟨t, ht, k, hk, hk'⟩
  simp only [NoteReading.rowOf, Status.keys, Option.map_some, Option.toList_some, List.mem_cons,
    List.not_mem_nil, or_false] at hk'
  obtain rfl | rfl := hk'
  · simp only [Status.keys, List.mem_cons, Index.id.injEq, Option.mem_toList,
      Option.map_eq_some_iff, reduceCtorEq, and_false, exists_false, or_false] at hk
    exact hr.freshStatus t ht hk.symm
  · simp only [Status.keys, List.mem_cons, reduceCtorEq, false_or, Option.mem_toList,
      Option.map_eq_some_iff, Index.uri.injEq, exists_eq_right] at hk
    have hnone := List.find?_eq_none.mp hr.unseen t ht
    simp [hk] at hnone

theorem uri_of_parseQuote (hs : Sendable e db s author) {f : Quotes.QuoteFields}
    (hparse : NoteReading.parseQuote (object e db author s) = some f) {u : String}
    (hu : f.uri = some u) :
    ∃ p, quotedOf db s = some p ∧ Notes.storedUri p = some u ∧
      Notes.statusUri e.domain db p = some u := by
  cases hquote : Notes.quoteOf db s with
  | none =>
      rw [parseQuote_none hquote] at hparse
      cases hparse
  | some quote =>
      have hblank : ∀ u, (Notes.quotedOf db quote).bind Notes.storedUri = some u →
          NoteReading.blank u = false := by
        intro u hu
        by_contra hblank
        rw [parseQuote_blank hquote hu (by simpa using hblank)] at hparse
        cases hparse
      obtain ⟨f', hf', huri⟩ := parseQuote_some (e := e) (s := s) hquote hblank
      obtain rfl : f' = f := Option.some.inj (hf'.symm.trans hparse)
      rw [huri] at hu
      obtain ⟨p, hp, hstored⟩ := Option.bind_eq_some_iff.mp hu
      refine ⟨p, ?_, hstored, ?_⟩
      · rw [quotedOf, hquote]
        exact hp
      · have hmem : p ∈ db.statuses := by
          rw [Notes.quotedOf, Option.filter_eq_some_iff] at hp
          obtain ⟨i, -, hfound⟩ := Option.bind_eq_some_iff.mp hp.1
          exact List.mem_of_find?_eq_some hfound
        obtain ⟨author', hauthor'⟩ := hs.authors p hmem
        rw [Notes.statusUri, hauthor', Option.map_some, Notes.noteUri, hstored]
        rfl

theorem insertPoll_of_fresh {w : World} {poll : NoteReading.Poll}
    (h : ∀ p ∈ w.polls, p.statusId ≠ poll.statusId) :
    NoteReading.insertPoll w poll = { w with polls := w.polls ++ [poll] } := by
  rw [NoteReading.insertPoll, if_neg]
  rw [List.any_eq_true]
  rintro ⟨p, hp, hsame⟩
  exact h p hp (of_decide_eq_true hsame)

theorem stored (hs : Sendable e db s author) (hr : Receives e db s author r w a accountId) :
    Stored e db author s r w a accountId (NoteReading.create r w a (activity e db author s)) := by
  have hfree := not_taken hr (object e db author s)
  rw [create_eq hs hr, NoteReading.store, if_neg hfree]
  have hrows := rows_insertCounted hfree
  obtain ⟨t, hquote, hquoted⟩ := processQuote_spec r (NoteReading.insertStatus r w a accountId
    (Notes.noteUri e.domain author s) (object e db author s)) a accountId (object e db author s)
    hr.freshQuote (by
      intro f u hparse hu
      obtain ⟨p, hp, -, hstatusUri⟩ := uri_of_parseQuote hs hparse hu
      obtain ⟨found, hkept, -⟩ := hr.quoted p u hp hstatusUri
      refine ⟨found, ?_⟩
      rw [keptByUri] at hkept ⊢
      change (insertCounted _ _).statuses.rows.find? _ = _
      rw [hrows, List.find?_append, hkept, Option.some_or])
  dsimp only
  rw [hquote]
  have hpolls : w.polls.find? (·.statusId = a.statusId) = none := by
    rw [List.find?_eq_none]
    intro p hp
    simp [hr.freshPoll p hp]
  cases hpoll : NoteReading.pollOf r a accountId (object e db author s) with
  | none =>
      exact
        { accounts := accounts_insertCounted ..
          rows := hrows
          columns := Function.update_self ..
          policy := Function.update_self ..
          quoted := hquoted
          poll := hpolls.trans hpoll.symm }
  | some poll =>
      have hstatus : poll.statusId = a.statusId := by
        obtain ⟨items, -, rfl⟩ := Option.map_eq_some_iff.mp hpoll
        rfl
      have hfresh : ∀ p ∈ w.polls, p.statusId ≠ poll.statusId := by
        rw [hstatus]
        exact hr.freshPoll
      dsimp only
      rw [insertPoll_of_fresh (by exact hfresh)]
      exact
        { accounts := accounts_insertCounted ..
          rows := hrows
          columns := Function.update_self ..
          policy := Function.update_self ..
          quoted := hquoted
          poll := by
            change (w.polls ++ [poll]).find? _ = _
            rw [List.find?_append, hpolls, hpoll]
            simp [hstatus] }

/-! ### What comes back, part by part -/

variable {w' : World}

/-- The row that is stored. -/
def arrived (e : Notes.Env) (db : Notes.Db) (author : Notes.Account) (s : Notes.Status)
    (w : World) (a : Arrival) (accountId : ℕ) : Status :=
  NoteReading.rowOf a w.db accountId (Notes.noteUri e.domain author s) (object e db author s)

theorem Stored.statusByUri (h : Stored e db author s r w a accountId w')
    (hr : Receives e db s author r w a accountId) :
    w'.db.statusByUri (Notes.noteUri e.domain author s) =
      some (arrived e db author s w a accountId) := by
  have hunseen := hr.unseen
  rw [Db.statusByUri] at hunseen ⊢
  rw [h.rows, List.find?_append, hunseen, Option.none_or]
  simp [arrived, NoteReading.rowOf]

theorem Stored.known (h : Stored e db author s r w a accountId w') {u : String} {t : Status}
    (ht : w.db.statusByUri u = some t) : w'.db.statusByUri u = some t := by
  rw [Db.statusByUri] at ht ⊢
  rw [h.rows, List.find?_append, ht, Option.some_or]

theorem Stored.keptByUri (h : Stored e db author s r w a accountId w') {u : String} {t : Status}
    (ht : keptByUri w.db u = some t) : keptByUri w'.db u = some t := by
  rw [StatusLifecycle.keptByUri] at ht ⊢
  rw [h.rows, List.find?_append, ht, Option.some_or]

theorem account_known (hr : Receives e db s author r w a accountId) :
    ∃ account, w.db.account accountId = some account ∧
      account.uri = some (author.uriAt e.domain) := by
  obtain ⟨account, hknown, rfl⟩ := hr.known
  obtain ⟨hmem, huri⟩ := Db.accountByUri_mem hknown
  refine ⟨account, ?_, huri⟩
  rw [Db.account, Table.find?_eq_some_iff]
  · exact ⟨hmem, by simp⟩
  · intro x hx y hy hxid hyid
    rw [decide_eq_true_iff] at hxid hyid
    exact w.db.accounts.eq_of_key hx hy (k := .id account.id) (by simp [Account.keys, hxid])
      (by simp [Account.keys, hyid])

theorem visibility_iff :
    (arrived e db author s w a accountId).visibility = Addressing.readBack s.visibility ↔
      Addressing.WellSpelled s.visibility (Notes.followersUrl e.domain author)
        (Notes.mentionUris e.domain db author s) := by
  rw [← Addressing.roundTrips_iff, arrived, NoteReading.rowOf, visibility_object]
  rfl

theorem spoilerText_iff :
    (NoteReading.columnsOf r w a accountId (object e db author s)).spoilerText =
        s.spoilerText ↔
      (NoteReading.blank s.spoilerText = true → s.spoilerText = "") := by
  rw [NoteReading.columnsOf, spoilerText_object]
  cases hblank : NoteReading.blank s.spoilerText with
  | false => simp
  | true =>
      rw [if_pos rfl]
      exact ⟨fun h _ => h.symm, fun h => (h rfl).symm⟩

theorem language_iff :
    (NoteReading.columnsOf r w a accountId (object e db author s)).language = s.language ↔
      ∀ l, s.language = some l →
        NoteReading.blank l = false ∧ NoteReading.normalizedLocaleName l = l := by
  rw [NoteReading.columnsOf, language_object]
  cases s.language with
  | none => simp
  | some l =>
      rw [Option.filter_some]
      cases hblank : NoteReading.blank l with
      | false => simp [hblank]
      | true => simp [hblank]

theorem parent_mem {p : Notes.Status} (h : parentOf db s = some p) : p ∈ db.statuses := by
  obtain ⟨i, -, hfound⟩ := Option.bind_eq_some_iff.mp h
  exact List.mem_of_find?_eq_some hfound

theorem quoted_mem {p : Notes.Status} (h : quotedOf db s = some p) : p ∈ db.statuses := by
  obtain ⟨quote, -, hp⟩ := Option.bind_eq_some_iff.mp h
  rw [Notes.quotedOf, Option.filter_eq_some_iff] at hp
  obtain ⟨i, -, hfound⟩ := Option.bind_eq_some_iff.mp hp.1
  exact List.mem_of_find?_eq_some hfound

theorem statusUri_some (hs : Sendable e db s author) {p : Notes.Status} (hp : p ∈ db.statuses) :
    ∃ u, Notes.statusUri e.domain db p = some u ∧
      ∀ v, Notes.storedUri p = some v → v = u := by
  obtain ⟨author', hauthor'⟩ := hs.authors p hp
  refine ⟨Notes.noteUri e.domain author' p, by rw [Notes.statusUri, hauthor']; rfl, ?_⟩
  intro v hv
  rw [Notes.noteUri, hv]
  rfl

theorem inReplyToId_arrived :
    (arrived e db author s w a accountId).inReplyToId =
      ((parentOf db s).bind Notes.storedUri).bind fun u => (w.db.statusByUri u).bind fun t =>
        (w.db.account t.accountId).map fun _ => t.id := by
  have hread : (member "inReplyTo" (object e db author s)).bind asString =
      (parentOf db s).bind Notes.storedUri := inReplyTo_object
  rw [arrived, NoteReading.rowOf, NoteReading.inReplyTo, hread]
  dsimp only
  cases (parentOf db s).bind Notes.storedUri with
  | none => rfl
  | some u =>
      rw [Option.bind_some, Option.bind_some]
      cases w.db.statusByUri u with
      | none => rfl
      | some t =>
          rw [Option.bind_some, Option.bind_some, Option.map_map]
          rfl

theorem parent_iff (hs : Sendable e db s author) (hr : Receives e db s author r w a accountId)
    (h : Stored e db author s r w a accountId w') :
    (arrived e db author s w a accountId).inReplyToId =
        ((parentUri e.domain db s).bind fun u => (w'.db.statusByUri u).map (·.id)) ↔
      ∀ p, parentOf db s = some p → Notes.storedUri p ≠ none := by
  rw [inReplyToId_arrived]
  cases hparent : parentOf db s with
  | none =>
      refine iff_of_true ?_ (by simp)
      rw [parentUri, hparent]
      rfl
  | some p =>
      obtain ⟨u, hu, hstored⟩ := statusUri_some hs (parent_mem hparent)
      have huri : parentUri e.domain db s = some u := by
        rw [parentUri, hparent]
        exact hu
      obtain ⟨t, account, ht, haccount⟩ := hr.parent u huri
      rw [huri, Option.bind_some, Option.bind_some, h.known ht]
      cases hpuri : Notes.storedUri p with
      | none => simp [hpuri]
      | some v =>
          obtain rfl := hstored v hpuri
          refine iff_of_true ?_ fun p' hp' => ?_
          · rw [Option.bind_some, ht, Option.bind_some, haccount]
            rfl
          · obtain rfl := Option.some.inj hp'
            simp [hpuri]

theorem quoted_read (hs : Sendable e db s author) :
    (NoteReading.parseQuote (object e db author s)).bind (·.uri) =
      ((quotedOf db s).bind Notes.storedUri).filter fun u => !NoteReading.blank u := by
  cases hread : (quotedOf db s).bind Notes.storedUri with
  | none =>
      rw [Option.filter_none, Option.eq_none_iff_forall_ne_some]
      intro u hu
      obtain ⟨f, hparse, hf⟩ := Option.bind_eq_some_iff.mp hu
      obtain ⟨p, hp, hstored, -⟩ := uri_of_parseQuote hs hparse hf
      rw [hp, Option.bind_some, hstored] at hread
      cases hread
  | some u =>
      obtain ⟨p, hp, hstored⟩ := Option.bind_eq_some_iff.mp hread
      obtain ⟨quote, hquote, hquoted⟩ := Option.bind_eq_some_iff.mp hp
      have hbind : (Notes.quotedOf db quote).bind Notes.storedUri = some u := by
        rw [hquoted]
        exact hstored
      rw [Option.filter_some]
      cases hblank : NoteReading.blank u with
      | true =>
          rw [parseQuote_blank hquote hbind hblank]
          rfl
      | false =>
          obtain ⟨f, hparse, hf⟩ := parseQuote_some (e := e) (s := s) hquote (by
            intro v hv
            rw [hbind] at hv
            cases hv
            exact hblank)
          rw [hparse, Option.bind_some, hf, hbind]
          rfl

theorem quoted_iff (hs : Sendable e db s author) (hr : Receives e db s author r w a accountId)
    (h : Stored e db author s r w a accountId w') :
    ((w'.findByStatus a.statusId).bind (·.quotedStatusId) =
        (quotedUri e.domain db s).bind fun u => (keptByUri w'.db u).map (·.id)) ↔
      ∀ p, quotedOf db s = some p →
        (∃ u, Notes.storedUri p = some u ∧ NoteReading.blank u = false) ∧
          p.reblogOfId = none ∧
          (p.accountId = author.id ∨ p.visibility.distributable = true) := by
  rw [h.quoted, quoted_read hs]
  cases hquoted : quotedOf db s with
  | none =>
      refine iff_of_true ?_ (by simp)
      rw [quotedUri, hquoted]
      rfl
  | some p =>
      obtain ⟨u, hu, hstored⟩ := statusUri_some hs (quoted_mem hquoted)
      have huri : quotedUri e.domain db s = some u := by
        rw [quotedUri, hquoted]
        exact hu
      obtain ⟨t, ht, hboost, hshown, hown⟩ := hr.quoted p u hquoted hu
      rw [huri, Option.bind_some, Option.bind_some, h.keptByUri ht, Option.map_some]
      cases hpuri : Notes.storedUri p with
      | none => simp [hpuri, quotedBy]
      | some v =>
          obtain rfl := hstored v hpuri
          rw [Option.filter_some]
          cases hblank : NoteReading.blank v with
          | true => simp [hpuri, quotedBy, hblank]
          | false =>
              have hrefused : refused t accountId = false ↔
                  p.reblogOfId = none ∧
                    (p.accountId = author.id ∨ p.visibility.distributable = true) := by
                rw [refused, hboost, hshown, Bool.or_eq_false_iff, Bool.and_eq_false_iff,
                  decide_eq_false_iff_not, not_not, hown]
                simp
              rw [if_pos (by simp), quotedBy, Option.bind_some, h.keptByUri ht,
                Option.filter_some]
              cases hr' : refused t accountId with
              | true =>
                  rw [hr'] at hrefused
                  simp only [Bool.true_eq_false, false_iff] at hrefused
                  simp [hpuri, hrefused]
              | false =>
                  rw [hr'] at hrefused
                  simp only [true_iff] at hrefused
                  simp [hpuri, hblank, hrefused]

theorem policy_iff (hr : Receives e db s author r w a accountId)
    (h : Stored e db author s r w a accountId w') :
    Notes.automatic (w'.quotePolicies a.statusId) = Notes.automatic s.quoteApprovalPolicy ↔
      Notes.automatic s.quoteApprovalPolicy &&& advertised =
        Notes.automatic s.quoteApprovalPolicy := by
  obtain ⟨account, haccount, huri⟩ := account_known hr
  rw [h.policy, NoteReading.remoteQuotePolicy, haccount]
  dsimp only
  rw [hr.followers, hr.following, huri, Option.getD_some,
    automatic_quotePolicy (apart_collections e.domain author)]

theorem pollOf_object {poll : Notes.Poll} (hpoll : Notes.pollOf db s = some poll) :
    ∃ q, NoteReading.pollOf r a accountId (object e db author s) = some q ∧
      q.options = poll.options ∧ q.multiple = poll.multiple ∧
      q.expiresAt = (poll.expiresAt.map fun t => e.iso8601 t).bind r.parseRfc3339 ∧
      q.cachedTallies =
        if Notes.showTotals e poll then Notes.tallies db poll
        else (Notes.tallies db poll).map fun _ => 0 := by
  have hany : member "anyOf" (object e db author s) =
      if poll.multiple then some (.array (Notes.pollOptions e db poll)) else none := by
    rw [member_object, lookup_anyOf, hpoll]
    rfl
  have hone : member "oneOf" (object e db author s) =
      if poll.multiple then none else some (.array (Notes.pollOptions e db poll)) := by
    rw [member_object, lookup_oneOf, hpoll]
    rfl
  have hend : (member "endTime" (object e db author s)).bind asString =
      poll.expiresAt.map fun t => e.iso8601 t := by
    rw [member_object, lookup_endTime, hpoll, Option.bind_some]
    cases poll.expiresAt with
    | none => rfl
    | some t => exact Notes.asString_str _
  have hitems : ((member "oneOf" (object e db author s)).or
      (member "anyOf" (object e db author s))).bind NoteReading.asArray =
      some (Notes.pollOptions e db poll) := by
    rw [hany, hone]
    cases poll.multiple <;> rfl
  rw [NoteReading.pollOf, hitems]
  refine ⟨_, rfl, options_read poll, ?_, ?_, tallies_read poll⟩
  · dsimp only
    rw [hany]
    cases poll.multiple <;> rfl
  · dsimp only
    rw [hend]

theorem poll_iff (hr : Receives e db s author r w a accountId)
    (h : Stored e db author s r w a accountId w') :
    Option.Rel (SamePoll e db) (Notes.pollOf db s)
        (w'.polls.find? (·.statusId = a.statusId)) ↔
      ∀ poll t, Notes.pollOf db s = some poll → poll.expiresAt = some t →
        fourDigitYear t := by
  rw [h.poll]
  cases hpoll : Notes.pollOf db s with
  | none =>
      have hany : member "anyOf" (object e db author s) = none := by
        rw [member_object, lookup_anyOf, hpoll]
        rfl
      have hone : member "oneOf" (object e db author s) = none := by
        rw [member_object, lookup_oneOf, hpoll]
        rfl
      rw [NoteReading.pollOf, hany, hone]
      exact iff_of_true .none (by simp)
  | some poll =>
      obtain ⟨q, hq, hoptions, hmultiple, hexpires, htallies⟩ :=
        pollOf_object (e := e) (s := s) (r := r) (a := a) hpoll
      have hread (t : ℤ) (ht : poll.expiresAt = some t) :
          q.expiresAt = if fourDigitYear t then some (t / 1000000 * 1000000) else none := by
        rw [hexpires, ht]
        exact hr.times poll t hpoll ht
      rw [hq]
      constructor
      · intro hrel poll' t hpoll' ht
        cases hpoll'
        cases hrel with
        | some hsame =>
            have hexpiry := hsame.expiresAt
            by_contra hyear
            rw [hread t ht, if_neg hyear, ht] at hexpiry
            cases hexpiry
      · intro hyears
        refine .some ⟨hoptions, hmultiple, ?_, ?_⟩
        · cases ht : poll.expiresAt with
          | none =>
              rw [hexpires, ht]
              rfl
          | some t =>
              rw [hread t ht, if_pos (hyears poll t rfl ht), Option.map_some, Option.map_some,
                Int.mul_ediv_cancel _ (by decide)]
        · intro hshown
          rw [htallies, if_pos hshown]

/-! ### Survival -/

theorem survives_iff (hs : Sendable e db s author) (hr : Receives e db s author r w a accountId) :
    Survives e db s author (NoteReading.create r w a (activity e db author s)) ↔
      Survivable e db s author := by
  have h := stored hs hr
  constructor
  · intro hsurvives
    obtain ⟨row, columns, hrow, hcolumns, hsame⟩ := hsurvives
    obtain rfl := Option.some.inj (hrow.symm.trans (h.statusByUri hr))
    obtain rfl := Option.some.inj (hcolumns.symm.trans h.columns)
    exact
      { visibility := visibility_iff.mp hsame.visibility
        spoilerText := spoilerText_iff.mp hsame.spoilerText
        language := language_iff.mp hsame.language
        parent := (parent_iff hs hr h).mp hsame.parent
        quoted := (quoted_iff hs hr h).mp hsame.quoted
        policy := (policy_iff hr h).mp hsame.policy
        expiresAt := (poll_iff hr h).mp hsame.poll }
  · intro hsurvivable
    obtain ⟨account, haccount, huri⟩ := account_known hr
    have hauthor : (NoteReading.create r w a (activity e db author s)).db.account accountId =
        some account := by
      rw [Db.account, h.accounts]
      exact haccount
    refine ⟨_, _, h.statusByUri hr, h.columns, ?_⟩
    exact
      { account := by
          change ((NoteReading.create r w a (activity e db author s)).db.account
            accountId).bind (·.uri) = _
          rw [hauthor]
          exact huri
        visibility := visibility_iff.mpr hsurvivable.visibility
        spoilerText := spoilerText_iff.mpr hsurvivable.spoilerText
        language := language_iff.mpr hsurvivable.language
        parent := (parent_iff hs hr h).mpr hsurvivable.parent
        quoted := (quoted_iff hs hr h).mpr hsurvivable.quoted
        policy := (policy_iff hr h).mpr hsurvivable.policy
        poll := (poll_iff hr h).mpr hsurvivable.expiresAt }

theorem pollOptions_hidden {poll : Notes.Poll} (hhidden : Notes.showTotals e poll = false)
    (votes : List Notes.Vote) (hvotes : votes.length < 2 ^ 63) :
    Notes.pollOptions e { db with votes := votes, votes_lt := hvotes } poll =
      Notes.pollOptions e db poll := by
  have hoption (o : String × ℤ) :
      Notes.pollOption false o = Notes.pollOption false (o.1, 0) := rfl
  have hall (d : Notes.Db) : Notes.pollOptions e d poll =
      poll.options.map fun o => Notes.pollOption false (o, 0) := by
    have hnames : (poll.options.zip (Notes.tallies d poll)).map Prod.fst = poll.options :=
      List.map_fst_zip (tallies_length poll).ge
    rw [Notes.pollOptions, hhidden, funext hoption]
    conv_rhs => rw [← hnames, List.map_map]
    rfl
  rw [hall, hall]

theorem bundle_hidden {poll : Notes.Poll} (hpoll : Notes.pollOf db s = some poll)
    (hhidden : Notes.showTotals e poll = false) (votes : List Notes.Vote)
    (hvotes : votes.length < 2 ^ 63) :
    Notes.bundle e { db with votes := votes, votes_lt := hvotes } author s =
      Notes.bundle e db author s := by
  have hstage (note : Notes.Members) :
      Notes.withPoll e { db with votes := votes, votes_lt := hvotes } s note =
        Notes.withPoll e db s note := by
    have hpoll' : Notes.pollOf { db with votes := votes, votes_lt := hvotes } s = some poll :=
      hpoll
    rw [Notes.withPoll, Notes.withPoll, hpoll, hpoll']
    dsimp only
    rw [pollOptions_hidden hhidden]
  rw [Notes.bundle, Notes.bundle, hstage]
  rfl

/-- The note that is built of a status makes the same status elsewhere just where nothing of
it is lost on the way; and while a poll hides its totals its note is the same whatever the
votes are. -/
theorem note_survives_iff (hs : Sendable e db s author) :
    ∃ b, Notes.buildNote e db s.id = some b ∧
      (∀ r w a accountId, Receives e db s author r w a accountId →
        (Survives e db s author (NoteReading.create r w a (b.intoCreate e)) ↔
          Survivable e db s author)) ∧
      ∀ poll, Notes.pollOf db s = some poll → Notes.showTotals e poll = false →
        ∀ votes hvotes,
          Notes.buildNote e { db with votes := votes, votes_lt := hvotes } s.id = some b := by
  refine ⟨_, buildNote_eq hs, fun r w a accountId hr => survives_iff hs hr, ?_⟩
  intro poll hpoll hhidden votes hvotes
  rw [← bundle_hidden hpoll hhidden votes hvotes]
  apply buildNote_eq
  exact
    { found := hs.found
      kept := hs.kept
      no_boost := hs.no_boost
      posted := hs.posted
      ours := hs.ours
      stored := hs.stored
      authors := hs.authors }

end

/-! ### A thread and an imported one -/

def published : ℤ := 1748736000000000

def closes : ℤ := 1767225600000000

def exampleEnv : Notes.Env where
  domain := "a.example"
  now := published
  context := Notes.str "https://www.w3.org/ns/activitystreams"
  iso8601 t := if t = closes then "2026-01-01T00:00:00Z" else "2025-06-01T00:00:00Z"
  content _ := "<p>Hello</p>"
  attachments _ := []
  emojis _ := []

def alice : Notes.Account where
  id := 1
  username := "alice"
  domain := none
  uri := none
  idScheme := none
  url := none
  actorType := some "Person"
  followersUrl := ""
  silenced := false
  sensitized := false

def postOf (id : ℤ) (uri : Option String) (parent : Option ℤ) : Notes.Status where
  id := id
  accountId := 1
  uri := uri
  deleted := false
  spoilerText := ""
  visibility := .unlisted
  sensitive := false
  createdAt := published
  editedAt := none
  inReplyToId := parent
  reblogOfId := none
  language := some "en"
  quoteApprovalPolicy := 0x20000

def posted : Notes.Status := postOf 10 (some "https://a.example/users/alice/statuses/10") none

def imported : Notes.Status := postOf 11 none none

def answer : Notes.Status :=
  postOf 20 (some "https://a.example/users/alice/statuses/20") (some 10)

def answerToImported : Notes.Status :=
  postOf 21 (some "https://a.example/users/alice/statuses/21") (some 11)

def exampleDb : Notes.Db where
  accounts := [alice]
  statuses := [posted, imported, answer, answerToImported]
  follows := []
  followRequests := []
  mentions := []
  tags := []
  quotes := []
  polls := [⟨1, 20, ["Yes", "No"], false, false, some closes, some 1⟩]
  votes := [⟨1, 0⟩]
  votes_lt := by decide

/-- Another instance, where one account follows the author. -/
def onHost (uri : String) : Bool := "https://a.example/".toList.isPrefixOf uri.toList

def otherEnv : NoteReading.Env where
  actorUrl := "https://b.example/actor"
  path _ := none
  lower s := s
  isIri _ := true
  fetchAccount _ _ := none
  fetchAccount_uri := fetched_none
  quotes :=
    { sameHost := fun x y => x.toList.take 9 = y.toList.take 9
      isWeb := fun uri => uri.toList.take 8 = "https://".toList
      localUrl := fun uri => uri.toList.take 9 = "https://b".toList
      statusUri := fun db id => (db.keptStatus id).bind (·.uri)
      accountUri := fun db id => (db.account id).bind (·.uri)
      resolve := fun db uri => (db.accounts.rows.find? (·.uri = some uri)).map (·.id)
      hasSigningKey := fun _ => true
      hasInbox := fun _ => true }
  nonMatchingUriHosts x y := !(onHost x && onHost y)
  sameOrigin x y := onHost x && onHost y
  parseRfc3339 text :=
    if text = "2026-01-01T00:00:00Z" then some closes
    else if text = "2025-06-01T00:00:00Z" then some published
    else none
  convertedText _ := ""
  fetchResource _ := none
  fetchRemoteStatus w _ := w

def otherWorld : World where
  db :=
    { Db.empty with
      accounts :=
        { rows := [⟨1, "alice", some "a.example", some "https://a.example/users/alice", false,
            false, false, none⟩, ⟨2, "bob", none, none, false, false, false, none⟩]
          distinct := by decide }
      follows := { rows := [⟨2, 1, none⟩], distinct := by decide }
      statuses :=
        { rows := [⟨5, 1, some "https://a.example/users/alice/statuses/10", .unlisted, none, none,
            false⟩, ⟨6, 1, some "https://a.example/users/alice/statuses/11", .unlisted, none, none,
            false⟩]
          distinct := by decide } }
  quotePolicies _ := 0
  mentions := []
  quotes := .empty
  followersUrls _ := "https://a.example/users/alice/followers"
  followingUrls _ := "https://a.example/users/alice/following"
  sensitized _ := false
  columns _ := none
  polls := []
  votes := []
  tombstones := []
  undone := []

def arrival : Arrival := ⟨7, 8, 9, published, false, ⟨none, .unanswered, false⟩⟩

theorem onHost_example (path : String) :
    onHost ("https://" ++ exampleEnv.domain ++ "/" ++ path) = true := by
  rw [onHost, String.toList_append]
  exact List.isPrefixOf_iff_prefix.mpr (List.prefix_append _ _)

theorem authors_example :
    ∀ t ∈ exampleDb.statuses, ∃ a, exampleDb.account t.accountId = some a := by
  intro t ht
  have haccount : t.accountId = 1 := by
    simp only [exampleDb, List.mem_cons, List.not_mem_nil, or_false] at ht
    obtain rfl | rfl | rfl | rfl := ht <;> rfl
  exact ⟨alice, by rw [haccount]; rfl⟩

theorem sendable_answer : Sendable exampleEnv exampleDb answer alice where
  found := rfl
  kept := rfl
  no_boost := rfl
  posted := rfl
  ours := rfl
  stored u hu := by
    obtain rfl : "https://a.example/users/alice/statuses/20" = u := Option.some.inj hu
    exact ⟨"users/alice/statuses/20", rfl⟩
  authors := authors_example

theorem sendable_answerToImported : Sendable exampleEnv exampleDb answerToImported alice where
  found := rfl
  kept := rfl
  no_boost := rfl
  posted := rfl
  ours := rfl
  stored u hu := by
    obtain rfl : "https://a.example/users/alice/statuses/21" = u := Option.some.inj hu
    exact ⟨"users/alice/statuses/21", rfl⟩
  authors := authors_example

theorem receives_example {s : Notes.Status}
    (hunseen : otherWorld.db.statusByUri (Notes.noteUri exampleEnv.domain alice s) = none)
    (hparent : ∀ u, parentUri exampleEnv.domain exampleDb s = some u →
      ∃ t account, otherWorld.db.statusByUri u = some t ∧
        otherWorld.db.account t.accountId = some account) :
    Receives exampleEnv exampleDb s alice otherEnv otherWorld arrival 1 where
  elsewhere := rfl
  known := ⟨_, rfl, rfl⟩
  followers := rfl
  following := rfl
  followed := ⟨⟨2, 1, none⟩, by simp [otherWorld], rfl, rfl⟩
  hosts p q := by
    change (!(onHost _ && onHost _)) = false
    rw [onHost_example, onHost_example]
    rfl
  origin p q := by
    change (onHost _ && onHost _) = true
    rw [onHost_example, onHost_example]
    rfl
  unseen := hunseen
  undeleted := ⟨List.not_mem_nil, List.not_mem_nil⟩
  freshStatus := by decide
  freshQuote := by decide
  freshPoll := by decide
  parent := hparent
  quoted p u hp := by
    cases hp
  times poll t hpoll ht := by
    have hmem : poll ∈ exampleDb.polls := List.mem_of_find?_eq_some hpoll
    rw [exampleDb, List.mem_singleton] at hmem
    subst hmem
    obtain rfl : closes = t := Option.some.inj ht
    decide +kernel

theorem receives_answer :
    Receives exampleEnv exampleDb answer alice otherEnv otherWorld arrival 1 := by
  apply receives_example
  · decide +kernel
  · intro u hu
    obtain rfl : "https://a.example/users/alice/statuses/10" = u := Option.some.inj hu
    exact ⟨_, _, rfl, rfl⟩

theorem receives_answerToImported :
    Receives exampleEnv exampleDb answerToImported alice otherEnv otherWorld arrival 1 := by
  apply receives_example
  · decide +kernel
  · intro u hu
    obtain rfl : "https://a.example/users/alice/statuses/11" = u := by
      rw [← Option.some.injEq, ← hu]
      decide +kernel
    exact ⟨_, _, rfl, rfl⟩

theorem survivable_answer : Survivable exampleEnv exampleDb answer alice where
  visibility := by
    change Addressing.publicCollection _ = false
    decide +kernel
  spoilerText _ := rfl
  language l hl := by
    obtain rfl : "en" = l := Option.some.inj hl
    decide +kernel
  parent p hp := by
    obtain rfl : posted = p := Option.some.inj hp
    decide +kernel
  quoted p hp := by
    cases hp
  policy := by decide +kernel
  expiresAt poll t hpoll ht := by
    have hmem : poll ∈ exampleDb.polls := List.mem_of_find?_eq_some hpoll
    rw [exampleDb, List.mem_singleton] at hmem
    subst hmem
    obtain rfl : closes = t := Option.some.inj ht
    decide

/-- An answer with a poll arrives as it was sent. -/
theorem note_survives_iff_answer :
    ∃ b, Notes.buildNote exampleEnv exampleDb answer.id = some b ∧
      Survives exampleEnv exampleDb answer alice
        (NoteReading.create otherEnv otherWorld arrival (b.intoCreate exampleEnv)) := by
  obtain ⟨b, hb, hiff, -⟩ := note_survives_iff sendable_answer
  exact ⟨b, hb, (hiff _ _ _ _ receives_answer).mpr survivable_answer⟩

/-- An answer to a post that has no URI stored arrives as no answer to it, though the post is
known there under the URI that its own note has. -/
theorem answerToImported_lost :
    Sendable exampleEnv exampleDb answerToImported alice ∧
      Receives exampleEnv exampleDb answerToImported alice otherEnv otherWorld arrival 1 ∧
      ¬ Survives exampleEnv exampleDb answerToImported alice
        (NoteReading.create otherEnv otherWorld arrival
          (activity exampleEnv exampleDb alice answerToImported)) := by
  refine ⟨sendable_answerToImported, receives_answerToImported, ?_⟩
  rw [survives_iff sendable_answerToImported receives_answerToImported]
  intro h
  exact h.parent imported rfl rfl

end Eunha.NoteSurvival
