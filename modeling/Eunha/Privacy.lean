import Eunha.Pages
import Eunha.StatusReads

/-!
# Statuses that are not for everyone

A viewer a status is not for should be answered as if the status were not there. Each
endpoint is compared with itself in the database without the status: the two agree exactly
when the status is not one the endpoint's own check lets through, nor one that what it shows
boosts, quotes or hangs on.
-/
namespace Eunha.Privacy
open Tables Database ReplyThreads StatusReads Forests Pages
open StatusLifecycle (fetchStatus)
open Quotes (Quote blocked follows)
open Polls (Poll)
open Roles (AppError)

/-! ### Without a status -/

/-- The database without a status and what hangs on it: its mentions, its favourites, its
poll and its quote. -/
def without (w : World) (id : ℕ) : World where
  db :=
    { w.db with
      statuses := w.db.statuses.deleteWhere (·.id = id)
      favourites := w.db.favourites.deleteWhere (·.statusId = id) }
  mentions := w.mentions.filter (·.1 ≠ id)
  mutes := w.mutes
  polls := { w.polls with polls := w.polls.polls.deleteWhere (·.statusId = id) }
  quotes := w.quotes.deleteWhere (·.statusId = id)
  conversations := w.conversations
  replyAuthors := w.replyAuthors
  cards := w.cards
  authors s hs := w.authors s (Table.mem_deleteWhere.mp hs).1

/-- The status is not public nor unlisted, and the viewer neither wrote it, nor is mentioned
in it, nor, where that is enough, follows its author. -/
structure Hidden (w : World) (viewer : Option ℕ) (s : Status) : Prop where
  nonPublic : s.visibility = .priv ∨ s.visibility = .direct ∨ s.visibility = .limited
  notAuthor : viewer ≠ some s.accountId
  notMentioned : ∀ id ∈ viewer, mentioned w s.id id = false
  notFollower : s.visibility = .priv → ∀ id ∈ viewer, follows w.db id s.accountId = false

variable {w : World} {viewer : Option ℕ} {now : ℤ} {s t : Status}

theorem checkStatusVisible_hidden (h : Hidden w viewer s) {id : ℕ} (hid : viewer = some id) :
    checkStatusVisible w s id = decide (s.visibility = .limited) := by
  have hauthor : s.accountId ≠ id := by
    rintro rfl
    exact h.notAuthor hid
  have hmentioned := h.notMentioned id hid
  rw [checkStatusVisible]
  rcases h.nonPublic with hv | hv | hv
  · have hfollows := h.notFollower hv id hid
    simp [hv, hauthor, hmentioned, hfollows]
  · simp [hv, hauthor, hmentioned]
  · simp [hv]

theorem visibleTo_hidden (h : Hidden w viewer s) :
    visibleTo w viewer s = decide (s.visibility = .limited) := by
  cases hviewer : viewer with
  | none =>
      rw [visibleTo]
      rcases h.nonPublic with hv | hv | hv <;> simp [hv]
  | some id => exact checkStatusVisible_hidden h hviewer

theorem distributableTo_hidden (h : Hidden w viewer s) :
    distributableTo w viewer s = (decide (s.visibility = .limited) && viewer.isSome) := by
  cases hviewer : viewer with
  | none =>
      rw [distributableTo]
      rcases h.nonPublic with hv | hv | hv <;> simp [hv, Visibility.distributable]
  | some id =>
      rw [Option.isSome_some, Bool.and_true]
      exact checkStatusVisible_hidden h hviewer

/-! ### What is found without it -/

theorem find?_without (w : World) (id i : ℕ) :
    (without w id).db.statuses.rows.find? (·.id = i) =
      if i = id then none else w.db.statuses.rows.find? (·.id = i) := by
  refine List.find?_filter.trans ?_
  split
  next h =>
    rw [List.find?_eq_none]
    intro s _
    by_cases hs : s.id = id <;> simp [hs, h]
  next h =>
    refine congrArg (List.find? · w.db.statuses.rows) (funext fun s => ?_)
    by_cases hs : s.id = i <;> simp [hs, h]

theorem keptStatus_without (w : World) (id i : ℕ) :
    (without w id).db.keptStatus i = if i = id then none else w.db.keptStatus i := by
  refine List.find?_filter.trans ?_
  split
  next h =>
    rw [List.find?_eq_none]
    intro s _
    by_cases hs : s.id = id <;> simp [hs, h]
  next h =>
    refine congrArg (List.find? · w.db.statuses.rows) (funext fun s => ?_)
    by_cases hs : s.id = i <;> simp [hs, h]

theorem keptStatus_without_self (w : World) (id : ℕ) :
    (without w id).db.keptStatus id = none := by
  rw [keptStatus_without, if_pos rfl]

theorem keptStatus_without_of_ne (w : World) {id i : ℕ} (h : i ≠ id) :
    (without w id).db.keptStatus i = w.db.keptStatus i := by
  rw [keptStatus_without, if_neg h]

theorem fetchStatus_without_self (w : World) (id : ℕ) :
    fetchStatus (without w id).db id = none := by
  rw [fetchStatus, keptStatus_without_self]
  rfl

theorem fetchStatus_without_of_ne (w : World) {id i : ℕ} (h : i ≠ id) :
    fetchStatus (without w id).db i = fetchStatus w.db i := by
  rw [fetchStatus, fetchStatus, keptStatus_without_of_ne w h]
  rfl

theorem mentioned_without (w : World) {id i : ℕ} (h : i ≠ id) (accountId : ℕ) :
    mentioned (without w id) i accountId = mentioned w i accountId := by
  rw [mentioned, mentioned, Bool.eq_iff_iff, List.contains_iff_mem, List.contains_iff_mem]
  simp [without, h]

theorem blockedFrom_without (w : World) (id : ℕ) (viewer : Option ℕ) (t : Status) :
    blockedFrom (without w id) viewer t = blockedFrom w viewer t := rfl

theorem checkStatusVisible_without (w : World) {id : ℕ} (h : t.id ≠ id) (viewerId : ℕ) :
    checkStatusVisible (without w id) t viewerId = checkStatusVisible w t viewerId := by
  rw [checkStatusVisible, checkStatusVisible, mentioned_without w h]
  rfl

theorem visibleTo_without (w : World) {id : ℕ} (h : t.id ≠ id) (viewer : Option ℕ) :
    visibleTo (without w id) viewer t = visibleTo w viewer t := by
  cases viewer with
  | none => rfl
  | some v => exact checkStatusVisible_without w h v

theorem distributableTo_without (w : World) {id : ℕ} (h : t.id ≠ id) (viewer : Option ℕ) :
    distributableTo (without w id) viewer t = distributableTo w viewer t := by
  cases viewer with
  | none => rfl
  | some v => exact checkStatusVisible_without w h v

theorem inThread_without (w : World) {id : ℕ} (h : t.id ≠ id) (viewer : Option ℕ) :
    inThread (without w id) viewer t = inThread w viewer t := by
  rw [inThread, inThread, visibleTo_without w h]
  rfl

theorem statusFromDb_without (w : World) {id : ℕ} (h : t.id ≠ id) (viewer : Option ℕ) (now : ℤ)
    (account : Account) :
    statusFromDb (without w id) viewer now t account = statusFromDb w viewer now t account := by
  have hmentions : (w.mentions.filter (·.1 ≠ id)).filter (·.1 = t.id) =
      w.mentions.filter (·.1 = t.id) := by
    rw [List.filter_filter]
    refine List.filter_congr fun m _ => ?_
    by_cases hm : m.1 = t.id <;> simp [hm, h]
  have hpoll : (w.polls.polls.rows.filter fun p => !decide (p.statusId = id)).find?
      (·.statusId = t.id) = w.polls.polls.rows.find? (·.statusId = t.id) := by
    rw [List.find?_filter]
    refine congrArg (List.find? · w.polls.polls.rows) (funext fun p => ?_)
    by_cases hp : p.statusId = t.id <;> simp [hp, h]
  have hmentions' : (without w id).mentions.filter (·.1 = t.id) =
      w.mentions.filter (·.1 = t.id) := hmentions
  have hpoll' : (without w id).polls.polls.rows.find? (·.statusId = t.id) =
      w.polls.polls.rows.find? (·.statusId = t.id) := hpoll
  rw [statusFromDb, statusFromDb, hmentions', hpoll']
  rfl

/-! ### What boosts it or quotes it -/

def Boosts (w : World) (t s : Status) : Prop :=
  s.deleted = false ∧ (t.reblogOfId = some s.id ∨
    ∃ c, t.reblogOfId.bind w.db.keptStatus = some c ∧ c.reblogOfId = some s.id)

def QuotesIt (w : World) (t s : Status) : Prop :=
  s.deleted = false ∧ ∃ q, (w.quotes.rows.find? fun q =>
    q.statusId = t.id ∧ (q.state = .accepted ∨ q.legacy = false)) = some q ∧
      q.state = .accepted ∧ q.quotedStatusId = some s.id

theorem keptStatus_of_mem (hs : s ∈ w.db.statuses.rows) (hkept : s.deleted = false) :
    w.db.keptStatus s.id = some s := by
  cases hfind : w.db.keptStatus s.id with
  | none =>
      have hnone := List.find?_eq_none.mp hfind s hs
      simp [hkept] at hnone
  | some r =>
      obtain ⟨hr, hid, _⟩ := Db.keptStatus_mem hfind
      rw [StatusCounts.eq_of_id hr hs hid]

theorem bind_keptStatus_without (hs : s ∈ w.db.statuses.rows) (o : Option ℕ) :
    o.bind (without w s.id).db.keptStatus =
      if s.deleted = false ∧ o = some s.id then none else o.bind w.db.keptStatus := by
  cases o with
  | none => simp
  | some i =>
      by_cases hi : i = s.id
      · subst hi
        rw [Option.bind_some, keptStatus_without_self, Option.bind_some]
        cases hdeleted : s.deleted with
        | false => simp
        | true =>
            rw [if_neg (by simp)]
            cases hfind : w.db.keptStatus s.id with
            | none => rfl
            | some r =>
                obtain ⟨hr, hid, hkept⟩ := Db.keptStatus_mem hfind
                rw [StatusCounts.eq_of_id hr hs hid, hdeleted] at hkept
                cases hkept
      · rw [Option.bind_some, keptStatus_without_of_ne w hi, if_neg (by simp [hi]),
          Option.bind_some]

theorem reblogOf_without_iff (hs : s ∈ w.db.statuses.rows) :
    reblogOf (without w s.id) t = reblogOf w t ↔ ¬ Boosts w t s := by
  rw [reblogOf, reblogOf, bind_keptStatus_without hs]
  by_cases hself : s.deleted = false ∧ t.reblogOfId = some s.id
  · rw [if_pos hself, hself.2, Option.bind_some, keptStatus_of_mem hs hself.1]
    refine iff_of_false nofun fun h => h ⟨hself.1, .inl hself.2⟩
  · rw [if_neg hself]
    cases hreblog : t.reblogOfId.bind w.db.keptStatus with
    | none =>
        refine iff_of_true rfl ?_
        rintro ⟨hkept, htarget | ⟨c, hc, _⟩⟩
        · exact hself ⟨hkept, htarget⟩
        · rw [hreblog] at hc
          cases hc
    | some c =>
        rw [Option.map_some, Option.map_some, bind_keptStatus_without hs]
        by_cases hnested : s.deleted = false ∧ c.reblogOfId = some s.id
        · rw [if_pos hnested, hnested.2, Option.bind_some, keptStatus_of_mem hs hnested.1]
          refine iff_of_false ?_ fun h => h ⟨hnested.1, .inr ⟨c, hreblog, hnested.2⟩⟩
          -- the boost in between is not the status itself
          intro heq
          obtain rfl : c = s := by simpa using heq
          obtain ⟨i, hi, hfound⟩ := Option.bind_eq_some_iff.mp hreblog
          have hid := (Db.keptStatus_mem hfound).2.1
          exact hself ⟨hnested.1, by rw [hi, hid]⟩
        · rw [if_neg hnested]
          refine iff_of_true rfl ?_
          rintro ⟨hkept, htarget | ⟨d, hd, hof⟩⟩
          · exact hself ⟨hkept, htarget⟩
          · obtain rfl : c = d := Option.some.inj (hreblog.symm.trans hd)
            exact hnested ⟨hkept, hof⟩

theorem bind_keptStatus_mem {w : World} {o : Option ℕ} (h : o.bind w.db.keptStatus = some t) :
    t ∈ w.db.statuses.rows := by
  obtain ⟨_, _, hkept⟩ := Option.bind_eq_some_iff.mp h
  exact (Db.keptStatus_mem hkept).1

theorem reblogOf_mem {w : World} {r : Status} (h : reblogOf w t = some r) :
    r ∈ w.db.statuses.rows := by
  obtain ⟨c, hc, rfl⟩ := Option.map_eq_some_iff.mp h
  cases hnested : c.reblogOfId.bind w.db.keptStatus with
  | none => exact bind_keptStatus_mem hc
  | some d => exact bind_keptStatus_mem hnested

theorem account_of_mem (ht : t ∈ w.db.statuses.rows) :
    ∃ account, w.db.account t.accountId = some account :=
  Option.isSome_iff_exists.mp (w.authors t ht)

theorem mem_without {id : ℕ} (h : t ∈ (without w id).db.statuses.rows) :
    t ∈ w.db.statuses.rows ∧ t.id ≠ id := by
  simpa using Table.mem_deleteWhere.mp h

theorem shown_reblog_iff {id : ℕ} {o o' : Option Status}
    (ho : ∀ r ∈ o, r ∈ w.db.statuses.rows)
    (ho' : ∀ r ∈ o', r ∈ (without w id).db.statuses.rows) :
    (o'.bind fun r => ((without w id).db.account r.accountId).map
        (statusFromDb (without w id) viewer now r)) =
      (o.bind fun r => (w.db.account r.accountId).map (statusFromDb w viewer now r)) ↔ o' = o := by
  cases o' with
  | none =>
      cases o with
      | none => exact iff_of_true rfl rfl
      | some r =>
          obtain ⟨account, haccount⟩ := account_of_mem (ho r rfl)
          simp [haccount]
  | some r' =>
      obtain ⟨hmem, hne⟩ := mem_without (ho' r' rfl)
      obtain ⟨account', haccount'⟩ := account_of_mem hmem
      have hwithout : (without w id).db.account r'.accountId = some account' := haccount'
      cases o with
      | none => simp [hwithout]
      | some r =>
          obtain ⟨account, haccount⟩ := account_of_mem (ho r rfl)
          simp only [Option.bind_some, hwithout, haccount, Option.map_some, Option.some.injEq,
            statusFromDb_without w hne]
          constructor
          · intro h
            exact congrArg Shown.status h
          · rintro rfl
            rw [Option.some.inj (haccount'.symm.trans haccount)]

theorem withReblog_without_iff (viewer reblogViewer : Option ℕ) (now : ℤ)
    (hs : s ∈ w.db.statuses.rows) (ht : t ∈ w.db.statuses.rows) (hne : t.id ≠ s.id) :
    withReblog (without w s.id) viewer reblogViewer now t =
      withReblog w viewer reblogViewer now t ↔ ¬ Boosts w t s := by
  rw [← reblogOf_without_iff hs, withReblog, withReblog]
  obtain ⟨account, haccount⟩ := account_of_mem ht
  have haccount' : (without w s.id).db.account t.accountId = some account := haccount
  rw [haccount, haccount', Option.map_some, Option.map_some, statusFromDb_without w hne]
  simp only [Option.some.injEq, View.mk.injEq, true_and, and_true]
  exact shown_reblog_iff (fun r hr => reblogOf_mem hr) fun r hr => reblogOf_mem hr

theorem listed_without_iff (viewer : Option ℕ) (now : ℤ) (hs : s ∈ w.db.statuses.rows)
    (ht : t ∈ w.db.statuses.rows) (hne : t.id ≠ s.id) :
    listed (without w s.id) viewer now t = listed w viewer now t ↔ ¬ Boosts w t s :=
  withReblog_without_iff viewer viewer now hs ht hne

theorem quoteFilter_without (w : World) {id : ℕ} (h : t.id ≠ id) (viewer : Option ℕ)
    (author : Account) :
    quoteFilter (without w id) viewer t author = quoteFilter w viewer t author := by
  have hmentioned : mentioned (without w id) t.id = mentioned w t.id :=
    funext (mentioned_without w h)
  simp only [quoteFilter, hmentioned]
  rfl

theorem find?_quote_without (w : World) {id : ℕ} (h : t.id ≠ id) :
    ((without w id).quotes.rows.find? fun q =>
        q.statusId = t.id ∧ (q.state = .accepted ∨ q.legacy = false)) =
      w.quotes.rows.find? fun q =>
        q.statusId = t.id ∧ (q.state = .accepted ∨ q.legacy = false) := by
  refine List.find?_filter.trans ?_
  refine congrArg (List.find? · w.quotes.rows) (funext fun q => ?_)
  by_cases hq : q.statusId = t.id <;> simp [hq, h]

theorem quoteData_without_iff (now : ℤ) (hs : s ∈ w.db.statuses.rows)
    (h : Hidden w viewer s) (hne : t.id ≠ s.id) :
    quoteData (without w s.id) viewer now t = quoteData w viewer now t ↔ ¬ QuotesIt w t s := by
  rw [quoteData, quoteData, find?_quote_without w hne]
  cases hquote : w.quotes.rows.find? fun q =>
      q.statusId = t.id ∧ (q.state = .accepted ∨ q.legacy = false) with
  | none =>
      refine iff_of_true rfl ?_
      rintro ⟨_, q, hq, _⟩
      rw [hquote] at hq
      cases hq
  | some q =>
      rw [Option.map_some, Option.map_some, Option.some.injEq]
      by_cases hstate : q.state = .accepted
      · rw [if_neg (not_not.mpr hstate), if_neg (not_not.mpr hstate), bind_keptStatus_without hs]
        by_cases hself : s.deleted = false ∧ q.quotedStatusId = some s.id
        · obtain ⟨author, hauthor⟩ := account_of_mem hs
          have hid : author.id = s.accountId := (Db.account_mem hauthor).2
          have hstranger : viewer ≠ some author.id := hid ▸ h.notAuthor
          refine iff_of_false ?_ fun hnot => hnot ⟨hself.1, q, hquote, hstate, hself.2⟩
          rw [if_pos hself, hself.2, Option.bind_some, keptStatus_of_mem hs hself.1]
          simp [hauthor]
        · refine iff_of_true ?_ ?_
          · rw [if_neg hself]
            cases hquoted : q.quotedStatusId.bind w.db.keptStatus with
            | none => rfl
            | some quoted =>
                obtain ⟨i, hi, hkept⟩ := Option.bind_eq_some_iff.mp hquoted
                obtain ⟨hmem, hqid, hqkept⟩ := Db.keptStatus_mem hkept
                have hother : quoted.id ≠ s.id := by
                  intro heq
                  obtain rfl := StatusCounts.eq_of_id hmem hs heq
                  exact hself ⟨hqkept, by rw [hi, hqid]⟩
                obtain ⟨author, hauthor⟩ := account_of_mem hmem
                have hauthor' : (without w s.id).db.account quoted.accountId = some author := hauthor
                simp only [hauthor, hauthor', quoteFilter_without w hother,
                  statusFromDb_without w hother]
          · rintro ⟨hkept, r, hr, _, hof⟩
            obtain rfl := Option.some.inj (hquote.symm.trans hr)
            exact hself ⟨hkept, hof⟩
      · rw [if_pos hstate, if_pos hstate]
        refine iff_of_true rfl ?_
        rintro ⟨_, r, hr, haccepted, _⟩
        obtain rfl := Option.some.inj (hquote.symm.trans hr)
        exact hstate haccepted

theorem buildStatus_without_iff (now : ℤ) (hs : s ∈ w.db.statuses.rows)
    (h : Hidden w viewer s) (ht : t ∈ w.db.statuses.rows) (hne : t.id ≠ s.id) :
    buildStatus (without w s.id) viewer now t = buildStatus w viewer now t ↔
      ¬ Boosts w t s ∧ ¬ QuotesIt w t s := by
  rw [← withReblog_without_iff viewer none now hs ht hne,
    ← quoteData_without_iff now hs h hne, buildStatus, buildStatus, withReblog, withReblog]
  obtain ⟨account, haccount⟩ := account_of_mem ht
  have haccount' : (without w s.id).db.account t.accountId = some account := haccount
  simp only [haccount, haccount', Option.map_some, Option.some.injEq, View.mk.injEq, and_true,
    and_assoc]

/-! ### The answers -/

theorem ofView_eq {v v' : View} : Answer.ofView (some v) = .ofView (some v') ↔ v = v' := by
  simp [Answer.ofView]

theorem buildStatus_of_mem (viewer : Option ℕ) (now : ℤ) (ht : t ∈ w.db.statuses.rows) :
    ∃ view, buildStatus w viewer now t = some view ∧ view.shown.status = t := by
  obtain ⟨account, haccount⟩ := account_of_mem ht
  rw [buildStatus, withReblog, haccount]
  exact ⟨_, rfl, rfl⟩

theorem listed_of_mem (viewer : Option ℕ) (now : ℤ) (ht : t ∈ w.db.statuses.rows) :
    ∃ view, listed w viewer now t = some view ∧ view.shown.status = t := by
  obtain ⟨account, haccount⟩ := account_of_mem ht
  rw [listed, withReblog, haccount]
  exact ⟨_, rfl, rfl⟩

theorem ofView_without_iff (now : ℤ) (hs : s ∈ w.db.statuses.rows)
    (h : Hidden w viewer s) (ht : t ∈ w.db.statuses.rows) (hne : t.id ≠ s.id) :
    Answer.ofView (buildStatus (without w s.id) viewer now t) =
        .ofView (buildStatus w viewer now t) ↔ ¬ Boosts w t s ∧ ¬ QuotesIt w t s := by
  rw [← buildStatus_without_iff now hs h ht hne]
  obtain ⟨view, hview, _⟩ := buildStatus_of_mem viewer now ht
  have ht' : t ∈ (without w s.id).db.statuses.rows :=
    Table.mem_deleteWhere.mpr ⟨ht, by simpa using hne⟩
  obtain ⟨view', hview', _⟩ := buildStatus_of_mem viewer now ht'
  rw [hview, hview', ofView_eq, Option.some.injEq]

theorem fetchStatus_mem {db : Db} {id : ℕ} (h : fetchStatus db id = some t) :
    t ∈ db.statuses.rows ∧ t.id = id ∧ t.deleted = false :=
  Db.keptStatus_mem (Option.filter_eq_some_iff.mp h).1

theorem fetchStatus_of_mem (hs : s ∈ w.db.statuses.rows) :
    fetchStatus w.db s.id = none ∨ fetchStatus w.db s.id = some s ∧ s.deleted = false := by
  cases hfetch : fetchStatus w.db s.id with
  | none => exact .inl rfl
  | some r =>
      obtain ⟨hr, hid, hkept⟩ := fetchStatus_mem hfetch
      obtain rfl := StatusCounts.eq_of_id hr hs hid
      exact .inr ⟨rfl, hkept⟩

/-- Where only a limited status of an available author gets through. -/
def Fetched (w : World) (s : Status) : Prop :=
  s.visibility = .limited ∧ (fetchStatus w.db s.id).isSome

theorem find?_of_mem (hs : s ∈ w.db.statuses.rows) :
    w.db.statuses.rows.find? (·.id = s.id) = some s := by
  cases hrow : w.db.statuses.rows.find? (·.id = s.id) with
  | none => exact absurd (List.find?_eq_none.mp hrow s hs) (by simp)
  | some r =>
      rw [StatusCounts.eq_of_id (List.mem_of_find?_eq_some hrow) hs
        (by simpa using List.find?_some hrow)]

theorem getStatus_self_iff (hs : s ∈ w.db.statuses.rows) (h : Hidden w viewer s) :
    getStatus (without w s.id) viewer now s.id = getStatus w viewer now s.id ↔
      s.deleted = false ∧ (Fetched w s → blockedFrom w viewer s = true) := by
  rw [getStatus, getStatus, find?_without, if_pos rfl, find?_of_mem hs]
  dsimp only
  by_cases hdeleted : s.deleted = true
  · simp [hdeleted, notFound]
  · rw [if_neg hdeleted]
    rw [Bool.not_eq_true] at hdeleted
    rcases fetchStatus_of_mem hs with hfetch | ⟨hfetch, _⟩
    · have hnot : ¬ Fetched w s := by
        rintro ⟨_, hsome⟩
        rw [hfetch] at hsome
        cases hsome
      rw [hfetch]
      exact iff_of_true rfl ⟨hdeleted, fun hf => absurd hf hnot⟩
    · rw [hfetch]
      dsimp only
      rw [visibleTo_hidden h]
      by_cases hblocked : blockedFrom w viewer s = true
      · rw [if_pos hblocked]
        exact iff_of_true rfl ⟨hdeleted, fun _ => hblocked⟩
      · rw [if_neg hblocked]
        by_cases hlimited : s.visibility = .limited
        · have hf : Fetched w s := ⟨hlimited, by rw [hfetch]; rfl⟩
          obtain ⟨view, hview, _⟩ := buildStatus_of_mem viewer now hs
          rw [hview]
          refine iff_of_false ?_ fun hnot => hblocked (hnot.2 hf)
          simp [hlimited, Answer.ofView]
        · rw [decide_eq_false hlimited]
          exact iff_of_true rfl ⟨hdeleted, fun hf => absurd hf.1 hlimited⟩

theorem getStatus_other_iff (hs : s ∈ w.db.statuses.rows) (h : Hidden w viewer s) {id : ℕ}
    (hid : id ≠ s.id) :
    getStatus (without w s.id) viewer now id = getStatus w viewer now id ↔
      ∀ t, fetchStatus w.db id = some t → inThread w viewer t = true →
        ¬ Boosts w t s ∧ ¬ QuotesIt w t s := by
  rw [getStatus, getStatus, find?_without, if_neg hid, fetchStatus_without_of_ne w hid]
  cases hfetch : fetchStatus w.db id with
  | none =>
      refine iff_of_true ?_ nofun
      cases w.db.statuses.rows.find? (·.id = id) <;> rfl
  | some t =>
      obtain ⟨ht, rfl, hkept⟩ := fetchStatus_mem hfetch
      rw [find?_of_mem ht]
      dsimp only
      rw [hkept, if_neg Bool.false_ne_true, if_neg Bool.false_ne_true, blockedFrom_without,
        visibleTo_without w hid]
      have hiff := ofView_without_iff now hs h ht hid
      cases hblocked : blockedFrom w viewer t with
      | true =>
          refine iff_of_true rfl fun t' ht' hthread => ?_
          obtain rfl := Option.some.inj ht'
          simp [inThread, hblocked] at hthread
      | false =>
          cases hvisible : visibleTo w viewer t with
          | false =>
              refine iff_of_true rfl fun t' ht' hthread => ?_
              obtain rfl := Option.some.inj ht'
              simp [inThread, hvisible] at hthread
          | true =>
              refine hiff.trans ⟨fun hnot t' ht' _ => ?_, fun hnot => ?_⟩
              · obtain rfl := Option.some.inj ht'
                exact hnot
              · exact hnot t rfl (by simp [inThread, hblocked, hvisible])

/-! #### Several statuses -/

theorem filterMap_eq_iff {α β : Type} {f g : α → Option β} (key : β → α) (l : List α)
    (hf : ∀ x b, f x = some b → key b = x) (hg : ∀ x b, g x = some b → key b = x) :
    l.filterMap f = l.filterMap g ↔ ∀ x ∈ l, f x = g x := by
  constructor
  · intro h x hx
    cases hfx : f x with
    | some b =>
        have hb : b ∈ l.filterMap g := h ▸ List.mem_filterMap.mpr ⟨x, hx, hfx⟩
        obtain ⟨y, _, hy⟩ := List.mem_filterMap.mp hb
        rw [← hf x b hfx, hg y b hy, hy]
    | none =>
        cases hgx : g x with
        | none => rfl
        | some b =>
            have hb : b ∈ l.filterMap f := h ▸ List.mem_filterMap.mpr ⟨x, hx, hgx⟩
            obtain ⟨y, _, hy⟩ := List.mem_filterMap.mp hb
            have hyx : y = x := (hf y b hy).symm.trans (hg x b hgx)
            rw [hyx, hfx] at hy
            cases hy
  · exact fun h => List.filterMap_congr h

theorem listed_status {view : View} (h : listed w viewer now t = some view) :
    view.shown.status = t := by
  rw [listed, withReblog, Option.map_eq_some_iff] at h
  obtain ⟨_, _, rfl⟩ := h
  rfl

theorem batch_status {id : ℕ} {view : View}
    (h : ((w.db.keptStatus id).filter (inThread w viewer)).bind (listed w viewer now) =
      some view) : view.shown.status.id = id := by
  obtain ⟨t, ht, hview⟩ := Option.bind_eq_some_iff.mp h
  rw [listed_status hview]
  exact (Db.keptStatus_mem (Option.filter_eq_some_iff.mp ht).1).2.1

theorem inThread_hidden (h : Hidden w viewer s) : inThread w viewer s = true ↔
    blockedFrom w viewer s = false ∧ s.visibility = .limited := by
  simp [inThread, visibleTo_hidden h]

theorem getStatusesBatch_iff (hs : s ∈ w.db.statuses.rows) (h : Hidden w viewer s)
    (ids : List ℕ) :
    getStatusesBatch (without w s.id) viewer now ids = getStatusesBatch w viewer now ids ↔
      20 < ids.length ∨
        (s.id ∈ ids → s.deleted = false → s.visibility = .limited →
          blockedFrom w viewer s = true) ∧
        ∀ id ∈ ids, id ≠ s.id → ∀ t, w.db.keptStatus id = some t → inThread w viewer t = true →
          ¬ Boosts w t s := by
  rw [getStatusesBatch, getStatusesBatch]
  by_cases hlong : 20 < ids.length
  · rw [if_pos hlong, if_pos hlong]
    exact iff_of_true rfl (.inl hlong)
  · rw [if_neg hlong, if_neg hlong, or_iff_right hlong, Answer.statuses.injEq]
    refine (filterMap_eq_iff (fun view => view.shown.status.id) ids.dedup
      (fun _ _ => batch_status) fun _ _ => batch_status).trans ?_
    simp only [List.mem_dedup]
    have hself : ((without w s.id).db.keptStatus s.id).filter (inThread (without w s.id) viewer) =
        none := by
      rw [keptStatus_without_self]
      rfl
    constructor
    · intro hsame
      refine ⟨fun hmem hkept hlimited => ?_, fun id hmem hne t ht hthread => ?_⟩
      · by_contra hblocked
        have hthread : inThread w viewer s = true :=
          (inThread_hidden h).mpr ⟨by simpa using hblocked, hlimited⟩
        have heq := hsame s.id hmem
        obtain ⟨view, hview, _⟩ := listed_of_mem viewer now hs
        have hfound : (w.db.keptStatus s.id).filter (inThread w viewer) = some s := by
          rw [keptStatus_of_mem hs hkept, Option.filter_some, if_pos hthread]
        have heq' := (congrArg (Option.bind · (listed (without w s.id) viewer now)) hself).symm.trans
          (heq.trans (congrArg (Option.bind · (listed w viewer now)) hfound))
        rw [Option.bind_none, Option.bind_some, hview] at heq'
        cases heq'
      · obtain ⟨hmem', hid, _⟩ := Db.keptStatus_mem ht
        have htne : t.id ≠ s.id := hid ▸ hne
        have hfound : (w.db.keptStatus id).filter (inThread w viewer) = some t := by
          rw [ht, Option.filter_some, if_pos hthread]
        have hfound' : ((without w s.id).db.keptStatus id).filter
            (inThread (without w s.id) viewer) = some t := by
          rw [keptStatus_without_of_ne w hne, ht, Option.filter_some,
            if_pos (by rw [inThread_without w htne]; exact hthread)]
        have heq' := (congrArg (Option.bind · (listed (without w s.id) viewer now))
          hfound').symm.trans ((hsame id hmem).trans
            (congrArg (Option.bind · (listed w viewer now)) hfound))
        exact (listed_without_iff viewer now hs hmem' htne).mp heq'
    · rintro ⟨hnamed, hothers⟩ id hmem
      change (((without w s.id).db.keptStatus id).filter (inThread (without w s.id) viewer)).bind
          (listed (without w s.id) viewer now) =
        ((w.db.keptStatus id).filter (inThread w viewer)).bind (listed w viewer now)
      by_cases hid : id = s.id
      · subst hid
        rw [hself, Option.bind_none]
        cases hkept : w.db.keptStatus s.id with
        | none => rfl
        | some r =>
            obtain ⟨hr, hrid, hdeleted⟩ := Db.keptStatus_mem hkept
            obtain rfl := StatusCounts.eq_of_id hr hs hrid
            rw [Option.filter_some, if_neg]
            · rfl
            · intro hthread
              obtain ⟨hblocked, hlimited⟩ := (inThread_hidden h).mp hthread
              rw [hnamed hmem hdeleted hlimited] at hblocked
              cases hblocked
      · rw [keptStatus_without_of_ne w hid]
        cases hkept : w.db.keptStatus id with
        | none => rfl
        | some t =>
            obtain ⟨ht, htid, _⟩ := Db.keptStatus_mem hkept
            have htne : t.id ≠ s.id := htid ▸ hid
            rw [Option.filter_some, Option.filter_some, inThread_without w htne]
            split
            next hthread =>
              exact (listed_without_iff viewer now hs ht htne).mpr (hothers id hmem hid t hkept hthread)
            next => rfl

/-! #### A card, and who liked it -/

theorem getStatusCard_iff (hs : s ∈ w.db.statuses.rows) (h : Hidden w viewer s) (id : ℕ) :
    getStatusCard (without w s.id) viewer id = getStatusCard w viewer id ↔
      (id = s.id → s.deleted = false → s.visibility = .limited → viewer = none) := by
  rw [getStatusCard, getStatusCard]
  by_cases hid : id = s.id
  · subst hid
    rw [keptStatus_without_self]
    cases hkept : w.db.keptStatus s.id with
    | none =>
        refine iff_of_true rfl fun _ hdeleted => ?_
        rw [keptStatus_of_mem hs hdeleted] at hkept
        cases hkept
    | some r =>
        obtain ⟨hr, hrid, hdeleted⟩ := Db.keptStatus_mem hkept
        obtain rfl := StatusCounts.eq_of_id hr hs hrid
        dsimp only
        rw [distributableTo_hidden h]
        by_cases hlimited : r.visibility = .limited
        · cases viewer with
          | none => simp
          | some v => simp [hlimited, hdeleted]
        · simp [hlimited]
  · rw [keptStatus_without_of_ne w hid]
    refine iff_of_true ?_ fun heq => absurd heq hid
    cases hkept : w.db.keptStatus id with
    | none => rfl
    | some t =>
        have htid := (Db.keptStatus_mem hkept).2.1
        dsimp only
        rw [distributableTo_without w (htid ▸ hid)]
        rfl

theorem accounts_iff (hs : s ∈ w.db.statuses.rows) (h : Hidden w viewer s) {id : ℕ}
    {ids ids' : List ℕ} (hsame : id ≠ s.id → ids' = ids) :
    (match fetchStatus (without w s.id).db id with
      | none => Answer.error notFound
      | some status =>
          if !visibleTo (without w s.id) viewer status then .error notFound else .accounts ids') =
      (match fetchStatus w.db id with
      | none => Answer.error notFound
      | some status => if !visibleTo w viewer status then .error notFound else .accounts ids) ↔
      (id = s.id → ¬ Fetched w s) := by
  by_cases hid : id = s.id
  · subst hid
    rw [fetchStatus_without_self]
    rcases fetchStatus_of_mem hs with hfetch | ⟨hfetch, _⟩
    · simp [hfetch, Fetched]
    · rw [hfetch]
      dsimp only
      rw [visibleTo_hidden h]
      by_cases hlimited : s.visibility = .limited <;> simp [hlimited, Fetched, hfetch]
  · rw [fetchStatus_without_of_ne w hid, hsame hid]
    refine iff_of_true ?_ fun heq => absurd heq hid
    cases hfetch : fetchStatus w.db id with
    | none => rfl
    | some t =>
        have htid := (fetchStatus_mem hfetch).2.1
        dsimp only
        rw [visibleTo_without w (htid ▸ hid)]

theorem favouritedBy_iff (hs : s ∈ w.db.statuses.rows) (h : Hidden w viewer s) (id : ℕ)
    (page : List ℕ → List ℕ) :
    favouritedBy (without w s.id) viewer id page = favouritedBy w viewer id page ↔
      (id = s.id → ¬ Fetched w s) := by
  refine accounts_iff hs h fun hid => ?_
  have hrows : ((without w s.id).db.favourites.rows.filter fun f =>
      f.statusId = id && accountShown (without w s.id) viewer f.accountId) =
        w.db.favourites.rows.filter fun f =>
          f.statusId = id && accountShown w viewer f.accountId := by
    refine List.filter_filter.trans (List.filter_congr fun f _ => ?_)
    have hsame : accountShown (without w s.id) viewer f.accountId =
        accountShown w viewer f.accountId := rfl
    by_cases hf : f.statusId = id <;> simp [hf, hid, hsame]
  rw [hrows]

theorem rebloggedBy_iff (hs : s ∈ w.db.statuses.rows) (h : Hidden w viewer s) (id : ℕ)
    (page : List ℕ → List ℕ) :
    rebloggedBy (without w s.id) viewer id page = rebloggedBy w viewer id page ↔
      (id = s.id → ¬ Fetched w s) := by
  refine accounts_iff hs h fun _ => ?_
  -- a boost that is not public nor unlisted is not listed
  have hrows : ((without w s.id).db.statuses.rows.filter fun r =>
      r.reblogOfId = some id && !r.deleted && r.visibility.distributable &&
        accountShown (without w s.id) viewer r.accountId) =
        w.db.statuses.rows.filter fun r =>
          r.reblogOfId = some id && !r.deleted && r.visibility.distributable &&
            accountShown w viewer r.accountId := by
    refine List.filter_filter.trans (List.filter_congr fun r hr => ?_)
    by_cases hrs : r.id = s.id
    · obtain rfl := StatusCounts.eq_of_id hr hs hrs
      have hnot : r.visibility.distributable = false := by
        rcases h.nonPublic with hv | hv | hv <;> rw [hv] <;> rfl
      simp [hnot]
    · simp only [hrs, decide_false, Bool.not_false, Bool.and_true]
      rfl
  rw [hrows]

/-! #### Acting on it -/

theorem findPoll_without (w : World) (id i : ℕ) :
    findPoll (without w id) i = (findPoll w i).filter fun p => !decide (p.statusId = id) := by
  refine Table.find?_deleteWhere fun p hp q hq hpi hqi => ?_
  exact w.polls.polls.eq_of_key hp hq (k := i) (by simpa [Poll.keys, eq_comm] using hpi)
    (by simpa [Poll.keys, eq_comm] using hqi)

theorem getPoll_iff (w : World) (s : Status) (id : ℕ) :
    getPoll (without w s.id) viewer now id = getPoll w viewer now id ↔
      ∀ p, findPoll w id = some p → p.statusId ≠ s.id := by
  rw [getPoll, getPoll, findPoll_without]
  cases hpoll : findPoll w id with
  | none => simp
  | some p =>
      by_cases hp : p.statusId = s.id
      · rw [Option.filter_some, if_neg (by simp [hp])]
        exact iff_of_false nofun fun hnot => hnot p rfl hp
      · rw [Option.filter_some, if_pos (by simp [hp])]
        refine iff_of_true rfl fun q hq => ?_
        obtain rfl := Option.some.inj hq
        exact hp

theorem replyTo_iff (hs : s ∈ w.db.statuses.rows) (id : ℕ) :
    replyTo (without w s.id) viewer id = replyTo w viewer id ↔
      (viewer.isSome → id = s.id → s.deleted = true) := by
  cases viewer with
  | none => simp [replyTo]
  | some v =>
      rw [replyTo, replyTo]
      by_cases hid : id = s.id
      · subst hid
        rw [keptStatus_without_self]
        cases hkept : w.db.keptStatus s.id with
        | none =>
            refine iff_of_true rfl fun _ _ => ?_
            by_contra hdeleted
            rw [keptStatus_of_mem hs (by simpa using hdeleted)] at hkept
            cases hkept
        | some r =>
            obtain ⟨hr, hrid, hdeleted⟩ := Db.keptStatus_mem hkept
            obtain rfl := StatusCounts.eq_of_id hr hs hrid
            simp [hdeleted]
      · rw [keptStatus_without_of_ne w hid]
        exact iff_of_true rfl fun _ heq => absurd heq hid

theorem muteStatus_iff (hs : s ∈ w.db.statuses.rows) (h : Hidden w viewer s) (id : ℕ) :
    muteStatus (without w s.id) viewer now id = muteStatus w viewer now id ↔
      (viewer.isSome → ∀ t, fetchStatus w.db id = some t → (w.conversations id).isSome →
        t.id ≠ s.id ∧ ¬ Boosts w t s ∧ ¬ QuotesIt w t s) := by
  cases viewer with
  | none => simp [muteStatus]
  | some v =>
      rw [muteStatus, muteStatus]
      by_cases hid : id = s.id
      · subst hid
        rw [fetchStatus_without_self]
        rcases fetchStatus_of_mem hs with hfetch | ⟨hfetch, _⟩
        · simp [hfetch]
        · rw [hfetch]
          dsimp only
          obtain ⟨view, hview, _⟩ := buildStatus_of_mem (some v) now hs
          rw [hview]
          cases hc : w.conversations s.id with
          | none => simp
          | some c => simp [Answer.ofView]
      · rw [fetchStatus_without_of_ne w hid]
        cases hfetch : fetchStatus w.db id with
        | none => simp
        | some t =>
            obtain ⟨ht, rfl, _⟩ := fetchStatus_mem hfetch
            have hc' : (without w s.id).conversations t.id = w.conversations t.id := rfl
            dsimp only
            rw [hc']
            cases hc : w.conversations t.id with
            | none => simp
            | some c =>
                refine (ofView_without_iff now hs h ht hid).trans ?_
                simp [hid]

/-! #### A vote -/

def dropPolls (id : ℕ) (st : Polls.Store) : Polls.Store :=
  { st with polls := st.polls.deleteWhere (·.statusId = id) }

theorem table_ext {ρ κ : Type} {keys : ρ → List κ} {t u : Table keys} (h : t.rows = u.rows) :
    t = u := by
  cases t
  cases u
  cases h
  rfl

theorem dropPolls_updatePoll (id i : ℕ) (st : Polls.Store) (f : Poll → Poll)
    (hf : ∀ p, (f p).id = p.id) (hstatus : ∀ p, (f p).statusId = p.statusId) :
    Polls.updatePoll (dropPolls id st) i f hf = dropPolls id (Polls.updatePoll st i f hf) := by
  have hrows : (st.polls.rows.filter fun p => !decide (p.statusId = id)).map
      (fun p => if p.id = i then f p else p) =
        (st.polls.rows.map fun p => if p.id = i then f p else p).filter
          fun p => !decide (p.statusId = id) := by
    rw [List.filter_map]
    refine congrArg (List.map _) (List.filter_congr fun p _ => ?_)
    rw [Function.comp_apply]
    split
    · rw [hstatus]
    · rfl
  exact congrArg (fun t => ({ st with polls := t } : Polls.Store)) (table_ext hrows)

theorem exec_dropPolls (id : ℕ) (st : Polls.Store) (c : Polls.Call) :
    Polls.exec (dropPolls id st) c = (dropPolls id (Polls.exec st c).1, (Polls.exec st c).2) := by
  cases hphase : c.phase with
  | recount newVoter =>
      simp only [Polls.exec, hphase]
      exact congrArg (·, _) (dropPolls_updatePoll id c.poll.id st _ _ fun _ => rfl)
  | addVoter =>
      simp only [Polls.exec, hphase]
      exact congrArg (·, _) (dropPolls_updatePoll id c.poll.id st _ _ fun _ => rfl)
  | checkVoted => simp only [Polls.exec, hphase]; rfl
  | checkFirst => simp only [Polls.exec, hphase]; rfl
  | insert => simp only [Polls.exec, hphase]; rfl
  | checkAlready => simp only [Polls.exec, hphase]; rfl
  | insertNote => simp only [Polls.exec, hphase]; rfl

theorem runVote_dropPolls (id n : ℕ) (st : Polls.Store) (next : Polls.Next) :
    runVote n (dropPolls id st) next = (runVote n st next).map (dropPolls id) := by
  induction n generalizing st next with
  | zero => cases next <;> rfl
  | succ n ih =>
      cases next with
      | error e => rfl
      | done => rfl
      | go c =>
          rw [runVote, runVote, exec_dropPolls]
          exact ih _ _

def statusOfPoll (st : Polls.Store) (id : ℕ) : Option ℕ :=
  (st.polls.rows.find? (·.id = id)).map (·.statusId)

theorem statusOfPoll_updatePoll (st : Polls.Store) (i id : ℕ) (f : Poll → Poll)
    (hf : ∀ p, (f p).id = p.id) (hstatus : ∀ p, (f p).statusId = p.statusId) :
    statusOfPoll (Polls.updatePoll st i f hf) id = statusOfPoll st id := by
  change ((st.polls.rows.map fun p => if p.id = i then f p else p).find? _).map _ = _
  have hsame : ((fun p : Poll => decide (p.id = id)) ∘ fun p => if p.id = i then f p else p) =
      fun p => decide (p.id = id) := by
    funext p
    rw [Function.comp_apply]
    split
    · rw [hf]
    · rfl
  rw [List.find?_map, hsame, statusOfPoll, Option.map_map]
  refine congrArg (Option.map · _) (funext fun p => ?_)
  rw [Function.comp_apply]
  split
  · rw [hstatus]
  · rfl

theorem statusOfPoll_exec (st : Polls.Store) (c : Polls.Call) (id : ℕ) :
    statusOfPoll (Polls.exec st c).1 id = statusOfPoll st id := by
  cases hphase : c.phase with
  | recount newVoter =>
      simp only [Polls.exec, hphase]
      exact statusOfPoll_updatePoll st _ id _ _ fun _ => rfl
  | addVoter =>
      simp only [Polls.exec, hphase]
      exact statusOfPoll_updatePoll st _ id _ _ fun _ => rfl
  | checkVoted => simp only [Polls.exec, hphase]
  | checkFirst => simp only [Polls.exec, hphase]
  | insert => simp only [Polls.exec, hphase]; rfl
  | checkAlready => simp only [Polls.exec, hphase]
  | insertNote => simp only [Polls.exec, hphase]; rfl

theorem statusOfPoll_runVote {n : ℕ} {st st' : Polls.Store} {next : Polls.Next}
    (h : runVote n st next = .ok st') (id : ℕ) : statusOfPoll st' id = statusOfPoll st id := by
  induction n generalizing st next with
  | zero =>
      cases next with
      | error e => cases h
      | done => cases h; rfl
      | go c => cases h; rfl
  | succ n ih =>
      cases next with
      | error e => cases h
      | done => cases h; rfl
      | go c => exact (ih h).trans (statusOfPoll_exec st c id)

def KnowsPoll (next : Polls.Next) : Prop := next ≠ .error .notFound

theorem knowsPoll_loop (c : Polls.Call) (choices created : List ℤ) (wasFirstVote : Bool) :
    KnowsPoll (c.loop choices created wasFirstVote) := by
  cases choices with
  | nil => nofun
  | cons choice rest =>
      rw [Polls.Call.loop]
      split <;> nofun

theorem knowsPoll_exec (st : Polls.Store) (c : Polls.Call) : KnowsPoll (Polls.exec st c).2 := by
  cases hphase : c.phase with
  | checkVoted choices =>
      simp only [Polls.exec, hphase]
      split <;> nofun
  | checkFirst choices =>
      simp only [Polls.exec, hphase]
      exact knowsPoll_loop c _ _ _
  | insert choice rest created wasFirstVote =>
      simp only [Polls.exec, hphase]
      exact knowsPoll_loop c _ _ _
  | checkAlready choice =>
      simp only [Polls.exec, hphase]
      split <;> nofun
  | insertNote choice alreadyVoted =>
      simp only [Polls.exec, hphase]
      nofun
  | recount newVoter =>
      simp only [Polls.exec, hphase]
      split <;> nofun
  | addVoter =>
      simp only [Polls.exec, hphase]
      nofun

theorem runVote_ne_notFound {n : ℕ} {st : Polls.Store} {next : Polls.Next} (h : KnowsPoll next) :
    runVote n st next ≠ .error .notFound := by
  induction n generalizing st next with
  | zero =>
      cases next with
      | error e =>
          rintro heq
          cases heq
          exact h rfl
      | done => nofun
      | go c => nofun
  | succ n ih =>
      cases next with
      | error e =>
          rintro heq
          cases heq
          exact h rfl
      | done => nofun
      | go c => exact ih (knowsPoll_exec st c)

theorem knowsPoll_votePoll (now : ℤ) {st : Polls.Store} {id : ℕ} {p : Poll}
    (h : st.polls.rows.find? (·.id = id) = some p) (accountId : ℕ) (choices : List ℤ) :
    KnowsPoll (Polls.votePoll st id accountId choices now) := by
  rw [Polls.votePoll, h]
  dsimp only
  split
  · nofun
  split
  · nofun
  split
  · nofun
  · nofun

theorem votePoll_iff (w : World) (s : Status) (id : ℕ) (choices : List ℤ) :
    votePoll (without w s.id) viewer now id choices = votePoll w viewer now id choices ↔
      (viewer.isSome → ∀ p, findPoll w id = some p → p.statusId ≠ s.id) := by
  cases viewer with
  | none => exact iff_of_true rfl nofun
  | some v =>
      have hfind := findPoll_without w s.id id
      have hfound : (without w s.id).polls.polls.rows.find? (·.id = id) =
          findPoll (without w s.id) id := rfl
      have hrun := runVote_dropPolls s.id (choices.length + 4) w.polls
      rw [votePoll, votePoll]
      cases hpoll : findPoll w id with
      | none =>
          have hpoll' : w.polls.polls.rows.find? (·.id = id) = none := hpoll
          rw [hpoll] at hfind
          rw [hfind] at hfound
          have hnext : Polls.votePoll w.polls id v choices now = .error .notFound := by
            rw [Polls.votePoll, hpoll']
          have hnext' : Polls.votePoll (without w s.id).polls id v choices now =
              .error .notFound := by
            rw [Polls.votePoll, hfound]
            rfl
          simp [hnext, hnext', runVote]
      | some p =>
          have hpoll' : w.polls.polls.rows.find? (·.id = id) = some p := hpoll
          have hknows := knowsPoll_votePoll now hpoll' v choices
          rw [hpoll] at hfind
          by_cases hp : p.statusId = s.id
          · rw [Option.filter_some, if_neg (by simp [hp])] at hfind
            rw [hfind] at hfound
            have hnext' : Polls.votePoll (without w s.id).polls id v choices now =
                .error .notFound := by
              rw [Polls.votePoll, hfound]
            refine iff_of_false ?_ fun hnot => hnot rfl p rfl hp
            rw [hnext']
            change Answer.error notFound ≠ _
            cases hvote : runVote (choices.length + 4) w.polls
                (Polls.votePoll w.polls id v choices now) with
            | error e =>
                intro heq
                obtain rfl : AppError.notFound = e := by simpa [notFound] using heq
                exact runVote_ne_notFound hknows hvote
            | ok polls =>
                have hstatus := statusOfPoll_runVote hvote id
                rw [statusOfPoll, statusOfPoll, hpoll', Option.map_some,
                  Option.map_eq_some_iff] at hstatus
                obtain ⟨q, hq, _⟩ := hstatus
                have hq' : findPoll { w with polls := polls } id = some q := hq
                dsimp only
                rw [getPoll, hq']
                nofun
          · rw [Option.filter_some, if_pos (by simp [hp])] at hfind
            rw [hfind] at hfound
            have hnext : Polls.votePoll (without w s.id).polls id v choices now =
                Polls.votePoll w.polls id v choices now := by
              rw [Polls.votePoll, Polls.votePoll, hfound, hpoll']
            have hpolls : (without w s.id).polls = dropPolls s.id w.polls := rfl
            refine iff_of_true ?_ fun _ q hq => ?_
            · rw [hnext, hpolls, hrun]
              cases hvote : runVote (choices.length + 4) w.polls
                  (Polls.votePoll w.polls id v choices now) with
              | error e => rfl
              | ok polls =>
                  refine (getPoll_iff { w with polls := polls } s id).mpr fun q hq => ?_
                  have hstatus := statusOfPoll_runVote hvote id
                  have hq' : polls.polls.rows.find? (·.id = id) = some q := hq
                  rw [statusOfPoll, statusOfPoll, hpoll', hq', Option.map_some, Option.map_some,
                    Option.some.injEq] at hstatus
                  rw [hstatus]
                  exact hp
            · obtain rfl := Option.some.inj hq
              exact hp

/-! #### The replies to a status -/

theorem replies_without (w : World) (id i : ℕ) :
    replies (without w id).db.statuses.rows i =
      (replies w.db.statuses.rows i).filter fun t => t.id ≠ id := by
  refine List.filter_filter.trans ?_
  rw [replies, List.filter_filter]
  refine List.filter_congr fun t _ => ?_
  by_cases ht : t.id = id <;> simp [ht]

theorem prefix_of_mem_replyTree {rows : List Status} {depth id : ℕ} {path p : List ℕ}
    (h : p ∈ replyTree rows depth path id) : path <+: p := by
  induction depth generalizing path id with
  | zero => cases h
  | succ depth ih =>
      rw [replyTree, List.mem_flatMap] at h
      obtain ⟨t, _, hp⟩ := h
      rcases List.mem_cons.mp hp with rfl | hp
      · exact List.prefix_append path [t.id]
      · exact (List.prefix_append path [t.id]).trans (ih hp)

theorem replyTree_without (w : World) (id : ℕ) (depth i : ℕ) (path : List ℕ) (h : id ∉ path) :
    replyTree (without w id).db.statuses.rows depth path i =
      (replyTree w.db.statuses.rows depth path i).filter fun p => id ∉ p := by
  induction depth generalizing path i with
  | zero => rfl
  | succ depth ih =>
      rw [replyTree, replyTree, replies_without, List.filter_comm, List.filter_flatMap]
      generalize ((replies w.db.statuses.rows i).filter fun t => t.id ∉ path) = kids
      induction kids with
      | nil => rfl
      | cons t kids ihkids =>
          rw [List.flatMap_cons, ← ihkids]
          by_cases ht : t.id = id
          · rw [List.filter_cons_of_neg (by simp [ht])]
            have hnone : ((path ++ [t.id]) ::
                replyTree w.db.statuses.rows depth (path ++ [t.id]) t.id).filter
                  (fun p => id ∉ p) = [] := by
              rw [List.filter_eq_nil_iff]
              intro p hp
              have hprefix : path ++ [t.id] <+: p := by
                rcases List.mem_cons.mp hp with rfl | hp
                · exact List.prefix_refl _
                · exact prefix_of_mem_replyTree hp
              have hmem : id ∈ p := hprefix.subset (by simp [ht])
              simpa using hmem
            rw [hnone, List.nil_append]
          · have hpath : id ∉ path ++ [t.id] := by simp [h, Ne.symm ht]
            rw [List.filter_cons_of_pos (by simp [ht]), List.flatMap_cons,
              List.filter_cons_of_pos (by simpa using hpath), ih t.id _ hpath]

theorem sortedTree_without (w : World) (id i depth : ℕ) :
    sortedTree (without w id).db i depth =
      (sortedTree w.db i depth).filter fun p => id ∉ p := by
  rw [sortedTree, sortedTree, replyTree_without w id depth i [] (by simp)]
  refine mergeSort_filter _ _ (fun a b c hab hbc => ?_) (fun a b => ?_) fun a _ b _ hab hba => ?_
  · exact decide_eq_true (List.le_trans (of_decide_eq_true hab) (of_decide_eq_true hbc))
  · simpa using List.le_total a b
  · exact List.le_antisymm (of_decide_eq_true hab) (of_decide_eq_true hba)

theorem climb_of_mem_replyTree {db : Db} {depth : ℕ} {path p : List ℕ} {root : Status}
    (hroot : db.keptStatus root.id = some root)
    (h : p ∈ replyTree db.statuses.rows depth path root.id) :
    ∃ tail c, p = path ++ tail ∧ tail ≠ [] ∧ endOf db tail = some c ∧
      climb (keptParent db) tail.length c = some root ∧
      tail = ((Forests.path (keptParent db) tail.length c).map (·.id)).reverse := by
  induction depth generalizing path root with
  | zero => cases h
  | succ depth ih =>
      rw [replyTree, List.mem_flatMap] at h
      obtain ⟨t, ht, hp⟩ := h
      rw [List.mem_filter, replies, List.mem_filter] at ht
      obtain ⟨⟨hmem, hreply⟩, _⟩ := ht
      rw [decide_eq_true_eq] at hreply
      have hkept : db.keptStatus t.id = some t := by
        cases hfind : db.keptStatus t.id with
        | none => exact absurd (List.find?_eq_none.mp hfind t hmem) (by simp [hreply.2])
        | some r =>
            obtain ⟨hr, hid, _⟩ := Db.keptStatus_mem hfind
            rw [StatusCounts.eq_of_id hr hmem hid]
      have hparent : keptParent db t = some root := by
        rw [keptParent, hreply.1, Option.bind_some, hroot]
      rcases List.mem_cons.mp hp with rfl | hp
      · refine ⟨[t.id], t, rfl, by simp, ?_, ?_, ?_⟩
        · rw [endOf, List.getLast?_singleton, Option.bind_some, hkept]
        · change climb (keptParent db) 1 t = _
          rw [climb_succ, hparent]
          rfl
        · change [t.id] = ((Forests.path (keptParent db) 1 t).map (·.id)).reverse
          rw [Forests.path, hparent]
          rfl
      · obtain ⟨tail, c, rfl, hne, hend, hclimb, htail⟩ := ih hkept hp
        refine ⟨t.id :: tail, c, by simp, by simp, ?_, ?_, ?_⟩
        · obtain ⟨a, as, rfl⟩ := List.exists_cons_of_ne_nil hne
          rw [endOf, List.getLast?_cons_cons]
          exact hend
        · rw [List.length_cons, climb_add, hclimb, Option.bind_some, climb_succ, hparent]
          rfl
        · rw [List.length_cons, path_succ hclimb, List.map_append, List.reverse_append, ← htail]
          rfl

theorem replyTree_unique {db : Db} {depth : ℕ} {root c : Status} {p q : List ℕ}
    (hroot : db.keptStatus root.id = some root) (hrooted : Rooted (keptParent db) root)
    (hp : p ∈ replyTree db.statuses.rows depth [] root.id)
    (hq : q ∈ replyTree db.statuses.rows depth [] root.id)
    (hpc : endOf db p = some c) (hqc : endOf db q = some c) : p = q := by
  obtain ⟨p', c', hp', _, hend, hclimb, htail⟩ := climb_of_mem_replyTree hroot hp
  obtain ⟨q', d', hq', _, hend', hclimb', htail'⟩ := climb_of_mem_replyTree hroot hq
  rw [List.nil_append] at hp' hq'
  subst hp' hq'
  obtain rfl : c = c' := Option.some.inj (hpc.symm.trans hend)
  obtain rfl : c = d' := Option.some.inj (hqc.symm.trans hend')
  have hbelow : Rooted (keptParent db) c := by
    obtain ⟨n, hn⟩ := hrooted
    exact ⟨p.length + n, by rw [climb_add, hclimb, Option.bind_some, hn]⟩
  rw [htail, htail', hbelow.met_once hclimb hclimb']

/-! #### The statuses above a status -/

theorem keptParent_without (w : World) (id : ℕ) :
    keptParent (without w id).db = fun c => (keptParent w.db c).filter fun t => t.id ≠ id := by
  funext c
  rw [keptParent, keptParent]
  cases c.inReplyToId with
  | none => rfl
  | some i =>
      rw [Option.bind_some, Option.bind_some]
      by_cases hi : i = id
      · rw [hi, keptStatus_without_self]
        cases hkept : w.db.keptStatus id with
        | none => rfl
        | some t =>
            have hid := (Db.keptStatus_mem hkept).2.1
            rw [Option.filter_some, if_neg (by simp [hid])]
      · rw [keptStatus_without_of_ne w hi]
        cases hkept : w.db.keptStatus i with
        | none => rfl
        | some t =>
            have hid := (Db.keptStatus_mem hkept).2.1
            rw [Option.filter_some, if_pos (by simp [hid, hi])]

def above (chain : List Status) (id : ℕ) : List Status :=
  (chain.filter (·.id ≠ id)).mergeSort (·.id ≤ ·.id)

theorem ancestorChain_of_rooted {db : Db} {root : Status} {n : ℕ}
    (hroot : db.keptStatus root.id = some root)
    (hn : climb (keptParent db) n root = none) :
    (∃ fuel, ancestorChain db root.id fuel = some (path (keptParent db) n root)) ∧
      ∀ fuel chain, ancestorChain db root.id fuel = some chain →
        chain = path (keptParent db) n root := by
  obtain ⟨fuel, hfuel⟩ := unionAll_eq_path
    (fun b _ => joinParents_singleton db b) hn
  have hchain : ∀ fuel, ancestorChain db root.id fuel =
      unionAll (joinParents db.statuses.rows) fuel [root] := by
    intro fuel
    rw [ancestorChain, filter_kept, hroot]
    rfl
  refine ⟨⟨fuel, (hchain fuel).trans hfuel⟩, fun fuel' chain h => ?_⟩
  rw [hchain] at h
  exact unionAll_unique h hfuel

theorem ancestorChain_of_not_rooted {db : Db} {root : Status}
    (hroot : db.keptStatus root.id = some root) (h : ¬ Rooted (keptParent db) root) (fuel : ℕ) :
    ancestorChain db root.id fuel = none := by
  rw [ancestorChain, filter_kept, hroot]
  exact unionAll_of_not_rooted (fun b _ => joinParents_singleton db b) h fuel

theorem mem_of_reaches {db : Db} {root c : Status} (hroot : root ∈ db.statuses.rows)
    (h : Reaches (keptParent db) root c) : c ∈ db.statuses.rows := by
  obtain ⟨n, hn⟩ := h
  exact (climb_keptParent hroot hn).2

def below (id : ℕ) (chain : List Status) (c : Status) : Bool :=
  decide (c ∈ chain.takeWhile fun t => t.id ≠ id)

theorem takeWhile_eq_filter_below {chain : List Status} (hnodup : chain.Nodup) (id : ℕ) :
    chain.takeWhile (fun t => t.id ≠ id) = chain.filter (below id chain) := by
  have hsplit := List.takeWhile_append_dropWhile (p := fun t : Status => t.id ≠ id) (l := chain)
  have hdisjoint := List.disjoint_of_nodup_append (hsplit ▸ hnodup)
  have hrest : (chain.dropWhile fun t => t.id ≠ id).filter (below id chain) = [] := by
    rw [List.filter_eq_nil_iff]
    intro c hc hbelow
    exact hdisjoint (of_decide_eq_true hbelow) hc
  have hfirst : (chain.takeWhile fun t => t.id ≠ id).filter (below id chain) =
      chain.takeWhile fun t => t.id ≠ id := by
    rw [List.filter_eq_self]
    exact fun c hc => decide_eq_true hc
  calc chain.takeWhile (fun t => t.id ≠ id)
      = (chain.takeWhile (fun t => t.id ≠ id)).filter (below id chain) := hfirst.symm
    _ = (chain.takeWhile (fun t => t.id ≠ id) ++ chain.dropWhile fun t => t.id ≠ id).filter
          (below id chain) := by rw [List.filter_append, hrest, List.append_nil]
    _ = chain.filter (below id chain) := congrArg (List.filter (below id chain)) hsplit

theorem above_takeWhile {db : Db} {chain : List Status} (hnodup : chain.Nodup)
    (hrows : ∀ c ∈ chain, c ∈ db.statuses.rows) (id i : ℕ) :
    above (chain.takeWhile fun t => t.id ≠ id) i = (above chain i).filter (below id chain) := by
  rw [above, above, takeWhile_eq_filter_below hnodup, List.filter_comm]
  refine mergeSort_filter _ _ (fun a b c hab hbc => ?_) (fun a b => ?_) fun a ha b hb hab hba => ?_
  · exact decide_eq_true ((of_decide_eq_true hab).trans (of_decide_eq_true hbc))
  · simpa using le_total a.id b.id
  · exact StatusCounts.eq_of_id (hrows a (List.mem_of_mem_filter ha))
      (hrows b (List.mem_of_mem_filter hb))
      (le_antisymm (of_decide_eq_true hab) (of_decide_eq_true hba))

/-! #### The context of a status -/

theorem views_eq_iff (hs : s ∈ w.db.statuses.rows) {rows rows' : List Status}
    (hrows : ∀ c ∈ rows, c ∈ w.db.statuses.rows)
    (hrows' : ∀ c ∈ rows', c ∈ (without w s.id).db.statuses.rows) :
    rows'.filterMap (listed (without w s.id) viewer now) = rows.filterMap (listed w viewer now) ↔
      rows' = rows ∧ ∀ c ∈ rows, ¬ Boosts w c s := by
  have hmap : ∀ (w : World) (l : List Status), (∀ c ∈ l, c ∈ w.db.statuses.rows) →
      (l.filterMap (listed w viewer now)).map (fun view => view.shown.status) = l := by
    intro w l hl
    induction l with
    | nil => rfl
    | cons c l ih =>
        obtain ⟨view, hview, hstatus⟩ := listed_of_mem viewer now
          (hl c List.mem_cons_self)
        rw [List.filterMap_cons_some hview, List.map_cons, hstatus,
          ih fun d hd => hl d (List.mem_cons_of_mem c hd)]
  have hpoint : rows' = rows →
      (rows'.filterMap (listed (without w s.id) viewer now) =
          rows.filterMap (listed w viewer now) ↔ ∀ c ∈ rows, ¬ Boosts w c s) := by
    rintro rfl
    refine (filterMap_eq_iff (fun view => view.shown.status) rows'
      (fun _ _ => listed_status) fun _ _ => listed_status).trans ?_
    refine forall_congr' fun c => forall_congr' fun hc => ?_
    exact listed_without_iff viewer now hs (hrows c hc) (mem_without (hrows' c hc)).2
  constructor
  · intro h
    have hsame : rows' = rows := by
      rw [← hmap _ rows' hrows', ← hmap _ rows hrows, h]
    exact ⟨hsame, (hpoint hsame).mp h⟩
  · rintro ⟨hsame, hboosts⟩
    exact (hpoint hsame).mpr hboosts

/-- Of the statuses above, none that is shown is seen through the status, comes within the
limit without it, or boosts it. -/
structure AboveUnmoved (w : World) (viewer : Option ℕ) (s : Status) (id : ℕ)
    (chain : List Status) : Prop where
  undisturbed : Undisturbed (threadLimits viewer).ancestors (inThread w viewer)
    (below s.id chain) (above chain id)
  boosts : ∀ c ∈ (above chain id).take (threadLimits viewer).ancestors,
    inThread w viewer c = true → ¬ Boosts w c s

def endShown (w : World) (viewer : Option ℕ) (path : List ℕ) : Bool :=
  (endOf w.db path).any (inThread w viewer)

/-- Of the statuses below, none that is shown is seen through the status, comes within the
limit without it, or boosts it. -/
structure BelowUnmoved (w : World) (viewer : Option ℕ) (s : Status) (id : ℕ) : Prop where
  undisturbed : Undisturbed (threadLimits viewer).descendants (endShown w viewer)
    (fun path => decide (s.id ∉ path)) (sortedTree w.db id (threadLimits viewer).depth)
  boosts : ∀ path ∈ (sortedTree w.db id (threadLimits viewer).depth).take
      (threadLimits viewer).descendants,
    ∀ c ∈ endOf w.db path, inThread w viewer c = true → ¬ Boosts w c s

theorem above_iff (hs : s ∈ w.db.statuses.rows) {id : ℕ} {chain : List Status}
    (hnodup : chain.Nodup) (hrows : ∀ c ∈ chain, c ∈ w.db.statuses.rows)
    (hkept : ∀ c ∈ chain.takeWhile fun t => t.id ≠ s.id, c ∈ (without w s.id).db.statuses.rows) :
    (((above (chain.takeWhile fun t => t.id ≠ s.id) id).take
          (threadLimits viewer).ancestors).filter
        (inThread (without w s.id) viewer)).filterMap (listed (without w s.id) viewer now) =
      (((above chain id).take (threadLimits viewer).ancestors).filter
        (inThread w viewer)).filterMap (listed w viewer now) ↔
      AboveUnmoved w viewer s id chain := by
  have hmem : ∀ (l : List Status) c, c ∈ above l id → c ∈ l := fun l c hc =>
    List.mem_of_mem_filter (List.mem_mergeSort.mp hc)
  have hsame : ((above (chain.takeWhile fun t => t.id ≠ s.id) id).take
      (threadLimits viewer).ancestors).filter (inThread (without w s.id) viewer) =
        (((above chain id).filter (below s.id chain)).take (threadLimits viewer).ancestors).filter
          (inThread w viewer) := by
    rw [← above_takeWhile hnodup hrows]
    refine List.filter_congr fun c hc => ?_
    have hc' := hkept c (hmem _ c (List.mem_of_mem_take hc))
    exact inThread_without w (mem_without hc').2 viewer
  rw [views_eq_iff hs, hsame, shown_take_filter_iff]
  · constructor
    · rintro ⟨hundisturbed, hboosts⟩
      exact ⟨hundisturbed, fun c hc hthread => hboosts c (List.mem_filter.mpr ⟨hc, hthread⟩)⟩
    · rintro ⟨hundisturbed, hboosts⟩
      refine ⟨hundisturbed, fun c hc => ?_⟩
      obtain ⟨hc, hthread⟩ := List.mem_filter.mp hc
      exact hboosts c hc hthread
  · exact fun c hc => hrows c (hmem _ c (List.mem_of_mem_take (List.mem_of_mem_filter hc)))
  · exact fun c hc => hkept c (hmem _ c (List.mem_of_mem_take (List.mem_of_mem_filter hc)))

theorem endOf_without (w : World) {id : ℕ} {path : List ℕ} (h : id ∉ path) :
    endOf (without w id).db path = endOf w.db path := by
  rw [endOf, endOf]
  cases hlast : path.getLast? with
  | none => rfl
  | some i =>
      have hne : i ≠ id := by
        rintro rfl
        exact h (List.mem_of_getLast? hlast)
      exact keptStatus_without_of_ne w hne

theorem endOf_mem {db : Db} {path : List ℕ} {c : Status} (h : endOf db path = some c) :
    c ∈ db.statuses.rows := by
  obtain ⟨_, _, hkept⟩ := Option.bind_eq_some_iff.mp h
  exact (Db.keptStatus_mem hkept).1

theorem filter_descendants (w : World) (viewer : Option ℕ) (paths : List (List ℕ)) :
    (paths.filterMap (endOf w.db)).filter (inThread w viewer) =
      (paths.filter (endShown w viewer)).filterMap (endOf w.db) := by
  induction paths with
  | nil => rfl
  | cons path paths ih =>
      cases hend : endOf w.db path with
      | none =>
          rw [List.filterMap_cons_none hend, List.filter_cons_of_neg (by simp [endShown, hend]), ih]
      | some c =>
          rw [List.filterMap_cons_some hend]
          cases hthread : inThread w viewer c with
          | true =>
              rw [List.filter_cons_of_pos hthread,
                List.filter_cons_of_pos (by simp [endShown, hend, hthread]),
                List.filterMap_cons_some hend, ih]
          | false =>
              rw [List.filter_cons_of_neg (by simp [hthread]),
                List.filter_cons_of_neg (by simp [endShown, hend, hthread]), ih]

theorem length_filterMap_endOf (w : World) (viewer : Option ℕ) (paths : List (List ℕ)) :
    ((paths.filter (endShown w viewer)).filterMap (endOf w.db)).length =
      (paths.filter (endShown w viewer)).length := by
  induction paths with
  | nil => rfl
  | cons path paths ih =>
      cases hshown : endShown w viewer path with
      | false => rw [List.filter_cons_of_neg (by simp [hshown]), ih]
      | true =>
          obtain ⟨c, hend⟩ : ∃ c, endOf w.db path = some c := by
            rw [endShown, Option.any_eq_true] at hshown
            exact ⟨hshown.choose, hshown.choose_spec.1⟩
          rw [List.filter_cons_of_pos hshown, List.filterMap_cons_some hend, List.length_cons,
            List.length_cons, ih]

theorem mem_promote {rows : List Status} {c : Status} : c ∈ promote w rows ↔ c ∈ rows := by
  rw [promote, List.mem_append, List.mem_filter, List.mem_filter, ← and_or_left]
  refine and_iff_left ?_
  by_cases hself : w.replyAuthors c.id = some c.accountId <;> simp [hself]

theorem length_promote (w : World) (rows : List Status) :
    (promote w rows).length = rows.length := by
  have hsplit := List.length_eq_countP_add_countP (l := rows) fun r =>
    decide (w.replyAuthors r.id = some r.accountId)
  rw [promote, List.length_append, ← List.countP_eq_length_filter, ← List.countP_eq_length_filter,
    hsplit]
  simp

theorem below_iff (hs : s ∈ w.db.statuses.rows) {root : Status}
    (hroot : w.db.keptStatus root.id = some root) (hrooted : Rooted (keptParent w.db) root) :
    (promote (without w s.id)
        ((descendants (without w s.id).db root.id (threadLimits viewer).descendants
            (threadLimits viewer).depth).filter (inThread (without w s.id) viewer))).filterMap
          (listed (without w s.id) viewer now) =
      (promote w
        ((descendants w.db root.id (threadLimits viewer).descendants
            (threadLimits viewer).depth).filter (inThread w viewer))).filterMap
          (listed w viewer now) ↔
      BelowUnmoved w viewer s root.id := by
  let tree := sortedTree w.db root.id (threadLimits viewer).depth
  let limit := (threadLimits viewer).descendants
  let avoids (path : List ℕ) : Bool := decide (s.id ∉ path)
  have hrows : (descendants w.db root.id limit (threadLimits viewer).depth).filter
      (inThread w viewer) = ((tree.take limit).filter (endShown w viewer)).filterMap
        (endOf w.db) :=
    filter_descendants w viewer _
  -- without the status, the paths that avoid it, which end as they did
  have hrows' : (descendants (without w s.id).db root.id limit (threadLimits viewer).depth).filter
      (inThread (without w s.id) viewer) =
        (((tree.filter avoids).take limit).filter (endShown w viewer)).filterMap
          (endOf w.db) := by
    rw [descendants, filter_descendants, sortedTree_without]
    have hends : ∀ path ∈ (tree.filter avoids).take limit,
        endOf (without w s.id).db path = endOf w.db path := fun path hpath =>
      endOf_without w (of_decide_eq_true (List.mem_filter.mp (List.mem_of_mem_take hpath)).2)
    have hshown : ((tree.filter avoids).take limit).filter (endShown (without w s.id) viewer) =
        ((tree.filter avoids).take limit).filter (endShown w viewer) := by
      refine List.filter_congr fun path hpath => ?_
      rw [endShown, endShown, hends path hpath]
      cases hend : endOf w.db path with
      | none => rfl
      | some c =>
          rw [← hends path hpath] at hend
          exact inThread_without w (mem_without (endOf_mem hend)).2 viewer
    refine (congrArg (List.filterMap _) hshown).trans (List.filterMap_congr fun path hpath => ?_)
    exact hends path (List.mem_of_mem_filter hpath)
  rw [hrows, hrows', views_eq_iff hs]
  · constructor
    · rintro ⟨hsame, hboosts⟩
      change promote w _ = promote w _ at hsame
      refine ⟨undisturbed_of_length (fun path hpath hshown => ?_) ?_, fun path hpath c hc hc' => ?_⟩
      · obtain ⟨c, hend⟩ : ∃ c, endOf w.db path = some c := by
          rw [endShown, Option.any_eq_true] at hshown
          exact ⟨hshown.choose, hshown.choose_spec.1⟩
        have hc : c ∈ ((tree.take limit).filter (endShown w viewer)).filterMap (endOf w.db) :=
          List.mem_filterMap.mpr ⟨path, List.mem_filter.mpr ⟨hpath, hshown⟩, hend⟩
        rw [← mem_promote (w := w), ← hsame, mem_promote] at hc
        obtain ⟨path', hpath', hend'⟩ := List.mem_filterMap.mp hc
        have hkept := List.mem_filter.mp (List.mem_of_mem_take (List.mem_of_mem_filter hpath'))
        have htree : ∀ p ∈ tree, p ∈ replyTree w.db.statuses.rows (threadLimits viewer).depth []
            root.id := fun p hp => List.mem_mergeSort.mp hp
        have hone := replyTree_unique hroot hrooted (htree path (List.mem_of_mem_take hpath))
          (htree path' hkept.1) hend hend'
        rw [hone]
        exact hkept.2
      · have hlength := congrArg List.length hsame
        rw [length_promote, length_promote, length_filterMap_endOf, length_filterMap_endOf]
          at hlength
        exact hlength
      · refine hboosts c (mem_promote.mpr (List.mem_filterMap.mpr ⟨path, ?_, hc⟩))
        rw [Option.mem_def] at hc
        exact List.mem_filter.mpr ⟨hpath, by rw [endShown, hc]; exact hc'⟩
    · rintro ⟨hundisturbed, hboosts⟩
      refine ⟨?_, fun c hc => ?_⟩
      · change promote w _ = promote w _
        rw [shown_take_filter hundisturbed]
      · obtain ⟨path, hpath, hend⟩ := List.mem_filterMap.mp (mem_promote.mp hc)
        obtain ⟨hpath, hshown⟩ := List.mem_filter.mp hpath
        rw [endShown, hend] at hshown
        exact hboosts path hpath c hend hshown
  · intro c hc
    obtain ⟨path, _, hend⟩ := List.mem_filterMap.mp (mem_promote.mp hc)
    exact endOf_mem hend
  · intro c hc
    rw [mem_promote] at hc
    obtain ⟨path, hpath, hend⟩ := List.mem_filterMap.mp hc
    have havoids := List.mem_filter.mp (List.mem_of_mem_take (List.mem_of_mem_filter hpath))
    rw [← endOf_without w (of_decide_eq_true havoids.2)] at hend
    exact endOf_mem hend

/-- A thread is shown the same without the status: where the query for what is above ends,
nothing that is shown above or below moves, and where it does not, the status is not what
keeps it from ending. -/
structure ThreadUnmoved (w : World) (viewer : Option ℕ) (s root : Status) : Prop where
  ends : ∀ fuel chain, ancestorChain w.db root.id fuel = some chain →
    AboveUnmoved w viewer s root.id chain ∧ BelowUnmoved w viewer s root.id
  loops : (∀ fuel, ancestorChain w.db root.id fuel = none) →
    ∀ c, Reaches (keptParent w.db) root c → c.id ≠ s.id

def threadAnswer (w : World) (viewer : Option ℕ) (now : ℤ) (id : ℕ) (chain : List Status) :
    Answer :=
  let limits := threadLimits viewer
  let below := descendants w.db id limits.descendants limits.depth
  .context
    ((((above chain id).take limits.ancestors).filter (inThread w viewer)).filterMap
      (listed w viewer now))
    ((promote w (below.filter (inThread w viewer))).filterMap (listed w viewer now))

theorem getStatusContext_of_root {root : Status} (hroot : w.db.keptStatus root.id = some root)
    (hshown : distributableTo w viewer root = true) (fuel : ℕ) :
    getStatusContext w viewer now root.id fuel =
      (ancestorChain w.db root.id fuel).map (threadAnswer w viewer now root.id) := by
  rw [getStatusContext, hroot]
  dsimp only
  rw [hshown, ancestors, Option.map_map]
  rfl

def Agree (w : World) (viewer : Option ℕ) (now : ℤ) (s : Status) (r : Request) : Prop :=
  ∀ a, Answers (without w s.id) viewer now r a ↔ Answers w viewer now r a

theorem agree_thread_iff (hs : s ∈ w.db.statuses.rows) {root : Status}
    (hroot : w.db.keptStatus root.id = some root) (hne : root.id ≠ s.id)
    (hshown : distributableTo w viewer root = true) :
    Agree w viewer now s (.getStatusContext root.id) ↔ ThreadUnmoved w viewer s root := by
  have hroot' : (without w s.id).db.keptStatus root.id = some root := by
    rw [keptStatus_without_of_ne w hne, hroot]
  have hmem' := (Db.keptStatus_mem hroot').1
  have hmem := (Db.keptStatus_mem hroot).1
  have hshown' : distributableTo (without w s.id) viewer root = true := by
    rw [distributableTo_without w hne, hshown]
  have hans : ∀ a, Answers w viewer now (.getStatusContext root.id) a ↔
      ∃ fuel chain, ancestorChain w.db root.id fuel = some chain ∧
        threadAnswer w viewer now root.id chain = a := by
    intro a
    refine exists_congr fun fuel => ?_
    rw [answer, getStatusContext_of_root hroot hshown, Option.map_eq_some_iff]
  have hans' : ∀ a, Answers (without w s.id) viewer now (.getStatusContext root.id) a ↔
      ∃ fuel chain, ancestorChain (without w s.id).db root.id fuel = some chain ∧
        threadAnswer (without w s.id) viewer now root.id chain = a := by
    intro a
    refine exists_congr fun fuel => ?_
    rw [answer, getStatusContext_of_root hroot' hshown', Option.map_eq_some_iff]
  have hkeep : decide (root.id ≠ s.id) = true := decide_eq_true hne
  by_cases hrooted : Rooted (keptParent w.db) root
  · obtain ⟨n, hn⟩ := hrooted
    obtain ⟨⟨fuel, hfuel⟩, honly⟩ := ancestorChain_of_rooted hroot hn
    have hn' : climb (keptParent (without w s.id).db) n root = none := by
      cases hclimb : climb (keptParent (without w s.id).db) n root with
      | none => rfl
      | some c =>
          rw [keptParent_without] at hclimb
          have hsub := climb_sub (fun a b hab => (Option.filter_eq_some_iff.mp hab).1) hclimb
          rw [hn] at hsub
          cases hsub
    obtain ⟨⟨fuel', hfuel'⟩, honly'⟩ := ancestorChain_of_rooted hroot' hn'
    have hcut : path (keptParent (without w s.id).db) n root =
        (path (keptParent w.db) n root).takeWhile fun t => t.id ≠ s.id := by
      rw [keptParent_without]
      exact path_filter _ n hkeep
    have hchain : ∀ c ∈ path (keptParent w.db) n root, c ∈ w.db.statuses.rows := fun c hc =>
      mem_of_reaches hmem ((mem_path hn).mp hc)
    have hchain' : ∀ c ∈ (path (keptParent w.db) n root).takeWhile fun t => t.id ≠ s.id,
        c ∈ (without w s.id).db.statuses.rows := by
      rw [← hcut]
      exact fun c hc => mem_of_reaches hmem' ((mem_path hn').mp hc)
    have hone : Agree w viewer now s (.getStatusContext root.id) ↔
        threadAnswer (without w s.id) viewer now root.id
            (path (keptParent (without w s.id).db) n root) =
          threadAnswer w viewer now root.id (path (keptParent w.db) n root) := by
      constructor
      · intro h
        obtain ⟨fuel, chain, hfound, heq⟩ := (hans _).mp ((h _).mp
          ((hans' _).mpr ⟨fuel', _, hfuel', rfl⟩))
        rw [← heq, honly fuel chain hfound]
      · intro h a
        rw [hans, hans']
        constructor
        · rintro ⟨k, chain, hfound, rfl⟩
          exact ⟨fuel, _, hfuel, by rw [honly' k chain hfound, h]⟩
        · rintro ⟨k, chain, hfound, rfl⟩
          exact ⟨fuel', _, hfuel', by rw [honly k chain hfound, h]⟩
    rw [hone, hcut, threadAnswer, threadAnswer, Answer.context.injEq,
      above_iff hs (nodup_path hn) hchain hchain', below_iff hs hroot ⟨n, hn⟩]
    constructor
    · intro h
      refine ⟨fun k chain hfound => ?_, fun hloops => ?_⟩
      · rw [honly k chain hfound]
        exact h
      · rw [hloops fuel] at hfuel
        cases hfuel
    · intro h
      exact h.ends fuel _ hfuel
  · have hnone := ancestorChain_of_not_rooted hroot hrooted
    have hno : ∀ a, ¬ Answers w viewer now (.getStatusContext root.id) a := by
      rintro a h
      obtain ⟨fuel, chain, hfound, _⟩ := (hans a).mp h
      rw [hnone fuel] at hfound
      cases hfound
    constructor
    · intro h
      refine ⟨fun fuel chain hfound => ?_, fun _ c hc hcs => ?_⟩
      · rw [hnone fuel] at hfound
        cases hfound
      · -- without the status in its chain the query ends
        have hrooted' : Rooted (keptParent (without w s.id).db) root := by
          rw [keptParent_without]
          exact rooted_filter hc (by simp [hcs]) hkeep
        obtain ⟨n, hn⟩ := hrooted'
        obtain ⟨⟨fuel, hfuel⟩, _⟩ := ancestorChain_of_rooted hroot' hn
        exact hno _ ((h _).mp ((hans' _).mpr ⟨fuel, _, hfuel, rfl⟩))
    · intro h a
      refine iff_of_false (fun h' => ?_) (hno a)
      obtain ⟨fuel, chain, hfound, _⟩ := (hans' a).mp h'
      have hnot' : ¬ Rooted (keptParent (without w s.id).db) root := by
        rintro ⟨n, hn⟩
        rw [keptParent_without, climb_filter_of_kept] at hn
        · exact hrooted ⟨n, hn⟩
        · exact fun c hc => decide_eq_true (h.loops hnone c hc)
      rw [ancestorChain_of_not_rooted hroot' hnot' fuel] at hfound
      cases hfound

/-! ### Every request -/

def Unseen (w : World) (viewer : Option ℕ) (s : Status) : Request → Prop
  | .getStatus id =>
      (id = s.id → s.deleted = false ∧ (Fetched w s → blockedFrom w viewer s = true)) ∧
        (id ≠ s.id → ∀ t, fetchStatus w.db id = some t → inThread w viewer t = true →
          ¬ Boosts w t s ∧ ¬ QuotesIt w t s)
  | .getStatusesBatch ids =>
      20 < ids.length ∨
        (s.id ∈ ids → s.deleted = false → s.visibility = .limited →
          blockedFrom w viewer s = true) ∧
        ∀ id ∈ ids, id ≠ s.id → ∀ t, w.db.keptStatus id = some t → inThread w viewer t = true →
          ¬ Boosts w t s
  | .getStatusContext id =>
      (id = s.id → s.deleted = false → s.visibility = .limited → viewer = none) ∧
        (id ≠ s.id → ∀ root, w.db.keptStatus id = some root →
          distributableTo w viewer root = true → ThreadUnmoved w viewer s root)
  | .getStatusCard id =>
      id = s.id → s.deleted = false → s.visibility = .limited → viewer = none
  | .favouritedBy id _ | .rebloggedBy id _ => id = s.id → ¬ Fetched w s
  | .getPoll id => ∀ p, findPoll w id = some p → p.statusId ≠ s.id
  | .votePoll id _ => viewer.isSome → ∀ p, findPoll w id = some p → p.statusId ≠ s.id
  | .replyTo id => viewer.isSome → id = s.id → s.deleted = true
  | .muteStatus id =>
      viewer.isSome → ∀ t, fetchStatus w.db id = some t → (w.conversations id).isSome →
        t.id ≠ s.id ∧ ¬ Boosts w t s ∧ ¬ QuotesIt w t s

theorem agree_iff_eq {r : Request} {a c : Answer}
    (h : ∀ fuel, answer w viewer now fuel r = some a)
    (h' : ∀ fuel, answer (without w s.id) viewer now fuel r = some c) :
    Agree w viewer now s r ↔ c = a := by
  have hone : ∀ b, Answers w viewer now r b ↔ a = b := fun b =>
    ⟨fun ⟨fuel, hb⟩ => Option.some.inj ((h fuel).symm.trans hb), fun hb => ⟨0, hb ▸ h 0⟩⟩
  have hone' : ∀ b, Answers (without w s.id) viewer now r b ↔ c = b := fun b =>
    ⟨fun ⟨fuel, hb⟩ => Option.some.inj ((h' fuel).symm.trans hb), fun hb => ⟨0, hb ▸ h' 0⟩⟩
  constructor
  · intro hagree
    exact ((hone c).mp ((hagree c).mp ((hone' c).mpr rfl))).symm
  · rintro rfl b
    rw [hone, hone']

theorem agree_context_iff (hs : s ∈ w.db.statuses.rows) (h : Hidden w viewer s) (id : ℕ) :
    Agree w viewer now s (.getStatusContext id) ↔
      (id = s.id → s.deleted = false → s.visibility = .limited → viewer = none) ∧
        (id ≠ s.id → ∀ root, w.db.keptStatus id = some root →
          distributableTo w viewer root = true → ThreadUnmoved w viewer s root) := by
  by_cases hid : id = s.id
  · subst hid
    have hgone : ∀ fuel, answer (without w s.id) viewer now fuel (.getStatusContext s.id) =
        some (.error notFound) := by
      intro fuel
      rw [answer, getStatusContext, keptStatus_without_self]
    have hother : s.id ≠ s.id → ∀ root, w.db.keptStatus s.id = some root →
        distributableTo w viewer root = true → ThreadUnmoved w viewer s root :=
      fun hne => absurd rfl hne
    by_cases hkept : s.deleted = false
    · have hfound := keptStatus_of_mem hs hkept
      by_cases hshown : distributableTo w viewer s = true
      · -- the thread of a limited status is answered with something
        have hlimited := distributableTo_hidden h ▸ hshown
        rw [Bool.and_eq_true, decide_eq_true_eq] at hlimited
        refine iff_of_false (fun hagree => ?_) fun hnot => ?_
        · obtain ⟨fuel, hanswer⟩ := (hagree (.error notFound)).mp ⟨0, hgone 0⟩
          rw [answer, getStatusContext_of_root hfound hshown, Option.map_eq_some_iff] at hanswer
          obtain ⟨_, _, heq⟩ := hanswer
          cases heq
        · have hnone := hnot.1 rfl hkept hlimited.1
          rw [hnone] at hlimited
          exact Bool.false_ne_true hlimited.2
      · refine iff_of_true ?_ ⟨fun _ _ hlimited => ?_, hother⟩
        · refine (agree_iff_eq (a := .error notFound) (fun fuel => ?_) hgone).mpr rfl
          rw [Bool.not_eq_true] at hshown
          rw [answer, getStatusContext, hfound]
          simp [hshown]
        · rw [distributableTo_hidden h] at hshown
          simpa [hlimited] using hshown
    · refine iff_of_true ?_ ⟨fun _ hdeleted => absurd hdeleted hkept, hother⟩
      refine (agree_iff_eq (a := .error notFound) (fun fuel => ?_) hgone).mpr rfl
      have hnone : w.db.keptStatus s.id = none := by
        cases hfound : w.db.keptStatus s.id with
        | none => rfl
        | some r =>
            obtain ⟨hr, hrid, hdeleted⟩ := Db.keptStatus_mem hfound
            obtain rfl := StatusCounts.eq_of_id hr hs hrid
            exact absurd hdeleted hkept
      rw [answer, getStatusContext, hnone]
  · cases hroot : w.db.keptStatus id with
    | none =>
        refine iff_of_true ?_ ⟨fun heq => absurd heq hid, fun _ root hr => by cases hr⟩
        refine (agree_iff_eq (a := .error notFound) (c := .error notFound)
          (fun fuel => ?_) fun fuel => ?_).mpr rfl
        · rw [answer, getStatusContext, hroot]
        · rw [answer, getStatusContext, keptStatus_without_of_ne w hid, hroot]
    | some root =>
        obtain ⟨_, rfl, _⟩ := Db.keptStatus_mem hroot
        by_cases hshown : distributableTo w viewer root = true
        · refine (agree_thread_iff hs hroot hid hshown).trans ⟨fun hthread => ?_, fun hnot => ?_⟩
          · refine ⟨fun heq => absurd heq hid, fun _ r hr _ => ?_⟩
            obtain rfl := Option.some.inj hr
            exact hthread
          · exact hnot.2 hid root rfl hshown
        · rw [Bool.not_eq_true] at hshown
          refine iff_of_true ?_ ⟨fun heq => absurd heq hid, fun _ r hr hr' => ?_⟩
          · refine (agree_iff_eq (a := .error notFound) (c := .error notFound)
              (fun fuel => ?_) fun fuel => ?_).mpr rfl
            · rw [answer, getStatusContext, hroot]
              simp [hshown]
            · rw [answer, getStatusContext, keptStatus_without_of_ne w hid, hroot]
              simp [distributableTo_without w hid, hshown]
          · obtain rfl := Option.some.inj hr
            rw [hshown] at hr'
            cases hr'

theorem agree_iff (now : ℤ) (hs : s ∈ w.db.statuses.rows) (h : Hidden w viewer s)
    (r : Request) :
    Agree w viewer now s r ↔ Unseen w viewer s r := by
  cases r with
  | getStatus id =>
      refine (agree_iff_eq (fun _ => rfl) fun _ => rfl).trans ?_
      by_cases hid : id = s.id
      · subst hid
        simp [getStatus_self_iff hs h, Unseen]
      · simp [getStatus_other_iff hs h hid, Unseen, hid]
  | getStatusesBatch ids =>
      exact (agree_iff_eq (fun _ => rfl) fun _ => rfl).trans (getStatusesBatch_iff hs h ids)
  | getStatusContext id => exact agree_context_iff hs h id
  | getStatusCard id =>
      exact (agree_iff_eq (fun _ => rfl) fun _ => rfl).trans (getStatusCard_iff hs h id)
  | favouritedBy id page =>
      exact (agree_iff_eq (fun _ => rfl) fun _ => rfl).trans (favouritedBy_iff hs h id page)
  | rebloggedBy id page =>
      exact (agree_iff_eq (fun _ => rfl) fun _ => rfl).trans (rebloggedBy_iff hs h id page)
  | getPoll id => exact (agree_iff_eq (fun _ => rfl) fun _ => rfl).trans (getPoll_iff w s id)
  | votePoll id choices =>
      exact (agree_iff_eq (fun _ => rfl) fun _ => rfl).trans (votePoll_iff w s id choices)
  | replyTo id => exact (agree_iff_eq (fun _ => rfl) fun _ => rfl).trans (replyTo_iff hs id)
  | muteStatus id =>
      exact (agree_iff_eq (fun _ => rfl) fun _ => rfl).trans (muteStatus_iff hs h id)

/-- A status that is not for the viewer is as if it were not there exactly for the requests
that lead to nothing of it, and two databases that differ in such statuses alone answer such
requests alike. -/
theorem private_statuses_stay_private (w : World) (viewer : Option ℕ) (now : ℤ) (s : Status)
    (r : Request) (hs : s ∈ w.db.statuses.rows) (h : Hidden w viewer s) :
    (Agree w viewer now s r ↔ Unseen w viewer s r) ∧
      ∀ (w' : World) (s' : Status), without w' s'.id = without w s.id →
        s' ∈ w'.db.statuses.rows → Hidden w' viewer s' → Unseen w viewer s r →
        Unseen w' viewer s' r →
          ∀ a, Answers w' viewer now r a ↔ Answers w viewer now r a := by
  refine ⟨agree_iff now hs h r, fun w' s' hsame hs' h' hunseen hunseen' a => ?_⟩
  have hw := (agree_iff now hs h r).mpr hunseen a
  have hw' := (agree_iff now hs' h' r).mpr hunseen' a
  rw [hsame] at hw'
  exact hw'.symm.trans hw

/-! ### A stranger's requests -/

def localAccount (id : ℕ) (username : String) : Account where
  id := id
  username := username
  domain := none
  uri := none
  locked := false
  silenced := false
  unavailable := false
  movedToAccountId := none

def noteOf (id accountId : ℕ) (v : Visibility) : Status where
  id := id
  accountId := accountId
  uri := none
  visibility := v
  inReplyToId := none
  reblogOfId := none
  deleted := false

def directPoll : Poll where
  id := 5
  accountId := 1
  statusId := 11
  options := ["yes", "no"]
  multiple := false
  expiresAt := none
  cachedTallies := [0, 0]
  votesCount := 0
  votersCount := none

/-- A limited and a direct post, with a poll, of one account, and another account. -/
def twoNotes : World where
  db :=
    { Db.empty with
      accounts := { rows := [localAccount 1 "alice", localAccount 2 "bob"], distinct := by decide }
      statuses := { rows := [noteOf 10 1 .limited, noteOf 11 1 .direct], distinct := by decide } }
  mentions := []
  mutes := []
  polls := { polls := { rows := [directPoll], distinct := by decide }, pollVotes := [] }
  quotes := .empty
  conversations := some
  replyAuthors := fun _ => none
  cards := fun _ => none
  authors := by decide

example : visibleTo twoNotes none (noteOf 11 1 .direct) = false := by decide +kernel

theorem hidden_twoNotes :
    Hidden twoNotes (some 2) (noteOf 10 1 .limited) ∧
      Hidden twoNotes (some 2) (noteOf 11 1 .direct) :=
  ⟨⟨by decide, by decide, by simp [twoNotes, mentioned], by decide⟩,
    ⟨by decide, by decide, by simp [twoNotes, mentioned], by decide⟩⟩

/-- A stranger reads the limited post and the poll of the direct one, votes in it, replies to
the direct post and is shown it by muting its conversation. -/
theorem strangers_see_hidden :
    Hidden twoNotes (some 2) (noteOf 10 1 .limited) ∧
      Hidden twoNotes (some 2) (noteOf 11 1 .direct) ∧
      (∃ view, answer twoNotes (some 2) 0 0 (.getStatus 10) = some (.status view)) ∧
      answer (without twoNotes 10) (some 2) 0 0 (.getStatus 10) = some (.error notFound) ∧
      (∃ view, answer twoNotes (some 2) 0 0 (.getPoll 5) = some (.poll view)) ∧
      answer (without twoNotes 11) (some 2) 0 0 (.getPoll 5) = some (.error notFound) ∧
      (∃ view, answer twoNotes (some 2) 0 0 (.votePoll 5 [0]) = some (.poll view)) ∧
      answer twoNotes (some 2) 0 0 (.replyTo 11) = some (.replied 1) ∧
      ∃ view, answer twoNotes (some 2) 0 0 (.muteStatus 11) = some (.status view) :=
  ⟨hidden_twoNotes.1, hidden_twoNotes.2, ⟨_, rfl⟩, rfl, ⟨_, rfl⟩, rfl, ⟨_, rfl⟩, rfl, ⟨_, rfl⟩⟩

theorem direct_note_stays_private :
    Agree twoNotes (some 2) 0 (noteOf 11 1 .direct) (.getStatus 11) := by
  refine (private_statuses_stay_private twoNotes (some 2) 0 (noteOf 11 1 .direct) (.getStatus 11)
    (by decide) hidden_twoNotes.2).1.mpr ?_
  exact ⟨fun _ => ⟨rfl, fun hfetched => absurd hfetched.1 (by decide)⟩, fun hne => absurd rfl hne⟩

end Eunha.Privacy
