import Eunha.InboxRelationships
import Mathlib.Data.String.Basic

/-!
# Inbound activities act for their actor

What a Follow, Undo, Accept, Reject or Block may change of the relationships, boosts and
favourites, given which accounts are its actor's. An Undo of a Like, an Undo of a Block,
a Follow and a Block look their rows up by the actor, and keep to that. An Undo of a
Follow or of a boost, an Accept and a Reject find theirs by the activity's URI alone, and
keep to it exactly when what the URI finds is the actor's.
-/
namespace Eunha.InboxAuthority
open Tables Database Statuses InboxRelationships

/-! ### What an activity may change -/

def Names (i : Instance) (db : Db) (uri : String) (id : ℕ) : Prop :=
  (∃ path ∈ i.path uri, ∃ a ∈ localByPath i db path, a.id = id) ∨
    ∃ a ∈ db.accounts.rows, a.id = id ∧ a.uri = some uri

def NamesLocal (db : Db) (uri : String) (id : ℕ) : Prop := ∃ a ∈ localByUri db uri, a.id = id

structure Allowed where
  follows : Change Follow := .none
  followRequests : Change Follow := .none
  blocks : Change Block := .none
  favourites : Change Favourite := .none
  statuses : Change Status := .none

/-- What an activity may change, `mine` being its actor's accounts. -/
def allowed (mine : ℕ → Prop) (db : Db) (type : ActivityType) (a : Activity) : Allowed :=
  match type, a.object with
  | .follow, _ =>
      let own : Change Follow := ⟨fun f => mine f.accountId, fun f => mine f.accountId⟩
      { follows := own, followRequests := own }
  | .undo, .embedded o =>
      match o.type with
      | .follow =>
          { follows := .removing fun f => mine f.accountId
            followRequests := .removing fun f => mine f.accountId }
      | .like => { favourites := .removing fun f => mine f.accountId }
      | .announce =>
          { statuses := .removing fun s =>
              mine s.accountId ∧ s.reblogOfId.isSome ∧ s.uri = some (o.id.getD "") }
      | .block =>
          { blocks := .removing fun b =>
              mine b.accountId ∧ NamesLocal db (o.object.getD "") b.targetAccountId }
      | .other => {}
  | .undo, _ => {}
  | .accept, _ =>
      { follows := .adding fun f => mine f.targetAccountId
        followRequests := .removing fun f => mine f.targetAccountId }
  | .reject, _ => { followRequests := .removing fun f => mine f.targetAccountId }
  | .block, object =>
      let named := NamesLocal db (object.uriOrId.getD "")
      let ended : Change Follow := .removing fun f =>
        (mine f.accountId ∧ named f.targetAccountId) ∨ (named f.accountId ∧ mine f.targetAccountId)
      { follows := ended
        followRequests := ended
        blocks := .adding fun b => mine b.accountId ∧ named b.targetAccountId }

/-- Every table changed within what is allowed. -/
structure Keeps (c : Allowed) (db db' : Db) : Prop where
  follows : Within c.follows db.follows db'.follows
  followRequests : Within c.followRequests db.followRequests db'.followRequests
  blocks : Within c.blocks db.blocks db'.blocks
  favourites : Within c.favourites db.favourites db'.favourites
  statuses : Within c.statuses db.statuses db'.statuses

def ActsOnlyForActor (i : Instance) (db db' : Db) (type : ActivityType) (a : Activity) : Prop :=
  Keeps (allowed (Names i db' a.actor) db type a) db db'

theorem Keeps.refl (c : Allowed) (db : Db) : Keeps c db db := ⟨.refl, .refl, .refl, .refl, .refl⟩

/-! ### What a URI finds -/

def OwnBoost (mine : ℕ → Prop) (db : Db) (s : Status) : Prop :=
  mine s.accountId ∧ s.reblogOfId.isSome ∧
    (∀ t ∈ db.statuses.rows, t.id ≠ s.id →
      t.reblogOfId ≠ some s.id ∧ t.inReplyToId ≠ some s.id) ∧
    ∀ f ∈ db.favourites.rows, f.statusId ≠ s.id

def FindsOwn (mine : ℕ → Prop) (db : Db) (type : ActivityType) (a : Activity) : Prop :=
  match type, a.object with
  | .undo, .embedded o =>
      match o.type with
      | .follow =>
          (∀ f ∈ db.follows.rows, f.uri = some (o.id.getD "") → mine f.accountId) ∧
            ∀ f ∈ db.followRequests.rows, f.uri = some (o.id.getD "") → mine f.accountId
      | .announce =>
          o.id.getD "" ≠ "" → ∀ s ∈ db.statusByUri (o.id.getD ""), OwnBoost mine db s
      | _ => True
  | .accept, object =>
      ∀ uri ∈ object.uriOrId, isRelayFollow db uri = false →
        ∀ f ∈ db.followRequests.rows.find? (hasUri uri), mine f.targetAccountId
  | .reject, object =>
      ∀ uri ∈ object.uriOrId, isRelayFollow db uri = false →
        ∀ f ∈ db.followRequests.rows, f.uri = some uri → mine f.targetAccountId
  | _, _ => True

/-! ### Undo -/

theorem keeps_undoFollow (c : Allowed) (s : State) (actor uri : String) :
    Keeps c s.db (undoFollow s actor uri).db ↔
      (∀ f ∈ s.db.follows.rows, f.uri = some uri → c.follows.removed f) ∧
        ∀ f ∈ s.db.followRequests.rows, f.uri = some uri → c.followRequests.removed f := by
  have hdb : (undoFollow s actor uri).db.follows = s.db.follows.deleteWhere (hasUri uri) ∧
      (undoFollow s actor uri).db.followRequests =
        s.db.followRequests.deleteWhere (hasUri uri) ∧
      (undoFollow s actor uri).db.blocks = s.db.blocks ∧
      (undoFollow s actor uri).db.favourites = s.db.favourites ∧
      (undoFollow s actor uri).db.statuses = s.db.statuses := by
    simp only [undoFollow]
    split <;> simp
  obtain ⟨hf, hr, hb, hl, hs⟩ := hdb
  constructor
  · intro h
    have hfollows := h.follows
    have hrequests := h.followRequests
    rw [hf, Within.deleteWhere] at hfollows
    rw [hr, Within.deleteWhere] at hrequests
    exact ⟨fun f hm hu => hfollows f hm (by simp [hasUri, hu]),
      fun f hm hu => hrequests f hm (by simp [hasUri, hu])⟩
  · rintro ⟨hfollows, hrequests⟩
    refine ⟨?_, ?_, by rw [hb]; exact .refl, by rw [hl]; exact .refl, by rw [hs]; exact .refl⟩
    · rw [hf, Within.deleteWhere]
      exact fun f hm hu => hfollows f hm (by simpa [hasUri] using hu)
    · rw [hr, Within.deleteWhere]
      exact fun f hm hu => hrequests f hm (by simpa [hasUri] using hu)

theorem keeps_undoLike {c : Allowed} {s : State} {actor : String} (uri statusUri : String)
    (h : ∀ a ∈ s.db.accounts.rows, a.uri = some actor →
      ∀ f : Favourite, f.accountId = a.id → c.favourites.removed f) :
    Keeps c s.db (undoLike s actor uri statusUri).db := by
  rw [undoLike]
  split
  next status account _ haccount =>
    have hown := Db.accountByUri_mem haccount
    have hundone : Within c.favourites s.db.favourites
        (s.db.favourites.deleteWhere fun f => f.accountId = account.id ∧ f.statusId = status.id) := by
      rw [Within.deleteWhere]
      intro f _ hf
      exact h account hown.1 hown.2 f (of_decide_eq_true hf).1
    dsimp only
    split
    · exact ⟨.refl, .refl, .refl, hundone, .refl⟩
    · rw [db_deleteLater]
      exact ⟨.refl, .refl, .refl, hundone, .refl⟩
  next =>
    rw [db_deleteLater]
    exact .refl c s.db

theorem keeps_undoBlock {c : Allowed} {s : State} {actor : String} (uri objectUri : String)
    (h : ∀ a ∈ s.db.accounts.rows, a.uri = some actor →
      ∀ b : Block, b.accountId = a.id → NamesLocal s.db objectUri b.targetAccountId →
        c.blocks.removed b) :
    Keeps c s.db (undoBlock s actor uri objectUri).db := by
  rw [undoBlock]
  split
  next blocker blockee hblocker hblockee =>
    have hown := Db.accountByUri_mem hblocker
    have hundone : Within c.blocks s.db.blocks
        (s.db.blocks.deleteWhere fun b =>
          b.accountId = blocker.id ∧ b.targetAccountId = blockee.id) := by
      rw [Within.deleteWhere]
      intro b _ hb
      obtain ⟨hfrom, hto⟩ := of_decide_eq_true hb
      exact h blocker hown.1 hown.2 b hfrom ⟨blockee, hblockee, hto.symm⟩
    dsimp only
    split
    · exact ⟨.refl, .refl, hundone, .refl, .refl⟩
    · rw [db_deleteLater]
      exact ⟨.refl, .refl, hundone, .refl, .refl⟩
  next =>
    rw [db_deleteLater]
    exact .refl c s.db

def undoneBoost (mine : ℕ → Prop) (uri : String) : Allowed where
  statuses := .removing fun t => mine t.accountId ∧ t.reblogOfId.isSome ∧ t.uri = some uri

theorem undoAnnounce_of_find {s : State} {uri : String} {row : Status} (actor : String)
    (huri : uri ≠ "")
    (h : s.db.statusByUri uri = some row) :
    ∃ accountStats statusStats, (undoAnnounce s actor uri).db =
      { deleteStatuses s.db (fun t => t.uri = some uri) with
        accountStats := accountStats
        statusStats := statusStats } := by
  rw [undoAnnounce, if_neg huri, h]
  dsimp only
  rw [onStatusDeleted_eq]
  split <;> exact ⟨_, _, rfl⟩

theorem keeps_undoneBoost_of_own {mine : ℕ → Prop} {db : Db} {uri : String} {row : Status}
    (hfind : db.statusByUri uri = some row) (hown : OwnBoost mine db row) :
    Within (undoneBoost mine uri).statuses db.statuses
        (deleteStatuses db fun t => t.uri = some uri).statuses ∧
      Within Change.none db.favourites
        (deleteStatuses db fun t => t.uri = some uri).favourites := by
  obtain ⟨hmem, huri⟩ := Db.statusByUri_mem hfind
  obtain ⟨hmine, hboost, hrefs, hfavs⟩ := hown
  have hkey : ∀ t ∈ db.statuses.rows, decide (t.uri = some uri) = true ↔ t = row := by
    intro t ht
    rw [decide_eq_true_eq]
    constructor
    · intro hu
      exact db.statuses.eq_of_key (k := .uri uri) ht hmem (by simp [Status.keys, hu])
        (by simp [Status.keys, huri])
    · rintro rfl
      exact huri
  have hgone := removedIds_of_no_boost hmem hkey fun t ht hne => (hrefs t ht hne).1
  have hkept : ∀ t ∈ db.statuses.rows, t.id ≠ row.id →
      detach (removedIds db fun t => t.uri = some uri) t = t := by
    intro t ht hne
    refine detach_of_not_mem fun id hid => ?_
    rw [hgone]
    rintro rfl
    exact (hrefs t ht hne).2 hid
  refine ⟨⟨?_, ?_⟩, ?_⟩
  · intro t ht hn
    have hid : t.id = row.id := by
      by_contra hne
      refine hn (mem_deleteStatuses.mpr ⟨t, ht, ?_, hkept t ht hne⟩)
      rw [hgone]
      exact hne
    obtain rfl : t = row :=
      db.statuses.eq_of_key (k := .id row.id) ht hmem (by simp [Status.keys, hid])
        (by simp [Status.keys])
    exact ⟨hmine, hboost, huri⟩
  · intro t ht hn
    obtain ⟨r, hr, hrid, rfl⟩ := mem_deleteStatuses.mp ht
    rw [hgone] at hrid
    rw [hkept r hr hrid] at hn
    exact absurd hr hn
  · rw [deleteStatuses, Within.deleteWhere]
    intro f hf hmem
    rw [decide_eq_true_eq, hgone] at hmem
    exact hfavs f hf hmem

theorem own_of_keeps_undoneBoost {mine : ℕ → Prop} {db : Db} {uri : String} {row : Status}
    (hfind : db.statusByUri uri = some row)
    (hs : Within (undoneBoost mine uri).statuses db.statuses
      (deleteStatuses db fun t => t.uri = some uri).statuses)
    (hf : Within Change.none db.favourites
      (deleteStatuses db fun t => t.uri = some uri).favourites) : OwnBoost mine db row := by
  obtain ⟨hmem, huri⟩ := Db.statusByUri_mem hfind
  have hrow : row.id ∈ removedIds db fun t => t.uri = some uri :=
    mem_removedIds hmem (by simp [huri])
  -- A row that goes or changes has the URI, and so is the boost itself.
  have hkept : ∀ t ∈ db.statuses.rows,
      t ∉ (deleteStatuses db fun t => t.uri = some uri).statuses.rows → t = row := by
    intro t ht hn
    exact db.statuses.eq_of_key (k := .uri uri) ht hmem (by simp [Status.keys, (hs.removed t ht hn).2.2])
      (by simp [Status.keys, huri])
  have hgone : row ∉ (deleteStatuses db fun t => t.uri = some uri).statuses.rows := by
    intro hin
    obtain ⟨r, _, hrid, hr⟩ := mem_deleteStatuses.mp hin
    rw [← hr, id_detach] at hrow
    exact hrid hrow
  obtain ⟨hmine, hboost, -⟩ := hs.removed row hmem hgone
  refine ⟨hmine, hboost, ?_, ?_⟩
  · intro t ht hne
    constructor
    · intro hof
      refine hne (congrArg Status.id (hkept t ht ?_))
      intro hin
      obtain ⟨r, _, hrid, hr⟩ := mem_deleteStatuses.mp hin
      refine hrid ?_
      have hid : r.id = t.id := by rw [← hr, id_detach]
      rw [hid]
      exact boost_mem_removedIds ht hof (mem_removedIds hmem (by simp [huri]))
    · intro hreply
      refine hne (congrArg Status.id (hkept t ht ?_))
      intro hin
      obtain ⟨r, _, _, hr⟩ := mem_deleteStatuses.mp hin
      have hnone : ∀ id ∈ t.inReplyToId, id ∉ removedIds db fun t => t.uri = some uri := by
        rw [← hr, detach]
        intro id hid
        split at hid
        · cases hid
        · next hany => 
            intro hmem
            exact hany (by rw [Option.mem_def.mp hid]; simpa using hmem)
      exact hnone row.id hreply hrow
  · intro f hfm hid
    rw [deleteStatuses, Within.deleteWhere] at hf
    exact hf f hfm (by rw [hid]; simpa using hrow)

theorem keeps_undoAnnounce (mine : ℕ → Prop) (s : State) (actor uri : String) :
    Keeps (undoneBoost mine uri) s.db (undoAnnounce s actor uri).db ↔
      (uri ≠ "" → ∀ t ∈ s.db.statusByUri uri, OwnBoost mine s.db t) := by
  by_cases huri : uri = ""
  · rw [undoAnnounce, if_pos huri]
    exact iff_of_true (.refl _ _) fun h => absurd huri h
  cases hfind : s.db.statusByUri uri with
  | none =>
      rw [undoAnnounce, if_neg huri, hfind]
      dsimp only
      rw [db_deleteLater]
      refine iff_of_true (.refl _ _) fun _ t ht => ?_
      cases ht
  | some row =>
      obtain ⟨accountStats, statusStats, hdb⟩ := undoAnnounce_of_find actor huri hfind
      rw [hdb]
      constructor
      · intro h _ t ht
        obtain rfl := Option.mem_some.mp ht
        exact own_of_keeps_undoneBoost hfind h.statuses h.favourites
      · intro h
        obtain ⟨hs, hf⟩ := keeps_undoneBoost_of_own hfind (h huri row rfl)
        exact ⟨.refl, .refl, .refl, hf, hs⟩

/-! ### Accept and Reject -/

def acceptedRequest (mine : ℕ → Prop) : Allowed where
  follows := .adding fun f => mine f.targetAccountId
  followRequests := .removing fun f => mine f.targetAccountId

theorem keeps_acceptFollow (mine : ℕ → Prop) (db : Db) (uri : String) :
    Keeps (acceptedRequest mine) db (acceptFollow db uri) ↔
      ∀ f ∈ db.followRequests.rows.find? (hasUri uri), mine f.targetAccountId := by
  cases hfind : db.followRequests.rows.find? (hasUri uri) with
  | none =>
      rw [acceptFollow, hfind]
      refine iff_of_true (.refl _ _) fun f hf => ?_
      cases hf
  | some row =>
      have hmem := List.mem_of_find?_eq_some hfind
      rw [acceptFollow, hfind]
      constructor
      · intro h f hf
        obtain rfl := Option.mem_some.mp hf
        have hrequests := Within.deleteWhere.mp h.followRequests
        exact hrequests row hmem (by simp [isPair])
      · intro h
        have hmine : mine row.targetAccountId := h row rfl
        refine ⟨Within.insert hmine, Within.deleteWhere.mpr ?_, .refl, .refl, .refl⟩
        intro f _ hpair
        have hto : f.targetAccountId = row.targetAccountId := (of_decide_eq_true hpair).2
        change mine f.targetAccountId
        rw [hto]
        exact hmine

def rejectedRequests (mine : ℕ → Prop) : Allowed where
  followRequests := .removing fun f => mine f.targetAccountId

theorem keeps_rejectFollow (mine : ℕ → Prop) (db : Db) (uri : String) :
    Keeps (rejectedRequests mine) db (rejectFollow db uri) ↔
      ∀ f ∈ db.followRequests.rows, f.uri = some uri → mine f.targetAccountId := by
  constructor
  · intro h f hf hu
    exact Within.deleteWhere.mp h.followRequests f hf (by simp [hasUri, hu])
  · intro h
    refine ⟨.refl, Within.deleteWhere.mpr ?_, .refl, .refl, .refl⟩
    intro f hf hu
    exact h f hf (of_decide_eq_true hu)

theorem keeps_handleAcceptReject (c : Allowed) (s : State) (accept : Bool) (a : Activity) :
    Keeps c s.db (handleAcceptReject s accept a).db ↔
      ∀ uri ∈ a.object.uriOrId, isRelayFollow s.db uri = false →
        Keeps c s.db (if accept then acceptFollow s.db uri else rejectFollow s.db uri) := by
  rw [handleAcceptReject]
  cases huri : a.object.uriOrId with
  | none =>
      refine iff_of_true (.refl _ _) fun uri hu => ?_
      cases hu
  | some uri =>
      have hall (p : String → Prop) : (∀ u ∈ some uri, p u) ↔ p uri := by simp
      rw [hall]
      cases hrelay : isRelayFollow s.db uri with
      | true =>
          simp only [answered, hrelay, if_true]
          refine iff_of_true ⟨.refl, .refl, .refl, .refl, .refl⟩ fun h => ?_
          cases h
      | false =>
          simp only [answered, hrelay, Bool.false_eq_true, if_false, forall_const]
          cases accept with
          | true =>
              simp only [if_true, acceptFollow]
              split <;> exact ⟨fun ⟨hf, hr, hb, hl, hs⟩ => ⟨hf, hr, hb, hl, hs⟩,
                fun ⟨hf, hr, hb, hl, hs⟩ => ⟨hf, hr, hb, hl, hs⟩⟩
          | false =>
              exact ⟨fun ⟨hf, hr, hb, hl, hs⟩ => ⟨hf, hr, hb, hl, hs⟩,
                fun ⟨hf, hr, hb, hl, hs⟩ => ⟨hf, hr, hb, hl, hs⟩⟩

/-! ### Follow and Block -/

theorem resolveOrFetch_names {i : Instance} {db db' : Db} {uri : String} {id : ℕ}
    (h : resolveOrFetch i db uri = some (db', id)) : Names i db' uri id := by
  rw [resolveOrFetch] at h
  split at h
  next path hpath =>
    obtain ⟨a, ha, he⟩ := Option.map_eq_some_iff.mp h
    obtain ⟨rfl, rfl⟩ := Prod.mk.inj he
    exact .inl ⟨path, hpath, a, ha, rfl⟩
  next =>
    split at h
    next a ha =>
      obtain ⟨rfl, rfl⟩ := Prod.mk.inj (Option.some.inj h)
      obtain ⟨hmem, huri⟩ := Db.accountByUri_mem ha
      exact .inr ⟨a, hmem, rfl, huri⟩
    next =>
      obtain ⟨f, hf, he⟩ := Option.map_eq_some_iff.mp h
      obtain ⟨rfl, rfl⟩ := Prod.mk.inj he
      obtain ⟨a, hmem, hid, huri⟩ := i.fetchAccount_uri db uri f hf
      exact .inr ⟨a, hmem, hid, huri⟩

theorem within_setUri {c : Change Follow} {t : Table Follow.keys} {accountId : ℕ}
    (h : ∀ f : Follow, f.accountId = accountId → c.removed f ∧ c.added f)
    (targetAccountId : ℕ) (uri : Option String) :
    Within c t (setUri t accountId targetAccountId uri) := by
  refine Within.update fun f _ hne => ?_
  by_cases hpair : f.accountId = accountId ∧ f.targetAccountId = targetAccountId
  · refine ⟨(h f hpair.1).1, ?_⟩
    rw [if_pos hpair]
    exact (h { f with uri := uri } hpair.1).2
  · rw [if_neg hpair] at hne
    exact absurd rfl hne

theorem within_upsertUri {c : Change Follow} {t : Table Follow.keys} {f : Follow}
    (h : ∀ g : Follow, g.accountId = f.accountId → c.removed g ∧ c.added g) :
    Within c t (upsertUri t f) := by
  rw [upsertUri]
  split
  · exact within_setUri h f.targetAccountId f.uri
  · exact Within.insert (h f rfl).2

def ownFollows (mine : ℕ → Prop) : Allowed where
  follows := ⟨fun f => mine f.accountId, fun f => mine f.accountId⟩
  followRequests := ⟨fun f => mine f.accountId, fun f => mine f.accountId⟩

theorem keeps_takeFollow {mine : ℕ → Prop} (i : Instance) (db : Db) (target : Account)
    {followerId : ℕ} (a : Activity) (h : mine followerId) :
    Keeps (ownFollows mine) db (takeFollow i db target followerId a) := by
  have hown : ∀ f : Follow, f.accountId = followerId → mine f.accountId ∧ mine f.accountId :=
    fun f hf => ⟨hf ▸ h, hf ▸ h⟩
  rw [takeFollow]
  split_ifs
  · exact .refl _ _
  · exact ⟨within_setUri hown _ _, .refl, .refl, .refl, .refl⟩
  · exact .refl _ _
  · exact ⟨.refl, within_upsertUri hown, .refl, .refl, .refl⟩
  · exact ⟨within_upsertUri hown, .refl, .refl, .refl, .refl⟩

theorem keeps_fetched {i : Instance} {c : Allowed} {db db' db'' : Db} {uri : String} {id : ℕ}
    (h : resolveOrFetch i db uri = some (db', id)) (hk : Keeps c db' db'') : Keeps c db db'' := by
  rw [resolveOrFetch_eq h] at hk
  exact ⟨hk.follows, hk.followRequests, hk.blocks, hk.favourites, hk.statuses⟩

theorem accounts_takeFollow (i : Instance) (db : Db) (target : Account) (followerId : ℕ)
    (a : Activity) : (takeFollow i db target followerId a).accounts = db.accounts := by
  rw [takeFollow]
  split_ifs <;> rfl

theorem names_congr {i : Instance} {db db' : Db} (h : db'.accounts = db.accounts) :
    Names i db' = Names i db := by
  have hpath : localByPath i db' = localByPath i db := by
    funext path
    unfold localByPath
    rw [h]
  funext uri id
  rw [Names, Names, h, hpath]

theorem keeps_handleFollow (i : Instance) (s : State) (a : Activity) :
    Keeps (ownFollows (Names i (handleFollow i s a).db a.actor)) s.db (handleFollow i s a).db := by
  rw [handleFollow]
  split
  · exact .refl _ _
  split
  · split
    next db id hresolve =>
      exact keeps_fetched hresolve (.refl _ _)
    next => exact .refl _ _
  split
  · exact .refl _ _
  next target htarget =>
    split
    next => exact .refl _ _
    next db followerId hresolve =>
      refine keeps_fetched hresolve (keeps_takeFollow i _ target a ?_)
      rw [names_congr (accounts_takeFollow _ _ _ _ _)]
      exact resolveOrFetch_names hresolve

/-- What a block may change, `named` being the account blocked. -/
def blockChanges (mine named : ℕ → Prop) : Allowed where
  follows := .removing fun f =>
    (mine f.accountId ∧ named f.targetAccountId) ∨ (named f.accountId ∧ mine f.targetAccountId)
  followRequests := .removing fun f =>
    (mine f.accountId ∧ named f.targetAccountId) ∨ (named f.accountId ∧ mine f.targetAccountId)
  blocks := .adding fun b => mine b.accountId ∧ named b.targetAccountId

theorem keeps_recordBlock {mine named : ℕ → Prop} (db : Db) {blockerId targetId : ℕ}
    (hb : mine blockerId) (ht : named targetId) :
    Keeps (blockChanges mine named) db (recordBlock db blockerId targetId) := by
  have hbetween : ∀ f : Follow, between blockerId targetId f = true →
      (mine f.accountId ∧ named f.targetAccountId) ∨
        (named f.accountId ∧ mine f.targetAccountId) := by
    intro f hf
    rw [between, Bool.or_eq_true, isPair, isPair, decide_eq_true_eq, decide_eq_true_eq] at hf
    rcases hf with ⟨hfrom, hto⟩ | ⟨hfrom, hto⟩
    · exact .inl ⟨hfrom ▸ hb, hto ▸ ht⟩
    · exact .inr ⟨hfrom ▸ ht, hto ▸ hb⟩
  exact ⟨Within.deleteWhere.mpr fun f _ hf => hbetween f hf,
    Within.deleteWhere.mpr fun f _ hf => hbetween f hf, Within.insert ⟨hb, ht⟩, .refl, .refl⟩

theorem keeps_handleBlock (i : Instance) (s : State) (a : Activity) :
    Keeps (blockChanges (Names i (handleBlock i s a).db a.actor)
      (NamesLocal s.db (a.object.uriOrId.getD ""))) s.db (handleBlock i s a).db := by
  rw [handleBlock]
  split
  · exact .refl _ _
  split
  · exact .refl _ _
  next target htarget =>
    split
    next => exact .refl _ _
    next db blockerId hresolve =>
      have hnames := resolveOrFetch_names hresolve
      exact keeps_fetched hresolve (keeps_recordBlock _ hnames ⟨target, htarget, rfl⟩)

/-! ### The theorem -/

theorem accounts_handleUndo (s : State) (a : Activity) :
    (handleUndo s a).db.accounts = s.db.accounts := by
  have hfollow (uri : String) : (undoFollow s a.actor uri).db.accounts = s.db.accounts := by
    simp only [undoFollow]
    split <;> simp
  have hlike (uri statusUri : String) :
      (undoLike s a.actor uri statusUri).db.accounts = s.db.accounts := by
    simp only [undoLike]
    split
    · split <;> simp
    · simp
  have hannounce (uri : String) : (undoAnnounce s a.actor uri).db.accounts = s.db.accounts := by
    by_cases huri : uri = ""
    · rw [undoAnnounce, if_pos huri]
    · cases hfind : s.db.statusByUri uri with
      | none => simp only [undoAnnounce, if_neg huri, hfind, db_deleteLater]
      | some row =>
          obtain ⟨accountStats, statusStats, hdb⟩ := undoAnnounce_of_find a.actor huri hfind
          rw [hdb]
          rfl
  have hblock (uri objectUri : String) :
      (undoBlock s a.actor uri objectUri).db.accounts = s.db.accounts := by
    simp only [undoBlock]
    split
    · split <;> simp
    · simp
  rw [handleUndo]
  split
  · split
    · exact hfollow _
    · exact hlike _ _
    · exact hannounce _
    · exact hblock _ _
    · rfl
  · rfl

theorem accounts_handleAcceptReject (s : State) (accept : Bool) (a : Activity) :
    (handleAcceptReject s accept a).db.accounts = s.db.accounts := by
  rw [handleAcceptReject]
  split
  · rfl
  · dsimp only
    split_ifs
    · rfl
    · rw [acceptFollow]
      split <;> rfl
    · rfl

/-- An inbound Follow, Undo, Accept, Reject or Block changes only what is its actor's
exactly when what its URI finds is. -/
theorem acts_only_for_actor (i : Instance) (s : State) (type : ActivityType) (a : Activity) :
    ActsOnlyForActor i s.db (processActivity i s type a).db type a ↔
      FindsOwn (Names i s.db a.actor) s.db type a := by
  obtain ⟨id, actor, object⟩ := a
  cases type with
  | follow => exact iff_of_true (keeps_handleFollow i s _) trivial
  | block => exact iff_of_true (keeps_handleBlock i s _) trivial
  | undo =>
      rw [ActsOnlyForActor, processActivity, names_congr (accounts_handleUndo s _)]
      cases object with
      | missing => exact iff_of_true (.refl _ _) trivial
      | uri u => exact iff_of_true (.refl _ _) trivial
      | embedded o =>
          obtain ⟨type, oid, object⟩ := o
          cases type with
          | follow => exact keeps_undoFollow _ s actor (oid.getD "")
          | like =>
              refine iff_of_true (keeps_undoLike _ _ fun a ha hu f hf => ?_) trivial
              exact .inr ⟨a, ha, hf.symm, hu⟩
          | announce => exact keeps_undoAnnounce _ s actor (oid.getD "")
          | block =>
              refine iff_of_true (keeps_undoBlock _ _ fun a ha hu b hb hnamed => ?_) trivial
              exact ⟨.inr ⟨a, ha, hb.symm, hu⟩, hnamed⟩
          | other => exact iff_of_true (.refl _ _) trivial
  | accept =>
      rw [ActsOnlyForActor, processActivity, names_congr (accounts_handleAcceptReject s _ _)]
      rw [keeps_handleAcceptReject]
      refine forall₃_congr fun uri _ _ => ?_
      exact keeps_acceptFollow _ s.db uri
  | reject =>
      rw [ActsOnlyForActor, processActivity, names_congr (accounts_handleAcceptReject s _ _)]
      rw [keeps_handleAcceptReject]
      refine forall₃_congr fun uri _ _ => ?_
      exact keeps_rejectFollow _ s.db uri

/-! ### A neighbour's follow -/

def upToSlashes : ℕ → List Char → List Char
  | 0, _ => []
  | _, [] => []
  | n + 1, c :: cs => c :: upToSlashes (if c = '/' then n else n + 1) cs

def origin (uri : String) : List Char := upToSlashes 3 uri.toList

/-- An embedded object is on its actor's host. -/
def Vouched (a : Activity) : Prop :=
  match a.object with
  | .embedded o => ∀ id ∈ o.id, origin id = origin a.actor
  | _ => True

def bareInstance : Instance where
  actorUrl := "https://a.example/actor"
  path := fun _ => none
  lower := fun s => s
  isIri := fun _ => true
  fetchAccount := fun _ _ => none
  fetchAccount_uri := fetched_none

def remoteAccount (id : ℕ) (uri : String) : Account where
  id := id
  username := "user"
  domain := some "h.example"
  uri := some uri
  locked := false
  silenced := false
  unavailable := false
  movedToAccountId := none

/-- Account 3 on `h.example` follows account 1. Account 2 is on `h.example` too. -/
def neighbours : State where
  db := { Db.empty with
    accounts := ⟨[remoteAccount 2 "https://h.example/users/a",
      remoteAccount 3 "https://h.example/users/b"], by decide +kernel⟩
    follows := ⟨[⟨3, 1, some "https://h.example/follows/1"⟩], by decide +kernel⟩ }
  undone := []

def undoNeighbours : Activity where
  id := "https://h.example/undos/1"
  actor := "https://h.example/users/a"
  object := .embedded ⟨.follow, some "https://h.example/follows/1", none⟩

/-- An account can end the follow of another one on its server. -/
theorem neighbour_unfollowed :
    ¬ ∀ (i : Instance) (s : State) (type : ActivityType) (a : Activity), Vouched a →
      ActsOnlyForActor i s.db (processActivity i s type a).db type a := by
  intro h
  have hvouched : Vouched undoNeighbours := by
    intro id hid
    cases hid
    decide +kernel
  have hacts := h bareInstance neighbours .undo undoNeighbours hvouched
  have hmine := hacts.follows.removed ⟨3, 1, some "https://h.example/follows/1"⟩
    (by decide +kernel) (by decide +kernel)
  rcases hmine with ⟨path, hpath, -⟩ | ⟨a, ha, hid, huri⟩
  · cases hpath
  · have hnone : ∀ a ∈ (processActivity bareInstance neighbours .undo undoNeighbours).db.accounts.rows,
        ¬ (a.id = 3 ∧ a.uri = some "https://h.example/users/a") := by
      decide +kernel
    exact hnone a ha ⟨hid, huri⟩

end Eunha.InboxAuthority
