import Eunha.Interleaving
import Mathlib.Data.List.Nodup
import Mathlib.Data.List.Perm.Subperm
import Mathlib.Data.List.Sort
import Mathlib.Order.Nat

/-!
# Web sessions and the tokens they own

A sign-in inserts a session for an access token, its own or one that exists already, and
purges the user's sessions beyond the newest ten. Signing out selects sessions and then
destroys them in one transaction: the rows, their tokens and the push subscriptions of
both. Deleting a token deletes every session that refers to it, so a session is signed out
with another exactly when they share a token.
-/
namespace Eunha.Sessions
open Interleaving Runs

/-! ### The tables -/

/-- A row of `oauth_access_tokens`. -/
structure AccessToken where
  id : ℕ
  resourceOwnerId : ℕ
  revoked : Bool
  deriving DecidableEq

/-- A row of `session_activations`. -/
structure Session where
  id : ℕ
  sessionId : String
  userId : ℕ
  accessTokenId : Option ℕ
  webPushSubscriptionId : Option ℕ
  deriving DecidableEq

/-- A row of `web_push_subscriptions`. -/
structure Subscription where
  id : ℕ
  accessTokenId : ℕ
  deriving DecidableEq

structure Store where
  tokens : List AccessToken
  sessions : List Session
  subscriptions : List Subscription
  nextToken : ℕ
  nextSession : ℕ
  nextSubscription : ℕ
  /-- Every session there has been. -/
  made : List Session
  /-- The sessions destroyed because they were signed out, not purged. -/
  signedOut : List ℕ
  deriving DecidableEq

def Store.empty : Store := ⟨[], [], [], 0, 0, 0, [], []⟩

/-! ### The statements -/

def Store.hasToken (s : Store) (t : ℕ) : Prop := t ∈ s.tokens.map (·.id)

instance (s : Store) (t : ℕ) : Decidable (s.hasToken t) :=
  inferInstanceAs (Decidable (t ∈ s.tokens.map (·.id)))

def Store.insertToken (s : Store) (user : ℕ) : Store :=
  { s with tokens := s.tokens ++ [⟨s.nextToken, user, false⟩], nextToken := s.nextToken + 1 }

def Store.insertSession (s : Store) (user token : ℕ) (sessionId : String) : Store :=
  let row : Session := ⟨s.nextSession, sessionId, user, some token, none⟩
  { s with
    sessions := s.sessions ++ [row]
    made := s.made ++ [row]
    nextSession := s.nextSession + 1 }

def Store.subscribe (s : Store) (token : ℕ) : Store :=
  if s.hasToken token ∧ token ∉ s.subscriptions.map (·.accessTokenId) then
    { s with
      subscriptions := s.subscriptions ++ [⟨s.nextSubscription, token⟩]
      nextSubscription := s.nextSubscription + 1 }
  else s

def Store.revokeToken (s : Store) (token : ℕ) : Store :=
  { s with tokens := s.tokens.map fun t => if t.id = token then { t with revoked := true } else t }

def Store.deleteSessions (s : Store) (ids : List ℕ) : Store :=
  { s with sessions := s.sessions.filter (·.id ∉ ids) }

def Store.deleteSubscriptions (s : Store) (ids : List ℕ) : Store :=
  { s with subscriptions := s.subscriptions.filter (·.id ∉ ids) }

def Store.deleteSubscriptionsOf (s : Store) (tokens : List ℕ) : Store :=
  { s with subscriptions := s.subscriptions.filter (·.accessTokenId ∉ tokens) }

def Store.deleteTokens (s : Store) (tokens : List ℕ) : Store :=
  { s with
    tokens := s.tokens.filter (·.id ∉ tokens)
    sessions := s.sessions.filter fun r => r.accessTokenId.all (· ∉ tokens)
    subscriptions := s.subscriptions.filter (·.accessTokenId ∉ tokens) }

def Store.tokensOf (s : Store) (ids : List ℕ) : List ℕ :=
  (s.sessions.filter (·.id ∈ ids)).filterMap (·.accessTokenId)

/-- `destroy_where_ids`, with the tokens it returns. -/
def Store.destroyWhereIds (s : Store) (ids : List ℕ) : Store × List ℕ :=
  if ids = [] then (s, []) else
    let tokens := s.tokensOf ids
    let subscriptions := (s.sessions.filter (·.id ∈ ids)).filterMap (·.webPushSubscriptionId)
    let s := s.deleteSessions ids
    let s := if subscriptions = [] then s else s.deleteSubscriptions subscriptions
    (if tokens = [] then s else (s.deleteSubscriptionsOf tokens).deleteTokens tokens, tokens)

/-! ### The calls -/

def maxSessionActivations : ℕ := 10

/-- `ORDER BY id DESC OFFSET` the limit. -/
def beyond (ids : List ℕ) : List ℕ := (ids.insertionSort (· ≥ ·)).drop maxSessionActivations

/-- The sessions of a user that `purge_old` selects. -/
def Store.stale (s : Store) (user : ℕ) : List ℕ :=
  beyond ((s.sessions.filter (·.userId = user)).map (·.id))

/-- The ways to sign out. -/
inductive Removal where
  | deactivate (sessionId : String)
  | destroyAll (user : ℕ)
  | destroyOthers (user : ℕ) (keep : Option ℕ)
  | revokeSession (id user : ℕ)
  deriving DecidableEq

/-- The `WHERE` clause that selects what is signed out. -/
def Removal.selects : Removal → Session → Bool
  | .deactivate sessionId, r => r.sessionId = sessionId
  | .destroyAll user, r => r.userId = user
  | .destroyOthers user keep, r => r.userId = user ∧ some r.id ≠ keep
  | .revokeSession id user, r => r.id = id ∧ r.userId = user

/-- A call and the statement it runs next. `purged` is the user whose sign-in purges. -/
inductive Call where
  | activate (user : ℕ)
  | activateWithToken (user token : ℕ)
  | purgeOld (user : ℕ)
  | remove (r : Removal)
  | destroyWhereIds (purged : Option ℕ) (ids : List ℕ)
  deriving DecidableEq

inductive Request where
  | activate (user : ℕ)
  | activateWithToken (user token : ℕ)
  | remove (r : Removal)
  | issueToken (user : ℕ)
  | revokeToken (token : ℕ)
  | subscribe (token : ℕ)
  | unsubscribe (token : ℕ)

def enter (s : Store) : Request → Store × Option Call
  | .activate user => (s, some (.activate user))
  | .activateWithToken user token => (s, some (.activateWithToken user token))
  | .remove r => (s, some (.remove r))
  | .issueToken user => (s.insertToken user, none)
  | .revokeToken token => (s.revokeToken token, none)
  | .subscribe token => (s.subscribe token, none)
  | .unsubscribe token => (s.deleteSubscriptionsOf [token], none)

/-- The next statement of a call, with the random `session_id` it draws. -/
def exec (s : Store) : Call → String → Store × Option Call
  | .activate user, _ => (s.insertToken user, some (.activateWithToken user s.nextToken))
  | .activateWithToken user token, sessionId =>
      -- The insert fails where the token is gone or the session id is taken.
      if s.hasToken token ∧ sessionId ∉ s.sessions.map (·.sessionId) then
        (s.insertSession user token sessionId, some (.purgeOld user))
      else (s, none)
  | .purgeOld user, _ => (s, some (.destroyWhereIds (some user) (s.stale user)))
  | .remove r, _ =>
      (s, some (.destroyWhereIds none ((s.sessions.filter r.selects).map (·.id))))
  | .destroyWhereIds purged ids, _ =>
      let t := (s.destroyWhereIds ids).1
      (if purged = none then { t with signedOut := s.signedOut ++ ids } else t, none)

def machine : Machine Store Call Request String := ⟨enter, exec⟩

def start : Config Store Call := ⟨.empty, []⟩

/-! ### What signing out should do -/

def Call.signsIn : Call → Option ℕ
  | .activate user => some user
  | .activateWithToken user _ => some user
  | .purgeOld user => some user
  | .remove _ => none
  | .destroyWhereIds purged _ => purged

def Call.ids : Call → List ℕ
  | .destroyWhereIds _ ids => ids
  | _ => []

def Store.newer (s : Store) (r : Session) : List Session :=
  s.made.filter fun r' => r'.userId = r.userId ∧ r.id < r'.id

/-- The user's sessions are at most the maximum, and the newest of those not signed out. -/
structure Newest (s : Store) (user : ℕ) : Prop where
  few : (s.sessions.filter (·.userId = user)).length ≤ maxSessionActivations
  newest : ∀ r ∈ s.made, r.userId = user → r.id ∉ s.signedOut →
    (s.newer r).length < maxSessionActivations → r ∈ s.sessions
  newer : ∀ r ∈ s.sessions, r.userId = user → ∀ r' ∈ s.made, r'.userId = user →
    r'.id ∉ s.signedOut → r.id < r'.id → r' ∈ s.sessions

structure Gone (s : Store) (ids : List ℕ) (t : Store) : Prop where
  row : ∀ r ∈ t.sessions, r.id ∉ ids
  token : ∀ r ∈ s.made, r.id ∈ ids → ∀ k ∈ r.accessTokenId, ¬t.hasToken k
  subscription : ∀ r ∈ s.made, r.id ∈ ids → ∀ p ∈ t.subscriptions,
    some p.accessTokenId ≠ r.accessTokenId ∧ some p.id ≠ r.webPushSubscriptionId

/-- The other sessions are there still, each with its token as it was. -/
def Others (s : Store) (ids : List ℕ) (t : Store) : Prop :=
  ∀ r ∈ s.sessions, r.id ∉ ids →
    r ∈ t.sessions ∧ ∀ k ∈ s.tokens, r.accessTokenId = some k.id → k ∈ t.tokens

structure SignsOut (c : Config Store Call) (e : Event Request String) : Prop where
  removed : ∀ k w purged ids, e = .advance k w →
    c.calls[k]? = some (.destroyWhereIds purged ids) →
    Others c.store ids (machine.step c e).store ∧ Gone c.store ids (machine.step c e).store
  settled : ∀ user, (∀ call ∈ (machine.step c e).calls, call.signsIn ≠ some user) →
    Newest (machine.step c e).store user

/-! ### Sessions that share no token -/

def Call.Unshared (s : Store) : Call → Prop
  | .destroyWhereIds _ ids => ∀ r ∈ s.sessions, r.id ∈ ids → ∀ r' ∈ s.sessions, r'.id ∉ ids →
      ∀ k ∈ r.accessTokenId, r'.accessTokenId ≠ some k
  | _ => True

def guards : Guards Store Call Request String :=
  ⟨fun _ _ _ => True, fun s c _ _ => c.Unshared s⟩

/-! ### The ids beyond the newest -/

section Beyond
variable {l : List ℕ} {i j : ℕ}

theorem sorted_split (l : List ℕ) :
    l.insertionSort (· ≥ ·) =
      (l.insertionSort (· ≥ ·)).take maxSessionActivations ++ beyond l :=
  (List.take_append_drop maxSessionActivations _).symm

theorem mem_of_mem_beyond (hi : i ∈ beyond l) : i ∈ l :=
  (List.mem_insertionSort _).mp (List.mem_of_mem_drop hi)

theorem le_of_mem_take (hi : i ∈ beyond l)
    (hj : j ∈ (l.insertionSort (· ≥ ·)).take maxSessionActivations) : i ≤ j := by
  have hsorted : (l.insertionSort (· ≥ ·)).Pairwise (· ≥ ·) := List.pairwise_insertionSort _ l
  rw [sorted_split, List.pairwise_append] at hsorted
  exact hsorted.2.2 j hj i hi

theorem mem_beyond_of_lt (hi : i ∈ beyond l) (hj : j ∈ l) (h : j < i) : j ∈ beyond l := by
  have hmem : j ∈ l.insertionSort (· ≥ ·) := (List.mem_insertionSort _).mpr hj
  rw [sorted_split, List.mem_append] at hmem
  cases hmem with
  | inl htake => exact absurd (le_of_mem_take hi htake) (by omega)
  | inr hdrop => exact hdrop

theorem length_kept (hl : l.Nodup) :
    (l.filter (· ∉ beyond l)).length ≤ maxSessionActivations := by
  have hsub : l.filter (· ∉ beyond l) ⊆
      (l.insertionSort (· ≥ ·)).take maxSessionActivations := by
    intro j hj
    have hmem : j ∈ l.insertionSort (· ≥ ·) :=
      (List.mem_insertionSort _).mpr (List.mem_of_mem_filter hj)
    rw [sorted_split, List.mem_append] at hmem
    exact hmem.resolve_right (of_decide_eq_true (List.mem_filter.mp hj).2)
  have hlen := ((hl.filter _).subperm hsub).length_le
  rw [List.length_take] at hlen
  omega

theorem length_newer (hl : l.Nodup) (hi : i ∈ beyond l) :
    maxSessionActivations ≤ (l.filter (i < ·)).length := by
  have hnodup : (l.insertionSort (· ≥ ·)).Nodup :=
    (List.perm_insertionSort _ l).nodup_iff.mpr hl
  have hlong : maxSessionActivations < (l.insertionSort (· ≥ ·)).length := by
    have hpos := List.length_pos_of_mem hi
    rw [beyond, List.length_drop] at hpos
    omega
  have hsub : (l.insertionSort (· ≥ ·)).take maxSessionActivations ⊆ l.filter (i < ·) := by
    intro j hj
    have hle : i ≤ j := le_of_mem_take hi hj
    have hne : i ≠ j := by
      rw [sorted_split, List.nodup_append] at hnodup
      exact (hnodup.2.2 j hj i hi).symm
    rw [List.mem_filter]
    exact ⟨(List.mem_insertionSort _).mp (List.mem_of_mem_take hj), decide_eq_true (by omega)⟩
  have hlen := ((hnodup.sublist (List.take_sublist _ _)).subperm hsub).length_le
  rw [List.length_take] at hlen
  omega

end Beyond

/-! ### What a destruction leaves -/

section Destroy
variable {s : Store} {ids : List ℕ}

theorem mem_tokensOf {k : ℕ} :
    k ∈ s.tokensOf ids ↔ ∃ r ∈ s.sessions, r.id ∈ ids ∧ r.accessTokenId = some k := by
  simp [Store.tokensOf, List.mem_filterMap, List.mem_filter, and_assoc]

theorem tokensOf_nil : s.tokensOf [] = [] := by simp [Store.tokensOf]

theorem mem_tokens_destroyWhereIds {k : AccessToken} :
    k ∈ (s.destroyWhereIds ids).1.tokens ↔ k ∈ s.tokens ∧ k.id ∉ s.tokensOf ids := by
  rw [Store.destroyWhereIds]
  split_ifs with hids
  · simp [hids, tokensOf_nil]
  · dsimp only
    split_ifs with hnone hsubs hsubs
    · simp [hnone, Store.deleteSessions]
    · simp [hnone, Store.deleteSessions, Store.deleteSubscriptions]
    · simp [Store.deleteTokens, Store.deleteSubscriptionsOf, Store.deleteSessions]
    · simp [Store.deleteTokens, Store.deleteSubscriptionsOf, Store.deleteSessions,
        Store.deleteSubscriptions]

theorem mem_sessions_destroyWhereIds {r : Session} :
    r ∈ (s.destroyWhereIds ids).1.sessions ↔
      r ∈ s.sessions ∧ r.id ∉ ids ∧ ∀ k ∈ r.accessTokenId, k ∉ s.tokensOf ids := by
  rw [Store.destroyWhereIds]
  split_ifs with hids
  · simp [hids, tokensOf_nil]
  · dsimp only
    split_ifs with hnone hsubs hsubs
    · simp [hnone, Store.deleteSessions]
    · simp [hnone, Store.deleteSessions, Store.deleteSubscriptions]
    · simp [Store.deleteTokens, Store.deleteSubscriptionsOf, Store.deleteSessions,
        Option.all_eq_true]
      exact fun _ => and_comm
    · simp [Store.deleteTokens, Store.deleteSubscriptionsOf, Store.deleteSessions,
        Store.deleteSubscriptions, Option.all_eq_true]
      exact fun _ => and_comm

theorem sessions_destroyWhereIds_sublist :
    (s.destroyWhereIds ids).1.sessions.Sublist s.sessions := by
  rw [Store.destroyWhereIds]
  split_ifs with hids
  · exact List.Sublist.refl _
  · dsimp only
    split_ifs with hnone hsubs hsubs
    · exact List.filter_sublist
    · exact List.filter_sublist
    · exact List.filter_sublist.trans List.filter_sublist
    · exact List.filter_sublist.trans List.filter_sublist

theorem mem_subscriptions_destroyWhereIds {p : Subscription}
    (hp : p ∈ (s.destroyWhereIds ids).1.subscriptions) :
    p ∈ s.subscriptions ∧ p.accessTokenId ∉ s.tokensOf ids := by
  rw [Store.destroyWhereIds] at hp
  split_ifs at hp with hids
  · exact ⟨hp, by simp [hids, tokensOf_nil]⟩
  · dsimp only at hp
    split_ifs at hp with hnone hsubs hsubs
    · exact ⟨hp, by simp [hnone]⟩
    · exact ⟨List.mem_of_mem_filter hp, by simp [hnone]⟩
    · have hkept := List.mem_filter.mp hp
      exact ⟨List.mem_of_mem_filter hkept.1, of_decide_eq_true hkept.2⟩
    · have hkept := List.mem_filter.mp hp
      exact ⟨List.mem_of_mem_filter (List.mem_of_mem_filter hkept.1), of_decide_eq_true hkept.2⟩

theorem destroyWhereIds_rest (ids : List ℕ) :
    (s.destroyWhereIds ids).1.made = s.made ∧
      (s.destroyWhereIds ids).1.signedOut = s.signedOut ∧
      (s.destroyWhereIds ids).1.nextToken = s.nextToken ∧
      (s.destroyWhereIds ids).1.nextSession = s.nextSession := by
  rw [Store.destroyWhereIds]
  split_ifs with hids
  · exact ⟨rfl, rfl, rfl, rfl⟩
  · dsimp only
    split_ifs <;> exact ⟨rfl, rfl, rfl, rfl⟩

theorem hasToken_destroyWhereIds {k : ℕ} :
    (s.destroyWhereIds ids).1.hasToken k ↔ s.hasToken k ∧ k ∉ s.tokensOf ids := by
  simp only [Store.hasToken, List.mem_map, mem_tokens_destroyWhereIds]
  constructor
  · rintro ⟨t, ⟨ht, hout⟩, rfl⟩
    exact ⟨⟨t, ht, rfl⟩, hout⟩
  · rintro ⟨⟨t, ht, rfl⟩, hout⟩
    exact ⟨t, ⟨ht, hout⟩, rfl⟩

theorem others_iff_unshared {t : Store} (purged : Option ℕ)
    (hsessions : t.sessions = (s.destroyWhereIds ids).1.sessions)
    (htokens : t.tokens = (s.destroyWhereIds ids).1.tokens) :
    Others s ids t ↔ (Call.destroyWhereIds purged ids).Unshared s := by
  constructor
  · intro h r hr hin r' hr' hout k hk hshared
    have hkept := (h r' hr' hout).1
    rw [hsessions, mem_sessions_destroyWhereIds] at hkept
    exact hkept.2.2 k hshared (mem_tokensOf.mpr ⟨r, hr, hin, hk⟩)
  · intro h r hr hout
    have hfree : ∀ k ∈ r.accessTokenId, k ∉ s.tokensOf ids := by
      intro k hk hgone
      obtain ⟨r', hr', hin, hk'⟩ := mem_tokensOf.mp hgone
      exact h r' hr' hin r hr hout k hk' hk
    constructor
    · rw [hsessions]
      exact mem_sessions_destroyWhereIds.mpr ⟨hr, hout, hfree⟩
    · intro k hk htoken
      rw [htokens]
      exact mem_tokens_destroyWhereIds.mpr ⟨hk, hfree k.id htoken⟩

end Destroy

/-! ### The invariant -/

/-- What holds of the tables between any two statements. -/
structure Tables (s : Store) : Prop where
  made_lt : ∀ r ∈ s.made, r.id < s.nextSession
  made_nodup : (s.made.map (·.id)).Nodup
  made : ∀ r ∈ s.sessions, r ∈ s.made
  nodup : (s.sessions.map (·.id)).Nodup
  unlinked : ∀ r ∈ s.made, r.webPushSubscriptionId = none
  token_lt : ∀ k, s.hasToken k → k < s.nextToken
  made_token : ∀ r ∈ s.made, ∀ k ∈ r.accessTokenId, k < s.nextToken
  subscribed : ∀ p ∈ s.subscriptions, s.hasToken p.accessTokenId
  /-- A session that is gone has taken its token with it. -/
  gone : ∀ r ∈ s.made, r ∉ s.sessions → ∀ k ∈ r.accessTokenId, ¬s.hasToken k

def unselected (s : Store) (calls : List Call) (user : ℕ) : List Session :=
  s.sessions.filter fun r => r.userId = user ∧
    ∀ c ∈ calls, c.signsIn = some user → r.id ∉ c.ids

/-- What holds of the tables and the calls in progress. -/
structure Inv (s : Store) (calls : List Call) : Prop where
  tables : Tables s
  selected : ∀ user ids, .destroyWhereIds (some user) ids ∈ calls → ∀ i ∈ ids,
    (∃ r ∈ s.made, r.id = i ∧ r.userId = user ∧ maxSessionActivations ≤ (s.newer r).length) ∧
      ∀ r ∈ s.sessions, r.userId = user → r.id < i → r.id ∈ ids
  purged : ∀ r ∈ s.made, r ∉ s.sessions → r.id ∉ s.signedOut →
    maxSessionActivations ≤ (s.newer r).length ∧
      ∀ r' ∈ s.sessions, r'.userId = r.userId → r.id < r'.id
  few : ∀ user, .purgeOld user ∈ calls ∨
    (unselected s calls user).length ≤ maxSessionActivations

section Tables
variable {s : Store}

theorem Tables.insertToken (h : Tables s) (user : ℕ) : Tables (s.insertToken user) := by
  have hnew : ∀ k, (s.insertToken user).hasToken k → s.hasToken k ∨ k = s.nextToken := by
    intro k hk
    simpa [Store.hasToken, Store.insertToken, or_comm] using hk
  have hold : ∀ k, s.hasToken k → (s.insertToken user).hasToken k := by
    intro k hk
    simp only [Store.hasToken, Store.insertToken, List.map_append, List.mem_append]
    exact .inl hk
  refine { h with
    token_lt := ?_
    made_token := fun r hr k hk => Nat.lt_succ_of_lt (h.made_token r hr k hk)
    subscribed := fun p hp => hold _ (h.subscribed p hp)
    gone := ?_ }
  · intro k hk
    cases hnew k hk with
    | inl hthere => exact Nat.lt_succ_of_lt (h.token_lt k hthere)
    | inr hfresh => exact hfresh ▸ Nat.lt_succ_self _
  · intro r hr hout k hk htoken
    cases hnew k htoken with
    | inl hthere => exact h.gone r hr hout k hk hthere
    | inr hfresh => exact absurd (h.made_token r hr k hk) (by omega)

theorem Tables.revokeToken (h : Tables s) (token : ℕ) : Tables (s.revokeToken token) := by
  have hids : (s.revokeToken token).tokens.map (·.id) = s.tokens.map (·.id) := by
    rw [Store.revokeToken, List.map_map]
    apply List.map_congr_left
    intro t _
    dsimp only [Function.comp]
    split_ifs <;> rfl
  have hsame : ∀ k, (s.revokeToken token).hasToken k ↔ s.hasToken k := by
    intro k
    rw [Store.hasToken, hids, Store.hasToken]
  exact { h with
    token_lt := fun k hk => h.token_lt k ((hsame k).mp hk)
    subscribed := fun p hp => (hsame _).mpr (h.subscribed p hp)
    gone := fun r hr hout k hk htoken => h.gone r hr hout k hk ((hsame k).mp htoken) }

theorem Tables.subscribe (h : Tables s) (token : ℕ) : Tables (s.subscribe token) := by
  rw [Store.subscribe]
  split_ifs with hnew
  · refine { h with subscribed := ?_ }
    intro p hp
    cases List.mem_append.mp hp with
    | inl hold => exact h.subscribed p hold
    | inr hlast =>
        rw [List.mem_singleton.mp hlast]
        exact hnew.1
  · exact h

theorem Tables.deleteSubscriptionsOf (h : Tables s) (tokens : List ℕ) :
    Tables (s.deleteSubscriptionsOf tokens) :=
  { h with subscribed := fun p hp => h.subscribed p (List.mem_of_mem_filter hp) }

theorem nodup_snoc {l : List Session} {r : Session} {n : ℕ} (hl : (l.map (·.id)).Nodup)
    (hlt : ∀ r' ∈ l, r'.id < n) (hr : r.id = n) : ((l ++ [r]).map (·.id)).Nodup := by
  rw [List.map_append, List.nodup_append]
  refine ⟨hl, List.nodup_singleton _, ?_⟩
  intro i hi j hj
  obtain ⟨r', hr', rfl⟩ := List.mem_map.mp hi
  have hj' : j = r.id := List.mem_singleton.mp hj
  rw [hj', hr]
  exact (hlt r' hr').ne

theorem Tables.insertSession (h : Tables s) (user : ℕ) {token : ℕ} (htoken : s.hasToken token)
    (sessionId : String) : Tables (s.insertSession user token sessionId) where
  made_lt := by
    intro r hr
    cases List.mem_append.mp hr with
    | inl hold => exact Nat.lt_succ_of_lt (h.made_lt r hold)
    | inr hlast =>
        rw [List.mem_singleton.mp hlast]
        exact Nat.lt_succ_self _
  made_nodup := nodup_snoc h.made_nodup h.made_lt rfl
  made := by
    intro r hr
    cases List.mem_append.mp hr with
    | inl hold => exact List.mem_append_left _ (h.made r hold)
    | inr hlast => exact List.mem_append_right _ hlast
  nodup := nodup_snoc h.nodup (fun r hr => h.made_lt r (h.made r hr)) rfl
  unlinked := by
    intro r hr
    cases List.mem_append.mp hr with
    | inl hold => exact h.unlinked r hold
    | inr hlast => rw [List.mem_singleton.mp hlast]
  token_lt := h.token_lt
  made_token := by
    intro r hr k hk
    cases List.mem_append.mp hr with
    | inl hold => exact h.made_token r hold k hk
    | inr hlast =>
        rw [List.mem_singleton.mp hlast] at hk
        exact Option.mem_some.mp hk ▸ h.token_lt token htoken
  subscribed := h.subscribed
  gone := by
    intro r hr hout k hk
    cases List.mem_append.mp hr with
    | inl hold => exact h.gone r hold (fun hin => hout (List.mem_append_left _ hin)) k hk
    | inr hlast => exact absurd (List.mem_append_right _ hlast) hout

theorem Tables.destroyWhereIds (h : Tables s) (ids : List ℕ) :
    Tables (s.destroyWhereIds ids).1 := by
  obtain ⟨hmade, -, htoken, hsession⟩ := destroyWhereIds_rest (s := s) ids
  have hsub : ∀ r ∈ (s.destroyWhereIds ids).1.sessions, r ∈ s.sessions := fun r hr =>
    (mem_sessions_destroyWhereIds.mp hr).1
  refine {
    made_lt := by rw [hmade, hsession]; exact h.made_lt
    made_nodup := by rw [hmade]; exact h.made_nodup
    made := fun r hr => by rw [hmade]; exact h.made r (hsub r hr)
    nodup := h.nodup.sublist (sessions_destroyWhereIds_sublist.map _)
    unlinked := by rw [hmade]; exact h.unlinked
    token_lt := fun k hk => htoken ▸ h.token_lt k (hasToken_destroyWhereIds.mp hk).1
    made_token := by rw [hmade, htoken]; exact h.made_token
    subscribed := ?_
    gone := ?_ }
  · intro p hp
    obtain ⟨hold, hout⟩ := mem_subscriptions_destroyWhereIds hp
    exact hasToken_destroyWhereIds.mpr ⟨h.subscribed p hold, hout⟩
  · intro r hr hout k hk hthere
    rw [hmade] at hr
    rw [mem_sessions_destroyWhereIds] at hout
    obtain ⟨hold, hkeep⟩ := hasToken_destroyWhereIds.mp hthere
    by_cases hin : r ∈ s.sessions
    · refine hout ⟨hin, fun hid => ?_, fun k' hk' => ?_⟩
      · exact hkeep (mem_tokensOf.mpr ⟨r, hin, hid, hk⟩)
      · exact Option.mem_unique hk hk' ▸ hkeep
    · exact h.gone r hr hin k hk hold

theorem Tables.gone_of_destroy (h : Tables s) (ids : List ℕ) :
    Gone s ids (s.destroyWhereIds ids).1 := by
  have htoken : ∀ r ∈ s.made, r.id ∈ ids → ∀ k ∈ r.accessTokenId,
      ¬(s.destroyWhereIds ids).1.hasToken k := by
    intro r hr hid k hk
    apply (h.destroyWhereIds ids).gone r
    · rw [(destroyWhereIds_rest _).1]
      exact hr
    · exact fun hin => (mem_sessions_destroyWhereIds.mp hin).2.1 hid
    · exact hk
  refine ⟨fun r hr => (mem_sessions_destroyWhereIds.mp hr).2.1, htoken, ?_⟩
  intro r hr hid p hp
  constructor
  · intro heq
    exact htoken r hr hid p.accessTokenId heq.symm ((h.destroyWhereIds ids).subscribed p hp)
  · rw [h.unlinked r hr]
    exact Option.some_ne_none _

end Tables

section Steps
variable {s t : Store} {calls calls' : List Call}

def Call.Purging (c : Call) : Prop :=
  (∃ user, c = .purgeOld user) ∨ ∃ user ids, c = .destroyWhereIds (some user) ids

theorem unselected_subset {user : ℕ} (hsub : t.sessions.Sublist s.sessions)
    (hcalls : ∀ c ∈ calls, c.signsIn = some user → ∀ r ∈ t.sessions, r.id ∈ c.ids →
      c ∈ calls') :
    (unselected t calls' user).length ≤ (unselected s calls user).length := by
  have hfilter : unselected t calls' user =
      (unselected t calls' user).filter fun r => r.userId = user ∧
        ∀ c ∈ calls, c.signsIn = some user → r.id ∉ c.ids := by
    symm
    rw [List.filter_eq_self]
    intro r hr
    obtain ⟨hthere, hkeep⟩ := List.mem_filter.mp hr
    have hkeep := of_decide_eq_true hkeep
    refine decide_eq_true ⟨hkeep.1, fun c hc hsigns hid => ?_⟩
    exact hkeep.2 c (hcalls c hc hsigns r hthere hid) hsigns hid
  rw [hfilter]
  exact ((List.filter_sublist.trans hsub).filter _).length_le

theorem Inv.swap (h : Inv s calls) (ht : Tables t) (hsessions : t.sessions = s.sessions)
    (hmade : t.made = s.made) (hout : t.signedOut = s.signedOut)
    (hcalls : ∀ c : Call, c.Purging → (c ∈ calls' ↔ c ∈ calls)) : Inv t calls' where
  tables := ht
  selected := by
    intro user ids hc
    rw [hcalls _ (.inr ⟨user, ids, rfl⟩)] at hc
    simpa only [Store.newer, hmade, hsessions] using h.selected user ids hc
  purged := by
    simpa only [Store.newer, hmade, hsessions, hout] using h.purged
  few := by
    intro user
    cases h.few user with
    | inl hpending => exact .inl ((hcalls _ (.inl ⟨user, rfl⟩)).mpr hpending)
    | inr hfew =>
        refine .inr ((unselected_subset ?_ ?_).trans hfew)
        · rw [hsessions]
        · intro c hc hsigns r _ hid
          cases c with
          | destroyWhereIds purged ids =>
              obtain rfl : purged = some user := hsigns
              exact (hcalls _ (.inr ⟨user, ids, rfl⟩)).mpr hc
          | _ => cases hid

theorem Inv.perm (h : calls.Perm calls') (hi : Inv s calls) : Inv s calls' :=
  hi.swap hi.tables rfl rfl rfl fun _ _ => h.mem_iff.symm

theorem Inv.insertSession {user token : ℕ} {sessionId : String}
    (h : Inv s (.activateWithToken user token :: calls)) (htoken : s.hasToken token) :
    Inv (s.insertSession user token sessionId) (.purgeOld user :: calls) := by
  have hnewer : ∀ r, (s.newer r).length ≤
      ((s.insertSession user token sessionId).newer r).length := by
    intro r
    rw [Store.newer, Store.newer, Store.insertSession, List.filter_append, List.length_append]
    exact Nat.le_add_right _ _
  have hold : ∀ r ∈ s.made, r.id < s.nextSession := h.tables.made_lt
  refine ⟨h.tables.insertSession user htoken sessionId, ?_, ?_, ?_⟩
  · intro u ids hc i hi
    have hc' : Call.destroyWhereIds (some u) ids ∈ calls := by simpa using hc
    obtain ⟨⟨r, hr, hid, huser, hten⟩, holder⟩ :=
      h.selected u ids (List.mem_cons_of_mem _ hc') i hi
    refine ⟨⟨r, List.mem_append_left _ hr, hid, huser, hten.trans (hnewer r)⟩, ?_⟩
    intro r' hr' huser' hlt
    cases List.mem_append.mp hr' with
    | inl hthere => exact holder r' hthere huser' hlt
    | inr hlast =>
        rw [List.mem_singleton.mp hlast] at hlt
        have hlow : r.id < s.nextSession := hold r hr
        exact absurd hlt (by simp only; omega)
  · intro r hr hgone hkept
    cases List.mem_append.mp hr with
    | inr hlast => exact absurd (List.mem_append_right _ hlast) hgone
    | inl hmade =>
        have hgone' : r ∉ s.sessions := fun hin => hgone (List.mem_append_left _ hin)
        obtain ⟨hten, holder⟩ := h.purged r hmade hgone' hkept
        refine ⟨hten.trans (hnewer r), fun r' hr' huser => ?_⟩
        cases List.mem_append.mp hr' with
        | inl hthere => exact holder r' hthere huser
        | inr hlast =>
            rw [List.mem_singleton.mp hlast]
            exact hold r hmade
  · intro u
    by_cases hu : u = user
    · exact .inl (hu ▸ List.mem_cons_self)
    · cases h.few u with
      | inl hpending =>
          have hpending' : Call.purgeOld u ∈ calls := by simpa using hpending
          exact .inl (List.mem_cons_of_mem _ hpending')
      | inr hfew =>
          have hsame : unselected (s.insertSession user token sessionId)
              (.purgeOld user :: calls) u = unselected s (.purgeOld user :: calls) u := by
            rw [unselected, unselected, Store.insertSession, List.filter_append,
              List.filter_cons_of_neg, List.filter_nil, List.append_nil]
            simp [Ne.symm hu]
          rw [hsame]
          refine .inr ((unselected_subset (List.Sublist.refl _) ?_).trans hfew)
          intro c hc _ r _ hid
          cases List.mem_cons.mp hc with
          | inl hhead => cases hhead ▸ hid
          | inr htail => exact List.mem_cons_of_mem _ htail

theorem Inv.purgeOld {user : ℕ} (h : Inv s (.purgeOld user :: calls)) :
    Inv s (.destroyWhereIds (some user) (s.stale user) :: calls) := by
  have hnodup : ((s.sessions.filter (·.userId = user)).map (·.id)).Nodup :=
    h.tables.nodup.sublist (List.filter_sublist.map _)
  refine ⟨h.tables, ?_, h.purged, ?_⟩
  · intro u ids hc i hi
    cases List.mem_cons.mp hc with
    | inr htail => exact h.selected u ids (List.mem_cons_of_mem _ htail) i hi
    | inl hhead =>
        obtain ⟨hu, rfl⟩ : some u = some user ∧ ids = s.stale user := by simpa using hhead
        obtain rfl : u = user := Option.some.inj hu
        obtain ⟨r, hr, hid⟩ := List.mem_map.mp (mem_of_mem_beyond hi)
        obtain ⟨hthere, huser⟩ := List.mem_filter.mp hr
        have huser : r.userId = u := of_decide_eq_true huser
        refine ⟨⟨r, h.tables.made r hthere, hid, huser, ?_⟩, ?_⟩
        · refine (length_newer hnodup hi).trans ?_
          rw [List.filter_map, List.length_map, List.filter_filter, Store.newer]
          refine ((h.tables.nodup.of_map.filter _).subperm ?_).length_le
          intro r' hr'
          obtain ⟨hin, hnew⟩ := List.mem_filter.mp hr'
          simp only [Function.comp, Bool.and_eq_true, decide_eq_true_eq] at hnew
          rw [List.mem_filter]
          refine ⟨h.tables.made r' hin, decide_eq_true ⟨?_, ?_⟩⟩
          · rw [hnew.2, huser]
          · rw [hid]
            exact hnew.1
        · intro r' hr' huser' hlt
          refine mem_beyond_of_lt hi (List.mem_map_of_mem ?_) hlt
          exact List.mem_filter.mpr ⟨hr', decide_eq_true huser'⟩
  · intro u
    by_cases hu : u = user
    · refine .inr (le_trans ?_ (length_kept hnodup))
      rw [List.filter_map, List.length_map, List.filter_filter, unselected,
        ← List.countP_eq_length_filter, ← List.countP_eq_length_filter]
      apply List.countP_mono_left
      intro r _ hr
      obtain ⟨huser, hkeep⟩ := of_decide_eq_true hr
      have hout := hkeep _ List.mem_cons_self (congrArg some hu.symm)
      simp only [Function.comp, Bool.and_eq_true, decide_eq_true_eq]
      exact ⟨hout, hu ▸ huser⟩
    · cases h.few u with
      | inl hpending =>
          have hpending' : Call.purgeOld u ∈ calls := by simpa [hu] using hpending
          exact .inl (List.mem_cons_of_mem _ hpending')
      | inr hfew =>
          refine .inr ((unselected_subset (List.Sublist.refl _) ?_).trans hfew)
          intro c hc _ r _ hid
          cases List.mem_cons.mp hc with
          | inl hhead => cases hhead ▸ hid
          | inr htail => exact List.mem_cons_of_mem _ htail

theorem Inv.destroy {purged : Option ℕ} {ids : List ℕ} {w : String}
    (h : Inv s (.destroyWhereIds purged ids :: calls))
    (hshare : (Call.destroyWhereIds purged ids).Unshared s) :
    Inv (exec s (.destroyWhereIds purged ids) w).1 calls := by
  obtain ⟨hmade, hsigned, -, -⟩ := destroyWhereIds_rest (s := s) ids
  have hothers : Others s ids (s.destroyWhereIds ids).1 :=
    (others_iff_unshared purged rfl rfl).mpr hshare
  have hsub : ∀ r ∈ (s.destroyWhereIds ids).1.sessions, r ∈ s.sessions := fun r hr =>
    (mem_sessions_destroyWhereIds.mp hr).1
  have hmadeExec : (exec s (.destroyWhereIds purged ids) w).1.made = s.made := by
    dsimp only [exec]
    split_ifs <;> exact hmade
  have hsessions : (exec s (.destroyWhereIds purged ids) w).1.sessions =
      (s.destroyWhereIds ids).1.sessions := by
    dsimp only [exec]
    split_ifs <;> rfl
  refine ⟨?_, ?_, ?_, ?_⟩
  · have ht := h.tables.destroyWhereIds ids
    dsimp only [exec]
    split_ifs
    · exact { ht with }
    · exact ht
  · intro user ids' hc i hi
    obtain ⟨hsome, holder⟩ := h.selected user ids' (List.mem_cons_of_mem _ hc) i hi
    refine ⟨by simpa only [Store.newer, hmadeExec] using hsome, fun r hr => ?_⟩
    rw [hsessions] at hr
    exact holder r (hsub r hr)
  · intro r hr hgone hkept
    rw [hmadeExec] at hr
    rw [hsessions] at hgone
    rw [Store.newer, hmadeExec, hsessions]
    by_cases hin : r ∈ s.sessions
    · have hid : r.id ∈ ids := by
        by_contra hout
        exact hgone (hothers r hin hout).1
      cases purged with
      | none => exact absurd (List.mem_append_right _ hid) hkept
      | some user =>
          obtain ⟨⟨r₀, hr₀, hid₀, huser, hten⟩, holder⟩ :=
            h.selected user ids List.mem_cons_self r.id hid
          obtain rfl : r₀ = r := List.inj_on_of_nodup_map h.tables.made_nodup hr₀ hr hid₀
          refine ⟨hten, fun r' hr' huser' => ?_⟩
          obtain ⟨hthere, hout, -⟩ := mem_sessions_destroyWhereIds.mp hr'
          have hnot : ¬r'.id < r₀.id := fun hlt =>
            hout (holder r' hthere (huser'.trans huser) hlt)
          have hne : r'.id ≠ r₀.id := fun heq => hout (heq ▸ hid)
          omega
    · have hkept' : r.id ∉ s.signedOut := by
        intro hold
        apply hkept
        dsimp only [exec]
        split_ifs
        · exact List.mem_append_left _ hold
        · exact hsigned ▸ hold
      obtain ⟨hten, holder⟩ := h.purged r hr hin hkept'
      exact ⟨hten, fun r' hr' => holder r' (hsub r' hr')⟩
  · intro user
    cases h.few user with
    | inl hpending =>
        have hpending' : Call.purgeOld user ∈ calls := by simpa using hpending
        exact .inl hpending'
    | inr hfew =>
        refine .inr ((unselected_subset ?_ ?_).trans hfew)
        · rw [hsessions]
          exact sessions_destroyWhereIds_sublist
        · intro c hc _ r hr hid
          cases List.mem_cons.mp hc with
          | inr htail => exact htail
          | inl hhead =>
              rw [hsessions, mem_sessions_destroyWhereIds] at hr
              rw [hhead] at hid
              exact absurd hid hr.2.1

theorem purging_cons {c : Call} (hc : ¬c.Purging) (c' : Call) (hp : c'.Purging) :
    c' ∈ c :: calls ↔ c' ∈ calls := by
  rw [List.mem_cons, or_iff_right]
  exact fun heq => hc (heq ▸ hp)

theorem inv_invariant : GuardedInvariant machine Inv guards where
  perm := Inv.perm
  enter := by
    intro s calls r h _
    have hsame : ∀ c : Call, c.Purging → (c ∈ [] ++ calls ↔ c ∈ calls) := fun _ _ => Iff.rfl
    cases r with
    | activate user => exact h.swap h.tables rfl rfl rfl (purging_cons (by simp [Call.Purging]))
    | activateWithToken user token =>
        exact h.swap h.tables rfl rfl rfl (purging_cons (by simp [Call.Purging]))
    | remove r => exact h.swap h.tables rfl rfl rfl (purging_cons (by simp [Call.Purging]))
    | issueToken user => exact h.swap (h.tables.insertToken user) rfl rfl rfl hsame
    | revokeToken token => exact h.swap (h.tables.revokeToken token) rfl rfl rfl hsame
    | subscribe token =>
        have ht := h.tables.subscribe token
        dsimp only [machine, enter, Store.subscribe] at ht ⊢
        split_ifs at ht ⊢
        · exact h.swap ht rfl rfl rfl hsame
        · exact h
    | unsubscribe token => exact h.swap (h.tables.deleteSubscriptionsOf _) rfl rfl rfl hsame
  exec := by
    intro s call calls w h hg
    have hends : ¬call.Purging → Inv s calls := fun hc =>
      h.swap h.tables rfl rfl rfl fun c' hp => (purging_cons hc c' hp).symm
    cases call with
    | activate user =>
        have hbefore := hends (by simp [Call.Purging])
        exact hbefore.swap (h.tables.insertToken user) rfl rfl rfl
          (purging_cons (by simp [Call.Purging]))
    | activateWithToken user token =>
        dsimp only [machine, exec]
        split_ifs with hok
        · exact h.insertSession hok.1
        · exact hends (by simp [Call.Purging])
    | purgeOld user => exact h.purgeOld
    | remove r =>
        exact (hends (by simp [Call.Purging])).swap h.tables rfl rfl rfl
          (purging_cons (by simp [Call.Purging]))
    | destroyWhereIds purged ids => exact h.destroy (w := w) hg

end Steps

theorem inv_start : Inv start.store start.calls where
  tables := by
    refine ⟨?_, List.nodup_nil, ?_, List.nodup_nil, ?_, ?_, ?_, ?_, ?_⟩
    all_goals
      intro r hr
      cases hr
  selected := by
    intro user ids hc
    cases hc
  purged := by
    intro r hr
    cases hr
  few := fun _ => .inr (Nat.zero_le _)

theorem Inv.newest {s : Store} {calls : List Call} (h : Inv s calls) {user : ℕ}
    (hdone : ∀ call ∈ calls, call.signsIn ≠ some user) : Newest s user where
  few := by
    have hall : unselected s calls user = s.sessions.filter (·.userId = user) := by
      apply List.filter_congr
      intro r _
      rw [decide_eq_decide, and_iff_left]
      exact fun c hc hsigns => absurd hsigns (hdone c hc)
    rw [← hall]
    exact (h.few user).resolve_left fun hpending => hdone _ hpending rfl
  newest := by
    intro r hr huser hkept hfew
    by_contra hgone
    have hten := (h.purged r hr hgone hkept).1
    omega
  newer := by
    intro r hr huser r' hr' huser' hkept hlt
    by_contra hgone
    have holder := (h.purged r' hr' hgone hkept).2 r hr (huser.trans huser'.symm)
    omega

/-! ### Signing out alone -/

theorem exec_sessions {s : Store} {purged : Option ℕ} {ids : List ℕ} {w : String} :
    (exec s (.destroyWhereIds purged ids) w).1.sessions = (s.destroyWhereIds ids).1.sessions ∧
      (exec s (.destroyWhereIds purged ids) w).1.tokens = (s.destroyWhereIds ids).1.tokens ∧
      (exec s (.destroyWhereIds purged ids) w).1.subscriptions =
        (s.destroyWhereIds ids).1.subscriptions := by
  dsimp only [exec]
  split_ifs <;> exact ⟨rfl, rfl, rfl⟩

theorem step_destroy {c : Config Store Call} {k : ℕ} {w : String} {call : Call}
    (hcall : c.calls[k]? = some call) :
    (machine.step c (.advance k w)).store = (exec c.store call w).1 := by
  rw [Machine.step, hcall]
  rfl

theorem SignsOut.meets {c : Config Store Call} {e : Event Request String}
    (h : SignsOut c e) : guards.meets c e := by
  cases e with
  | request r => trivial
  | advance k w =>
      rw [Guards.meets]
      cases hcall : c.calls[k]? with
      | none => trivial
      | some call =>
          cases call with
          | destroyWhereIds purged ids =>
              have hothers := (h.removed k w purged ids rfl hcall).1
              rw [step_destroy hcall] at hothers
              exact (others_iff_unshared purged exec_sessions.1 exec_sessions.2.1).mp hothers
          | _ => trivial

theorem Inv.signsOut {c : Config Store Call} {e : Event Request String}
    (h : Inv c.store c.calls) (hg : guards.meets c e) : SignsOut c e where
  removed := by
    intro k w purged ids he hcall
    subst he
    rw [Guards.meets, hcall] at hg
    obtain ⟨hsessions, htokens, hsubscriptions⟩ :=
      @exec_sessions c.store purged ids w
    rw [step_destroy hcall]
    refine ⟨(others_iff_unshared purged hsessions htokens).mpr hg, ?_⟩
    have hgone := h.tables.gone_of_destroy ids
    refine ⟨?_, ?_, ?_⟩
    · rw [hsessions]
      exact hgone.row
    · simp only [Store.hasToken, htokens]
      exact hgone.token
    · rw [hsubscriptions]
      exact hgone.subscription
  settled := fun _ hdone => (inv_invariant.step c e h hg).newest hdone

/-- In every interleaving, every step does what signing in and out should do exactly when no
session that is destroyed shares its token with one that stays. -/
theorem signed_out_iff (es : List (Event Request String)) :
    Guarded machine.step SignsOut start es ↔ Guarded machine.step guards.meets start es := by
  constructor
  · intro h
    exact guarded_of_invariant (P := fun _ => True) (fun _ _ _ _ => trivial)
      (fun _ _ _ hsigns => hsigns.meets) start es trivial h
  · intro h
    exact guarded_of_invariant (P := fun c => Inv c.store c.calls) inv_invariant.step
      (fun _ _ hinv hg => hinv.signsOut hg) start es inv_start h

/-- A browser signs in, its token is made a session once more, and the first is signed out. -/
def sharedToken : List (Event Request String) :=
  [.request (.activate 1), .advance 0 "", .advance 0 "a", .advance 0 "", .advance 0 "",
    .request (.activateWithToken 1 0), .advance 0 "b", .advance 0 "", .advance 0 "",
    .request (.remove (.deactivate "a")), .advance 0 ""]

theorem shared_token_lost :
    (run machine.step start sharedToken).calls = [.destroyWhereIds none [0]] ∧
      (run machine.step start sharedToken).store.sessions =
        [⟨0, "a", 1, some 0, none⟩, ⟨1, "b", 1, some 0, none⟩] ∧
      (machine.step (run machine.step start sharedToken) (.advance 0 "")).store.sessions = [] ∧
      ¬Guarded machine.step SignsOut start (sharedToken ++ [.advance 0 ""]) := by
  have hcalls : (run machine.step start sharedToken).calls = [.destroyWhereIds none [0]] := by
    decide +kernel
  have hbefore : (run machine.step start sharedToken).store.sessions =
      [⟨0, "a", 1, some 0, none⟩, ⟨1, "b", 1, some 0, none⟩] := by decide +kernel
  have hafter : (machine.step (run machine.step start sharedToken)
      (.advance 0 "")).store.sessions = [] := by decide +kernel
  refine ⟨hcalls, hbefore, hafter, fun h => ?_⟩
  have hlast := ((guarded_append _ _ _).mp h).2.1
  have hothers := (hlast.removed 0 "" none [0] rfl (by rw [hcalls]; rfl)).1
  have hkept := (hothers ⟨1, "b", 1, some 0, none⟩ (by rw [hbefore]; simp) (by simp)).1
  rw [hafter] at hkept
  cases hkept

end Eunha.Sessions
