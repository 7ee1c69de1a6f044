import Eunha.AccountLists
import Eunha.SignedIdsReadBack

/-!
# Adding accounts to a list

The accounts of a request are taken one after another: each must be the owner, or one the
owner follows or has asked to follow, and becomes a member at once. A text that is no number
names no account. In the end the posts of those whose membership hangs on a follow are to be
merged into the feed of the list. Any statement may fail, and what was added before stays.
-/
namespace Eunha.ListMemberships
open SignedIds Scopes AccountLists
open Roles (AppError)

/-! ### The request -/

/-- Which statements fail: those for an account by its place in the request. -/
structure Failures where
  fetch : Bool
  related : ℕ → Bool
  insert : ℕ → Bool
  merges : Bool

/-- A `MergeWorker` into the feed of a list. -/
structure Merge where
  fromAccountId : Int64
  intoId : Int64
  deriving DecidableEq

structure Outcome where
  result : Except AppError Unit
  store : Store
  merges : List Merge

def related (rows : List Follow) (accountId targetAccountId : Int64) : Option Follow :=
  rows.find? fun f => f.accountId = accountId ∧ f.targetAccountId = targetAccountId

/-- `ListAccount#validate_relationship` -/
def allowed (s : Store) (owner accountId : Int64) : Bool :=
  accountId = owner || (related s.follows owner accountId).isSome ||
    (related s.followRequests owner accountId).isSome

/-- `ListAccount#set_follow` -/
def membership (s : Store) (id owner accountId : Int64) : ListAccount :=
  let follow := if accountId ≠ owner then related s.follows owner accountId else none
  let request := if accountId ≠ owner then related s.followRequests owner accountId else none
  { listId := id
    accountId := accountId
    followId := follow.map Follow.id
    followRequestId := if follow.isNone then request.map Follow.id else none }

/-- `ON CONFLICT DO NOTHING` -/
def insert (s : Store) (row : ListAccount) : Store :=
  if h : row.key ∈ s.listAccounts.map ListAccount.key then s
  else
    { s with
      listAccounts := s.listAccounts ++ [row]
      keys_nodup := by
        rw [List.map_append, List.nodup_append]
        refine ⟨s.keys_nodup, List.nodup_singleton _, ?_⟩
        intro a ha b hb hab
        rw [List.map_singleton, List.mem_singleton] at hb
        exact h (hb ▸ hab ▸ ha) }

/-- The loop of `add_list_accounts`, and what it added. -/
def addAll (owner id : Int64) (fails : Failures) :
    ℕ → List Text → Store → List Int64 → Except AppError (List Int64) × Store
  | _, [], s, added => (.ok added, s)
  | n, text :: texts, s, added =>
      match parseI64 text with
      | none => addAll owner id fails (n + 1) texts s added
      | some accountId =>
          if accountId ≠ owner && fails.related n then (.error .internal, s)
          else if allowed s owner accountId = false then
            (.error (.unprocessable "Account must be followed before adding to a list"), s)
          else if fails.insert n || accountId ∉ s.accounts then (.error .internal, s)
          else
            addAll owner id fails (n + 1) texts (insert s (membership s id owner accountId))
              (added ++ [accountId])

/-- The members whose membership hangs on a follow. -/
def mergeIds (s : Store) (id : Int64) (added : List Int64) : List Int64 :=
  (s.listAccounts.filter fun la =>
    la.listId = id && added.contains la.accountId && la.followId.isSome).map ListAccount.accountId

def addListAccounts (s : Store) (auth : Auth) (id : Int64) (accountIds : List Text)
    (fails : Failures) : Outcome :=
  if hasScope auth.scopes "write:lists" = false then ⟨.error .forbiddenScope, s, []⟩
  else if fails.fetch then ⟨.error .internal, s, []⟩
  else
    match fetchList s id auth.accountId with
    | .error e => ⟨.error e, s, []⟩
    | .ok _ =>
        match addAll auth.accountId id fails 0 accountIds s [] with
        | (.error e, s) => ⟨.error e, s, []⟩
        | (.ok added, s) =>
            if fails.merges then ⟨.error .internal, s, []⟩
            else ⟨.ok (), s, (mergeIds s id added).map fun a => ⟨a, id⟩⟩

/-! ### What is asked -/

def named (accountIds : List Text) : List Int64 := accountIds.filterMap parseI64

def Member (s : Store) (id accountId : Int64) : Prop :=
  (accountId, id) ∈ s.listAccounts.map ListAccount.key

instance (s : Store) (id accountId : Int64) : Decidable (Member s id accountId) :=
  inferInstanceAs (Decidable (_ ∈ _))

/-- Either all named accounts are added and merged, or none is. -/
structure AllOrNothing (s : Store) (id : Int64) (accountIds : List Text) (o : Outcome) : Prop where
  error : ∀ e, o.result = .error e → o.store.listAccounts = s.listAccounts
  added : o.result = .ok () → ∀ l a, Member o.store l a ↔
    Member s l a ∨ l = id ∧ a ∈ named accountIds
  merged : o.result = .ok () → ∀ a ∈ named accountIds, ⟨a, id⟩ ∈ o.merges

/-- What a request that succeeds does. -/
structure Added (s : Store) (owner id : Int64) (accountIds : List Text) (o : Outcome) : Prop where
  members : ∀ l a, Member o.store l a ↔ Member s l a ∨ l = id ∧ a ∈ named accountIds
  kept : s.listAccounts <+: o.store.listAccounts
  frame : o.store.lists = s.lists ∧ o.store.accounts = s.accounts ∧
    o.store.follows = s.follows ∧ o.store.followRequests = s.followRequests
  allowed : ∀ a ∈ named accountIds, ListMemberships.allowed s owner a = true
  once : o.merges.Nodup
  merged : ∀ m, m ∈ o.merges ↔ m.intoId = id ∧ ∃ la ∈ o.store.listAccounts, la.listId = id ∧
    la.accountId = m.fromAccountId ∧ la.followId.isSome ∧ m.fromAccountId ∈ named accountIds
  /-- New members are merged when they are followed. -/
  fresh : ∀ a ∈ named accountIds, ¬ Member s id a →
    (⟨a, id⟩ ∈ o.merges ↔ a ≠ owner ∧ (related s.follows owner a).isSome)

/-! ### One insertion -/

variable {s s' : Store} {owner id : Int64} {fails : Failures}

theorem insert_listAccounts (s : Store) (row : ListAccount) :
    (insert s row).listAccounts = s.listAccounts ∧
        row.key ∈ s.listAccounts.map ListAccount.key ∨
      (insert s row).listAccounts = s.listAccounts ++ [row] := by
  unfold insert
  split_ifs with h
  · exact Or.inl ⟨rfl, h⟩
  · exact Or.inr rfl

theorem insert_frame (s : Store) (row : ListAccount) :
    (insert s row).lists = s.lists ∧ (insert s row).accounts = s.accounts ∧
      (insert s row).follows = s.follows ∧ (insert s row).followRequests = s.followRequests := by
  unfold insert
  split_ifs <;> exact ⟨rfl, rfl, rfl, rfl⟩

theorem member_insert (row : ListAccount) (l a : Int64) :
    Member (insert s row) l a ↔ Member s l a ∨ (a, l) = row.key := by
  unfold Member
  rcases insert_listAccounts s row with ⟨heq, hmem⟩ | heq
  · rw [heq]
    constructor
    · exact Or.inl
    · rintro (h | h)
      · exact h
      · exact h ▸ hmem
  · rw [heq, List.map_append, List.mem_append, List.map_singleton, List.mem_singleton]

theorem insert_extends (row : ListAccount) : s.listAccounts <+: (insert s row).listAccounts := by
  rcases insert_listAccounts s row with ⟨heq, -⟩ | heq
  · exact ⟨[], by rw [heq, List.append_nil]⟩
  · exact ⟨[row], heq.symm⟩

theorem mem_insert {row la : ListAccount} (h : la ∈ (insert s row).listAccounts) :
    la ∈ s.listAccounts ∨ la = row := by
  rcases insert_listAccounts s row with ⟨heq, -⟩ | heq
  · exact Or.inl (heq ▸ h)
  · rw [heq, List.mem_append, List.mem_singleton] at h
    exact h

theorem allowed_congr (hfollows : s'.follows = s.follows)
    (hrequests : s'.followRequests = s.followRequests) (a : Int64) :
    allowed s' owner a = allowed s owner a := by
  unfold allowed
  rw [hfollows, hrequests]

theorem membership_congr (hfollows : s'.follows = s.follows)
    (hrequests : s'.followRequests = s.followRequests) (a : Int64) :
    membership s' id owner a = membership s id owner a := by
  unfold membership
  rw [hfollows, hrequests]

theorem membership_key (s : Store) (id owner a : Int64) :
    (membership s id owner a).key = (a, id) := rfl

/-! ### The loop -/

/-- What the loop does to the tables when nothing fails. -/
structure Grown (s : Store) (owner id : Int64) (accountIds : List Int64) (s' : Store) : Prop where
  members : ∀ l a, Member s' l a ↔ Member s l a ∨ l = id ∧ a ∈ accountIds
  kept : s.listAccounts <+: s'.listAccounts
  frame : s'.lists = s.lists ∧ s'.accounts = s.accounts ∧
    s'.follows = s.follows ∧ s'.followRequests = s.followRequests
  allowed : ∀ a ∈ accountIds, ListMemberships.allowed s owner a = true
  rows : ∀ la ∈ s'.listAccounts, la ∈ s.listAccounts ∨
    ∃ a ∈ accountIds, la = membership s id owner a

theorem Grown.refl (s : Store) (owner id : Int64) : Grown s owner id [] s where
  members l a := by simp
  kept := List.prefix_refl _
  frame := ⟨rfl, rfl, rfl, rfl⟩
  allowed a ha := by cases ha
  rows la hla := Or.inl hla

theorem Grown.cons {a : Int64} {accountIds : List Int64}
    (ha : ListMemberships.allowed s owner a = true)
    (h : Grown (insert s (membership s id owner a)) owner id accountIds s') :
    Grown s owner id (a :: accountIds) s' := by
  obtain ⟨hlists, haccounts, hfollows, hrequests⟩ := insert_frame s (membership s id owner a)
  refine ⟨?_, ?_, ?_, ?_, ?_⟩
  · intro l b
    rw [h.members, member_insert, membership_key, Prod.mk.injEq, List.mem_cons]
    tauto
  · exact (insert_extends _).trans h.kept
  · obtain ⟨h₁, h₂, h₃, h₄⟩ := h.frame
    exact ⟨h₁.trans hlists, h₂.trans haccounts, h₃.trans hfollows, h₄.trans hrequests⟩
  · intro b hb
    rcases List.mem_cons.mp hb with rfl | hb
    · exact ha
    · rw [← allowed_congr hfollows hrequests]
      exact h.allowed b hb
  · intro la hla
    rcases h.rows la hla with hold | ⟨b, hb, rfl⟩
    · rcases mem_insert hold with hold | rfl
      · exact Or.inl hold
      · exact Or.inr ⟨a, List.mem_cons_self, rfl⟩
    · exact Or.inr ⟨b, List.mem_cons_of_mem _ hb, membership_congr hfollows hrequests b⟩

theorem addAll_ok (texts : List Text) (n : ℕ) (s : Store) {added added' : List Int64}
    (h : addAll owner id fails n texts s added = (.ok added', s')) :
    added' = added ++ named texts ∧ Grown s owner id (named texts) s' := by
  induction texts generalizing n s added with
  | nil =>
      rw [addAll, Prod.mk.injEq, Except.ok.injEq] at h
      obtain ⟨rfl, rfl⟩ := h
      exact ⟨(List.append_nil _).symm, Grown.refl s owner id⟩
  | cons text texts ih =>
      rw [addAll] at h
      cases hparse : parseI64 text with
      | none =>
          rw [hparse] at h
          have hnamed : named (text :: texts) = named texts := List.filterMap_cons_none hparse
          rw [hnamed]
          exact ih (n + 1) s h
      | some a =>
          rw [hparse] at h
          have hnamed : named (text :: texts) = a :: named texts :=
            List.filterMap_cons_some hparse
          have hne : ∀ {e : AppError} {t : Store}, (Except.error e, t) ≠ (Except.ok added', s') := by
            intro e t heq
            cases congrArg Prod.fst heq
          simp only at h
          by_cases hrelated : (a ≠ owner && fails.related n) = true
          · rw [if_pos hrelated] at h
            exact (hne h).elim
          rw [if_neg hrelated] at h
          by_cases hallowed : allowed s owner a = false
          · rw [if_pos hallowed] at h
            exact (hne h).elim
          rw [if_neg hallowed] at h
          by_cases hinsert : (fails.insert n || a ∉ s.accounts) = true
          · rw [if_pos hinsert] at h
            exact (hne h).elim
          rw [if_neg hinsert] at h
          obtain ⟨hadded, hgrown⟩ := ih (n + 1) _ h
          rw [hnamed]
          refine ⟨?_, Grown.cons (by simpa using hallowed) hgrown⟩
          rw [hadded, List.append_assoc, List.singleton_append]

/-! ### Requests that succeed -/

theorem mem_mergeIds {added : List Int64} {a : Int64} : a ∈ mergeIds s id added ↔
    ∃ la ∈ s.listAccounts, la.listId = id ∧ la.accountId = a ∧ la.followId.isSome ∧ a ∈ added := by
  unfold mergeIds
  simp only [List.mem_map, List.mem_filter, Bool.and_eq_true, decide_eq_true_eq,
    List.contains_iff_mem]
  constructor
  · rintro ⟨la, ⟨hla, ⟨hid, hadded⟩, hfollow⟩, rfl⟩
    exact ⟨la, hla, hid, rfl, hfollow, hadded⟩
  · rintro ⟨la, hla, hid, rfl, hfollow, hadded⟩
    exact ⟨la, ⟨hla, ⟨hid, hadded⟩, hfollow⟩, rfl⟩

theorem nodup_mergeIds (s : Store) (id : Int64) (added : List Int64) :
    (mergeIds s id added).Nodup := by
  unfold mergeIds
  refine List.Nodup.of_map (fun a => (a, id)) ?_
  rw [List.map_map]
  have hnodup := s.keys_nodup.sublist ((List.filter_sublist (p := fun la : ListAccount =>
    la.listId = id && added.contains la.accountId && la.followId.isSome)).map ListAccount.key)
  refine (List.map_congr_left ?_).symm ▸ hnodup
  intro la hla
  have hfilter := (List.mem_filter.mp hla).2
  simp only [Bool.and_eq_true, decide_eq_true_eq] at hfilter
  rw [ListAccount.key, hfilter.1.1]
  rfl

theorem membership_followId (s : Store) (id owner a : Int64) :
    (membership s id owner a).followId.isSome = true ↔
      a ≠ owner ∧ (related s.follows owner a).isSome = true := by
  unfold membership
  by_cases ha : a = owner
  · simp [ha]
  · simp [ha]

theorem addAll_of_ok {auth : Auth} {accountIds : List Text}
    (h : (addListAccounts s auth id accountIds fails).result = .ok ()) :
    ∃ added s', addAll auth.accountId id fails 0 accountIds s [] = (.ok added, s') ∧
      addListAccounts s auth id accountIds fails =
        ⟨.ok (), s', (mergeIds s' id added).map fun a => ⟨a, id⟩⟩ := by
  unfold addListAccounts at h ⊢
  by_cases hscope : hasScope auth.scopes "write:lists" = false
  · rw [if_pos hscope] at h
    cases h
  rw [if_neg hscope] at h ⊢
  by_cases hfetch : fails.fetch = true
  · rw [if_pos hfetch] at h
    cases h
  rw [if_neg hfetch] at h ⊢
  cases hlist : fetchList s id auth.accountId with
  | error e =>
      rw [hlist] at h
      cases h
  | ok row =>
      rw [hlist] at h
      simp only at h ⊢
      cases hall : addAll auth.accountId id fails 0 accountIds s [] with
      | mk result s' =>
          rw [hall] at h
          cases result with
          | error e => cases h
          | ok added =>
              simp only at h ⊢
              by_cases hmerges : fails.merges = true
              · rw [if_pos hmerges] at h
                cases h
              rw [if_neg hmerges]
              exact ⟨added, s', rfl, rfl⟩

def noFailures : Failures where
  fetch := false
  related := fun _ => false
  insert := fun _ => false
  merges := false

def oneList : Store where
  lists := [⟨1, 7⟩]
  accounts := [7, 8, 9]
  follows := [⟨70, 7, 8⟩]
  followRequests := []
  listAccounts := []
  accounts_nodup := by decide
  keys_nodup := by decide

def owner7 : Auth where
  accountId := 7
  scopes := ["write:lists"]

end Eunha.ListMemberships
