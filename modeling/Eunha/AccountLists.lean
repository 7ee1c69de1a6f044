import Eunha.Roles
import Eunha.Scopes
import Mathlib

/-!
# Lists

An account has lists, and a list has members. A membership hangs on the owner's follow of
the member, or on the follow request while there is only that; the owner's own membership
hangs on neither.
-/
namespace Eunha.AccountLists
open Roles (AppError)

structure ListRow where
  id : Int64
  accountId : Int64
  deriving DecidableEq

/-- A row of `follows` or of `follow_requests`. -/
structure Follow where
  id : Int64
  accountId : Int64
  targetAccountId : Int64
  deriving DecidableEq

/-- A membership, and what it hangs on. -/
structure ListAccount where
  listId : Int64
  accountId : Int64
  followId : Option Int64
  followRequestId : Option Int64
  deriving DecidableEq

/-- `index_list_accounts_on_account_id_and_list_id` -/
def ListAccount.key (la : ListAccount) : Int64 × Int64 := (la.accountId, la.listId)

/-- The tables, with their unique indexes. -/
structure Store where
  lists : List ListRow
  /-- The ids of `accounts`. -/
  accounts : List Int64
  follows : List Follow
  followRequests : List Follow
  listAccounts : List ListAccount
  accounts_nodup : accounts.Nodup
  keys_nodup : (listAccounts.map ListAccount.key).Nodup

structure Auth where
  accountId : Int64
  scopes : List String

def fetchList (s : Store) (id accountId : Int64) : Except AppError ListRow :=
  match s.lists.find? fun l => l.id = id ∧ l.accountId = accountId with
  | none => .error .notFound
  | some l => .ok l

/-- `accounts` joined to the `list_accounts` of a list. -/
def joined (s : Store) (id : Int64) : List Int64 :=
  s.accounts.flatMap fun a =>
    (s.listAccounts.filter fun la => la.listId = id ∧ la.accountId = a).map fun _ => a

def descending (a b : Int64) : Bool := b.toInt ≤ a.toInt

def members (s : Store) (id : Int64) : List Int64 := (joined s id).mergeSort descending

theorem descending_total (a b : Int64) : (descending a b || descending b a) = true := by
  simpa [descending] using le_total b.toInt a.toInt

theorem descending_trans (a b c : Int64) (h : descending a b = true) (h' : descending b c = true) :
    descending a c = true := by
  simp only [descending, decide_eq_true_eq] at h h' ⊢
  exact h'.trans h

theorem joined_nodup (s : Store) (id : Int64) : (joined s id).Nodup := by
  unfold joined
  rw [List.nodup_flatMap]
  constructor
  · intro a _
    have hone : (s.listAccounts.filter fun la => la.listId = id ∧ la.accountId = a).length ≤ 1 := by
      have hnodup := s.keys_nodup.sublist ((List.filter_sublist
        (p := fun la => decide (la.listId = id ∧ la.accountId = a))).map ListAccount.key)
      have hsame : ∀ key ∈ (s.listAccounts.filter
          (fun la => la.listId = id ∧ la.accountId = a)).map ListAccount.key, key = (a, id) := by
        intro key hkey
        obtain ⟨la, hla, rfl⟩ := List.mem_map.mp hkey
        obtain ⟨hid, haccount⟩ := of_decide_eq_true (List.mem_filter.mp hla).2
        rw [← hid, ← haccount]
        rfl
      rw [List.eq_replicate_of_mem hsame, List.length_map] at hnodup
      exact List.nodup_replicate.mp hnodup
    cases hrows : s.listAccounts.filter fun la => la.listId = id ∧ la.accountId = a with
    | nil => exact List.nodup_nil
    | cons la rest =>
        rw [hrows, List.length_cons] at hone
        rw [List.length_eq_zero_iff.mp (show rest.length = 0 by omega)]
        exact List.nodup_singleton a
  · refine s.accounts_nodup.imp ?_
    intro a b hab x hx hx'
    obtain ⟨-, -, rfl⟩ := List.mem_map.mp hx
    obtain ⟨-, -, rfl⟩ := List.mem_map.mp hx'
    exact hab rfl

theorem members_decreasing (s : Store) (id : Int64) :
    (members s id).Pairwise fun a b => b.toInt < a.toInt := by
  have hsorted := List.pairwise_mergeSort descending_trans descending_total (joined s id)
  have hnodup : (members s id).Nodup :=
    (List.mergeSort_perm _ _).nodup_iff.mpr (joined_nodup s id)
  refine (hsorted.and hnodup).imp ?_
  intro a b hab
  have hle : b.toInt ≤ a.toInt := of_decide_eq_true hab.1
  have hne : b.toInt ≠ a.toInt := fun heq => hab.2 (Int64.toInt_inj.mp heq).symm
  omega

theorem fetchList_owned {s : Store} {id accountId : Int64} (h : ⟨id, accountId⟩ ∈ s.lists) :
    fetchList s id accountId = .ok ⟨id, accountId⟩ := by
  unfold fetchList
  cases hfind : s.lists.find? fun l => l.id = id ∧ l.accountId = accountId with
  | none =>
      have := List.find?_eq_none.mp hfind _ h
      simp at this
  | some l =>
      have hl := List.find?_some hfind
      obtain ⟨hid, haccount⟩ := of_decide_eq_true hl
      simp only [← hid, ← haccount]

end Eunha.AccountLists
