import Eunha.Tables
import Mathlib.Data.Int.Notation

/-!
# Accounts, relationships and statuses in the database

The tables the follow, block, favourite and status code shares, with the unique indexes
of the schema, and the counters kept beside them. A counter's row may be missing, and
then reads zero. Only the columns that code reads are here; `deleted` says that
`deleted_at` is set.
-/
namespace Eunha.Database
open Tables

inductive Index where
  | id (n : ℕ)
  | uri (u : String)
  deriving DecidableEq

structure Account where
  id : ℕ
  username : String
  domain : Option String
  uri : Option String
  locked : Bool
  silenced : Bool
  unavailable : Bool
  movedToAccountId : Option ℕ
  deriving DecidableEq

def Account.keys (a : Account) : List Index := .id a.id :: (a.uri.map .uri).toList

/-- A row of `follows` or of `follow_requests`, whose columns are the same. -/
structure Follow where
  accountId : ℕ
  targetAccountId : ℕ
  uri : Option String
  deriving DecidableEq

def Follow.keys (f : Follow) : List (ℕ × ℕ) := [(f.accountId, f.targetAccountId)]

structure Block where
  accountId : ℕ
  targetAccountId : ℕ
  deriving DecidableEq

def Block.keys (b : Block) : List (ℕ × ℕ) := [(b.accountId, b.targetAccountId)]

structure Favourite where
  accountId : ℕ
  statusId : ℕ
  deriving DecidableEq

def Favourite.keys (f : Favourite) : List (ℕ × ℕ) := [(f.accountId, f.statusId)]

/-- `db::models::vis`. -/
inductive Visibility where
  | pub
  | unlisted
  | priv
  | direct
  | limited
  deriving DecidableEq

/-- Whether a status counts towards its author's public totals. -/
def Visibility.counted (v : Visibility) : Bool := v ≠ .direct

/-- `Status#distributable?` -/
def Visibility.distributable : Visibility → Bool
  | .pub | .unlisted => true
  | _ => false

structure Status where
  id : ℕ
  accountId : ℕ
  uri : Option String
  visibility : Visibility
  inReplyToId : Option ℕ
  reblogOfId : Option ℕ
  deleted : Bool
  deriving DecidableEq

def Status.keys (s : Status) : List Index := .id s.id :: (s.uri.map .uri).toList

structure AccountStat where
  statusesCount : ℤ
  followingCount : ℤ
  followersCount : ℤ
  deriving DecidableEq

structure StatusStat where
  repliesCount : ℤ
  reblogsCount : ℤ
  deriving DecidableEq

/-! ### Counters -/

/-- Counters by the id they are of. -/
abbrev Stats (α : Type) : Type := ℕ → Option α

section Stats
variable {α : Type}

/-- `INSERT … ON CONFLICT DO UPDATE`: a missing row is inserted with the defaults changed. -/
def upsertStat (defaults : α) (f : α → α) (stats : Stats α) (id : ℕ) : Stats α :=
  Function.update stats id (some (f ((stats id).getD defaults)))

/-- `UPDATE … WHERE account_id = id`. -/
def updateStat (f : α → α) (stats : Stats α) (id : ℕ) : Stats α :=
  Function.update stats id ((stats id).map f)

def read (column : α → ℤ) (stats : Stats α) (id : ℕ) : ℤ := ((stats id).map column).getD 0

theorem read_upsertStat {c : α → ℤ} {d : α} {f : α → α} {g : ℤ → ℤ}
    (hg : ∀ a, c (f a) = g (c a)) (h0 : c d = 0) (stats : Stats α)
    (id x : ℕ) :
    read c (upsertStat d f stats id) x =
      if x = id then g (read c stats x) else read c stats x := by
  by_cases hx : x = id
  · subst hx
    cases h : stats x <;> simp [read, upsertStat, h, hg, h0]
  · simp [read, upsertStat, hx]

theorem read_updateStat {c : α → ℤ} {f : α → α} {g : ℤ → ℤ}
    (hg : ∀ a, c (f a) = g (c a)) (h0 : g 0 = 0) (stats : Stats α) (id x : ℕ) :
    read c (updateStat f stats id) x =
      if x = id then g (read c stats x) else read c stats x := by
  by_cases hx : x = id
  · subst hx
    cases h : stats x <;> simp [read, updateStat, h, hg, h0]
  · simp [read, updateStat, hx]

theorem read_upsertStat_other {c : α → ℤ} {d : α} {f : α → α}
    (hf : ∀ a, c (f a) = c a) (h0 : c d = 0) (stats : Stats α) (id : ℕ) :
    read c (upsertStat d f stats id) = read c stats := by
  funext x
  rw [read_upsertStat (g := fun n => n) hf h0, ite_self]

theorem read_updateStat_other {c : α → ℤ} {f : α → α}
    (hf : ∀ a, c (f a) = c a) (stats : Stats α) (id : ℕ) :
    read c (updateStat f stats id) = read c stats := by
  funext x
  rw [read_updateStat (g := fun n => n) hf rfl, ite_self]

end Stats

def AccountStat.zero : AccountStat := ⟨0, 0, 0⟩

def StatusStat.zero : StatusStat := ⟨0, 0⟩

abbrev followersCount : Stats AccountStat → ℕ → ℤ := read AccountStat.followersCount

abbrev followingCount : Stats AccountStat → ℕ → ℤ := read AccountStat.followingCount

abbrev statusesCount : Stats AccountStat → ℕ → ℤ := read AccountStat.statusesCount

abbrev repliesCount : Stats StatusStat → ℕ → ℤ := read StatusStat.repliesCount

abbrev reblogsCount : Stats StatusStat → ℕ → ℤ := read StatusStat.reblogsCount

def onFollowCreated (stats : Stats AccountStat) (follower target : ℕ) : Stats AccountStat :=
  let stats := upsertStat .zero (fun a => { a with followersCount := a.followersCount + 1 })
    stats target
  upsertStat .zero (fun a => { a with followingCount := a.followingCount + 1 }) stats follower

def onFollowRemoved (stats : Stats AccountStat) (follower target : ℕ) : Stats AccountStat :=
  let stats := updateStat (fun a => { a with followersCount := max (a.followersCount - 1) 0 })
    stats target
  updateStat (fun a => { a with followingCount := max (a.followingCount - 1) 0 }) stats follower

@[simp] theorem followersCount_onFollowCreated (stats : Stats AccountStat) (follower target x : ℕ) :
    followersCount (onFollowCreated stats follower target) x =
      if x = target then followersCount stats x + 1 else followersCount stats x := by
  have hother := read_upsertStat_other (c := AccountStat.followersCount) (d := .zero)
    (f := fun a => { a with followingCount := a.followingCount + 1 }) (fun _ => rfl) rfl
  rw [onFollowCreated, followersCount, hother]
  exact read_upsertStat (c := AccountStat.followersCount) (g := (· + 1)) (fun _ => rfl) rfl stats
    target x

@[simp] theorem followingCount_onFollowCreated (stats : Stats AccountStat) (follower target x : ℕ) :
    followingCount (onFollowCreated stats follower target) x =
      if x = follower then followingCount stats x + 1 else followingCount stats x := by
  have hother := read_upsertStat_other (c := AccountStat.followingCount) (d := .zero)
    (f := fun a => { a with followersCount := a.followersCount + 1 }) (fun _ => rfl) rfl
  rw [onFollowCreated, followingCount, ← hother stats target]
  exact read_upsertStat (c := AccountStat.followingCount) (g := (· + 1)) (fun _ => rfl) rfl _
    follower x

@[simp] theorem followersCount_onFollowRemoved (stats : Stats AccountStat) (follower target x : ℕ) :
    followersCount (onFollowRemoved stats follower target) x =
      if x = target then max (followersCount stats x - 1) 0 else followersCount stats x := by
  have hother := read_updateStat_other (c := AccountStat.followersCount)
    (f := fun a => { a with followingCount := max (a.followingCount - 1) 0 }) fun _ => rfl
  rw [onFollowRemoved, followersCount, hother]
  exact read_updateStat (g := fun n => max (n - 1) 0) (fun _ => rfl) rfl stats target x

@[simp] theorem followingCount_onFollowRemoved (stats : Stats AccountStat) (follower target x : ℕ) :
    followingCount (onFollowRemoved stats follower target) x =
      if x = follower then max (followingCount stats x - 1) 0 else followingCount stats x := by
  have hother := read_updateStat_other (c := AccountStat.followingCount)
    (f := fun a => { a with followersCount := max (a.followersCount - 1) 0 }) fun _ => rfl
  rw [onFollowRemoved, followingCount, ← hother stats target]
  exact read_updateStat (g := fun n => max (n - 1) 0) (fun _ => rfl) rfl _ follower x

/-! ### The database -/

inductive RelayState where
  | idle
  | pending
  | accepted
  | rejected
  deriving DecidableEq

structure Relay where
  followActivityId : Option String
  state : RelayState
  deriving DecidableEq

structure Db where
  accounts : Table Account.keys
  follows : Table Follow.keys
  followRequests : Table Follow.keys
  blocks : Table Block.keys
  accountDomainBlocks : List (ℕ × String)
  favourites : Table Favourite.keys
  statuses : Table Status.keys
  relays : List Relay
  accountStats : Stats AccountStat
  statusStats : Stats StatusStat

def Db.empty : Db where
  accounts := .empty
  follows := .empty
  followRequests := .empty
  blocks := .empty
  accountDomainBlocks := []
  favourites := .empty
  statuses := .empty
  relays := []
  accountStats := fun _ => none
  statusStats := fun _ => none

/-- `SELECT … FROM accounts WHERE id = …` -/
def Db.account (db : Db) (id : ℕ) : Option Account := db.accounts.rows.find? (·.id = id)

/-- `SELECT … FROM accounts WHERE uri = …` -/
def Db.accountByUri (db : Db) (uri : String) : Option Account :=
  db.accounts.rows.find? (·.uri = some uri)

/-- `SELECT … FROM statuses WHERE id = … AND deleted_at IS NULL` -/
def Db.keptStatus (db : Db) (id : ℕ) : Option Status :=
  db.statuses.rows.find? fun s => s.id = id ∧ s.deleted = false

/-- `SELECT … FROM statuses WHERE uri = …` -/
def Db.statusByUri (db : Db) (uri : String) : Option Status :=
  db.statuses.rows.find? (·.uri = some uri)

theorem Db.account_mem {db : Db} {id : ℕ} {a : Account} (h : db.account id = some a) :
    a ∈ db.accounts.rows ∧ a.id = id :=
  ⟨List.mem_of_find?_eq_some h, by simpa using List.find?_some h⟩

theorem Db.accountByUri_mem {db : Db} {uri : String} {a : Account}
    (h : db.accountByUri uri = some a) : a ∈ db.accounts.rows ∧ a.uri = some uri :=
  ⟨List.mem_of_find?_eq_some h, by simpa using List.find?_some h⟩

theorem Db.keptStatus_mem {db : Db} {id : ℕ} {s : Status} (h : db.keptStatus id = some s) :
    s ∈ db.statuses.rows ∧ s.id = id ∧ s.deleted = false :=
  ⟨List.mem_of_find?_eq_some h, by simpa using List.find?_some h⟩

theorem Db.statusByUri_mem {db : Db} {uri : String} {s : Status}
    (h : db.statusByUri uri = some s) : s ∈ db.statuses.rows ∧ s.uri = some uri :=
  ⟨List.mem_of_find?_eq_some h, by simpa using List.find?_some h⟩

end Eunha.Database
