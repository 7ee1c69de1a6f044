import Eunha.Runs
import Eunha.DomainModeration

/-!
# Domain blocks and the accounts they limit

A block silences or suspends the accounts of its domain and of the domains below
it, and stamps each with its own `created_at`; the stamp is the only record of
which block limited an account. An account that is limited already is passed over
by the next block, and lifting a block clears the limits that carry its stamp. So
two blocks that cover an account leave it one stamp, and the account is no longer
limited once the block of that stamp is lifted.

A request runs with the job it queues. Domains are normalized when they are stored.
Of an account only the columns are kept that the limits read or write.
-/
namespace Eunha.DomainBlocks
open SqlLike DomainModeration Runs

/-! ### The model -/

/-- A domain as `normalize_domain` leaves it. -/
structure Domain where
  text : String
  normal : ∀ c ∈ text.toList, c.toNat < 128 ∧ c.toLower = c ∧ c ≠ '\\'
  deriving DecidableEq

/-- `to_lowercase`, of the domains there are. -/
def toLowercase (s : String) : String := String.ofList (s.toList.map Char.toLower)

/-- A row of `domain_blocks`. -/
structure Block where
  id : ℕ
  domain : Domain
  severity : Option ℤ
  rejectMedia : Bool := false
  rejectReports : Bool := false
  createdAt : ℤ
  deriving DecidableEq

def Block.severityOf (b : Block) : ℤ := b.severity.getD silence

def Block.row (b : Block) : BlockRow := ⟨b.domain.text, b.severity, b.rejectMedia, b.rejectReports⟩

/-- The table, with its primary key and its unique index. -/
structure BlockTable where
  rows : List Block
  keys : rows.Pairwise fun a b => a.id ≠ b.id ∧ a.domain ≠ b.domain

def BlockTable.find (t : BlockTable) (id : ℕ) : Option Block := t.rows.find? fun b => b.id = id

def BlockTable.insert (t : BlockTable) (b : Block)
    (h : ∀ r ∈ t.rows, r.id ≠ b.id ∧ r.domain ≠ b.domain) : BlockTable where
  rows := t.rows ++ [b]
  keys := List.pairwise_append.mpr
    ⟨t.keys, List.pairwise_singleton _ _, fun r hr _ hb => List.mem_singleton.mp hb ▸ h r hr⟩

def BlockTable.delete (t : BlockTable) (id : ℕ) : BlockTable where
  rows := t.rows.filter fun b => b.id ≠ id
  keys := t.keys.filter _

/-- The columns an update may set, `none` for the ones it leaves. -/
structure Changes where
  severity : Option ℤ := none
  rejectMedia : Option Bool := none
  rejectReports : Option Bool := none

def Changes.apply (c : Changes) (id : ℕ) (b : Block) : Block :=
  if b.id = id then
    { b with
      severity := c.severity.or b.severity
      rejectMedia := c.rejectMedia.getD b.rejectMedia
      rejectReports := c.rejectReports.getD b.rejectReports }
  else b

@[simp] theorem Changes.apply_id (c : Changes) (id : ℕ) (b : Block) :
    (c.apply id b).id = b.id := by
  unfold apply
  split <;> rfl

@[simp] theorem Changes.apply_domain (c : Changes) (id : ℕ) (b : Block) :
    (c.apply id b).domain = b.domain := by
  unfold apply
  split <;> rfl

def BlockTable.update (t : BlockTable) (id : ℕ) (c : Changes) : BlockTable where
  rows := t.rows.map (c.apply id)
  keys := List.pairwise_map.mpr (t.keys.imp fun h => by simpa using h)

structure Account where
  domain : Option Domain
  silencedAt : Option ℤ := none
  suspendedAt : Option ℤ := none
  suspensionOrigin : Option ℤ := none
  requestedDeletionAt : Option ℤ := none
  deriving DecidableEq

/-- The accounts are found by their ids. -/
structure State where
  blocks : BlockTable
  accounts : ℕ → Option Account

/-- An `UPDATE` that sets each row by itself. -/
def State.updateAccounts (s : State) (f : Account → Account) : State :=
  { s with accounts := fun id => (s.accounts id).map f }

def byDomain (b : Block) (a : Account) : Bool :=
  a.domain.any fun d => d.text = b.domain.text ||
    like ("%.".toList ++ b.domain.text.toList) d.text.toList = some true

def silenceAccount (b : Block) (a : Account) : Account :=
  if byDomain b a ∧ a.silencedAt = none then { a with silencedAt := some b.createdAt } else a

/-- The first statement of `suspend_accounts`. -/
def suspendAccount (b : Block) (a : Account) : Account :=
  if byDomain b a ∧ a.suspendedAt = none ∧ a.requestedDeletionAt = none then
    { a with suspendedAt := some b.createdAt, suspensionOrigin := some 0 }
  else a

/-- `purge_profile` of `delete_account::call`, the account to stay suspended from then. -/
def purgeProfile (suspendedAt : ℤ) (a : Account) : Account :=
  { a with silencedAt := none, suspendedAt := some suspendedAt, suspensionOrigin := some 0 }

/-- The accounts `suspend_accounts` goes on to delete. -/
def deleteAccount (b : Block) (a : Account) : Account :=
  if byDomain b a ∧ a.suspendedAt = some b.createdAt then purgeProfile b.createdAt a else a

def unsilenceAccount (b : Block) (a : Account) : Account :=
  if byDomain b a ∧ a.silencedAt = some b.createdAt then { a with silencedAt := none } else a

def unsuspendAccount (b : Block) (a : Account) : Account :=
  if byDomain b a ∧ a.suspendedAt = some b.createdAt then
    { a with suspendedAt := none, suspensionOrigin := none }
  else a

/-- `block`, the job of the requests below. -/
def block (s : State) (id : ℕ) (update : Bool) : State :=
  match s.blocks.find id with
  | none => s
  | some b =>
      let s :=
        if b.severityOf = silence then s.updateAccounts (silenceAccount b)
        else if b.severityOf = suspend then
          (s.updateAccounts (suspendAccount b)).updateAccounts (deleteAccount b)
        else s
      if update then
        let s :=
          if b.severityOf ≠ silence then s.updateAccounts (unsilenceAccount b) else s
        if b.severityOf ≠ suspend then s.updateAccounts (unsuspendAccount b) else s
      else s

def unblock (s : State) (id : ℕ) : State :=
  match s.blocks.find id with
  | none => s
  | some b =>
      let s := if b.severityOf ≠ noop then s.updateAccounts (unsilenceAccount b) else s
      let s := if b.severityOf = suspend then s.updateAccounts (unsuspendAccount b) else s
      { s with blocks := s.blocks.delete id }

def ruleFor (rows : List Block) (domain : String) : Option Block :=
  (rows.filter fun b => selects domain b.row = some true).argmax fun b => b.domain.text.length

def applyToNewAccount (s : State) (id : ℕ) (domain : Domain) : State :=
  match lookup toLowercase (s.blocks.rows.map Block.row) domain.text with
  | none => s
  | some rule =>
      match ruleFor s.blocks.rows (toLowercase domain.text) with
      | none => s
      | some row =>
          let set := fun f : Account → Account =>
            { s with accounts := Function.update s.accounts id ((s.accounts id).map f) }
          if rule.severity = suspend then
            set fun a => { a with suspendedAt := some row.createdAt, suspensionOrigin := some 0 }
          else if rule.severity = silence then
            set fun a => { a with silencedAt := some row.createdAt }
          else s

/-- `DomainBlock#stricter_than?` -/
def stricterThan (b : Block) (other : DomainBlock) : Bool :=
  if b.severityOf = suspend then true
  else if other.severity = suspend ∧ (b.severityOf = silence ∨ b.severityOf = noop) then false
  else if other.severity = silence ∧ b.severityOf = noop then false
  else (b.rejectMedia || !other.rejectMedia) && (b.rejectReports || !other.rejectReports)

/-- `conflicts_with_existing_block?` -/
def conflicts (rows : List Block) (b : Block) : Bool :=
  match lookup toLowercase (rows.map Block.row) b.domain.text with
  | none => false
  | some existing =>
      match ruleFor rows b.domain.text with
      | none => true
      | some row => row.domain = b.domain || !stricterThan b existing

/-- What is asked of the server, each request with its job. -/
inductive Op where
  | create (b : Block)
  | update (id : ℕ) (changes : Changes)
  | block (id : ℕ) (update : Bool)
  | unblock (id : ℕ)
  | newAccount (id : ℕ) (domain : Domain)

def createDomainBlock (s : State) (b : Block) : State :=
  if conflicts s.blocks.rows b then s
  else if h : ∀ r ∈ s.blocks.rows, r.id ≠ b.id ∧ r.domain ≠ b.domain then
    block { s with blocks := s.blocks.insert b h } b.id false
  else s

/-- `severity_previously_changed?` -/
def severityChanged (c : Changes) (before : Block) : Bool :=
  c.severity.any fun severity => some severity ≠ before.severity

def updateAdminDomainBlock (s : State) (id : ℕ) (c : Changes) : State :=
  match s.blocks.find id with
  | none => s
  | some before =>
      block { s with blocks := s.blocks.update id c } id (severityChanged c before)

def createAccount (s : State) (id : ℕ) (domain : Domain) : State :=
  if (s.accounts id).isSome then s
  else
    let account : Account := { domain := some domain }
    applyToNewAccount { s with accounts := Function.update s.accounts id (some account) } id domain

def step (s : State) : Op → State
  | .create b => createDomainBlock s b
  | .update id changes => updateAdminDomainBlock s id changes
  | .block id update => block s id update
  | .unblock id => unblock s id
  | .newAccount id domain => createAccount s id domain

/-- A server without blocks. -/
def start (accounts : ℕ → Option Account) : State := ⟨⟨[], List.Pairwise.nil⟩, accounts⟩

/-! ### What covers an account -/

def SilenceDue (rows : List Block) (d : Domain) : Prop :=
  ∃ b ∈ rows, b.severityOf = silence ∧ Covers b.row d.text

def SuspendDue (rows : List Block) (d : Domain) : Prop :=
  ∃ b, ruleFor rows d.text = some b ∧ b.severityOf = suspend

def Limited (rows : List Block) (a : Account) (d : Domain) : Prop :=
  (SilenceDue rows d → a.silencedAt ≠ none) ∧ (SuspendDue rows d → a.suspendedAt ≠ none)

def Covered (s : State) (id : ℕ) : Prop :=
  ∀ a, s.accounts id = some a → ∀ d, a.domain = some d → Limited s.blocks.rows a d

def Purges (b : Block) (a : Account) : Prop :=
  b.severityOf = suspend ∧
    (a.suspendedAt = none ∧ a.requestedDeletionAt = none ∨ a.suspendedAt = some b.createdAt)

def Strips (rows : List Block) (b : Block) (update : Bool) (a : Account) (d : Domain) : Prop :=
  byDomain b a ∧
    (SilenceDue rows d ∧ b.severityOf ≠ silence ∧
        (Purges b a ∨ update ∧ a.silencedAt = some b.createdAt) ∨
      SuspendDue rows d ∧
        (b.severityOf = suspend ∧ a.suspendedAt = none ∧ a.requestedDeletionAt ≠ none ∨
          b.severityOf ≠ suspend ∧ update ∧ a.suspendedAt = some b.createdAt))

def Abandons (rows : List Block) (b : Block) (a : Account) (d : Domain) : Prop :=
  SilenceDue rows d ∧ b.severityOf ≠ noop ∧ byDomain b a ∧ a.silencedAt = some b.createdAt ∨
    SuspendDue rows d ∧ (a.suspendedAt = none ∨
      b.severityOf = suspend ∧ byDomain b a ∧ a.suspendedAt = some b.createdAt)

/-- The account is there and of a domain, and the two meet `p`. -/
def State.At (s : State) (id : ℕ) (p : Account → Domain → Prop) : Prop :=
  ∃ a, s.accounts id = some a ∧ ∃ d, a.domain = some d ∧ p a d

def Exposes (s : State) (id : ℕ) : Op → Prop
  | .create b =>
      conflicts s.blocks.rows b = false ∧
        (∀ r ∈ s.blocks.rows, r.id ≠ b.id ∧ r.domain ≠ b.domain) ∧
        s.At id (Strips (s.blocks.rows ++ [b]) b false)
  | .update j c =>
      ∃ b, s.blocks.find j = some b ∧
        s.At id (Strips (s.blocks.update j c).rows (c.apply j b) (severityChanged c b))
  | .block j update =>
      ∃ b, s.blocks.find j = some b ∧ s.At id (Strips s.blocks.rows b update)
  | .unblock j =>
      ∃ b, s.blocks.find j = some b ∧ s.At id (Abandons (s.blocks.delete j).rows b)
  | .newAccount j d =>
      j = id ∧ s.accounts id = none ∧ SilenceDue s.blocks.rows d ∧
        ¬∃ b, ruleFor s.blocks.rows d.text = some b ∧ b.severityOf = silence

/-! ### The block that applies to a domain -/

theorem toLowercase_text (d : Domain) : toLowercase d.text = d.text := by
  unfold toLowercase
  rw [List.map_congr_left fun c hc => (d.normal c hc).2.1, List.map_id', String.ofList_toList]

theorem noEscape (d : Domain) : '\\' ∉ d.text.toList := fun h => (d.normal _ h).2.2 rfl

theorem pattern_noEscape (b : Block) : '\\' ∉ '.' :: b.domain.text.toList := by
  intro h
  rcases List.mem_cons.mp h with h | h
  · exact absurd h (by decide)
  · exact noEscape b.domain h

theorem pattern_eq (b : Block) :
    "%.".toList ++ b.domain.text.toList = '%' :: '.' :: b.domain.text.toList := rfl

theorem byDomain_of_covers {b : Block} {a : Account} {d : Domain} (ha : a.domain = some d)
    (h : Covers b.row d.text) : byDomain b a = true := by
  simp only [byDomain, ha, Option.any_some, Bool.or_eq_true, decide_eq_true_eq]
  refine h.2.imp id fun hs => ?_
  rw [pattern_eq]
  exact like_any_of_suffix (pattern_noEscape b) hs

theorem byDomain_of_rule {rows : List Block} {b : Block} {a : Account} {d : Domain}
    (ha : a.domain = some d) (h : ruleFor rows d.text = some b) : byDomain b a = true := by
  have hsel : selects d.text b.row = some true := by
    simpa using (List.mem_filter.mp (List.argmax_mem h)).2
  simp only [byDomain, ha, Option.any_some, Bool.or_eq_true, decide_eq_true_eq]
  unfold selects at hsel
  split_ifs at hsel with hempty heq
  · simp at hsel
  · exact .inl heq
  · exact .inr hsel

theorem argmax_map {α β : Type*} (f : β → ℕ) (g : α → β) (l : List α) :
    (l.map g).argmax f = (l.argmax (f ∘ g)).map g := by
  induction l using List.reverseRecOn with
  | nil => rfl
  | append_singleton l x ih =>
      rw [List.map_append, List.map_singleton, List.argmax_concat, List.argmax_concat, ih]
      cases l.argmax (f ∘ g) with
      | none => rfl
      | some m =>
          simp only [Option.map_some, Function.comp_apply]
          split_ifs <;> rfl

theorem lookup_eq (rows : List Block) (d : Domain) :
    lookup toLowercase (rows.map Block.row) d.text =
      (ruleFor rows d.text).map fun b => ⟨b.severityOf, b.rejectMedia, b.rejectReports⟩ := by
  have hsome : ∀ row ∈ rows.map Block.row, (selects d.text row).isSome := by
    intro row hrow
    obtain ⟨b, -, rfl⟩ := List.mem_map.mp hrow
    unfold selects
    split_ifs
    · rfl
    · rfl
    · refine like_isSome (fun h => ?_) _
      rcases List.mem_cons.mp h with h | h
      · exact absurd h (by decide)
      · exact pattern_noEscape b h
  unfold lookup selected ruleFor
  rw [toLowercase_text, if_pos hsome, Option.bind_some, List.filter_map, argmax_map, Option.map_map]
  rfl

/-! ### One account under one block -/

/-- What `block` does to an account. -/
def process (b : Block) (update : Bool) (a : Account) : Account :=
  let a :=
    if b.severityOf = silence then silenceAccount b a
    else if b.severityOf = suspend then deleteAccount b (suspendAccount b a)
    else a
  if update then
    let a := if b.severityOf ≠ silence then unsilenceAccount b a else a
    if b.severityOf ≠ suspend then unsuspendAccount b a else a
  else a

/-- What `unblock` does to an account. -/
def lift (b : Block) (a : Account) : Account :=
  let a := if b.severityOf ≠ noop then unsilenceAccount b a else a
  if b.severityOf = suspend then unsuspendAccount b a else a

@[simp] theorem updateAccounts_blocks (s : State) (f : Account → Account) :
    (s.updateAccounts f).blocks = s.blocks := rfl

theorem updateAccounts_comp (s : State) (f g : Account → Account) :
    (s.updateAccounts f).updateAccounts g = s.updateAccounts (g ∘ f) := by
  simp [State.updateAccounts]

theorem block_of_find {s : State} {id : ℕ} {b : Block} (h : s.blocks.find id = some b)
    (update : Bool) : block s id update = s.updateAccounts (process b update) := by
  have hid : s.updateAccounts (fun a => a) = s := by simp [State.updateAccounts]
  unfold block process
  simp only [h]
  split_ifs <;> simp [updateAccounts_comp, hid, Function.comp_def]

theorem unblock_of_find {s : State} {id : ℕ} {b : Block} (h : s.blocks.find id = some b) :
    unblock s id = { s.updateAccounts (lift b) with blocks := s.blocks.delete id } := by
  have hid : s.updateAccounts (fun a => a) = s := by simp [State.updateAccounts]
  unfold unblock lift
  simp only [h]
  split_ifs <;> simp [updateAccounts_comp, hid, Function.comp_def]

section
variable (b : Block) (a : Account)

@[simp] theorem silenceAccount_domain : (silenceAccount b a).domain = a.domain := by
  unfold silenceAccount; split <;> rfl
@[simp] theorem silenceAccount_suspendedAt :
    (silenceAccount b a).suspendedAt = a.suspendedAt := by
  unfold silenceAccount; split <;> rfl
@[simp] theorem suspendAccount_domain : (suspendAccount b a).domain = a.domain := by
  unfold suspendAccount; split <;> rfl
@[simp] theorem deleteAccount_domain : (deleteAccount b a).domain = a.domain := by
  unfold deleteAccount; split <;> rfl
@[simp] theorem unsilenceAccount_domain : (unsilenceAccount b a).domain = a.domain := by
  unfold unsilenceAccount; split <;> rfl
@[simp] theorem unsilenceAccount_suspendedAt :
    (unsilenceAccount b a).suspendedAt = a.suspendedAt := by
  unfold unsilenceAccount; split <;> rfl
@[simp] theorem unsuspendAccount_domain : (unsuspendAccount b a).domain = a.domain := by
  unfold unsuspendAccount; split <;> rfl
@[simp] theorem unsuspendAccount_silencedAt :
    (unsuspendAccount b a).silencedAt = a.silencedAt := by
  unfold unsuspendAccount; split <;> rfl

theorem byDomain_congr {b : Block} {a a' : Account} (h : a'.domain = a.domain) :
    byDomain b a' = byDomain b a := by
  unfold byDomain
  rw [h]

@[simp] theorem silenceAccount_silencedAt_eq_none :
    (silenceAccount b a).silencedAt = none ↔ a.silencedAt = none ∧ byDomain b a = false := by
  unfold silenceAccount
  cases h : byDomain b a <;> split_ifs <;> simp_all

@[simp] theorem unsilenceAccount_silencedAt_eq_none :
    (unsilenceAccount b a).silencedAt = none ↔
      a.silencedAt = none ∨ byDomain b a = true ∧ a.silencedAt = some b.createdAt := by
  unfold unsilenceAccount
  split_ifs with h
  · simp [h]
  · simp [h]

@[simp] theorem unsuspendAccount_suspendedAt_eq_none :
    (unsuspendAccount b a).suspendedAt = none ↔
      a.suspendedAt = none ∨ byDomain b a = true ∧ a.suspendedAt = some b.createdAt := by
  unfold unsuspendAccount
  split_ifs with h
  · simp [h]
  · simp [h]

/-- The two statements of `suspend_accounts`, one after the other. -/
theorem deleteAccount_suspendAccount :
    deleteAccount b (suspendAccount b a) =
      if byDomain b a = true ∧ (a.suspendedAt = none ∧ a.requestedDeletionAt = none ∨
        a.suspendedAt = some b.createdAt) then purgeProfile b.createdAt a else a := by
  unfold deleteAccount
  rw [byDomain_congr (suspendAccount_domain b a)]
  unfold suspendAccount
  cases h : byDomain b a with
  | false => simp
  | true =>
      by_cases hs : a.suspendedAt = none ∧ a.requestedDeletionAt = none
      · simp [hs, purgeProfile]
      · simp only [hs, and_false, if_false, true_and, false_or]

end

@[simp] theorem process_domain (b : Block) (update : Bool) (a : Account) :
    (process b update a).domain = a.domain := by
  unfold process
  cases update <;> split_ifs <;> simp

@[simp] theorem lift_domain (b : Block) (a : Account) : (lift b a).domain = a.domain := by
  unfold lift
  split_ifs <;> simp

theorem suspend_ne_silence : suspend ≠ silence := by decide

theorem process_silencedAt_eq_none (b : Block) (update : Bool) (a : Account) :
    (process b update a).silencedAt = none ↔
      (b.severityOf = silence ∧ a.silencedAt = none ∧ byDomain b a = false) ∨
      (b.severityOf ≠ silence ∧ (a.silencedAt = none ∨ byDomain b a = true ∧
        (Purges b a ∨ update = true ∧ a.silencedAt = some b.createdAt))) := by
  unfold process Purges
  by_cases hsilence : b.severityOf = silence
  · cases update <;> simp [hsilence, suspend_ne_silence.symm]
  · by_cases hsuspend : b.severityOf = suspend
    · simp only [hsuspend, suspend_ne_silence, if_false, if_true, deleteAccount_suspendAccount]
      by_cases hp : byDomain b a = true ∧ (a.suspendedAt = none ∧ a.requestedDeletionAt = none ∨
          a.suspendedAt = some b.createdAt)
      · cases update <;> simp [hp, purgeProfile, suspend_ne_silence]
      · rw [if_neg hp]
        cases update
        · simp only [Bool.false_eq_true, if_false]
          tauto
        · simp only [if_true, ne_eq, suspend_ne_silence, not_false_eq_true, not_true, if_false,
            unsilenceAccount_silencedAt_eq_none]
          tauto
    · cases update <;> simp [hsilence, hsuspend]

theorem process_suspendedAt_eq_none (b : Block) (update : Bool) (a : Account) :
    (process b update a).suspendedAt = none ↔
      (b.severityOf = suspend ∧ a.suspendedAt = none ∧
        (byDomain b a = false ∨ a.requestedDeletionAt ≠ none)) ∨
      (b.severityOf ≠ suspend ∧ (a.suspendedAt = none ∨ byDomain b a = true ∧
        update = true ∧ a.suspendedAt = some b.createdAt)) := by
  unfold process
  by_cases hsuspend : b.severityOf = suspend
  · simp only [hsuspend, suspend_ne_silence, if_false, if_true, deleteAccount_suspendAccount]
    by_cases hp : byDomain b a = true ∧ (a.suspendedAt = none ∧ a.requestedDeletionAt = none ∨
        a.suspendedAt = some b.createdAt)
    · rw [if_pos hp]
      have hnone : ¬(a.suspendedAt = none ∧
          (byDomain b a = false ∨ a.requestedDeletionAt ≠ none)) := by
        rintro ⟨hs, h⟩
        simp_all
      cases update <;> simp_all [purgeProfile, suspend_ne_silence]
    · rw [if_neg hp]
      have hnone : a.suspendedAt = none →
          byDomain b a = false ∨ a.requestedDeletionAt ≠ none := by
        intro hs
        by_contra h
        simp_all
      cases update <;> simp [suspend_ne_silence] <;> tauto
  · have hbd : byDomain b (silenceAccount b a) = byDomain b a :=
      byDomain_congr (silenceAccount_domain b a)
    have hbd' : byDomain b (unsilenceAccount b a) = byDomain b a :=
      byDomain_congr (unsilenceAccount_domain b a)
    cases update <;> split_ifs <;> simp_all

theorem lift_silencedAt_eq_none (b : Block) (a : Account) :
    (lift b a).silencedAt = none ↔ a.silencedAt = none ∨
      b.severityOf ≠ noop ∧ byDomain b a = true ∧ a.silencedAt = some b.createdAt := by
  unfold lift
  split_ifs with hnoop <;> simp [hnoop]

theorem lift_suspendedAt_eq_none (b : Block) (a : Account) :
    (lift b a).suspendedAt = none ↔ a.suspendedAt = none ∨
      b.severityOf = suspend ∧ byDomain b a = true ∧ a.suspendedAt = some b.createdAt := by
  have hbd : byDomain b (unsilenceAccount b a) = byDomain b a :=
    byDomain_congr (unsilenceAccount_domain b a)
  unfold lift
  split_ifs <;> simp_all

/-! ### What one operation keeps -/

section
variable {rows rows' : List Block} {b : Block} {a : Account} {d : Domain}

theorem process_silenced_iff (ha : a.domain = some d) (hold : SilenceDue rows d → a.silencedAt ≠ none)
    (hrows : ∀ r ∈ rows', r ∈ rows ∨ r = b) (update : Bool) :
    (SilenceDue rows' d → (process b update a).silencedAt ≠ none) ↔
      ¬(byDomain b a = true ∧ SilenceDue rows' d ∧ b.severityOf ≠ silence ∧
        (Purges b a ∨ update = true ∧ a.silencedAt = some b.createdAt)) := by
  rw [ne_eq, process_silencedAt_eq_none]
  constructor
  · rintro h ⟨hby, hdue, hne, hp⟩
    exact h hdue (.inr ⟨hne, .inr ⟨hby, hp⟩⟩)
  · rintro hno ⟨r, hr, hs, hc⟩ hnone
    have hdue : SilenceDue rows' d := ⟨r, hr, hs, hc⟩
    rcases hnone with ⟨-, hnone, hby⟩ | ⟨hne, hnone | ⟨hby, hp⟩⟩
    · rcases hrows r hr with hr | rfl
      · exact hold ⟨r, hr, hs, hc⟩ hnone
      · rw [byDomain_of_covers ha hc] at hby
        cases hby
    · rcases hrows r hr with hr | rfl
      · exact hold ⟨r, hr, hs, hc⟩ hnone
      · exact hne hs
    · exact hno ⟨hby, hdue, hne, hp⟩

theorem process_suspended_iff (ha : a.domain = some d)
    (hold : SuspendDue rows d → a.suspendedAt ≠ none)
    (hrule : ∀ r, ruleFor rows' d.text = some r → ruleFor rows d.text = some r ∨ r = b)
    (update : Bool) :
    (SuspendDue rows' d → (process b update a).suspendedAt ≠ none) ↔
      ¬(byDomain b a = true ∧ SuspendDue rows' d ∧
        (b.severityOf = suspend ∧ a.suspendedAt = none ∧ a.requestedDeletionAt ≠ none ∨
          b.severityOf ≠ suspend ∧ update = true ∧ a.suspendedAt = some b.createdAt)) := by
  rw [ne_eq, process_suspendedAt_eq_none]
  constructor
  · rintro h ⟨hby, hdue, ⟨hs, hnone, hd⟩ | ⟨hne, hu, hat⟩⟩
    · exact h hdue (.inl ⟨hs, hnone, .inr hd⟩)
    · exact h hdue (.inr ⟨hne, .inr ⟨hby, hu, hat⟩⟩)
  · rintro hno ⟨r, hr, hs⟩ hnone
    have hdue : SuspendDue rows' d := ⟨r, hr, hs⟩
    rcases hnone with ⟨hsb, hnone, hd⟩ | ⟨hne, hnone | ⟨hby, hp⟩⟩
    · rcases hrule r hr with hr | rfl
      · exact hold ⟨r, hr, hs⟩ hnone
      · have hby := byDomain_of_rule ha hr
        rcases hd with hd | hd
        · rw [hby] at hd
          cases hd
        · exact hno ⟨hby, hdue, .inl ⟨hsb, hnone, hd⟩⟩
    · rcases hrule r hr with hr | rfl
      · exact hold ⟨r, hr, hs⟩ hnone
      · exact hne hs
    · exact hno ⟨hby, hdue, .inr ⟨hne, hp⟩⟩

theorem process_limited_iff (ha : a.domain = some d) (hold : Limited rows a d)
    (hrows : ∀ r ∈ rows', r ∈ rows ∨ r = b)
    (hrule : ∀ r, ruleFor rows' d.text = some r → ruleFor rows d.text = some r ∨ r = b)
    (update : Bool) :
    Limited rows' (process b update a) d ↔ ¬Strips rows' b update a d := by
  unfold Limited Strips
  rw [process_silenced_iff ha hold.1 hrows, process_suspended_iff ha hold.2 hrule]
  tauto

theorem lift_limited_iff (hold : Limited rows a d) (hrows : ∀ r ∈ rows', r ∈ rows) :
    Limited rows' (lift b a) d ↔ ¬Abandons rows' b a d := by
  have hdue : SilenceDue rows' d → a.silencedAt ≠ none := by
    rintro ⟨r, hr, h⟩
    exact hold.1 ⟨r, hrows r hr, h⟩
  unfold Limited Abandons
  rw [ne_eq, ne_eq, lift_silencedAt_eq_none, lift_suspendedAt_eq_none]
  tauto

end

theorem covered_iff_of_map {s s' : State} {id : ℕ} {f : Account → Account}
    {bad : Account → Domain → Prop} (hacc : s'.accounts id = (s.accounts id).map f)
    (hdomain : ∀ a, (f a).domain = a.domain)
    (h : ∀ a d, s.accounts id = some a → a.domain = some d →
      (Limited s'.blocks.rows (f a) d ↔ ¬bad a d)) :
    Covered s' id ↔ ¬s.At id bad := by
  constructor
  · rintro hcov ⟨a, ha, d, hd, hbad⟩
    have hl := hcov (f a) (by rw [hacc, ha, Option.map_some]) d (by rw [hdomain, hd])
    exact (h a d ha hd).mp hl hbad
  · intro hno a' ha' d hd
    rw [hacc] at ha'
    obtain ⟨a, ha, rfl⟩ := Option.map_eq_some_iff.mp ha'
    rw [hdomain] at hd
    exact (h a d ha hd).mpr fun hbad => hno ⟨a, ha, d, hd, hbad⟩

theorem BlockTable.mem_of_find {t : BlockTable} {id : ℕ} {b : Block} (h : t.find id = some b) :
    b ∈ t.rows ∧ b.id = id :=
  ⟨List.mem_of_find?_eq_some h, by simpa using List.find?_some h⟩

theorem BlockTable.eq_of_id {t : BlockTable} {a b : Block} (ha : a ∈ t.rows) (hb : b ∈ t.rows)
    (h : a.id = b.id) : a = b := by
  have hnodup : (t.rows.map Block.id).Nodup := List.pairwise_map.mpr (t.keys.imp And.left)
  exact List.inj_on_of_nodup_map hnodup ha hb h

theorem BlockTable.find_insert {t : BlockTable} {b : Block}
    (h : ∀ r ∈ t.rows, r.id ≠ b.id ∧ r.domain ≠ b.domain) : (t.insert b h).find b.id = some b := by
  unfold find insert
  rw [List.find?_append, List.find?_eq_none.mpr fun r hr => by simpa using (h r hr).1]
  simp

theorem BlockTable.find_update (t : BlockTable) (id : ℕ) (c : Changes) :
    (t.update id c).find id = (t.find id).map (c.apply id) := by
  unfold find update
  rw [List.find?_map]
  simp [Function.comp_def]

theorem ruleFor_append {rows : List Block} {b r : Block} {domain : String}
    (h : ruleFor (rows ++ [b]) domain = some r) : ruleFor rows domain = some r ∨ r = b := by
  unfold ruleFor at h ⊢
  rw [List.filter_append] at h
  by_cases hsel : selects domain b.row = some true
  · rw [List.filter_cons_of_pos (by simpa using hsel), List.filter_nil, List.argmax_concat] at h
    cases hm : (rows.filter fun b => selects domain b.row = some true).argmax
        fun b => b.domain.text.length with
    | none =>
        rw [hm] at h
        exact .inr (Option.some.inj h).symm
    | some m =>
        rw [hm] at h
        simp only at h
        split_ifs at h
        · exact .inr (Option.some.inj h).symm
        · exact .inl h
  · rw [List.filter_cons_of_neg (by simpa using hsel), List.filter_nil, List.append_nil] at h
    exact .inl h

theorem ruleFor_map (rows : List Block) (c : Changes) (id : ℕ) (domain : String) :
    ruleFor (rows.map (c.apply id)) domain = (ruleFor rows domain).map (c.apply id) := by
  have hsel : ∀ b, selects domain (c.apply id b).row = selects domain b.row := by
    intro b
    have hdomain : (c.apply id b).row.domain = b.row.domain := by simp [Block.row]
    unfold selects
    rw [hdomain]
  unfold ruleFor
  rw [List.filter_map, argmax_map]
  simp [Function.comp_def, hsel]

theorem apply_of_find {t : BlockTable} {id : ℕ} {b r : Block} (hb : t.find id = some b)
    (hr : r ∈ t.rows) (c : Changes) : c.apply id r = r ∨ c.apply id r = c.apply id b := by
  obtain ⟨hmem, hid⟩ := BlockTable.mem_of_find hb
  by_cases h : r.id = id
  · exact .inr (congrArg _ (BlockTable.eq_of_id hr hmem (h.trans hid.symm)))
  · exact .inl (if_neg h)

theorem mem_of_ruleFor {rows : List Block} {b : Block} {domain : String}
    (h : ruleFor rows domain = some b) : b ∈ rows :=
  (List.mem_filter.mp (List.argmax_mem h)).1

theorem covered_create_iff {s : State} {id : ℕ} (b : Block) (hs : Covered s id) :
    Covered (createDomainBlock s b) id ↔ ¬Exposes s id (.create b) := by
  unfold createDomainBlock Exposes
  by_cases hc : conflicts s.blocks.rows b = true
  · simp [hc, hs]
  · rw [if_neg hc]
    by_cases hkeys : ∀ r ∈ s.blocks.rows, r.id ≠ b.id ∧ r.domain ≠ b.domain
    · rw [dif_pos hkeys, block_of_find (BlockTable.find_insert hkeys)]
      have hc : conflicts s.blocks.rows b = false := by simpa using hc
      simp only [hc, true_and]
      rw [and_iff_right hkeys]
      refine covered_iff_of_map rfl (process_domain b false) fun a d ha hd => ?_
      refine process_limited_iff hd (hs a ha d hd) (fun r hr => ?_) (fun r => ruleFor_append) false
      simpa [BlockTable.insert] using hr
    · rw [dif_neg hkeys]
      exact iff_of_true hs fun h => hkeys h.2.1

theorem covered_update_iff {s : State} {id : ℕ} (j : ℕ) (c : Changes) (hs : Covered s id) :
    Covered (updateAdminDomainBlock s j c) id ↔ ¬Exposes s id (.update j c) := by
  unfold updateAdminDomainBlock
  simp only [Exposes]
  cases hb : s.blocks.find j with
  | none => simpa using hs
  | some b =>
      have hfind : (s.blocks.update j c).find j = some (c.apply j b) := by
        rw [BlockTable.find_update, hb, Option.map_some]
      simp only [Option.some.injEq, exists_eq_left']
      rw [block_of_find hfind]
      refine covered_iff_of_map rfl (process_domain _ _) fun a d ha hd => ?_
      refine process_limited_iff hd (hs a ha d hd) (fun r hr => ?_) (fun r hr => ?_) _
      · obtain ⟨r₀, hr₀, rfl⟩ := List.mem_map.mp hr
        rcases apply_of_find hb hr₀ c with h | h
        · exact .inl (h.symm ▸ hr₀)
        · exact .inr h
      · change ruleFor (s.blocks.rows.map (c.apply j)) d.text = some r at hr
        rw [ruleFor_map] at hr
        obtain ⟨r₀, hr₀, rfl⟩ := Option.map_eq_some_iff.mp hr
        rcases apply_of_find hb (mem_of_ruleFor hr₀) c with h | h
        · exact .inl (h.symm ▸ hr₀)
        · exact .inr h

theorem covered_block_iff {s : State} {id : ℕ} (j : ℕ) (update : Bool) (hs : Covered s id) :
    Covered (block s j update) id ↔ ¬Exposes s id (.block j update) := by
  simp only [Exposes]
  cases hb : s.blocks.find j with
  | none =>
      have hsame : block s j update = s := by simp [block, hb]
      simpa [hsame] using hs
  | some b =>
      simp only [Option.some.injEq, exists_eq_left']
      rw [block_of_find hb]
      exact covered_iff_of_map rfl (process_domain _ _) fun a d ha hd =>
        process_limited_iff hd (hs a ha d hd) (fun r hr => .inl hr) (fun r hr => .inl hr) update

theorem covered_unblock_iff {s : State} {id : ℕ} (j : ℕ) (hs : Covered s id) :
    Covered (unblock s j) id ↔ ¬Exposes s id (.unblock j) := by
  simp only [Exposes]
  cases hb : s.blocks.find j with
  | none =>
      have hsame : unblock s j = s := by simp [unblock, hb]
      simpa [hsame] using hs
  | some b =>
      simp only [Option.some.injEq, exists_eq_left']
      rw [unblock_of_find hb]
      exact covered_iff_of_map rfl (lift_domain b) fun a d ha hd =>
        lift_limited_iff (hs a ha d hd) fun r hr => (List.mem_filter.mp hr).1

theorem createAccount_of_none {s : State} {id : ℕ} {d : Domain} (h : s.accounts id = none) :
    ∃ a : Account, (createAccount s id d).accounts id = some a ∧
      (∀ j, j ≠ id → (createAccount s id d).accounts j = s.accounts j) ∧
      (createAccount s id d).blocks = s.blocks ∧ a.domain = some d ∧
      (a.silencedAt ≠ none ↔ ∃ b, ruleFor s.blocks.rows d.text = some b ∧ b.severityOf = silence) ∧
      (a.suspendedAt ≠ none ↔ SuspendDue s.blocks.rows d) := by
  unfold createAccount applyToNewAccount SuspendDue
  simp only [h, Option.isSome_none, Bool.false_eq_true, if_false, lookup_eq, toLowercase_text]
  cases hrule : ruleFor s.blocks.rows d.text with
  | none => simp +contextual
  | some b =>
      simp only [Option.map_some, Option.some.injEq, exists_eq_left']
      split_ifs with hsuspend hsilence <;> simp_all [suspend_ne_silence]

theorem covered_newAccount_iff {s : State} {id : ℕ} (j : ℕ) (d : Domain) (hs : Covered s id) :
    Covered (createAccount s j d) id ↔ ¬Exposes s id (.newAccount j d) := by
  simp only [Exposes]
  cases hj : s.accounts j with
  | some a =>
      have hsame : createAccount s j d = s := by simp [createAccount, hj]
      rw [hsame]
      refine iff_of_true hs ?_
      rintro ⟨rfl, hnone, -⟩
      rw [hj] at hnone
      cases hnone
  | none =>
      obtain ⟨a, ha, hother, hblocks, hd, hsilenced, hsuspended⟩ := createAccount_of_none (d := d) hj
      by_cases hid : id = j
      · subst hid
        simp only [true_and, hj]
        constructor
        · rintro hcov ⟨hdue, hno⟩
          have hl := hcov a ha d hd
          rw [hblocks] at hl
          exact hno (hsilenced.mp (hl.1 hdue))
        · intro hno a' ha' d' hd'
          cases ha.symm.trans ha'
          cases hd.symm.trans hd'
          rw [hblocks]
          exact ⟨fun hdue => hsilenced.mpr (by_contra fun h => hno ⟨hdue, h⟩), hsuspended.mpr⟩
      · refine iff_of_true (fun a' ha' => ?_) fun h => hid h.1.symm
        rw [hother id hid] at ha'
        rw [hblocks]
        exact hs a' ha'

theorem covered_step_iff {s : State} {id : ℕ} (o : Op) (hs : Covered s id) :
    Covered (step s o) id ↔ ¬Exposes s id o := by
  cases o with
  | create b => exact covered_create_iff b hs
  | update j c => exact covered_update_iff j c hs
  | block j update => exact covered_block_iff j update hs
  | unblock j => exact covered_unblock_iff j hs
  | newAccount j d => exact covered_newAccount_iff j d hs

theorem covered_start (accounts : ℕ → Option Account) (id : ℕ) : Covered (start accounts) id := by
  intro a _ d _
  refine ⟨?_, ?_⟩
  · rintro ⟨b, hb, -⟩
    cases hb
  · rintro ⟨b, hb, -⟩
    cases hb

theorem lift_keeps (b : Block) (a : Account) :
    (a.silencedAt ≠ some b.createdAt → (lift b a).silencedAt = a.silencedAt) ∧
      (a.suspendedAt ≠ some b.createdAt → (lift b a).suspendedAt = a.suspendedAt) := by
  unfold lift
  constructor
  · intro h
    have hkeep : (unsilenceAccount b a).silencedAt = a.silencedAt := by
      unfold unsilenceAccount
      rw [if_neg fun hx => h hx.2]
    split_ifs <;> simp [hkeep]
  · intro h
    have hkeep : ∀ a' : Account, a'.suspendedAt = a.suspendedAt →
        (unsuspendAccount b a').suspendedAt = a.suspendedAt := by
      intro a' ha'
      unfold unsuspendAccount
      rw [if_neg fun hx => h (ha'.symm.trans hx.2), ha']
    split_ifs <;> simp [hkeep]

/-- As long as no operation exposes it, an account has every limit the blocks there are
ask for, and an operation that exposes it takes one from it. Lifting a block leaves
the limits of another block's stamp. -/
theorem domain_block_coverage (accounts : ℕ → Option Account) (ops : List Op) (id : ℕ)
    (h : Guarded step (fun s o => ¬Exposes s id o) (start accounts) ops) :
    Covered (run step (start accounts) ops) id ∧
    (∀ o, Covered (step (run step (start accounts) ops) o) id ↔
      ¬Exposes (run step (start accounts) ops) id o) ∧
    ∀ j b a, (run step (start accounts) ops).blocks.find j = some b →
      (run step (start accounts) ops).accounts id = some a →
      ∃ a', (unblock (run step (start accounts) ops) j).accounts id = some a' ∧
        (a.silencedAt ≠ some b.createdAt → a'.silencedAt = a.silencedAt) ∧
        (a.suspendedAt ≠ some b.createdAt → a'.suspendedAt = a.suspendedAt) := by
  have hcov : Covered (run step (start accounts) ops) id :=
    run_guarded (P := fun s => Covered s id) (fun s o hs hg => (covered_step_iff o hs).mpr hg)
      (start accounts) ops (covered_start accounts id) h
  refine ⟨hcov, fun o => covered_step_iff o hcov, fun j b a hb ha => ⟨lift b a, ?_, lift_keeps b a⟩⟩
  rw [unblock_of_find hb]
  change ((run step (start accounts) ops).accounts id).map (lift b) = _
  rw [ha, Option.map_some]

theorem domain_block_coverage_silence :
    let domain : Domain := ⟨"example.com", by decide⟩
    let subdomain : Domain := ⟨"sub.example.com", by decide⟩
    let wide : Block := { id := 1, domain := domain, severity := some silence, createdAt := 10 }
    let accounts : ℕ → Option Account := fun id =>
      if id = 1 then some { domain := some subdomain } else none
    Covered (run step (start accounts) [.create wide]) 1 := by
  intro domain subdomain wide accounts
  have hguard : ¬Exposes (start accounts) 1 (.create wide) := by
    rintro ⟨-, -, a, -, d, -, -, ⟨-, hne, -⟩ | ⟨-, ⟨hsuspend, -⟩ | ⟨-, hupdate, -⟩⟩⟩
    · exact hne (by decide)
    · exact absurd hsuspend (by decide)
    · cases hupdate
  exact (domain_block_coverage accounts [.create wide] 1 ⟨hguard, trivial⟩).1

/-- The silence below remains, and the account it covers is silenced no more. -/
theorem nested_silence_lifted :
    let domain : Domain := ⟨"example.com", by decide⟩
    let subdomain : Domain := ⟨"sub.example.com", by decide⟩
    let accounts : ℕ → Option Account := fun id =>
      if id = 1 then some { domain := some subdomain } else none
    let wide : Block := { id := 1, domain := domain, severity := some silence, createdAt := 10 }
    let narrow : Block :=
      { id := 2, domain := subdomain, severity := some silence, createdAt := 20 }
    let s := run step (start accounts) [.create wide, .create narrow, .unblock 1]
    s.blocks.rows = [narrow] ∧ narrow.severityOf = silence ∧ Covers narrow.row subdomain.text ∧
      s.accounts 1 = some { domain := some subdomain } := by
  refine ⟨?_, ?_, ⟨?_, .inl ?_⟩, ?_⟩ <;> decide +kernel

end Eunha.DomainBlocks
