import Eunha.Interleaving

/-!
# Signing keys of local accounts

A local account's key is in `keypairs`, its private half encrypted, or in the legacy columns
of the account. Readers look at `keypairs` first. Writers put a new key there, or move the
legacy one, and clear the columns, a statement at a time and from several processes.
-/
namespace Eunha.SigningKeys
open Interleaving

/-! ### Keys and encryption -/

/-- Which halves are generated together. There is always another pair, whose halves go with
none of those there are. -/
structure Generator where
  Pair : String → String → Prop
  privateKey_ne : ∀ {p q}, Pair p q → p ≠ ""
  publicKey_ne : ∀ {p q}, Pair p q → q ≠ ""
  another : ∀ p q, ∃ p' q', Pair p' q' ∧ ¬ Pair p q' ∧ ¬ Pair p' q

/-- `rails_encryption::Encryptor`, whose encryption takes a draw. -/
structure Encryptor where
  encrypt : ℕ → String → String
  decrypt : String → Option String
  encrypt_ne : ∀ n p, encrypt n p ≠ ""
  decrypt_encrypt : ∀ n p, decrypt (encrypt n p) = some p

structure SigningKey where
  privateKey : String
  publicKey : String
  deriving DecidableEq

/-- A row of `keypairs` with the main key's fragment, which an account has one of at most. -/
structure Keypair where
  privateKey : Option String
  publicKey : String
  revoked : Bool
  expiresAt : Option ℕ
  deriving DecidableEq

structure LocalAccount where
  keypair : Option Keypair
  privateKey : Option String
  publicKey : String

/-- The time, and the encryption keys, if any are configured. -/
structure Config where
  now : ℕ
  encryptor : Option Encryptor

variable {gen : Generator}

/-- `NOT revoked AND (expires_at IS NULL OR expires_at > now())` -/
def usable (now : ℕ) (k : Keypair) : Bool := !k.revoked && k.expiresAt.all (now < ·)

def nonEmpty (key : Option String) : Option String := key.filter (· ≠ "")

/-! ### The readers -/

section Readers
variable (config : Config)

def LocalAccount.stored (a : LocalAccount) : Option Keypair :=
  a.keypair.filter (usable config.now)

def opened (k : Keypair) : Option SigningKey := do
  let keySealed ← nonEmpty k.privateKey
  let encryptor ← config.encryptor
  let privateKey ← encryptor.decrypt keySealed
  pure ⟨privateKey, k.publicKey⟩

def LocalAccount.legacyKey (a : LocalAccount) : Option SigningKey :=
  (nonEmpty a.privateKey).map fun privateKey => ⟨privateKey, a.publicKey⟩

/-- `signing_key_in`, which is none where that is an error. -/
def signingKey (a : LocalAccount) : Option SigningKey :=
  match a.stored config with
  | some k => opened config k
  | none => a.legacyKey

def hasSigningKey (a : LocalAccount) : Bool :=
  (a.stored config).any (fun k => (nonEmpty k.privateKey).isSome) ||
    (nonEmpty a.privateKey).isSome

def publicKey (a : LocalAccount) : Option String :=
  match nonEmpty ((a.stored config).map Keypair.publicKey) with
  | some key => some key
  | none => nonEmpty (some a.publicKey)

end Readers

/-! ### The writers -/

structure NewKey (gen : Generator) where
  privateKey : String
  publicKey : String
  pair : gen.Pair privateKey publicKey

/-- `INSERT INTO keypairs … ON CONFLICT (account_id, local_fragment) DO NOTHING` -/
def LocalAccount.insertKeypair (a : LocalAccount) (keySealed publicKey : String) : LocalAccount :=
  { a with keypair := a.keypair.or (some ⟨some keySealed, publicKey, false, none⟩) }

/-- `UPDATE accounts SET private_key = NULL, public_key = ''` -/
def LocalAccount.clearLegacy (a : LocalAccount) : LocalAccount :=
  { a with privateKey := none, publicKey := "" }

/-- The update of `store_local` without encryption. -/
def LocalAccount.fillLegacy (a : LocalAccount) (key : NewKey gen) : LocalAccount :=
  { a with
    privateKey := some ((nonEmpty a.privateKey).getD key.privateKey)
    publicKey := if a.publicKey = "" then key.publicKey else a.publicKey }

/-! ### Calls -/

structure Store where
  account : LocalAccount
  /-- What the finished calls of `store_local` returned. -/
  returned : List (Option SigningKey)

def Store.set (s : Store) (a : LocalAccount) : Store := { s with account := a }

def Store.returns (s : Store) (key : Option SigningKey) : Store :=
  { s with returned := s.returned ++ [key] }

inductive Request (gen : Generator) where
  | storeLocal (key : NewKey gen)
  | storeSealed (key : NewKey gen)
  | migrate

/-- A call before its next statement. `store_local` reads the key once it is stored. -/
inductive Phase (gen : Generator) where
  | fill (key : NewKey gen)
  | insert (encryptor : Encryptor) (key : NewKey gen) (reads : Bool)
  | clear (reads : Bool)
  | readKeypair
  | readLegacy
  | select (encryptor : Encryptor)
  | move (encryptor : Encryptor) (privateKey publicKey : String)

/-- Whether a statement fails, and what is drawn for the encryption. -/
structure Answer where
  fails : Bool
  draw : ℕ

def enter (config : Config) (s : Store) : Request gen → Store × Option (Phase gen)
  | .storeLocal key =>
      match config.encryptor with
      | none => (s, some (.fill key))
      | some encryptor => (s, some (.insert encryptor key true))
  | .storeSealed key =>
      match config.encryptor with
      | none => (s, none)
      | some encryptor => (s, some (.insert encryptor key false))
  | .migrate =>
      match config.encryptor with
      | none => (s, none)
      | some encryptor => (s, some (.select encryptor))

def exec (config : Config) (s : Store) (phase : Phase gen) (w : Answer) :
    Store × Option (Phase gen) :=
  if w.fails then (s, none)
  else
    match phase with
    | .fill key =>
        let a := s.account.fillLegacy key
        ((s.set a).returns a.legacyKey, none)
    | .insert encryptor key reads =>
        (s.set (s.account.insertKeypair (encryptor.encrypt w.draw key.privateKey) key.publicKey),
          some (.clear reads))
    | .clear reads => (s.set s.account.clearLegacy, if reads then some .readKeypair else none)
    | .readKeypair =>
        match s.account.stored config with
        | some k => (s.returns (opened config k), none)
        | none => (s, some .readLegacy)
    | .readLegacy => (s.returns s.account.legacyKey, none)
    | .select encryptor =>
        match nonEmpty s.account.privateKey with
        | none => (s, none)
        | some privateKey => (s, some (.move encryptor privateKey s.account.publicKey))
    -- one transaction
    | .move encryptor privateKey publicKey =>
        let a := s.account.insertKeypair (encryptor.encrypt w.draw privateKey) publicKey
        (s.set a.clearLegacy, none)

/-- The writers, in any number of processes. -/
def machine (gen : Generator) (config : Config) : Machine Store (Phase gen) (Request gen) Answer :=
  ⟨enter config, exec config⟩

end Eunha.SigningKeys
