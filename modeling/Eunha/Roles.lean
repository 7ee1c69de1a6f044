import Eunha.Sanitizer
import Mathlib.Data.Int.Notation
import Mathlib.Logic.Function.Basic
import Mathlib.Algebra.Order.Ring.Int

/-!
# Roles

A role is created, edited or destroyed as the policy allows to the role the account
acts by, which is nobody's when its user is disabled, and as the validations accept
for the role of the account. The permissions a role computes to take in those of
everyone, and `administrator` is all of them; the everyone role keeps its position
and holds safe permissions only.

The scopes of the token stand as whether they allow `admin:write`, the id of a new
row is what the sequence gives, and the dates of a row and the log are left out.
-/
namespace Eunha.Roles
open Sanitizer (isWhitespace trim)

/-! ### The model -/

/-- `i64` used for its bits. -/
abbrev Flags := BitVec 64

namespace Flag
def administrator : Flags := 1 <<< 0
def inviteUsers : Flags := 1 <<< 16
def manageRoles : Flags := 1 <<< 17
def inviteBypassApproval : Flags := 1 <<< 21

def all : Flags := 1 <<< 23 - 1
def default : Flags := inviteUsers
def safe : Flags := inviteUsers ||| inviteBypassApproval

def names : List (String × Flags) :=
  [("administrator", administrator), ("view_devops", 1 <<< 1), ("view_audit_log", 1 <<< 2),
    ("view_dashboard", 1 <<< 3), ("manage_reports", 1 <<< 4), ("manage_federation", 1 <<< 5),
    ("manage_settings", 1 <<< 6), ("manage_blocks", 1 <<< 7), ("manage_taxonomies", 1 <<< 8),
    ("manage_appeals", 1 <<< 9), ("manage_users", 1 <<< 10), ("manage_invites", 1 <<< 11),
    ("manage_rules", 1 <<< 12), ("manage_announcements", 1 <<< 13),
    ("manage_custom_emojis", 1 <<< 14), ("manage_webhooks", 1 <<< 15),
    ("invite_users", inviteUsers), ("manage_roles", manageRoles),
    ("manage_user_access", 1 <<< 18), ("delete_user_data", 1 <<< 19), ("view_feeds", 1 <<< 20),
    ("invite_bypass_approval", inviteBypassApproval), ("manage_email_subscriptions", 1 <<< 22)]

def fromKeys (keys : List String) : Flags :=
  (keys.filterMap fun key => names.find? fun (name, _) => name = key).foldl
    (fun bits (_, bit) => bits ||| bit) 0
end Flag

def everyoneRoleId : ℤ := -99
def nobodyPosition : ℤ := -1
def positionLimit : ℤ := 2 ^ 31 - 1

/-- A row of `user_roles`. -/
structure Row where
  id : ℤ
  name : String
  color : String
  position : ℤ
  permissions : Flags
  highlighted : Bool
  collectionLimit : ℤ
  require2fa : Bool
  deriving DecidableEq

structure Role where
  id : Option ℤ
  name : String := ""
  color : String := ""
  position : ℤ := nobodyPosition
  permissions : Flags := 0
  highlighted : Bool := false
  collectionLimit : ℤ := 10
  computed : Flags := 0
  deriving DecidableEq

def Role.nobody : Role := { id := none }

def Role.isEveryone (r : Role) : Bool := r.id = some everyoneRoleId

def Role.can (r : Role) (anyOf : List Flags) : Bool :=
  anyOf.any fun flag => r.computed &&& flag = flag

def Role.overrides (r : Role) (other : Option Role) : Bool :=
  other.all fun other => other.position < r.position

/-- A row of `users`, of those that have an account. -/
structure User where
  disabled : Bool
  roleId : Option ℤ
  deriving DecidableEq

/-- `user_roles`, by its primary key. -/
structure RoleTable where
  find : ℤ → Option Row
  ids : ∀ id row, find id = some row → row.id = id

def RoleTable.set (t : RoleTable) (row : Row) : RoleTable where
  find := Function.update t.find row.id (some row)
  ids := by
    intro id r h
    by_cases hid : id = row.id
    · subst hid
      rw [Function.update_self] at h
      exact (Option.some.inj h) ▸ rfl
    · rw [Function.update_of_ne hid] at h
      exact t.ids id r h

def RoleTable.delete (t : RoleTable) (id : ℤ) : RoleTable where
  find := Function.update t.find id none
  ids := by
    intro j r h
    by_cases hid : j = id
    · subst hid
      rw [Function.update_self] at h
      cases h
    · rw [Function.update_of_ne hid] at h
      exact t.ids j r h

/-- The users are found by their accounts. -/
structure State where
  roles : RoleTable
  users : ℤ → Option User

def everyonePermissions (s : State) : Flags :=
  ((s.roles.find everyoneRoleId).map Row.permissions).getD Flag.default

def Row.role (row : Row) (everyonePermissions : Flags) : Role :=
  let everyone := row.id = everyoneRoleId
  { id := some row.id
    name := row.name
    color := row.color
    position := if everyone then nobodyPosition else row.position
    permissions := row.permissions
    highlighted := row.highlighted
    collectionLimit := row.collectionLimit
    computed :=
      if everyone then row.permissions
      else if row.permissions &&& Flag.administrator ≠ 0 then Flag.all
      else row.permissions ||| everyonePermissions }

def fromRow (s : State) (row : Row) : Role :=
  let everyone := row.id = everyoneRoleId
  let computed :=
    if everyone then row.permissions
    else if row.permissions &&& Flag.administrator ≠ 0 then Flag.all
    else row.permissions ||| everyonePermissions s
  { id := some row.id
    name := row.name
    color := row.color
    position := if everyone then nobodyPosition else row.position
    permissions := row.permissions
    highlighted := row.highlighted
    collectionLimit := row.collectionLimit
    computed := computed }

def ofAccount (s : State) (accountId : ℤ) : Option Role :=
  match (s.users accountId).bind fun u => s.roles.find (u.roleId.getD everyoneRoleId) with
  | some row => some (fromRow s row)
  | none =>
      if (s.users accountId).isSome then
        some { Role.nobody with
          id := some everyoneRoleId
          computed := Flag.default
          permissions := Flag.default }
      else none

def acting (s : State) (accountId : ℤ) : Role :=
  match (s.users accountId).map User.disabled with
  | none | some true => .nobody
  | some false => (ofAccount s accountId).getD .nobody

def actorRole (s : State) (accountId : ℤ) : Role := (ofAccount s accountId).getD .nobody

/-- `UserRolePolicy#update?` -/
def canUpdate (acting record : Role) : Bool :=
  acting.can [Flag.manageRoles] && (acting.overrides (some record) || acting.id = record.id)

/-- `UserRolePolicy#destroy?` -/
def canDestroy (acting record : Role) : Bool :=
  !record.isEveryone && acting.can [Flag.manageRoles] && acting.overrides (some record) &&
    acting.id ≠ record.id

/-- A value of a form: a number with what `as_i64` makes of it, a text, or another. -/
inductive Value where
  | number (asI64 : Option ℤ)
  | string (s : String)
  | other
  deriving DecidableEq

def stripSign : List Char → List Char
  | '+' :: s => s
  | '-' :: s => s
  | s => s

def isDigits (s : List Char) : Bool := s ≠ [] ∧ ∀ c ∈ s, c.isDigit

def digitsValue (s : List Char) : ℕ := s.foldl (fun n c => 10 * n + (c.toNat - '0'.toNat)) 0

/-- `parse::<i64>` -/
def parseI64 (s : List Char) : Option ℤ :=
  if isDigits (stripSign s) then
    let n : ℤ := digitsValue (stripSign s)
    let n := if s.head? = some '-' then -n else n
    if -2 ^ 63 ≤ n ∧ n < 2 ^ 63 then some n else none
  else none

def isExponent : List Char → Bool
  | [] => true
  | c :: s => (c = 'e' || c = 'E') && isDigits (stripSign s)

/-- `parse::<f64>().is_ok()` -/
def parsesF64 (s : List Char) : Bool :=
  let s := stripSign s
  if s.map Char.toLower ∈ ["inf".toList, "infinity".toList, "nan".toList] then true
  else
    let whole := s.takeWhile Char.isDigit
    match s.dropWhile Char.isDigit with
    | '.' :: rest =>
        (whole ≠ [] || rest.takeWhile Char.isDigit ≠ []) && isExponent (rest.dropWhile Char.isDigit)
    | rest => whole ≠ [] && isExponent rest

def integer : Value → Except String ℤ
  | .number (some n) => .ok n
  | .number none => .error "must be an integer"
  | .string s =>
      let s := trim s.toList
      match parseI64 s with
      | some n => .ok n
      | none => if parsesF64 s then .error "must be an integer" else .error "is not a number"
  | .other => .error "is not a number"

structure RoleForm where
  name : Option String := none
  color : Option String := none
  highlighted : Option Bool := none
  position : Option Value := none
  require2fa : Option Bool := none
  collectionLimit : Option Value := none
  permissionsAsKeys : Option (List String) := none

/-- What a save would write. -/
structure Draft where
  name : String
  color : String
  highlighted : Bool
  position : ℤ
  require2fa : Bool
  collectionLimit : ℤ
  permissions : Flags

def isHex (c : Char) : Bool := c.isDigit || ('a' ≤ c.toLower && c.toLower ≤ 'f')

/-- `(?i)\A#?(?:[A-F0-9]{3}){1,2}\z` -/
def cssColor (color : String) : Bool :=
  let digits := match color.toList with
    | '#' :: rest => rest
    | rest => rest
  (digits.length = 3 || digits.length = 6) && digits.all isHex

/-- `as i32` -/
def asI32 (n : ℤ) : ℤ := Int.bmod n (2 ^ 32)

/-- A number of the form, the stored one where it is left out, and the error. -/
def numeric (label : String) (value : Option Value) (stored : ℤ) : ℤ × List String :=
  match value.map integer with
  | none => (stored, [])
  | some (.ok n) => (n, [])
  | some (.error message) => (stored, [s!"{label} {message}"])

def when (p : Prop) [Decidable p] (message : String) : List String := if p then [message] else []

/-- `validate_own_role_edition` -/
def ownRoleErrors (permissions : Flags) (position : ℤ) (require2fa everyone : Bool)
    (existing : Row) (actor : Role) : List String :=
  if actor.id = some existing.id then
    when (permissions ≠ existing.permissions)
        "Permissions as keys cannot be changed with your current role" ++
      when (position ≠ existing.position ∧ ¬everyone)
        "Position cannot be changed with your current role" ++
      when (require2fa ≠ existing.require2fa ∧ permissions &&& Flag.administrator = 0)
        "Require 2fa cannot be changed with your current role"
  else []

def validate (form : RoleForm) (existing : Option Row) (actor : Role) :
    Except (List String) Draft :=
  let everyone : Bool := existing.any fun r => r.id = everyoneRoleId
  let name := form.name.getD ((existing.map Row.name).getD "")
  let color := form.color.getD ((existing.map Row.color).getD "")
  let (position, positionErrors) :=
    numeric "Position" form.position ((existing.map Row.position).getD 0)
  let (collectionLimit, limitErrors) :=
    numeric "Collection limit" form.collectionLimit ((existing.map Row.collectionLimit).getD 10)
  let permissions := match form.permissionsAsKeys with
    | some keys => Flag.fromKeys keys
    | none => (existing.map Row.permissions).getD 0
  let require2fa := form.require2fa.getD (existing.any Row.require2fa)
  let position := if everyone then nobodyPosition else position
  let errors := positionErrors ++ limitErrors ++
    when (¬everyone ∧ trim name.toList = []) "Name can't be blank" ++
    when (color ≠ "" ∧ ¬cssColor color) "Color is invalid" ++
    when (¬(-positionLimit ≤ position ∧ position ≤ positionLimit))
      s!"Position must be in -{positionLimit}..{positionLimit}" ++
    when (collectionLimit < 0) "Collection limit must be greater than or equal to 0" ++
    when (actor.computed &&& permissions ≠ permissions)
      "Permissions as keys cannot include permissions your current role does not possess" ++
    when (actor.position < position) "Position cannot be higher than your current role" ++
    when (everyone ∧ Flag.safe &&& permissions ≠ permissions)
      "Permissions as keys include permissions that are not safe for the base role" ++
    (existing.map fun existing =>
      ownRoleErrors permissions position require2fa everyone existing actor).getD []
  if errors ≠ [] then .error errors
  else
    .ok { name, color, require2fa, permissions
          highlighted := form.highlighted.getD (existing.any Row.highlighted)
          position := asI32 position
          collectionLimit := asI32 collectionLimit }

inductive AppError where
  | forbiddenScope
  | forbidden
  | notFound
  | unprocessable (message : String)
  | internal
  deriving DecidableEq

def refuse (errors : List String) : AppError :=
  let messages := ", ".intercalate errors
  .unprocessable s!"Validation failed: {messages}"

/-- The account a token is for, and whether it allows `admin:write`. -/
structure Auth where
  accountId : ℤ
  adminWrite : Bool

def requireScope (auth : Auth) : Except AppError Unit :=
  if auth.adminWrite then .ok () else .error .forbiddenScope

def authorize (allowed : Bool) : Except AppError Unit :=
  if allowed then .ok () else .error .forbidden

def Draft.row (d : Draft) (id : ℤ) : Row where
  id := id
  name := d.name
  color := d.color
  position := d.position
  permissions := d.permissions
  highlighted := d.highlighted
  collectionLimit := d.collectionLimit
  require2fa := d.require2fa

def find (s : State) (id : ℤ) : Except AppError Row :=
  match s.roles.find id with
  | some row => .ok row
  | none => .error .notFound

def createAdminRole (s : State) (auth : Auth) (form : RoleForm) (newId : ℕ) :
    Except AppError State := do
  requireScope auth
  let acting := acting s auth.accountId
  authorize (acting.can [Flag.manageRoles])
  let actor := actorRole s auth.accountId
  let draft ← (validate form none actor).mapError refuse
  if (s.roles.find newId).isSome then throw .internal
  return { s with roles := s.roles.set (draft.row newId) }

def updateAdminRole (s : State) (auth : Auth) (id : ℤ) (form : RoleForm) :
    Except AppError State := do
  requireScope auth
  let existing ← find s id
  let acting := acting s auth.accountId
  let record := existing.role (everyonePermissions s)
  authorize (canUpdate acting record)
  let actor := actorRole s auth.accountId
  let draft ← (validate form (some existing) actor).mapError refuse
  return { s with roles := s.roles.set (draft.row id) }

def deleteAdminRole (s : State) (auth : Auth) (id : ℤ) : Except AppError State := do
  requireScope auth
  let existing ← find s id
  let acting := acting s auth.accountId
  let record := existing.role (everyonePermissions s)
  authorize (canDestroy acting record)
  let users := fun account => (s.users account).map fun u =>
    if u.roleId = some id then { u with roleId := none } else u
  return { roles := s.roles.delete id, users := users }

inductive Request where
  | create (form : RoleForm) (newId : ℕ)
  | update (id : ℤ) (form : RoleForm)
  | destroy (id : ℤ)

def handle (s : State) (auth : Auth) : Request → Except AppError State
  | .create form newId => createAdminRole s auth form newId
  | .update id form => updateAdminRole s auth id form
  | .destroy id => deleteAdminRole s auth id

def serve (s : State) (auth : Auth) (request : Request) : State :=
  match handle s auth request with
  | .ok s' => s'
  | .error _ => s

/-! ### What the validations accept -/

theorem when_eq_nil {p : Prop} [Decidable p] {message : String} : when p message = [] ↔ ¬p := by
  unfold when
  split_ifs with h <;> simp [h]

theorem asI32_of_le {n : ℤ} (hlo : -positionLimit ≤ n) (hhi : n ≤ positionLimit) :
    asI32 n = n := by
  unfold positionLimit at hlo hhi
  exact Int.bmod_eq_of_le (by omega) (by omega)

structure Accepted (existing : Option Row) (actor : Role) (d : Draft) : Prop where
  elevation : actor.computed &&& d.permissions = d.permissions
  position : d.position ≤ actor.position
  everyone : ∀ row, existing = some row → row.id = everyoneRoleId →
    d.position = nobodyPosition ∧ Flag.safe &&& d.permissions = d.permissions
  own : ∀ row, existing = some row → actor.id = some row.id →
    d.permissions = row.permissions ∧
      (row.id ≠ everyoneRoleId → d.position = row.position) ∧
      (d.permissions &&& Flag.administrator = 0 → d.require2fa = row.require2fa)

theorem accepted_of_validate {form : RoleForm} {existing : Option Row} {actor : Role} {d : Draft}
    (h : validate form existing actor = .ok d) : Accepted existing actor d := by
  unfold validate at h
  simp only at h
  generalize (match form.permissionsAsKeys with
    | some keys => Flag.fromKeys keys
    | none => (existing.map Row.permissions).getD 0) = permissions at h
  generalize form.require2fa.getD (existing.any Row.require2fa) = require2fa at h
  generalize hposition : (if (existing.any fun r => r.id = everyoneRoleId) = true then
    nobodyPosition else (numeric "Position" form.position
      ((existing.map Row.position).getD 0)).1) = position at h
  split_ifs at h with herrors
  cases h
  rw [ne_eq, not_not] at herrors
  simp only [List.append_eq_nil_iff, when_eq_nil, ne_eq] at herrors
  obtain ⟨⟨⟨⟨⟨⟨-, hlimit⟩, -⟩, helevation⟩, hactor⟩, hsafe⟩, hown⟩ := herrors
  rw [not_not] at hlimit helevation
  have hcast : asI32 position = position := asI32_of_le hlimit.1 hlimit.2
  constructor
  · exact helevation
  · simp only [hcast]
    omega
  · rintro row rfl hid
    have heveryone : ((some row).any fun r => r.id = everyoneRoleId) = true := by simpa using hid
    rw [if_pos heveryone] at hposition
    exact ⟨hcast.trans hposition.symm, by_contra fun h => hsafe ⟨heveryone, h⟩⟩
  · rintro row rfl hid
    simp only [Option.map_some, Option.getD_some, ownRoleErrors, if_pos hid,
      List.append_eq_nil_iff, when_eq_nil, ne_eq] at hown
    obtain ⟨⟨hpermissions, hposition⟩, h2fa⟩ := hown
    refine ⟨by_contra hpermissions, fun hne => ?_, fun hadmin => ?_⟩
    · refine hcast.trans (by_contra fun h => hposition ⟨h, ?_⟩)
      simpa using hne
    · exact by_contra fun h => h2fa ⟨h, hadmin⟩

/-! ### What a request that succeeds has been allowed -/

theorem acting_eq_actorRole {s : State} {accountId : ℤ}
    (h : (acting s accountId).can [Flag.manageRoles] = true) :
    acting s accountId = actorRole s accountId := by
  have hnobody : Role.nobody.can [Flag.manageRoles] = false := by decide
  unfold acting at h ⊢
  cases hu : (s.users accountId).map User.disabled with
  | none =>
      rw [hu] at h
      exact absurd h (by simp [hnobody])
  | some disabled =>
      cases disabled with
      | true =>
          rw [hu] at h
          exact absurd h (by simp [hnobody])
      | false => rfl

theorem authorize_bind {α : Type} {allowed : Bool} {f : Unit → Except AppError α} {a : α}
    (h : (authorize allowed >>= f) = .ok a) : allowed = true ∧ f () = .ok a := by
  cases allowed with
  | false => cases h
  | true => exact ⟨rfl, h⟩

theorem requireScope_bind {α : Type} {auth : Auth} {f : Unit → Except AppError α} {a : α}
    (h : (requireScope auth >>= f) = .ok a) : f () = .ok a := by
  unfold requireScope at h
  split_ifs at h
  · exact h
  · cases h

theorem find_bind {α : Type} {s : State} {id : ℤ} {f : Row → Except AppError α} {a : α}
    (h : (find s id >>= f) = .ok a) : ∃ row, s.roles.find id = some row ∧ f row = .ok a := by
  unfold find at h
  cases hrow : s.roles.find id with
  | none =>
      rw [hrow] at h
      cases h
  | some row =>
      rw [hrow] at h
      exact ⟨row, rfl, h⟩

theorem validate_bind {α : Type} {form : RoleForm} {existing : Option Row} {actor : Role}
    {f : Draft → Except AppError α} {a : α}
    (h : ((validate form existing actor).mapError refuse >>= f) = .ok a) :
    ∃ d, Accepted existing actor d ∧ f d = .ok a := by
  cases hd : validate form existing actor with
  | error errors =>
      rw [hd] at h
      cases h
  | ok d =>
      rw [hd] at h
      exact ⟨d, accepted_of_validate hd, h⟩

theorem createAdminRole_ok {s s' : State} {auth : Auth} {form : RoleForm} {newId : ℕ}
    (h : createAdminRole s auth form newId = .ok s') :
    ∃ d, Accepted none (actorRole s auth.accountId) d ∧ s.roles.find newId = none ∧
      s' = { s with roles := s.roles.set (d.row newId) } := by
  obtain ⟨-, h⟩ := authorize_bind (requireScope_bind h)
  obtain ⟨d, hd, h⟩ := validate_bind h
  refine ⟨d, hd, ?_⟩
  simp only at h
  cases hid : s.roles.find newId with
  | some row =>
      rw [hid] at h
      cases h
  | none =>
      rw [hid] at h
      exact ⟨rfl, (Except.ok.inj h).symm⟩

theorem updateAdminRole_ok {s s' : State} {auth : Auth} {id : ℤ} {form : RoleForm}
    (h : updateAdminRole s auth id form = .ok s') :
    ∃ row d, s.roles.find id = some row ∧
      canUpdate (acting s auth.accountId) (row.role (everyonePermissions s)) = true ∧
      Accepted (some row) (actorRole s auth.accountId) d ∧
      s' = { s with roles := s.roles.set (d.row id) } := by
  obtain ⟨row, hrow, h⟩ := find_bind (requireScope_bind h)
  obtain ⟨hcan, h⟩ := authorize_bind h
  obtain ⟨d, hd, h⟩ := validate_bind h
  exact ⟨row, d, hrow, hcan, hd, (Except.ok.inj h).symm⟩

theorem deleteAdminRole_ok {s s' : State} {auth : Auth} {id : ℤ}
    (h : deleteAdminRole s auth id = .ok s') :
    ∃ row, s.roles.find id = some row ∧
      canDestroy (acting s auth.accountId) (row.role (everyonePermissions s)) = true ∧
      s'.roles = s.roles.delete id := by
  obtain ⟨row, hrow, h⟩ := find_bind (requireScope_bind h)
  obtain ⟨hcan, h⟩ := authorize_bind h
  exact ⟨row, hrow, hcan, (Except.ok.inj h) ▸ rfl⟩

/-! ### No escalation -/

def Row.rolePosition (row : Row) : ℤ :=
  if row.id = everyoneRoleId then nobodyPosition else row.position

/-- What the roles may become when a role acts on them. -/
structure Allowed (actor : Role) (before after : RoleTable) : Prop where
  granted : ∀ id row' bit, after.find id = some row' → row'.permissions.getLsbD bit = true →
    (∀ row, before.find id = some row → row.permissions.getLsbD bit = false) →
    actor.computed.getLsbD bit = true
  raised : ∀ id row', after.find id = some row' → before.find id ≠ some row' →
    row'.position ≤ actor.position
  touched : ∀ id row, before.find id = some row → after.find id ≠ some row →
    actor.id = some id ∨ row.rolePosition < actor.position
  own : ∀ id row, actor.id = some id → before.find id = some row →
    ∃ row', after.find id = some row' ∧ row'.permissions = row.permissions ∧
      row'.position = row.position ∧
      (row.permissions &&& Flag.administrator = 0 → row'.require2fa = row.require2fa)
  everyone : ∀ row', after.find everyoneRoleId = some row' →
    before.find everyoneRoleId = some row' ∨
      row'.position = nobodyPosition ∧ Flag.safe &&& row'.permissions = row'.permissions

theorem getLsbD_of_and_eq {a b : Flags} (h : a &&& b = b) {bit : ℕ} (hb : b.getLsbD bit = true) :
    a.getLsbD bit = true := by
  rw [← h, BitVec.getLsbD_and, Bool.and_eq_true] at hb
  exact hb.1

theorem find_set (t : RoleTable) (row : Row) (id : ℤ) :
    (t.set row).find id = if id = row.id then some row else t.find id := by
  unfold RoleTable.set
  by_cases h : id = row.id
  · subst h
    simp
  · simp [h]

theorem find_delete (t : RoleTable) (id j : ℤ) :
    (t.delete id).find j = if j = id then none else t.find j := by
  unfold RoleTable.delete
  by_cases h : j = id
  · subst h
    simp
  · simp [h]

theorem allowed_create {t : RoleTable} {actor : Role} {d : Draft} {newId : ℕ}
    (hd : Accepted none actor d) (hnew : t.find newId = none) :
    Allowed actor t (t.set (d.row newId)) := by
  have hfind : ∀ id, (t.set (d.row newId)).find id =
      if id = (newId : ℤ) then some (d.row newId) else t.find id := fun id => find_set t _ id
  constructor
  · intro id row' bit hrow' hbit hbefore
    rw [hfind] at hrow'
    split_ifs at hrow' with hid
    · cases hrow'
      exact getLsbD_of_and_eq hd.elevation hbit
    · rw [hbefore row' hrow'] at hbit
      cases hbit
  · intro id row' hrow' hne
    rw [hfind] at hrow'
    split_ifs at hrow' with hid
    · cases hrow'
      exact hd.position
    · exact absurd hrow' hne
  · intro id row hrow hne
    rw [hfind] at hne
    split_ifs at hne with hid
    · rw [hid, hnew] at hrow
      cases hrow
    · exact absurd hrow hne
  · intro id row _ hrow
    refine ⟨row, ?_, rfl, rfl, fun _ => rfl⟩
    rw [hfind, if_neg, hrow]
    rintro rfl
    rw [hnew] at hrow
    cases hrow
  · intro row' hrow'
    rw [hfind, if_neg (by unfold everyoneRoleId; omega)] at hrow'
    exact .inl hrow'

theorem actorRole_everyone {s : State} {accountId : ℤ} {row : Row}
    (hrow : s.roles.find everyoneRoleId = some row)
    (hid : (actorRole s accountId).id = some everyoneRoleId) :
    (actorRole s accountId).computed = row.permissions ∨
      (actorRole s accountId).computed = Flag.default := by
  unfold actorRole ofAccount at hid ⊢
  cases hf : (s.users accountId).bind fun u => s.roles.find (u.roleId.getD everyoneRoleId) with
  | some own =>
      rw [hf] at hid
      have hown : own.id = everyoneRoleId := Option.some.inj hid
      obtain ⟨u, -, hfound⟩ := Option.bind_eq_some_iff.mp hf
      have hkey := s.roles.ids _ own hfound
      rw [← hkey, hown, hrow] at hfound
      cases hfound
      exact .inl (if_pos hown)
  | none =>
      rw [hf] at hid
      simp only at hid ⊢
      split_ifs at hid ⊢ with hu
      · exact .inr rfl
      · cases hid

theorem not_own_everyone {s : State} {accountId : ℤ} {row : Row} {d : Draft}
    (hrow : s.roles.find everyoneRoleId = some row)
    (hid : (actorRole s accountId).id = some everyoneRoleId)
    (hcan : (actorRole s accountId).can [Flag.manageRoles] = true)
    (hd : Accepted (some row) (actorRole s accountId) d) : False := by
  have hrowId : row.id = everyoneRoleId := s.roles.ids _ row hrow
  have hcan : (actorRole s accountId).computed &&& Flag.manageRoles = Flag.manageRoles := by
    simpa [Role.can] using hcan
  rcases actorRole_everyone hrow hid with hcomputed | hcomputed
  · have hsafe := (hd.everyone row rfl hrowId).2
    rw [(hd.own row rfl (hrowId ▸ hid)).1] at hsafe
    rw [hcomputed] at hcan
    have hbit : (Flag.safe &&& row.permissions).getLsbD 17 = true := by
      rw [hsafe]
      exact getLsbD_of_and_eq hcan (by decide)
    rw [BitVec.getLsbD_and, Bool.and_eq_true] at hbit
    exact absurd hbit.1 (by decide)
  · rw [hcomputed] at hcan
    exact absurd hcan (by decide)

theorem allowed_update {s : State} {accountId : ℤ} {id : ℤ} {row : Row} {d : Draft}
    (hrow : s.roles.find id = some row)
    (hcan : canUpdate (acting s accountId) (row.role (everyonePermissions s)) = true)
    (hd : Accepted (some row) (actorRole s accountId) d) :
    Allowed (actorRole s accountId) s.roles (s.roles.set (d.row id)) := by
  have hfind : ∀ j, (s.roles.set (d.row id)).find j =
      if j = id then some (d.row id) else s.roles.find j := fun j => find_set s.roles _ j
  have hrowId : row.id = id := s.roles.ids id row hrow
  unfold canUpdate at hcan
  rw [Bool.and_eq_true, Bool.or_eq_true] at hcan
  obtain ⟨hmanage, hover⟩ := hcan
  rw [acting_eq_actorRole hmanage] at hover
  rw [acting_eq_actorRole hmanage] at hmanage
  constructor
  · intro j row' bit hrow' hbit hbefore
    rw [hfind] at hrow'
    split_ifs at hrow' with hj
    · cases hrow'
      exact getLsbD_of_and_eq hd.elevation hbit
    · rw [hbefore row' hrow'] at hbit
      cases hbit
  · intro j row' hrow' hne
    rw [hfind] at hrow'
    split_ifs at hrow' with hj
    · cases hrow'
      exact hd.position
    · exact absurd hrow' hne
  · intro j row' hrow' hne
    rw [hfind] at hne
    split_ifs at hne with hj
    · subst hj
      cases hrow.symm.trans hrow'
      rcases hover with hover | hown
      · exact .inr (by simpa [Role.overrides, Row.role, Row.rolePosition] using hover)
      · exact .inl (by simpa [Row.role, hrowId] using hown)
    · exact absurd hrow' hne
  · intro j row' hj hrow'
    by_cases hji : j = id
    · subst hji
      cases hrow.symm.trans hrow'
      obtain ⟨hpermissions, hposition, h2fa⟩ := hd.own row rfl (hrowId ▸ hj)
      refine ⟨d.row j, by rw [hfind, if_pos rfl], hpermissions, hposition ?_, ?_⟩
      · rintro heveryone
        rw [hrowId] at heveryone
        subst heveryone
        exact not_own_everyone hrow hj hmanage hd
      · rw [← hpermissions]
        exact h2fa
    · exact ⟨row', by rw [hfind, if_neg hji, hrow'], rfl, rfl, fun _ => rfl⟩
  · intro row' hrow'
    rw [hfind] at hrow'
    split_ifs at hrow' with hid
    · cases hrow'
      exact .inr (hd.everyone row rfl (hrowId.trans hid.symm))
    · exact .inl hrow'

theorem allowed_delete {s : State} {accountId : ℤ} {id : ℤ} {row : Row}
    (hrow : s.roles.find id = some row)
    (hcan : canDestroy (acting s accountId) (row.role (everyonePermissions s)) = true) :
    Allowed (actorRole s accountId) s.roles (s.roles.delete id) := by
  have hfind := find_delete s.roles id
  have hrowId : row.id = id := s.roles.ids id row hrow
  unfold canDestroy at hcan
  simp only [Bool.and_eq_true] at hcan
  obtain ⟨⟨⟨heveryone, hmanage⟩, hover⟩, hown⟩ := hcan
  rw [acting_eq_actorRole hmanage] at hover hown
  have hown : (actorRole s accountId).id ≠ some id := by simpa [Row.role, hrowId] using hown
  constructor
  · intro j row' bit hrow' hbit hbefore
    rw [hfind] at hrow'
    split_ifs at hrow' with hj
    rw [hbefore row' hrow'] at hbit
    cases hbit
  · intro j row' hrow' hne
    rw [hfind] at hrow'
    split_ifs at hrow' with hj
    exact absurd hrow' hne
  · intro j row' hrow' hne
    rw [hfind] at hne
    split_ifs at hne with hj
    · subst hj
      cases hrow.symm.trans hrow'
      exact .inr (by simpa [Role.overrides, Row.role, Row.rolePosition] using hover)
    · exact absurd hrow' hne
  · intro j row' hj hrow'
    refine ⟨row', ?_, rfl, rfl, fun _ => rfl⟩
    rw [hfind, if_neg, hrow']
    rintro rfl
    exact hown hj
  · intro row' hrow'
    rw [hfind] at hrow'
    split_ifs at hrow'
    exact .inl hrow'

/-- A request that succeeds changes the roles no further than the role of its account
allows, and one that is refused changes nothing. -/
theorem no_privilege_escalation (s : State) (auth : Auth) (request : Request) :
    match handle s auth request with
    | .ok s' => serve s auth request = s' ∧ Allowed (actorRole s auth.accountId) s.roles s'.roles
    | .error _ => serve s auth request = s := by
  unfold serve
  cases h : handle s auth request with
  | error e => rfl
  | ok s' =>
      refine ⟨rfl, ?_⟩
      cases request with
      | create form newId =>
          obtain ⟨d, hd, hnew, rfl⟩ := createAdminRole_ok h
          exact allowed_create hd hnew
      | update id form =>
          obtain ⟨row, d, hrow, hcan, hd, rfl⟩ := updateAdminRole_ok h
          exact allowed_update hrow hcan hd
      | destroy id =>
          obtain ⟨row, hrow, hcan, hroles⟩ := deleteAdminRole_ok h
          rw [hroles]
          exact allowed_delete hrow hcan

end Eunha.Roles
