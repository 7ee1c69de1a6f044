import Eunha.Roles
import Eunha.Scopes
import Mathlib

/-!
# Changing the role of a user

A user who may manage roles gives another one a role, or none. The role of the other has to
be lower, and the new one may not be higher: positions are all that is compared, so it may
hold permissions that the one who gives it does not have.
-/
namespace Eunha.RoleChanges
open Roles

/-! ### The request -/

/-- The account of a token and what it is for. -/
structure Auth where
  accountId : ℤ
  scopes : List String

/-- The users, and whether each account is local. -/
structure Store where
  state : State
  isLocal : ℤ → Option Bool

def requireScope (auth : Auth) : Except AppError Unit :=
  if Scopes.hasScope auth.scopes "admin:write:accounts" then .ok () else .error .forbiddenScope

/-- What `subject` finds of an account. -/
structure Subject where
  user : User
  acting : Role
  role : Option Role

def subject (s : Store) (auth : Auth) (accountId : ℤ) : Except AppError Subject :=
  match s.isLocal accountId with
  | none => .error .notFound
  | some isLocal =>
      match s.state.users accountId with
      | none => .error .forbidden
      | some user =>
          if isLocal then
            .ok ⟨user, Roles.acting s.state auth.accountId, ofAccount s.state accountId⟩
          else .error .forbidden

def formRoleId : Option Value → Except AppError (Option ℤ)
  | none => .ok none
  | some (.string v) =>
      if Sanitizer.trim v.toList = [] then .ok none
      else
        match parseI64 (Sanitizer.trim v.toList) with
        | none => .error (.unprocessable "Validation failed: Role must exist")
        | some n => .ok (some n)
  | some (.number n) => .ok n
  | some .other => .ok none

def validateRoleElevation (s : Store) (acting : Role) : Option ℤ → Except AppError Unit
  | none => .ok ()
  | some roleId =>
      match s.state.roles.find roleId with
      | none => .error (.unprocessable "Validation failed: Role must exist")
      | some row =>
          if acting.position < row.position then
            .error (.unprocessable
              "Validation failed: Role cannot be higher than your current role")
          else .ok ()

def setRole (s : Store) (accountId : ℤ) (user : User) (roleId : Option ℤ) : Store where
  state :=
    { s.state with
      users := Function.update s.state.users accountId (some { user with roleId := roleId }) }
  isLocal := s.isLocal

def changeUserRole (s : Store) (auth : Auth) (id : ℤ) (form : Option Value) :
    Except AppError Store := do
  requireScope auth
  let subject ← subject s auth id
  authorize (subject.acting.can [Flag.manageRoles] && subject.acting.overrides subject.role)
  let roleId ← formRoleId form
  let roleId := roleId.filter fun id => id ≠ everyoneRoleId
  validateRoleElevation s subject.acting roleId
  return setRole s id subject.user roleId

/-! ### What is compared -/

structure Within (s s' : Store) (actorId id : ℤ) : Prop where
  granted : ∀ role, ofAccount s'.state id = some role →
    role.computed &&& (acting s.state actorId).computed = role.computed ∨
      ∃ before, ofAccount s.state id = some before ∧ role.computed = before.computed
  below : ∀ role, ofAccount s'.state id = some role →
    role.position < (acting s.state actorId).position

/-- A change: who makes it, over whom, to which role. -/
structure Changed (s s' : Store) (actorId id : ℤ) : Prop where
  manages : (acting s.state actorId).can [Flag.manageRoles] = true
  overridden : (acting s.state actorId).overrides (ofAccount s.state id) = true
  /-- The role is everyone's, or one of the table that is not higher than the actor's. -/
  role : ∃ user user', s.state.users id = some user ∧ s'.state.users id = some user' ∧
    user'.disabled = user.disabled ∧
    (user'.roleId = none ∨ ∃ row, user'.roleId = some row.id ∧ row.id ≠ everyoneRoleId ∧
      s.state.roles.find row.id = some row ∧
      row.position ≤ (acting s.state actorId).position ∧
      ofAccount s'.state id = some (fromRow s.state row))
  others : ∀ other, other ≠ id → s'.state.users other = s.state.users other
  roles : s'.state.roles = s.state.roles

theorem fromRow_congr {s s' : State} (h : s'.roles = s.roles) (row : Row) :
    fromRow s' row = fromRow s row := by
  unfold fromRow everyonePermissions
  rw [h]

theorem users_setRole (s : Store) (id : ℤ) (user : User) (roleId : Option ℤ) :
    (setRole s id user roleId).state.users =
      Function.update s.state.users id (some { user with roleId := roleId }) := rfl

theorem ofAccount_setRole (s : Store) (id : ℤ) (user : User) {row : Row}
    (h : s.state.roles.find row.id = some row) :
    ofAccount (setRole s id user (some row.id)).state id = some (fromRow s.state row) := by
  have hfind : (((setRole s id user (some row.id)).state.users id).bind fun u =>
      (setRole s id user (some row.id)).state.roles.find (u.roleId.getD everyoneRoleId)) =
      some row := by
    rw [users_setRole, Function.update_self, Option.bind_some, Option.getD_some]
    exact h
  unfold ofAccount
  rw [hfind]
  simp only [Option.some.injEq]
  exact fromRow_congr rfl row

theorem bind_eq_ok {ε α β : Type} {x : Except ε α} {f : α → Except ε β} {b : β}
    (h : x >>= f = .ok b) : ∃ a, x = .ok a ∧ f a = .ok b := by
  cases x with
  | error e => cases h
  | ok a => exact ⟨a, rfl, h⟩

theorem elevation_ok {s : Store} {acting : Role} {roleId : Option ℤ}
    (h : validateRoleElevation s acting roleId = .ok ()) :
    roleId = none ∨ ∃ row, roleId = some row.id ∧ s.state.roles.find row.id = some row ∧
      row.position ≤ acting.position := by
  cases roleId with
  | none => exact Or.inl rfl
  | some roleId =>
      right
      simp only [validateRoleElevation] at h
      cases hfind : s.state.roles.find roleId with
      | none =>
          rw [hfind] at h
          cases h
      | some row =>
          rw [hfind] at h
          simp only at h
          have hid := s.state.roles.ids roleId row hfind
          by_cases hlt : acting.position < row.position
          · rw [if_pos hlt] at h
            cases h
          · exact ⟨row, by rw [hid], hid ▸ hfind, not_lt.mp hlt⟩

theorem subject_ok {s : Store} {auth : Auth} {id : ℤ} {found : Subject}
    (h : subject s auth id = .ok found) :
    s.state.users id = some found.user ∧ found.acting = acting s.state auth.accountId ∧
      found.role = ofAccount s.state id := by
  unfold subject at h
  cases hlocal : s.isLocal id with
  | none =>
      rw [hlocal] at h
      cases h
  | some isLocal =>
      rw [hlocal] at h
      simp only at h
      cases huser : s.state.users id with
      | none =>
          rw [huser] at h
          cases h
      | some user =>
          rw [huser] at h
          simp only at h
          cases isLocal with
          | false => cases h
          | true =>
              cases h
              exact ⟨rfl, rfl, rfl⟩

/-- A change that succeeds gives a role that is not higher than the actor's, and no more. -/
theorem changed_of_ok (s s' : Store) (auth : Auth) (id : ℤ) (form : Option Value)
    (h : changeUserRole s auth id form = .ok s') : Changed s s' auth.accountId id := by
  unfold changeUserRole at h
  obtain ⟨_, -, h⟩ := bind_eq_ok h
  obtain ⟨found, hfound, h⟩ := bind_eq_ok h
  obtain ⟨_, hauthorized, h⟩ := bind_eq_ok h
  obtain ⟨roleId, -, h⟩ := bind_eq_ok h
  obtain ⟨_, helevation, h⟩ := bind_eq_ok h
  obtain ⟨huser, hacting, hrole⟩ := subject_ok hfound
  have hallowed : (found.acting.can [Flag.manageRoles] && found.acting.overrides found.role)
      = true := by
    unfold authorize at hauthorized
    split_ifs at hauthorized with hallowed
    exact hallowed
  rw [Bool.and_eq_true, hacting, hrole] at hallowed
  rw [hacting] at helevation
  cases h
  refine ⟨hallowed.1, hallowed.2, ⟨found.user, { found.user with
    roleId := roleId.filter fun id => id ≠ everyoneRoleId }, huser, ?_, rfl, ?_⟩, ?_, rfl⟩
  · rw [users_setRole, Function.update_self]
  · rcases elevation_ok helevation with hnone | ⟨row, hrow, hfind, hposition⟩
    · exact Or.inl hnone
    · refine Or.inr ⟨row, hrow, ?_, hfind, hposition, ?_⟩
      · exact of_decide_eq_true (Option.mem_filter_iff.mp hrow).2
      · rw [hrow]
        exact ofAccount_setRole s id found.user hfind
  · intro other hne
    rw [users_setRole, Function.update_of_ne hne]

/-! ### Two roles of one position -/

/-- A row of `user_roles` at position 10. -/
def tenth (id : ℤ) (permissions : Flags) : Row where
  id := id
  name := ""
  color := ""
  position := 10
  permissions := permissions
  highlighted := false
  collectionLimit := 10
  require2fa := false

def twoRoles : RoleTable where
  find id := if id = 1 then some (tenth 1 Flag.manageRoles)
    else if id = 2 then some (tenth 2 Flag.administrator) else none
  ids id row h := by
    split_ifs at h with h₁ h₂
    · cases h
      exact h₁.symm
    · cases h
      exact h₂.symm

/-- Account 7 has role 1, and account 8 none. -/
def twoUsers : Store where
  state :=
    { roles := twoRoles
      users := fun id => if id = 7 then some ⟨false, some 1⟩
        else if id = 8 then some ⟨false, none⟩ else none }
  isLocal := fun _ => some true

def manager : Auth where
  accountId := 7
  scopes := ["admin:write"]

example : formRoleId (some (.string " 2 ")) = .ok (some 2) := by decide +kernel

theorem role_given : changeUserRole twoUsers manager 8 (some (.number (some 2))) =
    .ok (setRole twoUsers 8 ⟨false, none⟩ (some 2)) := rfl

theorem changed_of_ok_two :
    Changed twoUsers (setRole twoUsers 8 ⟨false, none⟩ (some 2)) 7 8 :=
  changed_of_ok twoUsers _ manager 8 (some (.number (some 2))) role_given

/-- A user who manages roles makes another one an administrator. -/
theorem administrator_given : ∃ s',
    changeUserRole twoUsers manager 8 (some (.number (some 2))) = .ok s' ∧
      ¬ Within twoUsers s' 7 8 := by
  refine ⟨_, role_given, fun h => ?_⟩
  have hbelow := h.below _ (ofAccount_setRole twoUsers 8 ⟨false, none⟩
    (show twoUsers.state.roles.find (tenth 2 Flag.administrator).id =
      some (tenth 2 Flag.administrator) from rfl))
  revert hbelow
  decide +kernel

end Eunha.RoleChanges
