import Eunha.Roles
import Eunha.Transactions
import Mathlib

/-!
# Moderation actions on an account

A moderator warns an account, disables its user, marks its media as sensitive, limits it or
suspends it. The strike, the log and the reports that are resolved go into one transaction with
what the action does, except for a suspension, which has a transaction of its own after that.

Each statement may fail. A read of several queries is one statement, the user of an account is
found by the account, the row that blocks the address of a suspended user is left out, and the id
of the new strike is what the sequence gives. The search index, webhooks, streaming, the mail and
the worker come after and cannot fail.
-/
namespace Eunha.AccountActions
open Programs Programs.Program Transactions
open Roles (AppError Role authorize)

/-! ### The rows -/

/-- `TYPES` -/
inductive Kind where
  | none | disable | sensitive | silence | suspend
  deriving DecidableEq

def Kind.name : Kind → String
  | .none => "none"
  | .disable => "disable"
  | .sensitive => "sensitive"
  | .silence => "silence"
  | .suspend => "suspend"

def types : List Kind := [.none, .disable, .sensitive, .silence, .suspend]

/-- `warning_action::parse` -/
def Kind.code : Kind → ℤ
  | .none => 0
  | .disable => 1000
  | .sensitive => 2000
  | .silence => 3000
  | .suspend => 4000

structure AccountRow where
  sensitized : Bool := false
  silenced : Bool := false
  suspended : Bool := false
  suspensionOrigin : Option ℤ := none
  deriving DecidableEq

structure Report where
  id : ℤ
  targetAccountId : ℤ
  statusIds : List ℤ := []
  actionTaken : Bool := false
  actionTakenBy : Option ℤ := none
  deriving DecidableEq

structure Strike where
  id : ℤ
  accountId : ℤ
  targetAccountId : ℤ
  reportId : Option ℤ
  action : ℤ
  text : String
  statusIds : Option (List String)
  deriving DecidableEq

inductive LogTarget where
  | user (accountId : ℤ) (acct : String)
  | account (id : ℤ) (acct : String)
  | accountWarning (id : ℤ) (acct : String)
  | report (id : ℤ)
  deriving DecidableEq

structure Entry where
  actorId : ℤ
  action : String
  target : LogTarget
  deriving DecidableEq

structure Store where
  roles : Roles.State
  accounts : ℤ → Option AccountRow
  presets : ℤ → Option String
  reports : List Report
  strikes : List Strike
  log : List Entry
  deletionRequests : List ℤ

/-- The account that is acted on, as it was read. -/
structure Target where
  id : ℤ
  acct : String

structure AccountAction where
  kind : Option String := none
  reportId : Option ℤ := none
  warningPresetId : Option ℤ := none
  text : Option String := none
  includeStatuses : Bool := true

inductive Suspension where
  | openTx | request | mark | blockEmail | commit
  deriving DecidableEq

inductive Statement where
  | findReport | findPreset | acting | ofAccount | findUser | openTx | log | act | strike
  | logWarning | openReports | logResolve (id : ℤ) | resolve (id : ℤ) | commit
  | suspension (step : Suspension)
  deriving DecidableEq

abbrev Action := Program Statement (Db Store) AppError

/-! ### What the statements do -/

def Store.logged (s : Store) (entry : Entry) : Store := { s with log := s.log ++ [entry] }

def Store.setAccount (s : Store) (id : ℤ) (change : AccountRow → AccountRow) : Store :=
  { s with accounts := Function.update s.accounts id ((s.accounts id).map change) }

def Store.disable (s : Store) (id : ℤ) : Store :=
  { s with
    roles :=
      { s.roles with
        users := Function.update s.roles.users id
          ((s.roles.users id).map fun user => { user with disabled := true }) } }

def Store.addStrike (s : Store) (strike : Strike) : Store :=
  { s with strikes := s.strikes ++ [strike] }

def Report.taken (actorId : ℤ) (r : Report) : Report :=
  { r with actionTaken := true, actionTakenBy := some actorId }

def Store.resolve (s : Store) (actorId id : ℤ) : Store :=
  { s with reports := s.reports.map fun r => if r.id = id then r.taken actorId else r }

/-- `create_deletion_request` -/
def Store.request (s : Store) (id : ℤ) : Store :=
  if id ∈ s.deletionRequests then s
  else { s with deletionRequests := s.deletionRequests ++ [id] }

def openReports (s : Store) (targetId : ℤ) : List ℤ :=
  ((s.reports.filter fun r => r.targetAccountId = targetId && !r.actionTaken).map
    Report.id).insertionSort (· ≤ ·)

/-! ### Saving an action -/

def manageReports : Roles.Flags := 1 <<< 4
def manageUsers : Roles.Flags := 1 <<< 10
def instanceActorId : ℤ := -99
def suspensionOriginLocal : ℤ := 0

/-- `validates :type` -/
def validate (kind : Option String) : Except AppError Kind :=
  match kind.filter fun k => k ≠ "" with
  | none => .error (.unprocessable "Validation failed: Type can't be blank")
  | some k =>
      match types.find? fun kind => kind.name = k with
      | some kind => .ok kind
      | none => .error (.unprocessable "Validation failed: Type is not included in the list")

def warnPolicy (acting : Role) (target : Option Role) : Bool :=
  acting.can [manageUsers, manageReports] && acting.overrides target

def findOptional {α : Type} (l : Statement) (find : Store → ℤ → Option α) :
    Option ℤ → Action (Option α)
  | none => done none
  | some id => do
      let row ← ask l .internal fun d => find d.committed id
      ofExcept (row.elim (.error .notFound) fun row => .ok (some row))

def findReport (s : Store) (id : ℤ) : Option Report := s.reports.find? fun r => r.id = id

def write (l : Statement) (move : Store → Store) : Action Unit :=
  Transactions.write l .internal move

/-- What the moderator and the target may and are. -/
structure Parties where
  acting : Role
  targetRole : Option Role
  user : Option Roles.User

def handleType (actorId : ℤ) (target : Target) (p : Parties) : Kind → Action Unit
  | .none => done ()
  | .disable => do
      ofExcept (authorize p.user.isSome)
      ofExcept (authorize (p.acting.can [manageUsers] && p.acting.overrides p.targetRole))
      write .log fun s => s.logged ⟨actorId, "disable", .user target.id target.acct⟩
      write .act fun s => s.disable target.id
  | .sensitive => do
      ofExcept (authorize (warnPolicy p.acting p.targetRole))
      write .log fun s => s.logged ⟨actorId, "sensitive", .account target.id target.acct⟩
      write .act fun s => s.setAccount target.id fun a => { a with sensitized := true }
  | .silence => do
      ofExcept (authorize (warnPolicy p.acting p.targetRole))
      write .log fun s => s.logged ⟨actorId, "silence", .account target.id target.acct⟩
      write .act fun s => s.setAccount target.id fun a => { a with silenced := true }
  | .suspend => do
      ofExcept (authorize (warnPolicy p.acting p.targetRole && target.id ≠ instanceActorId))
      write .log fun s => s.logged ⟨actorId, "suspend", .account target.id target.acct⟩

def textForWarning (preset text : Option String) : String :=
  "\n\n".intercalate ([preset, text].filterMap id)

/-- The row of `process_strike!`. -/
def strikeRow (actorId : ℤ) (target : Target) (action : AccountAction) (newId : ℤ) (kind : Kind)
    (report : Option Report) (text : String) : Strike where
  id := newId
  accountId := actorId
  targetAccountId := target.id
  reportId := action.reportId
  action := kind.code
  text := text
  statusIds :=
    (report.filter fun _ => action.includeStatuses).map fun r => r.statusIds.map toString

/-- `create_log!`: only a warning with words of its own is worth a line. -/
def createLog (actorId : ℤ) (target : Target) (newId : ℤ) (kind : Kind) (text : String) :
    Action Unit :=
  if text ≠ "" ∧ kind = .none then
    write .logWarning fun s => s.logged ⟨actorId, "create", .accountWarning newId target.acct⟩
  else done ()

/-- The reports of `process_reports!`. -/
def reportsToResolve (target : Target) (kind : Kind) (report : Option Report) : Action (List ℤ) :=
  if kind = .none then done (report.map Report.id).toList
  else ask .openReports .internal fun d => openReports d.working target.id

def resolveOne (actorId : ℤ) (acting : Role) (id : ℤ) : Action Unit := do
  ofExcept (authorize (acting.can [manageReports]))
  write (.logResolve id) fun s => s.logged ⟨actorId, "resolve", .report id⟩
  write (.resolve id) fun s => s.resolve actorId id

def saveInTransaction (actorId : ℤ) (target : Target) (action : AccountAction) (newId : ℤ) :
    Action Kind := do
  let kind ← ofExcept (validate action.kind)
  let report ← findOptional .findReport findReport action.reportId
  let preset ← findOptional .findPreset Store.presets action.warningPresetId
  let text := textForWarning preset action.text
  let acting ← ask .acting .internal fun d => Roles.acting d.committed.roles actorId
  let targetRole ← ask .ofAccount .internal fun d => Roles.ofAccount d.committed.roles target.id
  let user ← ask .findUser .internal fun d => d.committed.roles.users target.id
  openTx .openTx .internal
  handleType actorId target ⟨acting, targetRole, user⟩ kind
  write .strike fun s => s.addStrike (strikeRow actorId target action newId kind report text)
  createLog actorId target newId kind text
  let reports ← reportsToResolve target kind report
  each (resolveOne actorId acting) reports
  return kind

def suspend (accountId origin : ℤ) (blockEmail : Bool) : Action Unit := do
  openTx (.suspension .openTx) .internal
  write (.suspension .request) fun s => s.request accountId
  write (.suspension .mark) fun s =>
    s.setAccount accountId fun a => { a with suspended := true, suspensionOrigin := some origin }
  if blockEmail then write (.suspension .blockEmail) fun s => s
  commit (.suspension .commit) .internal

def save (actorId : ℤ) (target : Target) (action : AccountAction) (newId : ℤ) : Action Unit := do
  let kind ← saveInTransaction actorId target action newId
  commit .commit .internal
  if kind = .suspend then suspend target.id suspensionOriginLocal true

/-! ### What a save should do -/

def Effect (t : Store) (targetId : ℤ) : Kind → Prop
  | .none => True
  | .disable => ∃ user, t.roles.users targetId = some user ∧ user.disabled = true
  | .sensitive => ∃ row, t.accounts targetId = some row ∧ row.sensitized = true
  | .silence => ∃ row, t.accounts targetId = some row ∧ row.silenced = true
  | .suspend => ∃ row, t.accounts targetId = some row ∧ row.suspended = true

def Resolves (s : Store) (target : Target) (action : AccountAction) (kind : Kind) (id : ℤ) : Prop :=
  if kind = .none then action.reportId = some id
  else ∃ r ∈ s.reports, r.id = id ∧ r.targetAccountId = target.id ∧ r.actionTaken = false

structure Applied (s t : Store) (actorId : ℤ) (target : Target) (action : AccountAction)
    (kind : Kind) : Prop where
  effect : Effect t target.id kind
  strike : ∃ strike, t.strikes = s.strikes ++ [strike] ∧ strike.accountId = actorId ∧
    strike.targetAccountId = target.id ∧ strike.action = kind.code ∧
    strike.reportId = action.reportId
  reports : List.Forall₂ (fun r r' =>
      (Resolves s target action kind r.id → r' = r.taken actorId) ∧
        (¬ Resolves s target action kind r.id → r' = r)) s.reports t.reports

def AllOrNothing (s : Store) (actorId : ℤ) (target : Target) (action : AccountAction)
    (r : Db Store × Except AppError Unit) : Prop :=
  (∀ e, r.2 = .error e → r.1.committed = s) ∧
    (r.2 = .ok () → ∃ kind, validate action.kind = .ok kind ∧
      Applied s r.1.committed actorId target action kind)

/-! ### When the transaction goes through -/

def parties (s : Store) (actorId : ℤ) (target : Target) : Parties where
  acting := Roles.acting s.roles actorId
  targetRole := Roles.ofAccount s.roles target.id
  user := s.roles.users target.id

def Permitted (target : Target) (p : Parties) : Kind → Prop
  | .none => True
  | .disable => p.user.isSome = true ∧
      (p.acting.can [manageUsers] && p.acting.overrides p.targetRole) = true
  | .sensitive | .silence => warnPolicy p.acting p.targetRole = true
  | .suspend => (warnPolicy p.acting p.targetRole && target.id ≠ instanceActorId) = true

def Written (fails : Statement → Bool) : Kind → Prop
  | .none => True
  | .disable | .sensitive | .silence => fails .log = false ∧ fails .act = false
  | .suspend => fails .log = false

def warningText (s : Store) (action : AccountAction) : String :=
  textForWarning (action.warningPresetId.bind s.presets) action.text

def toResolve (s : Store) (target : Target) (action : AccountAction) (kind : Kind) : List ℤ :=
  if kind = .none then ((action.reportId.bind (findReport s)).map Report.id).toList
  else openReports s target.id

/-- What is named is there, the moderator may do all of it, and no statement it takes fails. -/
structure GoesThrough (fails : Statement → Bool) (s : Store) (actorId : ℤ) (target : Target)
    (action : AccountAction) (kind : Kind) : Prop where
  report : ∀ id, action.reportId = some id →
    fails .findReport = false ∧ (findReport s id).isSome = true
  preset : ∀ id, action.warningPresetId = some id →
    fails .findPreset = false ∧ (s.presets id).isSome = true
  acting : fails .acting = false
  ofAccount : fails .ofAccount = false
  findUser : fails .findUser = false
  openTx : fails .openTx = false
  permitted : Permitted target (parties s actorId target) kind
  written : Written fails kind
  strike : fails .strike = false
  logWarning : warningText s action ≠ "" ∧ kind = .none → fails .logWarning = false
  openReports : kind ≠ .none → fails .openReports = false
  resolve : ∀ id ∈ toResolve s target action kind,
    (parties s actorId target).acting.can [manageReports] = true ∧
      fails (.logResolve id) = false ∧ fails (.resolve id) = false

/-! ### What the transaction leaves -/

def handled (s : Store) (actorId : ℤ) (target : Target) : Kind → Store
  | .none => s
  | .disable =>
      (s.logged ⟨actorId, "disable", .user target.id target.acct⟩).disable target.id
  | .sensitive =>
      (s.logged ⟨actorId, "sensitive", .account target.id target.acct⟩).setAccount target.id
        fun a => { a with sensitized := true }
  | .silence =>
      (s.logged ⟨actorId, "silence", .account target.id target.acct⟩).setAccount target.id
        fun a => { a with silenced := true }
  | .suspend => s.logged ⟨actorId, "suspend", .account target.id target.acct⟩

def struck (s : Store) (actorId : ℤ) (target : Target) (action : AccountAction) (newId : ℤ)
    (kind : Kind) : Store :=
  (handled s actorId target kind).addStrike
    (strikeRow actorId target action newId kind (action.reportId.bind (findReport s))
      (warningText s action))

def warned (s : Store) (actorId : ℤ) (target : Target) (action : AccountAction) (newId : ℤ)
    (kind : Kind) : Store :=
  if warningText s action ≠ "" ∧ kind = .none then
    (struck s actorId target action newId kind).logged
      ⟨actorId, "create", .accountWarning newId target.acct⟩
  else struck s actorId target action newId kind

def resolveAll (s : Store) (actorId : ℤ) (ids : List ℤ) : Store :=
  ids.foldl (fun s id => (s.logged ⟨actorId, "resolve", .report id⟩).resolve actorId id) s

def left (s : Store) (actorId : ℤ) (target : Target) (action : AccountAction) (newId : ℤ)
    (kind : Kind) : Store :=
  resolveAll (warned s actorId target action newId kind) actorId (toResolve s target action kind)

section
variable {fails : Statement → Bool} {s : Store} {actorId : ℤ} {target : Target}
  {action : AccountAction} {newId : ℤ} {kind : Kind}

theorem authorize_ok {b : Bool} {u : Unit} : authorize b = .ok u ↔ b = true := by
  cases b with
  | true => exact ⟨fun _ => rfl, fun _ => rfl⟩
  | false => exact ⟨fun h => (by cases h), fun h => (by cases h)⟩

theorem findOptional_ok {α : Type} {l : Statement} {find : Store → ℤ → Option α} {id : Option ℤ}
    {d d' : Db Store} {row : Option α} :
    (findOptional l find id).run fails d = (d', .ok row) ↔
      d' = d ∧ row = id.bind (find d.committed) ∧
        ∀ i, id = some i → fails l = false ∧ (find d.committed i).isSome = true := by
  cases id with
  | none =>
      rw [findOptional, done_ok]
      simp
  | some i =>
      rw [findOptional, bind_ok]
      cases hrow : find d.committed i with
      | none => simp [ask_ok, ofExcept_ok, hrow]
      | some r =>
          simp only [ask_ok, ofExcept_ok, Option.bind_some, Option.some.injEq, forall_eq', hrow,
            Option.isSome_some, and_true]
          constructor
          · rintro ⟨u, a, ⟨hl, rfl, rfl⟩, rfl, ha⟩
            exact ⟨rfl, (Except.ok.inj ha).symm, hl⟩
          · rintro ⟨rfl, rfl, hl⟩
            exact ⟨_, _, ⟨hl, rfl, rfl⟩, rfl, rfl⟩

theorem handleType_ok {p : Parties} {d d' : Db Store} {u : Unit} :
    (handleType actorId target p kind).run fails d = (d', .ok u) ↔
      Permitted target p kind ∧ Written fails kind ∧
        d' = ⟨d.committed, handled d.working actorId target kind⟩ := by
  cases kind with
  | none =>
      rw [handleType, done_ok]
      exact ⟨fun h => ⟨trivial, trivial, h.1⟩, fun h => ⟨h.2.2, rfl⟩⟩
  | disable =>
      simp only [handleType, bind_ok, ofExcept_ok, authorize_ok, write, write_ok, Permitted,
        Written, handled]
      constructor
      · rintro ⟨_, _, ⟨rfl, h⟩, _, _, ⟨rfl, h'⟩, _, _, ⟨hlog, rfl⟩, hact, rfl⟩
        exact ⟨⟨h, h'⟩, ⟨hlog, hact⟩, rfl⟩
      · rintro ⟨⟨h, h'⟩, ⟨hlog, hact⟩, rfl⟩
        exact ⟨_, (), ⟨rfl, h⟩, _, (), ⟨rfl, h'⟩, _, (), ⟨hlog, rfl⟩, hact, rfl⟩
  | sensitive =>
      simp only [handleType, bind_ok, ofExcept_ok, authorize_ok, write, write_ok, Permitted,
        Written, handled]
      constructor
      · rintro ⟨_, _, ⟨rfl, h⟩, _, _, ⟨hlog, rfl⟩, hact, rfl⟩
        exact ⟨h, ⟨hlog, hact⟩, rfl⟩
      · rintro ⟨h, ⟨hlog, hact⟩, rfl⟩
        exact ⟨_, (), ⟨rfl, h⟩, _, (), ⟨hlog, rfl⟩, hact, rfl⟩
  | silence =>
      simp only [handleType, bind_ok, ofExcept_ok, authorize_ok, write, write_ok, Permitted,
        Written, handled]
      constructor
      · rintro ⟨_, _, ⟨rfl, h⟩, _, _, ⟨hlog, rfl⟩, hact, rfl⟩
        exact ⟨h, ⟨hlog, hact⟩, rfl⟩
      · rintro ⟨h, ⟨hlog, hact⟩, rfl⟩
        exact ⟨_, (), ⟨rfl, h⟩, _, (), ⟨hlog, rfl⟩, hact, rfl⟩
  | suspend =>
      simp only [handleType, bind_ok, ofExcept_ok, authorize_ok, write, write_ok, Permitted,
        Written, handled]
      constructor
      · rintro ⟨_, _, ⟨rfl, h⟩, hlog, rfl⟩
        exact ⟨h, hlog, rfl⟩
      · rintro ⟨h, hlog, rfl⟩
        exact ⟨_, (), ⟨rfl, h⟩, hlog, rfl⟩

theorem resolveOne_ok {acting : Role} (id : ℤ) (d d' : Db Store) (u : Unit) :
    (resolveOne actorId acting id).run fails d = (d', .ok u) ↔
      (acting.can [manageReports] = true ∧ fails (.logResolve id) = false ∧
          fails (.resolve id) = false) ∧
        d' = ⟨d.committed, (d.working.logged ⟨actorId, "resolve", .report id⟩).resolve
          actorId id⟩ := by
  simp only [resolveOne, bind_ok, ofExcept_ok, authorize_ok, write, write_ok]
  constructor
  · rintro ⟨_, _, ⟨rfl, h⟩, _, _, ⟨hlog, rfl⟩, hresolve, rfl⟩
    exact ⟨⟨h, hlog, hresolve⟩, rfl⟩
  · rintro ⟨⟨h, hlog, hresolve⟩, rfl⟩
    exact ⟨_, (), ⟨rfl, h⟩, _, (), ⟨hlog, rfl⟩, hresolve, rfl⟩

theorem foldl_working (ids : List ℤ) (d : Db Store) :
    ids.foldl (fun d id =>
      (⟨d.committed, (d.working.logged ⟨actorId, "resolve", .report id⟩).resolve actorId id⟩ :
        Db Store)) d = ⟨d.committed, resolveAll d.working actorId ids⟩ := by
  induction ids generalizing d with
  | nil => rfl
  | cons id ids ih => exact ih _

theorem eachResolve_ok {acting : Role} {ids : List ℤ} {d d' : Db Store} {u : Unit} :
    (each (resolveOne actorId acting) ids).run fails d = (d', .ok u) ↔
      (∀ id ∈ ids, acting.can [manageReports] = true ∧ fails (.logResolve id) = false ∧
          fails (.resolve id) = false) ∧
        d' = ⟨d.committed, resolveAll d.working actorId ids⟩ := by
  rw [each_ok resolveOne_ok, foldl_working]

theorem reports_warned : (warned s actorId target action newId kind).reports = s.reports := by
  have hstruck : (struck s actorId target action newId kind).reports = s.reports := by
    cases kind with
    | none => rfl
    | disable => rfl
    | sensitive => rfl
    | silence => rfl
    | suspend => rfl
  unfold warned
  by_cases h : warningText s action ≠ "" ∧ kind = .none
  · rw [if_pos h]
    exact hstruck
  · rw [if_neg h]
    exact hstruck

theorem openReports_warned :
    openReports (warned s actorId target action newId kind) target.id =
      openReports s target.id := by
  unfold openReports
  rw [reports_warned]

theorem createLog_ok {text : String} {d d' : Db Store} {u : Unit} :
    (createLog actorId target newId kind text).run fails d = (d', .ok u) ↔
      (text ≠ "" ∧ kind = .none → fails .logWarning = false) ∧
        d' = ⟨d.committed,
          if text ≠ "" ∧ kind = .none then
            d.working.logged ⟨actorId, "create", .accountWarning newId target.acct⟩
          else d.working⟩ := by
  unfold createLog
  by_cases h : text ≠ "" ∧ kind = .none
  · rw [if_pos h, if_pos h, write, write_ok]
    exact and_congr_left fun _ => ⟨fun hl _ => hl, fun hl => hl h⟩
  · rw [if_neg h, if_neg h, done_ok]
    exact ⟨fun hd => ⟨fun hp => absurd hp h, hd.1⟩, fun hd => ⟨hd.2, rfl⟩⟩

theorem reportsToResolve_ok {report : Option Report} {d d' : Db Store} {ids : List ℤ} :
    (reportsToResolve target kind report).run fails d = (d', .ok ids) ↔
      (kind ≠ .none → fails .openReports = false) ∧ d' = d ∧
        ids = if kind = .none then (report.map Report.id).toList
          else openReports d.working target.id := by
  unfold reportsToResolve
  by_cases h : kind = .none
  · rw [if_pos h, if_pos h, done_ok]
    exact ⟨fun hd => ⟨fun hne => absurd h hne, hd⟩, fun hd => hd.2⟩
  · rw [if_neg h, if_neg h, ask_ok]
    exact and_congr_left fun _ => ⟨fun hl _ => hl, fun hl => hl h⟩

theorem saveInTransaction_ok {d : Db Store} :
    (saveInTransaction actorId target action newId).run fails (Db.of s) = (d, .ok kind) ↔
      validate action.kind = .ok kind ∧ GoesThrough fails s actorId target action kind ∧
        d = ⟨s, left s actorId target action newId kind⟩ := by
  simp only [saveInTransaction, bind_ok, ofExcept_ok, findOptional_ok, ask_ok, openTx_ok,
    handleType_ok, write, write_ok, createLog_ok, reportsToResolve_ok, eachResolve_ok]
  constructor
  · rintro ⟨_, k, ⟨rfl, hkind⟩, _, report, ⟨rfl, rfl, hreport⟩, _, preset, ⟨rfl, rfl, hpreset⟩,
      _, acting, ⟨hacting, rfl, rfl⟩, _, role, ⟨hrole, rfl, rfl⟩, _, user, ⟨huser, rfl, rfl⟩,
      _, _, ⟨hopen, rfl⟩, _, _, ⟨hpermitted, hwritten, rfl⟩, _, _, ⟨hstrike, rfl⟩,
      _, _, ⟨hlog, rfl⟩, _, ids, ⟨hreports, rfl, rfl⟩, _, _, ⟨hresolve, rfl⟩, hdone⟩
    obtain ⟨rfl, rfl⟩ := done_ok.mp hdone
    have hids : (if kind = .none then ((action.reportId.bind (findReport s)).map Report.id).toList
        else openReports (warned s actorId target action newId kind) target.id) =
        toResolve s target action kind := by
      rw [openReports_warned]
      rfl
    refine ⟨hkind, ⟨hreport, hpreset, hacting, hrole, huser, hopen, hpermitted, hwritten, hstrike,
      hlog, hreports, fun id hid => hresolve id ?_⟩, ?_⟩
    · exact hids ▸ hid
    · exact congrArg (fun ids => (⟨s, resolveAll (warned s actorId target action newId kind)
        actorId ids⟩ : Db Store)) hids
  · rintro ⟨hkind, h, rfl⟩
    have hids : (if kind = .none then ((action.reportId.bind (findReport s)).map Report.id).toList
        else openReports (warned s actorId target action newId kind) target.id) =
        toResolve s target action kind := by
      rw [openReports_warned]
      rfl
    refine ⟨_, kind, ⟨rfl, hkind⟩, _, _, ⟨rfl, rfl, h.report⟩, _, _, ⟨rfl, rfl, h.preset⟩,
      _, _, ⟨h.acting, rfl, rfl⟩, _, _, ⟨h.ofAccount, rfl, rfl⟩, _, _, ⟨h.findUser, rfl, rfl⟩,
      _, (), ⟨h.openTx, rfl⟩, _, (), ⟨h.permitted, h.written, rfl⟩, _, (), ⟨h.strike, rfl⟩,
      _, (), ⟨h.logWarning, rfl⟩, _, _, ⟨h.openReports, rfl, rfl⟩, _, (),
      ⟨fun id hid => h.resolve id ?_, rfl⟩, done_ok.mpr ⟨?_, rfl⟩⟩
    · exact hids ▸ hid
    · exact congrArg (fun ids => (⟨s, resolveAll (warned s actorId target action newId kind)
        actorId ids⟩ : Db Store)) hids.symm

end

/-! ### What a save leaves -/

theorem frame_resolveAll (s : Store) (actorId : ℤ) (ids : List ℤ) :
    (resolveAll s actorId ids).roles = s.roles ∧
      (resolveAll s actorId ids).accounts = s.accounts ∧
      (resolveAll s actorId ids).strikes = s.strikes := by
  induction ids generalizing s with
  | nil => exact ⟨rfl, rfl, rfl⟩
  | cons id ids ih => exact ih _

theorem reports_resolveAll (s : Store) (actorId : ℤ) (ids : List ℤ) :
    (resolveAll s actorId ids).reports =
      s.reports.map fun r => if r.id ∈ ids then r.taken actorId else r := by
  induction ids generalizing s with
  | nil => simp [resolveAll]
  | cons id ids ih =>
      change (resolveAll _ actorId ids).reports = _
      rw [ih]
      simp only [Store.resolve, Store.logged, List.map_map]
      refine List.map_congr_left fun r _ => ?_
      rw [Function.comp_apply]
      by_cases hid : r.id = id
      · rw [if_pos hid, if_pos (List.mem_cons.mpr (.inl hid))]
        by_cases hmem : r.id ∈ ids
        · exact if_pos hmem
        · exact if_neg hmem
      · rw [if_neg hid]
        refine if_congr ?_ rfl rfl
        rw [List.mem_cons, or_iff_right hid]

section
variable {fails : Statement → Bool} {s : Store} {actorId : ℤ} {target : Target}
  {action : AccountAction} {newId : ℤ} {kind : Kind}

theorem warned_eq (s : Store) (actorId : ℤ) (target : Target) (action : AccountAction)
    (newId : ℤ) (kind : Kind) : ∃ log, warned s actorId target action newId kind =
    { struck s actorId target action newId kind with log := log } := by
  unfold warned
  by_cases h : warningText s action ≠ "" ∧ kind = .none
  · rw [if_pos h]
    exact ⟨_, rfl⟩
  · rw [if_neg h]
    exact ⟨_, rfl⟩

theorem frame_left :
    (left s actorId target action newId kind).roles = (handled s actorId target kind).roles ∧
      (left s actorId target action newId kind).accounts =
        (handled s actorId target kind).accounts := by
  obtain ⟨log, hwarned⟩ := warned_eq s actorId target action newId kind
  obtain ⟨hroles, haccounts, -⟩ := frame_resolveAll (warned s actorId target action newId kind)
    actorId (toResolve s target action kind)
  rw [hwarned] at hroles haccounts
  exact ⟨(congrArg (fun w => (resolveAll w actorId _).roles) hwarned).trans hroles,
    (congrArg (fun w => (resolveAll w actorId _).accounts) hwarned).trans haccounts⟩

theorem strikes_left :
    (left s actorId target action newId kind).strikes = s.strikes ++
      [strikeRow actorId target action newId kind (action.reportId.bind (findReport s))
        (warningText s action)] := by
  have hhandled : (handled s actorId target kind).strikes = s.strikes := by
    cases kind with
    | none => rfl
    | disable => rfl
    | sensitive => rfl
    | silence => rfl
    | suspend => rfl
  obtain ⟨log, hwarned⟩ := warned_eq s actorId target action newId kind
  rw [left, (frame_resolveAll _ actorId _).2.2, hwarned]
  change (handled s actorId target kind).strikes ++ _ = _
  rw [hhandled]

theorem reports_left :
    (left s actorId target action newId kind).reports =
      s.reports.map fun r =>
        if r.id ∈ toResolve s target action kind then r.taken actorId else r := by
  rw [left, reports_resolveAll, reports_warned]

theorem mem_openReports (id : ℤ) :
    id ∈ openReports s target.id ↔
      ∃ r ∈ s.reports, r.id = id ∧ r.targetAccountId = target.id ∧ r.actionTaken = false := by
  rw [openReports, List.mem_insertionSort, List.mem_map]
  simp only [List.mem_filter, Bool.and_eq_true, decide_eq_true_eq, Bool.not_eq_true']
  exact exists_congr fun r =>
    ⟨fun h => ⟨h.1.1, h.2, h.1.2⟩, fun h => ⟨⟨h.1, h.2.2⟩, h.2.1⟩⟩

theorem mem_toResolve (h : GoesThrough fails s actorId target action kind) (id : ℤ) :
    id ∈ toResolve s target action kind ↔ Resolves s target action kind id := by
  unfold toResolve Resolves
  by_cases hkind : kind = .none
  · rw [if_pos hkind, if_pos hkind]
    cases hreport : action.reportId with
    | none => simp
    | some i =>
        obtain ⟨-, hfound⟩ := h.report i hreport
        obtain ⟨r, hr⟩ := Option.isSome_iff_exists.mp hfound
        have hid : r.id = i := by simpa using List.find?_some hr
        rw [Option.bind_some, hr, Option.map_some, Option.toList_some, List.mem_singleton, hid,
          Option.some.injEq]
        exact eq_comm
  · rw [if_neg hkind, if_neg hkind]
    exact mem_openReports id

theorem resolved_left (h : GoesThrough fails s actorId target action kind) :
    List.Forall₂ (fun r r' =>
        (Resolves s target action kind r.id → r' = r.taken actorId) ∧
          (¬ Resolves s target action kind r.id → r' = r)) s.reports
      (left s actorId target action newId kind).reports := by
  rw [reports_left, List.forall₂_map_right_iff, List.forall₂_same]
  intro r _
  exact ⟨fun hr => if_pos ((mem_toResolve h r.id).mpr hr),
    fun hr => if_neg fun hmem => hr ((mem_toResolve h r.id).mp hmem)⟩

theorem applied_left (htarget : (s.accounts target.id).isSome = true)
    (h : GoesThrough fails s actorId target action kind) (hkind : kind ≠ .suspend) :
    Applied s (left s actorId target action newId kind) actorId target action kind where
  effect := by
    obtain ⟨row, hrow⟩ := Option.isSome_iff_exists.mp htarget
    cases kind with
    | none => trivial
    | disable =>
        obtain ⟨hsome, -⟩ := h.permitted
        obtain ⟨user, huser⟩ := Option.isSome_iff_exists.mp hsome
        refine ⟨{ user with disabled := true }, ?_, rfl⟩
        rw [frame_left.1]
        change Function.update s.roles.users target.id
          ((s.roles.users target.id).map _) target.id = _
        rw [Function.update_self, show s.roles.users target.id = some user from huser]
        rfl
    | sensitive =>
        refine ⟨{ row with sensitized := true }, ?_, rfl⟩
        rw [frame_left.2]
        change Function.update s.accounts target.id ((s.accounts target.id).map _) target.id = _
        rw [Function.update_self, hrow]
        rfl
    | silence =>
        refine ⟨{ row with silenced := true }, ?_, rfl⟩
        rw [frame_left.2]
        change Function.update s.accounts target.id ((s.accounts target.id).map _) target.id = _
        rw [Function.update_self, hrow]
        rfl
    | suspend => exact absurd rfl hkind
  strike := ⟨_, strikes_left, rfl, rfl, rfl, rfl⟩
  reports := resolved_left h

/-! ### The suspension -/

def suspended (s : Store) (id : ℤ) : Store :=
  (s.request id).setAccount id fun a =>
    { a with suspended := true, suspensionOrigin := some suspensionOriginLocal }

theorem frame_request (s : Store) (id : ℤ) :
    (s.request id).accounts = s.accounts ∧ (s.request id).strikes = s.strikes ∧
      (s.request id).reports = s.reports := by
  unfold Store.request
  by_cases h : id ∈ s.deletionRequests
  · rw [if_pos h]
    exact ⟨rfl, rfl, rfl⟩
  · rw [if_neg h]
    exact ⟨rfl, rfl, rfl⟩

theorem suspend_ok {id : ℤ} {d d' : Db Store} {u : Unit} :
    (suspend id suspensionOriginLocal true).run fails d = (d', .ok u) ↔
      (∀ step, fails (.suspension step) = false) ∧
        d' = ⟨suspended d.committed id, suspended d.committed id⟩ := by
  simp only [suspend, if_true, bind_ok, openTx_ok, write, write_ok, commit_ok]
  constructor
  · rintro ⟨_, _, ⟨hopen, rfl⟩, _, _, ⟨hrequest, rfl⟩, _, _, ⟨hmark, rfl⟩, _, _, ⟨hblock, rfl⟩,
      hcommit, rfl⟩
    refine ⟨fun step => ?_, rfl⟩
    cases step with
    | openTx => exact hopen
    | request => exact hrequest
    | mark => exact hmark
    | blockEmail => exact hblock
    | commit => exact hcommit
  · rintro ⟨h, rfl⟩
    exact ⟨_, (), ⟨h .openTx, rfl⟩, _, (), ⟨h .request, rfl⟩, _, (), ⟨h .mark, rfl⟩, _, (),
      ⟨h .blockEmail, rfl⟩, h .commit, rfl⟩

def SameStrikes (d d' : Db Store) : Prop :=
  d.working.strikes = d.committed.strikes →
    d'.working.strikes = d'.committed.strikes ∧ d'.committed.strikes = d.committed.strikes

theorem sameStrikes_write (l : Statement) (move : Store → Store)
    (h : ∀ s, (move s).strikes = s.strikes) : (write l move).Always SameStrikes :=
  .exec fun d hd => ⟨(h d.working).trans hd, rfl⟩

theorem sameStrikes_suspend (id origin : ℤ) : (suspend id origin true).Always SameStrikes := by
  unfold suspend
  refine Always.bind (.exec fun _ _ => ⟨rfl, rfl⟩) fun _ =>
    Always.bind (sameStrikes_write _ _ fun s => (frame_request s id).2.1) fun _ =>
    Always.bind (sameStrikes_write _ _ fun _ => rfl) fun _ => ?_
  rw [if_pos rfl]
  exact Always.bind (sameStrikes_write _ _ fun _ => rfl) fun _ =>
    .exec fun _ hd => ⟨rfl, hd⟩

theorem strikes_suspend (id origin : ℤ) {d : Db Store}
    (h : d.working.strikes = d.committed.strikes) :
    ((suspend id origin true).run fails d).1.committed.strikes = d.committed.strikes :=
  ((sameStrikes_suspend id origin).run (G := SameStrikes) (fun _ hd => ⟨hd, rfl⟩)
    (fun hst htu hs => ⟨(htu (hst hs).1).1, ((htu (hst hs).1).2).trans (hst hs).2⟩) d h).2

theorem applied_suspended (htarget : (s.accounts target.id).isSome = true)
    (h : GoesThrough fails s actorId target action .suspend) :
    Applied s (suspended (left s actorId target action newId .suspend) target.id) actorId target
      action .suspend where
  effect := by
    obtain ⟨row, hrow⟩ := Option.isSome_iff_exists.mp htarget
    refine ⟨{ row with suspended := true, suspensionOrigin := some suspensionOriginLocal }, ?_, rfl⟩
    change Function.update _ target.id _ target.id = _
    rw [Function.update_self, (frame_request _ _).1, frame_left.2]
    change (s.accounts target.id).map _ = _
    rw [hrow]
    rfl
  strike := by
    refine ⟨strikeRow actorId target action newId .suspend (action.reportId.bind (findReport s))
      (warningText s action), ?_, rfl, rfl, rfl, rfl⟩
    rw [suspended, Store.setAccount, (frame_request _ _).2.1]
    exact strikes_left
  reports := by
    rw [suspended, Store.setAccount, (frame_request _ _).2.2]
    exact resolved_left h

/-! ### All or nothing -/

theorem kept_findOptional {α : Type} (l : Statement) (find : Store → ℤ → Option α)
    (id : Option ℤ) : (findOptional l find id).Always Kept := by
  cases id with
  | none => trivial
  | some id => exact Always.bind (kept_ask _ _ _) fun _ => kept_ofExcept _

theorem kept_handleType (p : Parties) : (handleType actorId target p kind).Always Kept := by
  cases kind with
  | none => trivial
  | disable =>
      exact Always.bind (kept_ofExcept _) fun _ => Always.bind (kept_ofExcept _) fun _ =>
        Always.bind (kept_write _ _ _) fun _ => kept_write _ _ _
  | sensitive =>
      exact Always.bind (kept_ofExcept _) fun _ => Always.bind (kept_write _ _ _) fun _ =>
        kept_write _ _ _
  | silence =>
      exact Always.bind (kept_ofExcept _) fun _ => Always.bind (kept_write _ _ _) fun _ =>
        kept_write _ _ _
  | suspend => exact Always.bind (kept_ofExcept _) fun _ => kept_write _ _ _

theorem kept_createLog (text : String) :
    (createLog actorId target newId kind text).Always Kept := by
  unfold createLog
  by_cases h : text ≠ "" ∧ kind = .none
  · rw [if_pos h]
    exact kept_write _ _ _
  · rw [if_neg h]
    trivial

theorem kept_reportsToResolve (report : Option Report) :
    (reportsToResolve target kind report).Always Kept := by
  unfold reportsToResolve
  by_cases h : kind = .none
  · rw [if_pos h]
    trivial
  · rw [if_neg h]
    exact kept_ask _ _ _

theorem kept_resolveOne (acting : Role) (id : ℤ) : (resolveOne actorId acting id).Always Kept :=
  Always.bind (kept_ofExcept _) fun _ => Always.bind (kept_write _ _ _) fun _ => kept_write _ _ _

theorem kept_saveInTransaction :
    (saveInTransaction actorId target action newId).Always Kept :=
  Always.bind (kept_ofExcept _) fun _ => Always.bind (kept_findOptional _ _ _) fun _ =>
    Always.bind (kept_findOptional _ _ _) fun _ => Always.bind (kept_ask _ _ _) fun _ =>
    Always.bind (kept_ask _ _ _) fun _ => Always.bind (kept_ask _ _ _) fun _ =>
    Always.bind (kept_openTx _ _) fun _ => Always.bind (kept_handleType _) fun _ =>
    Always.bind (kept_write _ _ _) fun _ => Always.bind (kept_createLog _) fun _ =>
    Always.bind (kept_reportsToResolve _) fun _ =>
    Always.bind (.each (kept_resolveOne _) _) fun _ => trivial

end

section
variable {fails : Statement → Bool} {s : Store} {actorId : ℤ} {target : Target}
  {action : AccountAction} {newId : ℤ} {kind : Kind}

theorem save_cases (d : Db Store) (result : Except AppError Unit)
    (h : (save actorId target action newId).run fails (Db.of s) = (d, result)) :
    (d.committed = s ∧ ∃ e, result = .error e) ∨
      ∃ kind, validate action.kind = .ok kind ∧ GoesThrough fails s actorId target action kind ∧
        fails .commit = false ∧
        (if kind = .suspend then suspend target.id suspensionOriginLocal true
          else done ()).run fails
            ⟨left s actorId target action newId kind, left s actorId target action newId kind⟩ =
          (d, result) := by
  have hkept : (saveInTransaction actorId target action newId).Always Kept := kept_saveInTransaction
  cases hrun : (saveInTransaction actorId target action newId).run fails (Db.of s) with
  | mk u answer =>
      have hcommitted : u.committed = s := by
        have h' : ((saveInTransaction actorId target action newId).run fails
            (Db.of s)).1.committed = s := kept_run hkept (Db.of s)
        rwa [hrun] at h'
      cases answer with
      | error e =>
          rw [save, run_bind_error hrun, Prod.mk.injEq] at h
          exact .inl ⟨h.1 ▸ hcommitted, e, h.2.symm⟩
      | ok kind =>
          obtain ⟨hkind, hgoes, rfl⟩ := saveInTransaction_ok.mp hrun
          rw [save, run_bind_ok hrun] at h
          cases hcommit : fails .commit with
          | true =>
              have hfail : (Transactions.commit Statement.commit AppError.internal).run fails
                  (⟨s, left s actorId target action newId kind⟩ : Db Store) =
                  (⟨s, left s actorId target action newId kind⟩, .error .internal) := by
                rw [Transactions.commit, Program.exec, Program.run, hcommit]
                rfl
              rw [run_bind_error hfail, Prod.mk.injEq] at h
              exact .inl ⟨h.1 ▸ rfl, .internal, h.2.symm⟩
          | false =>
              rw [run_bind_ok (commit_ok (u := ()).mpr ⟨hcommit, rfl⟩)] at h
              exact .inr ⟨kind, hkind, hgoes, rfl, h⟩

theorem committed_ne_of_error {d : Db Store} {e : AppError}
    (h : (suspend target.id suspensionOriginLocal true).run fails
      ⟨left s actorId target action newId kind, left s actorId target action newId kind⟩ =
        (d, .error e)) : d.committed ≠ s := by
  intro hd
  have hstrikes : ((suspend target.id suspensionOriginLocal true).run fails
      ⟨left s actorId target action newId kind,
        left s actorId target action newId kind⟩).1.committed.strikes =
      (left s actorId target action newId kind).strikes :=
    strikes_suspend target.id suspensionOriginLocal rfl
  rw [h] at hstrikes
  change d.committed.strikes = (left s actorId target action newId kind).strikes at hstrikes
  rw [hd, strikes_left] at hstrikes
  have hlength := congrArg List.length hstrikes
  rw [List.length_append, List.length_singleton] at hlength
  omega

end

/-- A save is all or nothing but when a suspension whose strike is committed fails itself. -/
theorem save_allOrNothing_iff (fails : Statement → Bool) (s : Store) (actorId : ℤ)
    (target : Target) (htarget : (s.accounts target.id).isSome = true) (action : AccountAction)
    (newId : ℤ) :
    AllOrNothing s actorId target action
        ((save actorId target action newId).run fails (Db.of s)) ↔
      (validate action.kind = .ok .suspend → GoesThrough fails s actorId target action .suspend →
        fails .commit = false → ∀ step, fails (.suspension step) = false) := by
  rcases hrun : (save actorId target action newId).run fails (Db.of s) with ⟨d, result⟩
  constructor
  · intro h hkind hgoes hcommit
    rcases save_cases d result hrun with ⟨-, e, rfl⟩ | ⟨kind, hkind', -, -, hsuspend⟩
    · have hready : (saveInTransaction actorId target action newId).run fails (Db.of s) =
          (⟨s, left s actorId target action newId .suspend⟩, .ok .suspend) :=
        saveInTransaction_ok.mpr ⟨hkind, hgoes, rfl⟩
      rw [save, run_bind_ok hready, run_bind_ok (commit_ok (u := ()).mpr ⟨hcommit, rfl⟩),
        if_pos rfl] at hrun
      exact absurd (h.1 e rfl) (committed_ne_of_error hrun)
    · obtain rfl := Except.ok.inj (hkind'.symm.trans hkind)
      rw [if_pos rfl] at hsuspend
      cases result with
      | error e => exact absurd (h.1 e rfl) (committed_ne_of_error hsuspend)
      | ok u => exact (suspend_ok.mp hsuspend).1
  · intro h
    rcases save_cases d result hrun with ⟨hd, e, rfl⟩ | ⟨kind, hkind, hgoes, hcommit, hafter⟩
    · exact ⟨fun _ _ => hd, fun hok => by cases hok⟩
    · by_cases hsuspend : kind = .suspend
      · subst hsuspend
        rw [if_pos rfl] at hafter
        have hok : (suspend target.id suspensionOriginLocal true).run fails
            ⟨left s actorId target action newId .suspend,
              left s actorId target action newId .suspend⟩ =
            (⟨suspended (left s actorId target action newId .suspend) target.id,
              suspended (left s actorId target action newId .suspend) target.id⟩, .ok ()) :=
          suspend_ok.mpr ⟨h hkind hgoes hcommit, rfl⟩
        rw [hok, Prod.mk.injEq] at hafter
        obtain ⟨rfl, rfl⟩ := hafter
        exact ⟨fun e he => (by cases he),
          fun _ => ⟨.suspend, hkind, applied_suspended htarget hgoes⟩⟩
      · rw [if_neg hsuspend, run_done, Prod.mk.injEq] at hafter
        obtain ⟨rfl, rfl⟩ := hafter
        exact ⟨fun e he => (by cases he),
          fun _ => ⟨kind, hkind, applied_left htarget hgoes hsuspend⟩⟩

/-! ### A suspension that fails -/

def oneAdministrator : Store where
  roles :=
    { roles :=
        { find := fun id =>
            if id = 3 then some ⟨3, "Owner", "", 1000, Roles.Flag.administrator, false, 10, false⟩
            else none
          ids := by
            intro id row h
            by_cases hid : id = 3
            · rw [if_pos hid, Option.some.injEq] at h
              rw [← h, hid]
            · rw [if_neg hid] at h
              cases h }
      users := fun id => if id = 1 then some ⟨false, some 3⟩ else none }
  accounts := fun _ => some {}
  presets := fun _ => none
  reports := [⟨7, 2, [], false, none⟩]
  strikes := []
  log := []
  deletionRequests := []

def suspension : AccountAction := { kind := some "suspend" }

def markFails : Statement → Bool
  | .suspension .mark => true
  | _ => false

/-- The error comes with a strike, two log entries and a report that is resolved. -/
theorem strike_of_failed_suspension :
    ((save 1 ⟨2, "mallory"⟩ suspension 5).run markFails (Db.of oneAdministrator)).2 =
        .error .internal ∧
      ((save 1 ⟨2, "mallory"⟩ suspension 5).run markFails
        (Db.of oneAdministrator)).1.committed.strikes.length = 1 ∧
      ¬ AllOrNothing oneAdministrator 1 ⟨2, "mallory"⟩ suspension
        ((save 1 ⟨2, "mallory"⟩ suspension 5).run markFails (Db.of oneAdministrator)) := by
  have herror : ((save 1 ⟨2, "mallory"⟩ suspension 5).run markFails
      (Db.of oneAdministrator)).2 = .error .internal := by decide +kernel
  have hstrikes : ((save 1 ⟨2, "mallory"⟩ suspension 5).run markFails
      (Db.of oneAdministrator)).1.committed.strikes.length = 1 := by decide +kernel
  refine ⟨herror, hstrikes, fun h => ?_⟩
  rw [h.1 _ herror] at hstrikes
  cases hstrikes

theorem allOrNothing_of_unfailing :
    AllOrNothing oneAdministrator 1 ⟨2, "mallory"⟩ suspension
      ((save 1 ⟨2, "mallory"⟩ suspension 5).run (fun _ => false) (Db.of oneAdministrator)) :=
  (save_allOrNothing_iff (fun _ => false) oneAdministrator 1 ⟨2, "mallory"⟩ rfl suspension 5).mpr
    fun _ _ _ _ => rfl

end Eunha.AccountActions
