import Eunha.Roles
import Eunha.Transactions
import Mathlib

/-!
# Moderation actions on a report

What a report cites is removed, or marked sensitive, and the report is resolved with a strike.
The marks, the resolution and the strike are one transaction. The posts to remove are walked
after it has been committed, each in statements of its own, and a failure there leaves the rest.

The action log is told of and not kept, as are webhooks, mails and what other servers are told.
-/
namespace Eunha.ModerationActions
open Programs Programs.Program Transactions
open Roles (AppError authorize)

/-! ### Data -/

/-- `TYPES` -/
inductive Kind where
  | delete
  | markAsSensitive
  deriving DecidableEq

/-- A post, with whether it carries media or a preview card. -/
structure Status where
  id : ℕ
  accountId : ℕ
  reblogOfId : Option ℕ
  uri : Option String
  discarded : Bool
  sensitive : Bool
  carries : Bool
  deriving DecidableEq

structure Collection where
  id : ℕ
  uri : Option String
  sensitive : Bool
  deriving DecidableEq

structure Report where
  targetAccountId : ℕ
  statusIds : List ℕ
  collectionIds : List ℕ
  actionTakenBy : Option ℕ
  deriving DecidableEq

/-- A row of `account_warnings`, of this report. -/
structure Warning where
  accountId : ℕ
  targetAccountId : ℕ
  action : Kind
  text : String
  statusIds : List ℕ
  deriving DecidableEq

/-- The report and what it cites. -/
structure Store where
  report : Option Report
  statuses : List Status
  collections : List Collection
  /-- The posts of `status_edits`. -/
  edits : List ℕ
  warnings : List Warning
  tombstones : List String
  deriving DecidableEq

/-- What is asked about the moderator and the target. -/
structure Env where
  actorId : ℕ
  manageReports : Bool
  targetIsLocal : Bool

inductive Statement where
  | report | target | statuses | collections | role | start | resolve | logReport | strike
  | commit | user
  | log (id : ℕ) | carries (id : ℕ) | edit (id : ℕ) | mark (id : ℕ)
  | collection (id : ℕ) | logCollection (id : ℕ) | tombstone (uri : String)
  | discardBoosts (id : ℕ) | discard (id : ℕ) | recount (id : ℕ) | readBack (id : ℕ)

abbrev Action := Program Statement (Db Store) AppError

def say (l : Statement) : Action Unit := ask l .internal fun _ => ()

def Store.update (s : Store) (p : Status → Bool) (f : Status → Status) : Store :=
  { s with statuses := s.statuses.map fun r => if p r then f r else r }

/-! ### The transaction -/

def deleteCollection (c : Collection) : Action Unit := do
  write (.collection c.id) .internal fun s =>
    { s with collections := s.collections.filter fun d => d.id ≠ c.id }
  say (.logCollection c.id)

def markCollection (c : Collection) : Action Unit := do
  write (.collection c.id) .internal fun s =>
    { s with
      collections := s.collections.map fun d =>
        if d.id = c.id then { d with sensitive := true } else d }
  say (.logCollection c.id)

/-- The version before, for a local author. -/
def recordEdit (env : Env) (status : Status) : Action Unit :=
  if env.targetIsLocal then
    write (.edit status.id) .internal fun s => { s with edits := status.id :: s.edits }
  else done ()

/-- A post still there that carries media or a preview card. -/
def markStatus (env : Env) (status : Status) : Action Unit :=
  if status.discarded then done ()
  else do
    let carries ← ask (.carries status.id) .internal fun d =>
      d.working.statuses.any fun r => r.id = status.id && r.carries
    if carries then do
      ofExcept (authorize env.manageReports)
      recordEdit env status
      write (.mark status.id) .internal fun s =>
        s.update (fun r => r.id = status.id) fun r => { r with sensitive := true }
      say (.log status.id)
    else done ()

def carryOut (env : Env) (kind : Kind) (statuses : List Status) (collections : List Collection) :
    Action Unit :=
  match kind with
  | .delete => do
      ofExcept (authorize (env.manageReports || (statuses.isEmpty && collections.isEmpty)))
      each (fun status => say (.log status.id)) statuses
      each deleteCollection collections
  | .markAsSensitive => do
      ofExcept (authorize (env.manageReports || collections.isEmpty))
      each (markStatus env) statuses
      each markCollection collections

/-- `create_tombstones!` -/
def tombstone (uri : String) : Action Unit :=
  write (.tombstone uri) .internal fun s =>
    if uri ∈ s.tombstones then s else { s with tombstones := uri :: s.tombstones }

/-- `resolve_report!` and `process_strike!` -/
def settle (env : Env) (kind : Kind) (report : Report) (text : String) : Action Unit := do
  write .resolve .internal fun s =>
    { s with report := some { report with actionTakenBy := some env.actorId } }
  say .logReport
  write .strike .internal fun s =>
    { s with
      warnings :=
        ⟨env.actorId, report.targetAccountId, kind, text, report.statusIds⟩ :: s.warnings }

/-- What is done between the start of the transaction and its commit. -/
def work (env : Env) (kind : Kind) (report : Report) (text : String)
    (statuses : List Status) (collections : List Collection) : Action Unit := do
  carryOut env kind statuses collections
  settle env kind report text
  each tombstone
    (if kind = .delete ∧ env.targetIsLocal = false then
      statuses.filterMap Status.uri ++ collections.filterMap Collection.uri
    else [])

/-! ### After the commit -/

def autocommit (l : Statement) (move : Store → Store) : Action Unit :=
  exec l .internal fun d => { d with committed := move d.committed }

/-- `remove_status`: the boosts first, then the post, then the counts of featured hashtags. -/
def removeStatus (status : Status) : Action Unit := do
  autocommit (.discardBoosts status.id) fun s =>
    s.update (fun r => r.reblogOfId = some status.id && !r.discarded) fun r =>
      { r with discarded := true }
  autocommit (.discard status.id) fun s =>
    s.update (fun r => r.id = status.id) fun r => { r with discarded := true }
  say (.recount status.id)

/-- `process_notification!` -/
def notifyUser (env : Env) (notify : Bool) : Action Unit :=
  if notify && env.targetIsLocal then say .user else done ()

def afterwards (env : Env) (kind : Kind) (notify : Bool) (statuses : List Status) :
    Action Unit := do
  notifyUser env notify
  match kind with
  | .delete => each removeStatus (statuses.filter fun r => !r.discarded)
  | .markAsSensitive =>
      each (fun status => say (.readBack status.id))
        (if env.targetIsLocal then statuses.filter fun r => !r.discarded && r.carries else [])

/-- `save`, once the report has been read. -/
def act (env : Env) (kind : Kind) (text : String) (notify : Bool) (report : Report)
    (statuses : List Status) (collections : List Collection) : Action Unit := do
  openTx .start .internal
  work env kind report text statuses collections
  commit .commit .internal
  afterwards env kind notify statuses

def parseKind (kind : String) : Except AppError Kind :=
  if kind = "" then .error (.unprocessable "Validation failed: Type can't be blank")
  else if kind = "delete" then .ok .delete
  else if kind = "mark_as_sensitive" then .ok .markAsSensitive
  else .error (.unprocessable "Validation failed: Type is not included in the list")

def readReport (d : Db Store) : Except AppError Report :=
  d.committed.report.elim (.error .notFound) .ok

def cited (s : Store) (report : Report) : List Status :=
  s.statuses.filter fun r => r.id ∈ report.statusIds

def citedCollections (s : Store) (report : Report) : List Collection :=
  s.collections.filter fun c => c.id ∈ report.collectionIds

/-- `save` -/
def save (env : Env) (kind text : String) (notify : Bool) : Action Unit := do
  let kind ← ofExcept (parseKind kind)
  let found ← ask .report .internal readReport
  let report ← ofExcept found
  say .target
  let statuses ← ask .statuses .internal fun d => cited d.committed report
  let collections ← ask .collections .internal fun d => citedCollections d.committed report
  say .role
  act env kind text notify report statuses collections

/-! ### What is done -/

def Marked (kind : Kind) (report : Report) (s : Store) : Prop :=
  kind = .markAsSensitive → ∀ r ∈ s.statuses, r.id ∈ report.statusIds →
    r.discarded = false → r.carries = true → r.sensitive = true

/-- The report is resolved, with a strike, and the posts to mark are marked. -/
structure Recorded (env : Env) (kind : Kind) (report : Report) (s : Store) : Prop where
  resolved : s.report = some { report with actionTakenBy := some env.actorId }
  strike : ∃ w ∈ s.warnings, w.accountId = env.actorId ∧
    w.targetAccountId = report.targetAccountId ∧ w.action = kind ∧ w.statusIds = report.statusIds
  marked : Marked kind report s

/-- Nothing was done, or the report is resolved with what is recorded of it; when all went well
the posts to remove are removed; and only posts of the account change, and boosts of them. -/
structure Settled (env : Env) (kind : String) (report : Report) (s : Store)
    (out : Db Store × Except AppError Unit) : Prop where
  recorded : out.1.committed = s ∨
    ∃ k, parseKind kind = .ok k ∧ Recorded env k report out.1.committed
  done : out.2 = .ok () → ∃ k, parseKind kind = .ok k ∧ Recorded env k report out.1.committed ∧
    (k = .delete → ∀ r ∈ out.1.committed.statuses, r.id ∈ report.statusIds → r.discarded = true)
  only : ∀ r ∈ out.1.committed.statuses, r ∈ s.statuses ∨
    r.accountId = report.targetAccountId ∨
      ∃ n ∈ s.statuses, n.id ∈ report.statusIds ∧ r.reblogOfId = some n.id

/-- A post now as it was before, or one of these posts, or a boost of one, with marks set. -/
structure Came (named : List Status) (q r : Status) : Prop where
  id : q.id = r.id
  account : q.accountId = r.accountId
  reblog : q.reblogOfId = r.reblogOfId
  carries : q.carries = r.carries
  same : q = r ∨ ∃ n ∈ named, q.id = n.id ∨ q.reblogOfId = some n.id
  discarded : q.discarded = true → r.discarded = true
  sensitive : q.sensitive = true → r.sensitive = true

def Touches (named : List Status) (s t : Store) : Prop :=
  ∀ r ∈ t.statuses, ∃ q ∈ s.statuses, Came named q r

variable {fails : Statement → Bool} {named : List Status} {s t u : Store} {d d' : Db Store}
  {env : Env} {kind : Kind} {report : Report} {text : String} {notify : Bool}
  {statuses : List Status} {collections : List Collection}

/-! ### Which posts change -/

theorem Came.refl (r : Status) : Came named r r :=
  ⟨rfl, rfl, rfl, rfl, .inl rfl, fun h => h, fun h => h⟩

theorem Came.trans {p q r : Status} (h : Came named p q) (h' : Came named q r) :
    Came named p r where
  id := h.id.trans h'.id
  account := h.account.trans h'.account
  reblog := h.reblog.trans h'.reblog
  carries := h.carries.trans h'.carries
  same := by
    rcases h'.same with rfl | ⟨n, hn, hnamed⟩
    · exact h.same
    · exact .inr ⟨n, hn, h.id ▸ h.reblog ▸ hnamed⟩
  discarded := h'.discarded ∘ h.discarded
  sensitive := h'.sensitive ∘ h.sensitive

theorem Touches.of_statuses (h : t.statuses = s.statuses) : Touches named s t :=
  fun r hr => ⟨r, h ▸ hr, .refl r⟩

theorem Touches.trans (h : Touches named s t) (h' : Touches named t u) : Touches named s u := by
  intro r hr
  obtain ⟨q, hq, hqr⟩ := h' r hr
  obtain ⟨p, hp, hpq⟩ := h q hq
  exact ⟨p, hp, hpq.trans hqr⟩

theorem Touches.update {p : Status → Bool} {f : Status → Status}
    (h : ∀ r, p r = true → Came named r (f r)) (s : Store) : Touches named s (s.update p f) := by
  intro r hr
  obtain ⟨q, hq, rfl⟩ := List.mem_map.mp hr
  refine ⟨q, hq, ?_⟩
  by_cases hpq : p q = true
  · rw [if_pos hpq]
    exact h q hpq
  · rw [if_neg hpq]
    exact .refl q

theorem Marked.touches (h : Marked kind report s) (hst : Touches named s t) :
    Marked kind report t := by
  intro hkind r hr hid hdiscarded hcarries
  obtain ⟨q, hq, hqr⟩ := hst r hr
  refine hqr.sensitive (h hkind q hq (hqr.id ▸ hid) ?_ (hqr.carries.trans hcarries))
  cases hq : q.discarded with
  | true => exact absurd (hqr.discarded hq) (by simp [hdiscarded])
  | false => rfl

/-- What is committed stays, and these posts may change in the transaction. -/
def Within (named : List Status) (d d' : Db Store) : Prop :=
  d'.committed = d.committed ∧ Touches named d.working d'.working

theorem Within.refl (d : Db Store) : Within named d d := ⟨rfl, .of_statuses rfl⟩

theorem Within.trans {e : Db Store} (h : Within named d d') (h' : Within named d' e) :
    Within named d e := ⟨h'.1.trans h.1, h.2.trans h'.2⟩

theorem within_say (l : Statement) : (say l).Always (Within named) := .ask Within.refl l _ _

theorem within_authorize (b : Bool) : (ofExcept (authorize b) : Action Unit).Always (Within named) := by
  cases b <;> trivial

theorem within_write {l : Statement} {move : Store → Store} (h : ∀ s, Touches named s (move s)) :
    (write l .internal move : Action Unit).Always (Within named) :=
  .exec fun d => ⟨rfl, h d.working⟩

theorem within_markStatus {status : Status} (h : status ∈ named) :
    (markStatus env status).Always (Within named) := by
  unfold markStatus
  split
  · trivial
  · refine Always.bind (.ask Within.refl _ _ _) fun carries => ?_
    split
    · refine (within_authorize _).bind fun _ => Always.bind ?_ fun _ =>
        Always.bind (within_write fun s => ?_) fun _ => within_say _
      · unfold recordEdit
        split
        · exact within_write fun _ => .of_statuses rfl
        · trivial
      · apply Touches.update
        exact fun r hr => ⟨rfl, rfl, rfl, rfl, .inr ⟨status, h, .inl (of_decide_eq_true hr)⟩, id,
          fun _ => rfl⟩
    · trivial

theorem within_deleteCollection (c : Collection) : (deleteCollection c).Always (Within named) :=
  Always.bind (within_write fun _ => .of_statuses rfl) fun _ => within_say _

theorem within_markCollection (c : Collection) : (markCollection c).Always (Within named) :=
  Always.bind (within_write fun _ => .of_statuses rfl) fun _ => within_say _

theorem always_each {β : Type} {body : β → Action Unit} {bs : List β} {G : Db Store → Db Store → Prop}
    (h : ∀ b ∈ bs, (body b).Always G) : (each body bs).Always G := by
  induction bs with
  | nil => trivial
  | cons b bs ih =>
      exact (h b List.mem_cons_self).bind fun _ => ih fun c hc => h c (List.mem_cons_of_mem b hc)

theorem within_carryOut :
    (carryOut env kind statuses collections).Always (Within statuses) := by
  cases kind with
  | delete =>
      exact (within_authorize _).bind fun _ => (Always.each (fun b => within_say _) _).bind fun _ =>
        .each within_deleteCollection _
  | markAsSensitive =>
      exact (within_authorize _).bind fun _ =>
        (always_each fun b hb => within_markStatus hb).bind fun _ => .each within_markCollection _

theorem within_settle : (settle env kind report text).Always (Within named) :=
  Always.bind (within_write fun _ => .of_statuses rfl) fun _ =>
    Always.bind (within_say _) fun _ => within_write fun _ => .of_statuses rfl

theorem within_work :
    (work env kind report text statuses collections).Always (Within statuses) :=
  within_carryOut.bind fun _ => within_settle.bind fun _ =>
    .each (fun uri => within_write fun s => .of_statuses (by split <;> rfl)) _

/-! ### What follows the commit -/

/-- These posts may change, and neither the report nor the strikes. -/
def After (named : List Status) (d d' : Db Store) : Prop :=
  Touches named d.committed d'.committed ∧ d'.committed.report = d.committed.report ∧
    d'.committed.warnings = d.committed.warnings

theorem After.refl (d : Db Store) : After named d d := ⟨.of_statuses rfl, rfl, rfl⟩

theorem After.trans {e : Db Store} (h : After named d d') (h' : After named d' e) :
    After named d e :=
  ⟨h.1.trans h'.1, h'.2.1.trans h.2.1, h'.2.2.trans h.2.2⟩

theorem after_say (l : Statement) : (say l).Always (After named) := .ask After.refl l _ _

theorem after_removeStatus {status : Status} (h : status ∈ named) :
    (removeStatus status).Always (After named) := by
  have hdiscard : ∀ (l : Statement) (p : Status → Bool),
      (∀ r, p r = true → r.id = status.id ∨ r.reblogOfId = some status.id) →
      (autocommit l fun s => s.update p fun r => { r with discarded := true }).Always
        (After named) := by
    refine fun l p hp => .exec fun d => ⟨.update (fun r hr => ?_) d.committed, rfl, rfl⟩
    exact ⟨rfl, rfl, rfl, rfl, .inr ⟨status, h, hp r hr⟩, fun _ => rfl, id⟩
  exact Always.bind (hdiscard _ _ fun r hr => .inr (of_decide_eq_true (Bool.and_eq_true_iff.mp hr).1))
    fun _ => Always.bind (hdiscard _ _ fun r hr => .inl (of_decide_eq_true hr)) fun _ => after_say _

theorem after_afterwards :
    (afterwards env kind notify statuses).Always (After statuses) := by
  refine Always.bind ?_ fun _ => ?_
  · unfold notifyUser
    split
    · exact after_say _
    · trivial
  · cases kind with
    | delete =>
        exact always_each fun b hb => after_removeStatus (List.mem_of_mem_filter hb)
    | markAsSensitive => exact .each (fun b => after_say _) _

/-! ### What a run leaves -/

/-- A run's end is related to its start. -/
theorem always_run {α : Type} {G : Db Store → Db Store → Prop} (hrefl : ∀ d, G d d)
    (htrans : ∀ {d e f}, G d e → G e f → G d f) {p : Program Statement (Db Store) AppError α}
    (h : p.Always G) {x : Except AppError α} (hrun : p.run fails d = (d', x)) : G d d' := by
  have hG : G d (p.run fails d).1 := h.run hrefl htrans d
  rwa [hrun] at hG

/-- Each element leaves something behind, and no other takes it away. -/
theorem each_leaves {β : Type} {body : β → Action Unit} {Q : β → Db Store → Prop} {bs : List β}
    {G : Db Store → Db Store → Prop} (hrefl : ∀ d, G d d)
    (htrans : ∀ {d e f}, G d e → G e f → G d f) (hG : ∀ b ∈ bs, (body b).Always G)
    (hkeep : ∀ b {d d'}, G d d' → Q b d → Q b d')
    (hbody : ∀ b d d', (body b).run fails d = (d', .ok ()) → Q b d')
    (h : (each body bs).run fails d = (d', .ok ())) : ∀ b ∈ bs, Q b d' := by
  induction bs generalizing d with
  | nil => nofun
  | cons b bs ih =>
      obtain ⟨e, _, hb, hrest⟩ := bind_ok.mp (h : (body b >>= fun _ => each body bs).run fails d = _)
      have htail := fun c hc => hG c (List.mem_cons_of_mem b hc)
      intro c hc
      rcases List.mem_cons.mp hc with rfl | hc
      · exact hkeep c (always_run hrefl htrans (always_each htail) hrest) (hbody c d e hb)
      · exact ih htail hrest c hc

/-- The post with this id is marked, if it is one to mark. -/
def Done (status : Status) (d : Db Store) : Prop :=
  status.discarded = false → ∀ r ∈ d.working.statuses, r.id = status.id → r.carries = true →
    r.sensitive = true

theorem Done.within {status : Status} (h : Within named d d') (hd : Done status d) :
    Done status d' := by
  intro hdiscarded r hr hid hcarries
  obtain ⟨q, hq, hqr⟩ := h.2 r hr
  exact hqr.sensitive (hd hdiscarded q hq (hqr.id.trans hid) (hqr.carries.trans hcarries))

theorem markStatus_done {status : Status} (h : (markStatus env status).run fails d = (d', .ok ())) :
    Done status d' := by
  intro hd r hr hid hcarries
  rw [markStatus, if_neg (by simp [hd])] at h
  obtain ⟨u, carries, hask, h⟩ := bind_ok.mp h
  obtain ⟨-, rfl, rfl⟩ := ask_ok.mp hask
  split at h
  · obtain ⟨u₁, _, -, h⟩ := bind_ok.mp h
    obtain ⟨u₂, _, -, h⟩ := bind_ok.mp h
    obtain ⟨u₃, _, hmark, hlog⟩ := bind_ok.mp h
    obtain ⟨-, rfl⟩ := write_ok.mp hmark
    obtain ⟨-, rfl, -⟩ := ask_ok.mp hlog
    obtain ⟨q, hq, rfl⟩ := List.mem_map.mp hr
    by_cases hid' : q.id = status.id
    · simp [hid']
    · simp [hid'] at hid
  · rename_i hnone
    obtain ⟨rfl, -⟩ := done_ok.mp h
    exact absurd (List.any_eq_true.mpr ⟨r, hr, by simp [hid, hcarries]⟩) hnone

/-- Marking leaves no cited post unmarked. -/
theorem carryOut_marked (h : (carryOut env kind (cited s report) collections).run fails ⟨s, s⟩ =
    (d', .ok ())) : Marked kind report d'.working := by
  rintro rfl r hr hid hdiscarded hcarries
  obtain ⟨-, hst⟩ := always_run Within.refl Within.trans within_carryOut h
  obtain ⟨q, hq, hqr⟩ := hst r hr
  obtain ⟨u, _, -, h⟩ := bind_ok.mp h
  obtain ⟨v, _, heach, h⟩ := bind_ok.mp h
  have hdone := each_leaves (Q := Done) Within.refl Within.trans (fun _ => within_markStatus)
    (fun _ => Done.within) (fun _ _ _ => markStatus_done) heach q
    (List.mem_filter.mpr ⟨hq, by simp [hqr.id, hid]⟩)
  have hlast : Within [] v d' :=
    always_run Within.refl Within.trans (.each within_markCollection _) h
  refine hdone.within hlast ?_ r hr hqr.id.symm hcarries
  cases hq : q.discarded with
  | true => exact absurd (hqr.discarded hq) (by simp [hdiscarded])
  | false => rfl

theorem work_recorded (h : (work env kind report text (cited s report) collections).run fails
    ⟨s, s⟩ = (d', .ok ())) : Recorded env kind report d'.working := by
  obtain ⟨u, _, hcarry, h⟩ := bind_ok.mp h
  have hmarked := carryOut_marked hcarry
  obtain ⟨v, _, hsettle, h⟩ := bind_ok.mp h
  obtain ⟨u₁, _, hresolve, hsettle⟩ := bind_ok.mp hsettle
  obtain ⟨-, rfl⟩ := write_ok.mp hresolve
  obtain ⟨u₂, _, hlog, hstrike⟩ := bind_ok.mp hsettle
  obtain ⟨-, rfl, -⟩ := ask_ok.mp hlog
  obtain ⟨-, rfl⟩ := write_ok.mp hstrike
  let G : Db Store → Db Store → Prop := fun d d' =>
    Recorded env kind report d.working → Recorded env kind report d'.working
  have hkept : ∀ uris, (each tombstone uris).Always G := by
    refine Always.each fun uri => .exec fun d hd => ?_
    dsimp only
    split
    · exact hd
    · exact ⟨hd.resolved, hd.strike, hd.marked⟩
  exact always_run (G := G) (fun _ h => h) (fun h h' => h' ∘ h) (hkept _) h
    ⟨rfl, ⟨_, List.mem_cons_self, rfl, rfl, rfl, rfl⟩, hmarked⟩

/-- Either nothing is committed, or what the transaction did, and some of what follows. -/
theorem act_run {x : Except AppError Unit}
    (h : (act env kind text notify report (cited s report) collections).run fails (Db.of s) =
      (d', x)) : (x ≠ .ok () ∧ d'.committed = s) ∨
    Recorded env kind report d'.committed ∧ Touches (cited s report) s d'.committed := by
  rw [act, run_bind, openTx, Program.exec, run] at h
  cases hstart : fails .start with
  | true =>
      rw [hstart] at h
      cases h
      exact .inl ⟨by simp, rfl⟩
  | false =>
      rw [hstart] at h
      change ((work env kind report text _ _ >>= _).run fails ⟨s, s⟩) = _ at h
      rw [run_bind] at h
      cases hrun : (work env kind report text (cited s report) collections).run fails ⟨s, s⟩ with
      | mk e y =>
          obtain ⟨hkept, htouches⟩ := always_run Within.refl Within.trans within_work hrun
          rw [hrun] at h
          cases y with
          | error err =>
              cases h
              exact .inl ⟨by simp, hkept⟩
          | ok a =>
              have hrecorded := work_recorded hrun
              dsimp only at h
              rw [run_bind, commit, Program.exec, run] at h
              cases hcommit : fails .commit with
              | true =>
                  rw [hcommit] at h
                  cases h
                  exact .inl ⟨by simp, hkept⟩
              | false =>
                  rw [hcommit] at h
                  obtain ⟨hafter, hreport, hwarnings⟩ :=
                    always_run After.refl After.trans after_afterwards h
                  exact .inr ⟨⟨hreport.trans hrecorded.resolved, hwarnings ▸ hrecorded.strike,
                    hrecorded.marked.touches hafter⟩, htouches.trans hafter⟩

def Removed (status : Status) (d : Db Store) : Prop :=
  ∀ r ∈ d.committed.statuses, r.id = status.id → r.discarded = true

theorem Removed.after {status : Status} (h : After named d d') (hd : Removed status d) :
    Removed status d' := by
  intro r hr hid
  obtain ⟨q, hq, hqr⟩ := h.1 r hr
  exact hqr.discarded (hd q hq (hqr.id.trans hid))

theorem removeStatus_removed {status : Status}
    (h : (removeStatus status).run fails d = (d', .ok ())) : Removed status d' := by
  obtain ⟨u₁, _, -, h⟩ := bind_ok.mp h
  obtain ⟨u₂, _, hdiscard, hrecount⟩ := bind_ok.mp h
  obtain ⟨-, rfl⟩ := exec_ok.mp hdiscard
  obtain ⟨-, rfl, -⟩ := ask_ok.mp hrecount
  intro r hr hid
  obtain ⟨q, hq, rfl⟩ := List.mem_map.mp hr
  by_cases hid' : q.id = status.id
  · simp [hid']
  · simp [hid'] at hid

theorem act_removed
    (h : (act env .delete text notify report (cited s report) collections).run fails (Db.of s) =
      (d', .ok ())) : ∀ r ∈ d'.committed.statuses, r.id ∈ report.statusIds → r.discarded = true := by
  intro r hr hid
  obtain ⟨hne, -⟩ | ⟨-, hst⟩ := act_run h
  · exact absurd rfl hne
  obtain ⟨q, hq, hqr⟩ := hst r hr
  obtain ⟨u₁, _, -, h⟩ := bind_ok.mp h
  obtain ⟨u₂, _, -, h⟩ := bind_ok.mp h
  obtain ⟨u₃, _, -, h⟩ := bind_ok.mp h
  obtain ⟨u₄, _, -, h⟩ := bind_ok.mp h
  cases hdiscarded : q.discarded with
  | true => exact hqr.discarded hdiscarded
  | false =>
      refine each_leaves (Q := Removed) After.refl After.trans (fun _ => after_removeStatus)
        (fun _ => Removed.after) (fun _ _ _ => removeStatus_removed) h q ?_ r hr hqr.id.symm
      simp [cited, hq, hqr.id, hid, hdiscarded]

theorem ofExcept_then {α : Type} (a : α) (k : α → Action Unit) :
    (ofExcept (.ok a) >>= k : Action Unit) = k a := rfl

/-- A read that fails ends the run, and another changes nothing. -/
theorem ask_then {α : Type} {P : Db Store × Except AppError Unit → Prop} {l : Statement}
    {read : Db Store → α} {k : α → Action Unit} (herror : ∀ e, P (d, .error e))
    (hk : P ((k (read d)).run fails d)) : P ((ask l .internal read >>= k).run fails d) := by
  rw [run_bind, Program.ask, run]
  cases fails l with
  | true => exact herror _
  | false => exact hk

def boosted : Store where
  report := some ⟨2, [7], [], none⟩
  statuses := [⟨7, 2, none, none, false, false, false⟩, ⟨8, 3, some 7, none, false, false, false⟩]
  collections := []
  edits := []
  warnings := []
  tombstones := []

def moderator : Env := ⟨1, true, true⟩

end Eunha.ModerationActions
