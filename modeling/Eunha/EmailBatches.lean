import Eunha.Database
import Eunha.Interleaving
import Mathlib.Data.List.Sort

/-!
# Posts mailed to subscribers

A post joins its account's batch, a set in Redis, and a job is queued for the batch unless
the account has one. The job takes what the batch holds by then, and mails it to whoever has
confirmed a subscription. Calls and runs go statement by statement beside one another, and
any statement may fail. No post is mailed to an address twice; none is left behind where no
job ends over a batch that was added to, and nothing fails after the batch is taken.
-/
namespace Eunha.EmailBatches
open Interleaving Runs
open Database (Visibility)

/-! ### The store -/

structure Status where
  accountId : ℕ
  visibility : Visibility
  reply : Bool
  inReplyToAccountId : Option ℕ
  reblogOfId : Option ℕ
  deleted : Bool
  deriving DecidableEq

structure Subscription where
  accountId : ℕ
  email : String
  confirmed : Bool
  deriving DecidableEq

inductive JobRow where
  | queued
  | running
  deriving DecidableEq

/-- A post, for an address. -/
structure Copy where
  status : ℕ
  email : String
  deriving DecidableEq

structure Store where
  enabled : Bool
  offered : ℕ → Bool
  known : ℕ → Bool
  statuses : ℕ → Option Status
  subscriptions : List Subscription
  batch : ℕ → List ℕ
  jobs : ℕ → Option JobRow
  mails : List Copy
  /-- The posts that have joined a batch. -/
  added : List ℕ
  /-- Who has been subscribed throughout, since a post joined the batch. -/
  owed : List Copy

/-- `batch_key`'s `SADD` -/
def sadd (set : List ℕ) (id : ℕ) : List ℕ := if id ∈ set then set else set ++ [id]

/-- `batch_key`'s `SREM` -/
def srem (set ids : List ℕ) : List ℕ := set.filter (· ∉ ids)

/-- `WHERE account_id = … AND confirmed_at IS NOT NULL`, in the order of the ids. -/
def confirmedEmails (s : Store) (accountId : ℕ) : List String :=
  (s.subscriptions.filter fun sub => sub.accountId = accountId ∧ sub.confirmed = true).map (·.email)

def author (s : Store) (status : ℕ) : Option ℕ := (s.statuses status).map (·.accountId)

/-- `without_replies.without_reblogs.public_visibility`, of what is kept. -/
def Status.distributed (st : Status) : Bool :=
  !st.deleted && (!st.reply || st.inReplyToAccountId = some st.accountId) &&
    st.reblogOfId.isNone && st.visibility = .pub

def distributed (s : Store) (status : ℕ) : Bool := (s.statuses status).any Status.distributed

/-- `SELECT … FROM statuses WHERE id = ANY(…) … ORDER BY id DESC` -/
def mailable (s : Store) (ids : List ℕ) : List ℕ :=
  (ids.filter (distributed s)).insertionSort (· ≥ ·)

/-- The post is there. -/
def isThere (s : Store) (status : ℕ) : Bool := (s.statuses status).any fun st => !st.deleted

/-! ### The statements -/

structure PostedStatus where
  id : ℕ
  accountId : ℕ
  visibility : Visibility
  inReplyToId : Option ℕ
  inReplyToAccountId : Option ℕ
  deriving DecidableEq

def PostedStatus.row (status : PostedStatus) : Status where
  accountId := status.accountId
  visibility := status.visibility
  reply := status.inReplyToId.isSome
  inReplyToAccountId := status.inReplyToAccountId
  reblogOfId := none
  deleted := false

def PostedStatus.joins (status : PostedStatus) : Bool :=
  status.visibility = .pub &&
    !(status.inReplyToId.isSome && status.inReplyToAccountId ≠ some status.accountId)

inductive PostStage where
  | enabled
  | offered
  | add
  | schedule
  deriving DecidableEq

inductive RunStage where
  | enabled
  | account
  | offered
  | members
  | remove (ids : List ℕ)
  | subscribers (ids : List ℕ)
  | statuses (ids : List ℕ) (emails : List String)
  | mail (ids : List ℕ) (emails : List String)
  | finish
  deriving DecidableEq

inductive Call where
  | posting (accountId status : ℕ) (stage : PostStage)
  | running (accountId : ℕ) (stage : RunStage)
  deriving DecidableEq

/-- How a statement comes out. One that fails ends a run, which is retried unless that was
its last time; a mail that bounces does not. -/
inductive Answer where
  | ok
  | fails (exhausted : Bool)
  | bounces
  deriving DecidableEq

def Answer.failed : Answer → Bool
  | .fails _ => true
  | _ => false

/-- Who is subscribed now is owed the post. -/
def add (s : Store) (accountId status : ℕ) : Store :=
  { s with
    batch := Function.update s.batch accountId (sadd (s.batch accountId) status)
    added := status :: s.added
    owed := s.owed ++ (confirmedEmails s accountId).map (⟨status, ·⟩) }

/-- `INSERT … ON CONFLICT (unique_key) DO NOTHING`: one job for an account until it has run. -/
def schedule (s : Store) (accountId : ℕ) : Store :=
  match s.jobs accountId with
  | some _ => s
  | none => { s with jobs := Function.update s.jobs accountId (some .queued) }

/-- `status_posted` -/
def post (s : Store) (accountId status : ℕ) (stage : PostStage) (w : Answer) :
    Store × Option Call :=
  match stage with
  | .enabled =>
      (s, if s.enabled && !w.failed then some (.posting accountId status .offered) else none)
  | .offered =>
      (s, if s.offered accountId && !w.failed then some (.posting accountId status .add) else none)
  | .add =>
      if w.failed then (s, none)
      else (add s accountId status, some (.posting accountId status .schedule))
  | .schedule => (if w.failed then s else schedule s accountId, none)

/-- The job's row, once its run has failed: due again, or dead. -/
def retry (s : Store) (accountId : ℕ) (exhausted : Bool) : Store :=
  { s with jobs := Function.update s.jobs accountId (if exhausted then none else some .queued) }

def goOn (accountId : ℕ) (stage : RunStage) : Option Call := some (.running accountId stage)

/-- `EmailDistributionWorker` -/
def distribute (s : Store) (accountId : ℕ) (stage : RunStage) (w : Answer) : Store × Option Call :=
  match stage with
  | .enabled => (s, goOn accountId (if s.enabled then .account else .finish))
  | .account => (s, goOn accountId (if s.known accountId then .offered else .finish))
  | .offered => (s, goOn accountId (if s.offered accountId then .members else .finish))
  | .members =>
      (s, goOn accountId
        (if s.batch accountId = [] then .subscribers [] else .remove (s.batch accountId)))
  | .remove ids =>
      ({ s with batch := Function.update s.batch accountId (srem (s.batch accountId) ids) },
        goOn accountId (.subscribers ids))
  | .subscribers ids =>
      (s, goOn accountId
        (if confirmedEmails s accountId = [] ∨ ids = [] then .finish
          else .statuses ids (confirmedEmails s accountId)))
  | .statuses ids emails =>
      (s, goOn accountId (if mailable s ids = [] then .finish else .mail (mailable s ids) emails))
  | .mail _ [] => (s, goOn accountId .finish)
  | .mail ids (email :: rest) =>
      (if w = .bounces then s else { s with mails := s.mails ++ ids.map (⟨·, email⟩) },
        goOn accountId (.mail ids rest))
  | .finish => ({ s with jobs := Function.update s.jobs accountId none }, none)

/-- Settings that cannot be read are off. -/
def giveUp (s : Store) (accountId : ℕ) (stage : RunStage) (exhausted : Bool) :
    Store × Option Call :=
  match stage with
  | .enabled => (s, goOn accountId .finish)
  | .offered => (s, goOn accountId .finish)
  | _ => (retry s accountId exhausted, none)

def exec (s : Store) (c : Call) (w : Answer) : Store × Option Call :=
  match c with
  | .posting accountId status stage => post s accountId status stage w
  | .running accountId stage =>
      match w with
      | .fails exhausted => giveUp s accountId stage exhausted
      | _ => distribute s accountId stage w

inductive Request where
  | posted (status : PostedStatus)
  | claim (accountId : ℕ)
  | delete (status : ℕ)
  | setEnabled (enabled : Bool)
  | setOffered (accountId : ℕ) (offered : Bool)
  | setKnown (accountId : ℕ) (known : Bool)
  | subscribe (accountId : ℕ) (email : String)
  | confirm (accountId : ℕ) (email : String)
  | unsubscribe (accountId : ℕ) (email : String)

def insertStatus (s : Store) (status : PostedStatus) : Store :=
  { s with statuses := Function.update s.statuses status.id (some status.row) }

def deleteStatus (s : Store) (status : ℕ) : Store :=
  { s with
    statuses := Function.update s.statuses status
      ((s.statuses status).map fun st => { st with deleted := true }) }

def isFor (accountId : ℕ) (email : String) (sub : Subscription) : Bool :=
  sub.accountId = accountId ∧ sub.email = email

def confirmed (accountId : ℕ) (email : String) (sub : Subscription) : Subscription :=
  if isFor accountId email sub then { sub with confirmed := true } else sub

def enter (s : Store) : Request → Store × Option Call
  | .posted status =>
      if (s.statuses status.id).isSome then (s, none)
      else
        (insertStatus s status,
          if status.joins then some (.posting status.accountId status.id .enabled) else none)
  | .claim accountId =>
      if s.jobs accountId = some .queued then
        ({ s with jobs := Function.update s.jobs accountId (some .running) },
          some (.running accountId .enabled))
      else (s, none)
  | .delete status => (deleteStatus s status, none)
  | .setEnabled enabled => ({ s with enabled := enabled }, none)
  | .setOffered accountId offered =>
      ({ s with offered := Function.update s.offered accountId offered }, none)
  | .setKnown accountId known =>
      ({ s with known := Function.update s.known accountId known }, none)
  | .subscribe accountId email =>
      (if s.subscriptions.any (isFor accountId email) then s
        else { s with subscriptions := s.subscriptions ++ [⟨accountId, email, false⟩] }, none)
  | .confirm accountId email =>
      ({ s with subscriptions := s.subscriptions.map (confirmed accountId email) }, none)
  | .unsubscribe accountId email =>
      ({ s with
          subscriptions := s.subscriptions.filter fun sub => !isFor accountId email sub
          owed := s.owed.filter fun c => !(c.email = email ∧ author s c.status = some accountId) },
        none)

def batches : Machine Store Call Request Answer where
  enter := enter
  exec := exec

/-- No post yet, nobody subscribed, and no job. -/
def start (enabled : Bool) (offered known : ℕ → Bool) : Store where
  enabled := enabled
  offered := offered
  known := known
  statuses := fun _ => none
  subscriptions := []
  batch := fun _ => []
  jobs := fun _ => none
  mails := []
  added := []
  owed := []

/-! ### What is asked of the batches -/

def Batched (s : Store) (status : ℕ) : Prop := ∃ a, status ∈ s.batch a

structure Kept (s : Store) : Prop where
  pending : ∀ a, s.batch a ≠ [] → s.jobs a = some .queued
  mailed : ∀ c ∈ s.owed, isThere s c.status = true → Batched s c.status ∨ c ∈ s.mails
  once : s.mails.Nodup

def Scheduling (calls : List Call) (accountId : ℕ) : Prop :=
  ∃ status, .posting accountId status .schedule ∈ calls

def RunStage.holds : RunStage → Copy → Prop
  | .subscribers ids, c => c.status ∈ ids
  | .statuses ids emails, c => c.status ∈ ids ∧ c.email ∈ emails
  | .mail ids emails, c => c.status ∈ ids ∧ c.email ∈ emails
  | _, _ => False

def RunStage.first : RunStage → Copy → Prop
  | .mail ids (email :: _), c => c.status ∈ ids ∧ c.email = email
  | _, _ => False

/-- A post that is there and an address subscribed throughout. -/
def Due (s : Store) (c : Copy) : Prop := c ∈ s.owed ∧ isThere s c.status = true

def RunStage.ends (stage : RunStage) (w : Answer) : Prop :=
  (stage = .finish ∧ w.failed = false) ∨
    (stage ≠ .enabled ∧ stage ≠ .offered ∧ w = .fails true)

def Sound (s : Store) (c : Call) (calls : List Call) (w : Answer) : Prop :=
  match c with
  | .posting a _ .schedule =>
      w.failed = true → s.batch a = [] ∨ s.jobs a ≠ none ∨ Scheduling calls a
  | .posting _ _ _ => True
  | .running a stage =>
      (stage.ends w → s.batch a = [] ∨ Scheduling calls a) ∧
        (w.failed = true → ∀ c, Due s c → ¬ stage.holds c) ∧
        (w = .bounces → ∀ c, Due s c → ¬ stage.first c)

def guards : Guards Store Call Request Answer where
  request _ _ _ := True
  statement := Sound

/-! ### What the store holds -/

variable {s s' : Store} {c : Call} {calls : List Call} {a p : ℕ}

/-- A post of the account's, which the query finds as long as it is there. -/
structure Fine (s : Store) (a p : ℕ) : Prop where
  author : author s p = some a
  found : isThere s p = true → distributed s p = true

structure Sane (s : Store) : Prop where
  batch : ∀ a, ∀ p ∈ s.batch a, Fine s a p ∧ p ∈ s.added
  distinct : ∀ a, (s.batch a).Nodup
  added : ∀ p ∈ s.added, (s.statuses p).isSome = true
  mailed : ∀ m ∈ s.mails, m.status ∈ s.added ∧ ∀ a, m.status ∉ s.batch a
  once : s.mails.Nodup
  owed : ∀ c ∈ s.owed, c.status ∈ s.added ∧
    ∃ a, author s c.status = some a ∧ c.email ∈ confirmedEmails s a
  subscriptions : (s.subscriptions.map fun sub => (sub.accountId, sub.email)).Nodup

/-- What a run has taken out of the batch. -/
structure Taken (s : Store) (a : ℕ) (ids : List ℕ) : Prop where
  distinct : ids.Nodup
  fine : ∀ p ∈ ids, Fine s a p
  added : ∀ p ∈ ids, p ∈ s.added
  left : ∀ p ∈ ids, p ∉ s.batch a

def RunStage.Good (s : Store) (a : ℕ) : RunStage → Prop
  | .remove ids => ids.Nodup ∧ ∀ p ∈ ids, p ∈ s.batch a
  | .subscribers ids => Taken s a ids ∧ ∀ m ∈ s.mails, m.status ∉ ids
  | .statuses ids emails =>
      Taken s a ids ∧ (∀ m ∈ s.mails, m.status ∉ ids) ∧ emails.Nodup ∧
        ∀ c ∈ s.owed, c.status ∈ ids → c.email ∈ emails
  | .mail ids emails =>
      Taken s a ids ∧ emails.Nodup ∧ ∀ m ∈ s.mails, m.status ∈ ids → m.email ∉ emails
  | _ => True

def Call.Good (s : Store) : Call → Prop
  | .posting a p stage => Fine s a p ∧ (stage ≠ .schedule → p ∉ s.added)
  | .running a stage => s.jobs a = some .running ∧ stage.Good s a

def Call.runs : Call → Option ℕ
  | .running a _ => some a
  | .posting _ _ _ => none

def Call.unadded : Call → Option ℕ
  | .posting _ _ .schedule => none
  | .posting _ p _ => some p
  | .running _ _ => none

/-- A call for each post, and one run for each account whose job is claimed. -/
structure Tidy (s : Store) (calls : List Call) : Prop where
  sane : Sane s
  good : ∀ c ∈ calls, c.Good s
  alone : (calls.filterMap Call.runs).Nodup
  unadded : (calls.filterMap Call.unadded).Nodup
  claimed : ∀ a, s.jobs a = some .running → a ∈ calls.filterMap Call.runs

/-- A batch is to be taken, and what is due is batched, mailed or held by a run. -/
structure Owing (s : Store) (calls : List Call) : Prop where
  pending : ∀ a, s.batch a ≠ [] → s.jobs a ≠ none ∨ Scheduling calls a
  due : ∀ c, Due s c → Batched s c.status ∨ c ∈ s.mails ∨
    ∃ a stage, .running a stage ∈ calls ∧ stage.holds c

theorem Tidy.perm {calls' : List Call} (hperm : calls.Perm calls') (h : Tidy s calls) :
    Tidy s calls' where
  sane := h.sane
  good := fun c hc => h.good c (hperm.mem_iff.2 hc)
  alone := ((hperm.filterMap _).nodup_iff).1 h.alone
  unadded := ((hperm.filterMap _).nodup_iff).1 h.unadded
  claimed := fun a ha => ((hperm.filterMap _).mem_iff).1 (h.claimed a ha)

theorem Scheduling.perm {calls' : List Call} (hperm : calls.Perm calls') (h : Scheduling calls a) :
    Scheduling calls' a := by
  obtain ⟨p, hp⟩ := h
  exact ⟨p, hperm.mem_iff.1 hp⟩

theorem Owing.perm {calls' : List Call} (hperm : calls.Perm calls') (h : Owing s calls) :
    Owing s calls' where
  pending := fun a ha => (h.pending a ha).imp_right (·.perm hperm)
  due := by
    intro c hc
    rcases h.due c hc with hbatched | hmailed | ⟨a, stage, hrun, hholds⟩
    · exact .inl hbatched
    · exact .inr (.inl hmailed)
    · exact .inr (.inr ⟨a, stage, hperm.mem_iff.1 hrun, hholds⟩)

/-! ### What a step leaves of the other calls -/

/-- What a step leaves as it was for the runs of an account. -/
structure Apart (s s' : Store) (a : ℕ) : Prop where
  fine : ∀ p, Fine s a p → Fine s' a p
  added : ∀ p ∈ s.added, p ∈ s'.added
  kept : ∀ p ∈ s.batch a, p ∈ s'.batch a
  joined : ∀ p ∈ s'.batch a, p ∈ s.batch a ∨ p ∉ s.added
  owed : ∀ c ∈ s'.owed, c ∈ s.owed ∨ c.status ∉ s.added
  mails : ∀ m ∈ s'.mails, m ∈ s.mails ∨ author s m.status ≠ some a
  jobs : s.jobs a = some .running → s'.jobs a = some .running

theorem Taken.apart {ids : List ℕ} (h : Taken s a ids) (hapart : Apart s s' a) :
    Taken s' a ids where
  distinct := h.distinct
  fine := fun p hp => hapart.fine p (h.fine p hp)
  added := fun p hp => hapart.added p (h.added p hp)
  left := by
    intro p hp hbatch
    rcases hapart.joined p hbatch with hbatch | hnew
    · exact h.left p hp hbatch
    · exact hnew (h.added p hp)

theorem Taken.mail_mem {ids : List ℕ} (h : Taken s a ids) (hapart : Apart s s' a) {m : Copy}
    (hm : m ∈ s'.mails) (hids : m.status ∈ ids) : m ∈ s.mails := by
  rcases hapart.mails m hm with hm | hother
  · exact hm
  · exact absurd (h.fine m.status hids).author hother

theorem RunStage.Good.apart {stage : RunStage} (h : stage.Good s a) (hapart : Apart s s' a) :
    stage.Good s' a := by
  cases stage with
  | enabled => trivial
  | account => trivial
  | offered => trivial
  | members => trivial
  | remove ids => exact ⟨h.1, fun p hp => hapart.kept p (h.2 p hp)⟩
  | subscribers ids =>
      obtain ⟨htaken, hunmailed⟩ := h
      refine ⟨htaken.apart hapart, ?_⟩
      intro m hm hids
      exact hunmailed m (htaken.mail_mem hapart hm hids) hids
  | statuses ids emails =>
      obtain ⟨htaken, hunmailed, hdistinct, howed⟩ := h
      refine ⟨htaken.apart hapart, ?_, hdistinct, ?_⟩
      · intro m hm hids
        exact hunmailed m (htaken.mail_mem hapart hm hids) hids
      · intro c hc hids
        rcases hapart.owed c hc with hc | hnew
        · exact howed c hc hids
        · exact absurd (htaken.added c.status hids) hnew
  | mail ids emails =>
      obtain ⟨htaken, hdistinct, hunmailed⟩ := h
      refine ⟨htaken.apart hapart, hdistinct, ?_⟩
      intro m hm hids
      exact hunmailed m (htaken.mail_mem hapart hm hids) hids
  | finish => trivial

theorem Call.Good.apart (h : c.Good s) (hruns : ∀ a, c.runs = some a → Apart s s' a)
    (hfine : ∀ a p, Fine s a p → Fine s' a p)
    (hadded : ∀ p, c.unadded = some p → p ∈ s'.added → p ∈ s.added) : c.Good s' := by
  cases c with
  | posting a p stage =>
      refine ⟨hfine a p h.1, fun hstage hp => h.2 hstage (hadded p ?_ hp)⟩
      cases stage with
      | schedule => exact absurd rfl hstage
      | _ => rfl
  | running a stage => exact ⟨(hruns a rfl).jobs h.1, h.2.apart (hruns a rfl)⟩

theorem Tidy.replace (h : Tidy s (c :: calls)) {n : Option Call} (hsane : Sane s')
    (hgood : ∀ d ∈ calls, d.Good s') (hnext : ∀ d ∈ n, d.Good s')
    (hruns : ∀ d ∈ n, d.runs = c.runs)
    (hunadded : ∀ d ∈ n, d.unadded = c.unadded ∨ d.unadded = none)
    (hclaimed : ∀ a, s'.jobs a = some .running → s.jobs a = some .running ∧
      (c.runs = some a → ∃ d ∈ n, d.runs = some a)) :
    Tidy s' (n.toList ++ calls) where
  sane := hsane
  good := by
    intro d hd
    rcases List.mem_append.1 hd with hd | hd
    · exact hnext d (Option.mem_toList.1 hd)
    · exact hgood d hd
  alone := by
    have halone := h.alone
    cases n with
    | none =>
        rw [List.filterMap_cons] at halone
        cases hc : c.runs with
        | none =>
            rw [hc] at halone
            exact halone
        | some a =>
            rw [hc] at halone
            exact halone.of_cons
    | some d =>
        rw [List.filterMap_cons] at halone
        rw [Option.toList_some, List.singleton_append, List.filterMap_cons, hruns d rfl]
        exact halone
  unadded := by
    have hfresh := h.unadded
    rw [List.filterMap_cons] at hfresh
    have htail : (calls.filterMap Call.unadded).Nodup := by
      cases hc : c.unadded with
      | none =>
          rw [hc] at hfresh
          exact hfresh
      | some p =>
          rw [hc] at hfresh
          exact hfresh.of_cons
    cases n with
    | none => exact htail
    | some d =>
        rw [Option.toList_some, List.singleton_append, List.filterMap_cons]
        rcases hunadded d rfl with hd | hd
        · rw [hd]
          exact hfresh
        · rw [hd]
          exact htail
  claimed := by
    intro a ha
    obtain ⟨hbefore, hself⟩ := hclaimed a ha
    rw [List.filterMap_append, List.mem_append]
    obtain ⟨d, hd, hda⟩ := List.mem_filterMap.1 (h.claimed a hbefore)
    rcases List.mem_cons.1 hd with rfl | hd
    · obtain ⟨e, he, hea⟩ := hself hda
      exact .inl (List.mem_filterMap.2 ⟨e, Option.mem_toList.2 he, hea⟩)
    · exact .inr (List.mem_filterMap.2 ⟨d, hd, hda⟩)

/-! ### Calls beside one another -/

theorem Tidy.others (h : Tidy s (c :: calls)) (hc : c.runs = some a) :
    ∀ d ∈ calls, d.runs ≠ some a := by
  have halone := h.alone
  rw [List.filterMap_cons, hc, List.nodup_cons] at halone
  exact fun d hd hda => halone.1 (List.mem_filterMap.2 ⟨d, hd, hda⟩)

theorem Tidy.unlike (h : Tidy s (c :: calls)) (hc : c.unadded = some p) :
    ∀ d ∈ calls, d.unadded ≠ some p := by
  have hfresh := h.unadded
  rw [List.filterMap_cons, hc, List.nodup_cons] at hfresh
  exact fun d hd hdp => hfresh.1 (List.mem_filterMap.2 ⟨d, hd, hdp⟩)

theorem Tidy.rest (h : Tidy s (c :: calls)) : ∀ d ∈ calls, d.Good s :=
  fun d hd => h.good d (List.mem_cons_of_mem _ hd)

theorem Tidy.read (h : Tidy s (c :: calls)) {n : Option Call} (hnext : ∀ d ∈ n, d.Good s)
    (hruns : ∀ d ∈ n, d.runs = c.runs)
    (hunadded : ∀ d ∈ n, d.unadded = c.unadded ∨ d.unadded = none)
    (hend : ∀ a, c.runs = some a → ∃ d ∈ n, d.runs = some a) :
    Tidy s (n.toList ++ calls) :=
  h.replace h.sane h.rest hnext hruns hunadded fun a ha => ⟨ha, hend a⟩

theorem Tidy.drop (h : Tidy s (c :: calls)) (hc : c.runs = none) : Tidy s calls :=
  h.read (n := none) (fun _ hd => nomatch hd) (fun _ hd => nomatch hd)
    (fun _ hd => nomatch hd) (fun _ ha => nomatch hc.symm.trans ha)

theorem Tidy.run {stage stage' : RunStage} (h : Tidy s (.running a stage :: calls))
    (hgood : stage'.Good s a) : Tidy s ((goOn a stage').toList ++ calls) := by
  have hrow := (h.good _ List.mem_cons_self).1
  apply h.read
  · intro d hd
    cases hd
    exact ⟨hrow, hgood⟩
  · intro d hd
    cases hd
    rfl
  · intro d hd
    cases hd
    exact .inr rfl
  · intro b hb
    exact ⟨_, rfl, hb⟩

/-! ### Posts that join -/

theorem isSome_of_author (h : author s p = some a) : (s.statuses p).isSome = true := by
  cases hp : s.statuses p with
  | none =>
      rw [author, hp] at h
      exact nomatch h
  | some st => rfl

theorem mem_sadd {set : List ℕ} {id x : ℕ} : x ∈ sadd set id ↔ x ∈ set ∨ x = id := by
  unfold sadd
  split
  · rename_i hid
    constructor
    · exact .inl
    · rintro (hx | rfl)
      · exact hx
      · exact hid
  · rw [List.mem_append, List.mem_singleton]

theorem nodup_sadd {set : List ℕ} (h : set.Nodup) (id : ℕ) : (sadd set id).Nodup := by
  unfold sadd
  split
  · exact h
  · rename_i hid
    rw [List.nodup_append]
    refine ⟨h, List.nodup_singleton id, ?_⟩
    rintro x hx y hy rfl
    rw [List.mem_singleton] at hy
    exact hid (hy ▸ hx)

theorem mem_batch_add {b : ℕ} {x : ℕ} (h : x ∈ (add s a p).batch b) :
    x ∈ s.batch b ∨ b = a ∧ x = p := by
  unfold add at h
  dsimp only at h
  by_cases hb : b = a
  · subst hb
    rw [Function.update_self, mem_sadd] at h
    exact h.imp_right fun hx => ⟨rfl, hx⟩
  · rw [Function.update_of_ne hb] at h
    exact .inl h

theorem batch_add_subset {b : ℕ} {x : ℕ} (h : x ∈ s.batch b) : x ∈ (add s a p).batch b := by
  unfold add
  dsimp only
  by_cases hb : b = a
  · subst hb
    rw [Function.update_self, mem_sadd]
    exact .inl h
  · rw [Function.update_of_ne hb]
    exact h

theorem mem_owed_add {o : Copy} (h : o ∈ (add s a p).owed) :
    o ∈ s.owed ∨ o.status = p ∧ o.email ∈ confirmedEmails s a := by
  rcases List.mem_append.1 h with h | h
  · exact .inl h
  · obtain ⟨email, hemail, rfl⟩ := List.mem_map.1 h
    exact .inr ⟨rfl, hemail⟩

theorem sane_add (h : Sane s) (hfine : Fine s a p) (hnew : p ∉ s.added) : Sane (add s a p) where
  batch := by
    intro b x hx
    rcases mem_batch_add hx with hx | ⟨rfl, rfl⟩
    · obtain ⟨hfine, hadded⟩ := h.batch b x hx
      exact ⟨⟨hfine.author, hfine.found⟩, List.mem_cons_of_mem _ hadded⟩
    · exact ⟨⟨hfine.author, hfine.found⟩, List.mem_cons_self⟩
  distinct := by
    intro b
    unfold add
    dsimp only
    by_cases hb : b = a
    · subst hb
      rw [Function.update_self]
      exact nodup_sadd (h.distinct b) p
    · rw [Function.update_of_ne hb]
      exact h.distinct b
  added := by
    intro x hx
    rcases List.mem_cons.1 hx with rfl | hx
    · exact isSome_of_author hfine.author
    · exact h.added x hx
  mailed := by
    intro m hm
    obtain ⟨hadded, hleft⟩ := h.mailed m hm
    refine ⟨List.mem_cons_of_mem _ hadded, fun b hb => ?_⟩
    rcases mem_batch_add hb with hb | ⟨-, heq⟩
    · exact hleft b hb
    · exact hnew (heq ▸ hadded)
  once := h.once
  owed := by
    intro o ho
    rcases mem_owed_add ho with ho | ⟨heq, hemail⟩
    · obtain ⟨hadded, b, hauthor, hemail⟩ := h.owed o ho
      exact ⟨List.mem_cons_of_mem _ hadded, b, hauthor, hemail⟩
    · rw [heq]
      exact ⟨List.mem_cons_self, a, hfine.author, hemail⟩
  subscriptions := h.subscriptions

theorem apart_add (s : Store) (hnew : p ∉ s.added) (b : ℕ) : Apart s (add s a p) b where
  fine := fun _ h => ⟨h.author, h.found⟩
  added := fun _ h => List.mem_cons_of_mem _ h
  kept := fun _ h => batch_add_subset h
  joined := by
    intro x hx
    rcases mem_batch_add hx with hx | ⟨-, rfl⟩
    · exact .inl hx
    · exact .inr hnew
  owed := by
    intro o ho
    rcases mem_owed_add ho with ho | ⟨heq, -⟩
    · exact .inl ho
    · rw [heq]
      exact .inr hnew
  mails := fun _ h => .inl h
  jobs := fun h => h

theorem tidy_add (h : Tidy s (.posting a p .add :: calls)) :
    Tidy (add s a p) (.posting a p .schedule :: calls) := by
  obtain ⟨hfine, hnew⟩ := h.good _ List.mem_cons_self
  have hnew : p ∉ s.added := hnew (fun heq => nomatch heq)
  have hother := h.unlike (p := p) rfl
  apply h.replace (n := some (.posting a p .schedule)) (sane_add h.sane hfine hnew)
  · intro d hd
    apply (h.rest d hd).apart (fun b _ => apart_add s hnew b)
      (fun b _ => (apart_add s hnew b).fine _)
    intro x hx hadded
    rcases List.mem_cons.1 hadded with rfl | hadded
    · exact absurd hx (hother d hd)
    · exact hadded
  · intro d hd
    cases hd
    exact ⟨⟨hfine.author, hfine.found⟩, fun hne => absurd rfl hne⟩
  · intro d hd
    cases hd
    rfl
  · intro d hd
    cases hd
    exact .inr rfl
  · exact fun b hb => ⟨hb, fun hnone => nomatch hnone⟩

/-! ### Jobs -/

theorem apart_jobs {jobs : ℕ → Option JobRow} {b : ℕ}
    (hjobs : s.jobs b = some .running → jobs b = some .running) :
    Apart s { s with jobs := jobs } b where
  fine := fun _ h => ⟨h.author, h.found⟩
  added := fun _ h => h
  kept := fun _ h => h
  joined := fun _ h => .inl h
  owed := fun _ h => .inl h
  mails := fun _ h => .inl h
  jobs := hjobs

theorem Sane.withJobs (h : Sane s) (jobs : ℕ → Option JobRow) : Sane { s with jobs := jobs } where
  batch := fun a p hp => ⟨⟨(h.batch a p hp).1.author, (h.batch a p hp).1.found⟩, (h.batch a p hp).2⟩
  distinct := h.distinct
  added := h.added
  mailed := h.mailed
  once := h.once
  owed := h.owed
  subscriptions := h.subscriptions

theorem tidy_schedule (h : Tidy s (.posting a p .schedule :: calls)) :
    Tidy (schedule s a) calls := by
  unfold schedule
  cases hrow : s.jobs a with
  | some row => exact h.drop rfl
  | none =>
      apply h.replace (n := none) (h.sane.withJobs _)
      · intro d hd
        apply (h.rest d hd).apart
        · intro b _
          apply apart_jobs
          intro hrunning
          rw [Function.update_of_ne]
          · exact hrunning
          · rintro rfl
            exact nomatch hrow.symm.trans hrunning
        · exact fun _ _ h => ⟨h.author, h.found⟩
        · exact fun _ _ h => h
      · exact fun _ hd => nomatch hd
      · exact fun _ hd => nomatch hd
      · exact fun _ hd => nomatch hd
      · intro b hb
        refine ⟨?_, fun hnone => nomatch hnone⟩
        dsimp only at hb
        by_cases hba : b = a
        · rw [hba, Function.update_self] at hb
          exact nomatch hb
        · rw [Function.update_of_ne hba] at hb
          exact hb

theorem tidy_over {stage : RunStage} {row : Option JobRow}
    (h : Tidy s (.running a stage :: calls)) (hrow : row ≠ some .running) :
    Tidy { s with jobs := Function.update s.jobs a row } calls := by
  have hothers := h.others (a := a) rfl
  apply h.replace (n := none) (h.sane.withJobs _)
  · intro d hd
    apply (h.rest d hd).apart
    · intro b hb
      apply apart_jobs
      intro hrunning
      rw [Function.update_of_ne]
      · exact hrunning
      · rintro rfl
        exact hothers d hd hb
    · exact fun _ _ h => ⟨h.author, h.found⟩
    · exact fun _ _ h => h
  · exact fun _ hd => nomatch hd
  · exact fun _ hd => nomatch hd
  · exact fun _ hd => nomatch hd
  · intro b hb
    dsimp only at hb
    by_cases hba : b = a
    · rw [hba, Function.update_self] at hb
      exact absurd hb hrow
    · rw [Function.update_of_ne hba] at hb
      exact ⟨hb, fun heq => absurd (Option.some.inj heq).symm hba⟩

/-! ### What a run does -/

theorem mem_srem {set ids : List ℕ} {x : ℕ} : x ∈ srem set ids ↔ x ∈ set ∧ x ∉ ids := by
  rw [srem, List.mem_filter, decide_eq_true_eq]

def taking (s : Store) (a : ℕ) (ids : List ℕ) : Store :=
  { s with batch := Function.update s.batch a (srem (s.batch a) ids) }

theorem mem_batch_taking {ids : List ℕ} {b x : ℕ} (h : x ∈ (taking s a ids).batch b) :
    x ∈ s.batch b ∧ (b = a → x ∉ ids) := by
  unfold taking at h
  dsimp only at h
  by_cases hb : b = a
  · subst hb
    rw [Function.update_self, mem_srem] at h
    exact ⟨h.1, fun _ => h.2⟩
  · rw [Function.update_of_ne hb] at h
    exact ⟨h, fun heq => absurd heq hb⟩

theorem sane_taking (h : Sane s) (a : ℕ) (ids : List ℕ) : Sane (taking s a ids) where
  batch := by
    intro b x hx
    obtain ⟨hfine, hadded⟩ := h.batch b x (mem_batch_taking hx).1
    exact ⟨⟨hfine.author, hfine.found⟩, hadded⟩
  distinct := by
    intro b
    unfold taking
    dsimp only
    by_cases hb : b = a
    · subst hb
      rw [Function.update_self]
      exact (h.distinct b).filter _
    · rw [Function.update_of_ne hb]
      exact h.distinct b
  added := h.added
  mailed := fun m hm => ⟨(h.mailed m hm).1, fun b hb => (h.mailed m hm).2 b (mem_batch_taking hb).1⟩
  once := h.once
  owed := h.owed
  subscriptions := h.subscriptions

theorem apart_taking {b : ℕ} (hb : b ≠ a) (ids : List ℕ) : Apart s (taking s a ids) b := by
  have hsame : (taking s a ids).batch b = s.batch b := Function.update_of_ne hb _ _
  constructor
  · exact fun _ h => ⟨h.author, h.found⟩
  · exact fun _ h => h
  · intro x hx
    rw [hsame]
    exact hx
  · intro x hx
    rw [hsame] at hx
    exact .inl hx
  · exact fun _ h => .inl h
  · exact fun _ h => .inl h
  · exact fun h => h

theorem tidy_remove {ids : List ℕ} (h : Tidy s (.running a (.remove ids) :: calls)) :
    Tidy (taking s a ids) (.running a (.subscribers ids) :: calls) := by
  obtain ⟨hrow, hdistinct, hbatch⟩ := h.good _ List.mem_cons_self
  have hothers := h.others (a := a) rfl
  apply h.replace (n := some (.running a (.subscribers ids))) (sane_taking h.sane a ids)
  · intro d hd
    apply (h.rest d hd).apart
    · intro b hb
      apply apart_taking
      rintro rfl
      exact hothers d hd hb
    · exact fun _ _ h => ⟨h.author, h.found⟩
    · exact fun _ _ h => h
  · intro d hd
    cases hd
    refine ⟨hrow, ⟨hdistinct, ?_, ?_, ?_⟩, ?_⟩
    · intro p hp
      have hfine := (h.sane.batch a p (hbatch p hp)).1
      exact ⟨hfine.author, hfine.found⟩
    · exact fun p hp => (h.sane.batch a p (hbatch p hp)).2
    · exact fun p hp hleft => (mem_batch_taking hleft).2 rfl hp
    · exact fun m hm hids => (h.sane.mailed m hm).2 a (hbatch m.status hids)
  · intro d hd
    cases hd
    rfl
  · intro d hd
    cases hd
    exact .inr rfl
  · exact fun b hb => ⟨hb, fun heq => ⟨_, rfl, heq⟩⟩

theorem nodup_confirmedEmails (h : Sane s) (a : ℕ) : (confirmedEmails s a).Nodup := by
  have hpairs := h.subscriptions
  rw [List.Nodup, List.pairwise_map] at hpairs
  rw [confirmedEmails, List.Nodup, List.pairwise_map, List.pairwise_filter]
  apply hpairs.imp
  intro x y hne hx hy hemail
  rw [decide_eq_true_eq] at hx hy
  apply hne
  rw [hx.1, hy.1, hemail]

theorem mem_mailable {ids : List ℕ} : p ∈ mailable s ids ↔ p ∈ ids ∧ distributed s p = true := by
  rw [mailable, (List.perm_insertionSort _ _).mem_iff, List.mem_filter]

theorem Taken.mailable {ids : List ℕ} (h : Taken s a ids) :
    Taken s a (EmailBatches.mailable s ids) where
  distinct := ((List.perm_insertionSort _ _).nodup_iff).2 (h.distinct.filter _)
  fine := fun p hp => h.fine p (mem_mailable.1 hp).1
  added := fun p hp => h.added p (mem_mailable.1 hp).1
  left := fun p hp => h.left p (mem_mailable.1 hp).1

def mailing (s : Store) (ids : List ℕ) (email : String) : Store :=
  { s with mails := s.mails ++ ids.map (⟨·, email⟩) }

theorem mem_mailing {ids : List ℕ} {email : String} {m : Copy}
    (h : m ∈ (mailing s ids email).mails) : m ∈ s.mails ∨ m.status ∈ ids ∧ m.email = email := by
  rcases List.mem_append.1 h with h | h
  · exact .inl h
  · obtain ⟨p, hp, rfl⟩ := List.mem_map.1 h
    exact .inr ⟨hp, rfl⟩

theorem sane_mailing {ids : List ℕ} {email : String} (h : Sane s) (htaken : Taken s a ids)
    (hunmailed : ∀ m ∈ s.mails, m.status ∈ ids → m.email ≠ email) :
    Sane (mailing s ids email) where
  batch := fun b p hp => ⟨⟨(h.batch b p hp).1.author, (h.batch b p hp).1.found⟩, (h.batch b p hp).2⟩
  distinct := h.distinct
  added := h.added
  mailed := by
    intro m hm
    rcases mem_mailing hm with hm | ⟨hids, -⟩
    · exact h.mailed m hm
    · refine ⟨htaken.added m.status hids, fun b hb => ?_⟩
      have hauthor := (htaken.fine m.status hids).author
      rw [(h.batch b m.status hb).1.author, Option.some.injEq] at hauthor
      exact htaken.left m.status hids (hauthor ▸ hb)
  once := by
    show (s.mails ++ ids.map fun p => Copy.mk p email).Nodup
    rw [List.nodup_append]
    refine ⟨h.once, htaken.distinct.map ?_, ?_⟩
    · intro p q heq
      exact (Copy.mk.inj heq).1
    · rintro m hm m' hm' rfl
      obtain ⟨p, hp, rfl⟩ := List.mem_map.1 hm'
      exact hunmailed _ hm hp rfl
  owed := h.owed
  subscriptions := h.subscriptions

theorem apart_mailing {ids : List ℕ} {email : String} {b : ℕ} (htaken : Taken s a ids)
    (hb : b ≠ a) : Apart s (mailing s ids email) b where
  fine := fun _ h => ⟨h.author, h.found⟩
  added := fun _ h => h
  kept := fun _ h => h
  joined := fun _ h => .inl h
  owed := fun _ h => .inl h
  mails := by
    intro m hm
    rcases mem_mailing hm with hm | ⟨hids, -⟩
    · exact .inl hm
    · apply Or.inr
      rw [(htaken.fine m.status hids).author]
      exact fun heq => hb (Option.some.inj heq).symm
  jobs := fun h => h

theorem tidy_mail {ids : List ℕ} {email : String} {rest : List String}
    (h : Tidy s (.running a (.mail ids (email :: rest)) :: calls)) :
    Tidy (mailing s ids email) (.running a (.mail ids rest) :: calls) := by
  obtain ⟨hrow, htaken, hdistinct, hunmailed⟩ := h.good _ List.mem_cons_self
  have hothers := h.others (a := a) rfl
  have hemail : ∀ m ∈ s.mails, m.status ∈ ids → m.email ≠ email := by
    intro m hm hids heq
    exact hunmailed m hm hids (heq ▸ List.mem_cons_self)
  apply h.replace (n := some (.running a (.mail ids rest))) (sane_mailing h.sane htaken hemail)
  · intro d hd
    apply (h.rest d hd).apart
    · intro b hb
      apply apart_mailing htaken
      rintro rfl
      exact hothers d hd hb
    · exact fun _ _ h => ⟨h.author, h.found⟩
    · exact fun _ _ h => h
  · intro d hd
    cases hd
    refine ⟨hrow, ⟨htaken.distinct, ?_, htaken.added, htaken.left⟩, hdistinct.of_cons, ?_⟩
    · exact fun p hp => ⟨(htaken.fine p hp).author, (htaken.fine p hp).found⟩
    · intro m hm hids hrest
      rcases mem_mailing hm with hm | ⟨-, heq⟩
      · exact hunmailed m hm hids (List.mem_cons_of_mem _ hrest)
      · rw [heq] at hrest
        exact (List.nodup_cons.1 hdistinct).1 hrest
  · intro d hd
    cases hd
    rfl
  · intro d hd
    cases hd
    exact .inr rfl
  · exact fun b hb => ⟨hb, fun heq => ⟨_, rfl, heq⟩⟩

theorem taken_nil (s : Store) (a : ℕ) : Taken s a [] :=
  ⟨List.nodup_nil, (fun _ h => nomatch h), (fun _ h => nomatch h), (fun _ h => nomatch h)⟩

theorem tidy_distribute {stage : RunStage} (w : Answer)
    (h : Tidy s (.running a stage :: calls)) :
    Tidy (distribute s a stage w).1 ((distribute s a stage w).2.toList ++ calls) := by
  have hgood := (h.good _ List.mem_cons_self).2
  cases stage with
  | enabled =>
      apply h.run
      split <;> trivial
  | account =>
      apply h.run
      split <;> trivial
  | offered =>
      apply h.run
      split <;> trivial
  | members =>
      apply h.run
      split
      · exact ⟨taken_nil s a, fun _ _ hids => nomatch hids⟩
      · exact ⟨h.sane.distinct a, fun _ hp => hp⟩
  | remove ids => exact tidy_remove h
  | subscribers ids =>
      apply h.run
      split
      · trivial
      · refine ⟨hgood.1, hgood.2, nodup_confirmedEmails h.sane a, ?_⟩
        intro o ho hids
        obtain ⟨-, b, hauthor, hemail⟩ := h.sane.owed o ho
        rw [(hgood.1.fine o.status hids).author, Option.some.injEq] at hauthor
        rw [hauthor]
        exact hemail
  | statuses ids emails =>
      apply h.run
      split
      · trivial
      · refine ⟨hgood.1.mailable, hgood.2.2.1, ?_⟩
        intro m hm hids
        exact absurd (mem_mailable.1 hids).1 (hgood.2.1 m hm)
  | mail ids emails =>
      cases emails with
      | nil => exact h.run trivial
      | cons email rest =>
          unfold distribute
          dsimp only
          split
          · apply h.run
            obtain ⟨htaken, hdistinct, hunmailed⟩ := hgood
            exact ⟨htaken, hdistinct.of_cons, fun m hm hids hrest =>
              hunmailed m hm hids (List.mem_cons_of_mem _ hrest)⟩
          · exact tidy_mail h
  | finish => exact tidy_over h (fun hrow => nomatch hrow)

theorem tidy_giveUp {stage : RunStage} (exhausted : Bool) (h : Tidy s (.running a stage :: calls)) :
    Tidy (giveUp s a stage exhausted).1 ((giveUp s a stage exhausted).2.toList ++ calls) := by
  have hover : Tidy (retry s a exhausted) calls := by
    apply tidy_over h
    cases exhausted with
    | true => exact fun hrow => nomatch hrow
    | false => exact fun hrow => nomatch hrow
  cases stage with
  | enabled => exact h.run trivial
  | offered => exact h.run trivial
  | _ => exact hover

theorem tidy_post {stage : PostStage} (w : Answer) (h : Tidy s (.posting a p stage :: calls)) :
    Tidy (post s a p stage w).1 ((post s a p stage w).2.toList ++ calls) := by
  have hgood := h.good _ List.mem_cons_self
  have hgo : ∀ stage', stage ≠ .schedule → stage' ≠ .schedule →
      Tidy s ((some (.posting a p stage')).toList ++ calls) := by
    intro stage' hbefore hafter
    apply h.read
    · intro d hd
      cases hd
      exact ⟨hgood.1, fun _ => hgood.2 hbefore⟩
    · intro d hd
      cases hd
      rfl
    · intro d hd
      cases hd
      apply Or.inl
      have hunadded : ∀ stage, stage ≠ .schedule → Call.unadded (.posting a p stage) = some p := by
        intro stage hstage
        cases stage with
        | schedule => exact absurd rfl hstage
        | _ => rfl
      rw [hunadded stage' hafter, hunadded stage hbefore]
    · exact fun _ hnone => nomatch hnone
  cases stage with
  | enabled =>
      unfold post
      dsimp only
      split
      · exact hgo .offered (fun heq => nomatch heq) (fun heq => nomatch heq)
      · exact h.drop rfl
  | offered =>
      unfold post
      dsimp only
      split
      · exact hgo .add (fun heq => nomatch heq) (fun heq => nomatch heq)
      · exact h.drop rfl
  | add =>
      unfold post
      dsimp only
      split
      · exact h.drop rfl
      · exact tidy_add h
  | schedule =>
      unfold post
      dsimp only
      split
      · exact h.drop rfl
      · exact tidy_schedule h

theorem tidy_exec (w : Answer) (h : Tidy s (c :: calls)) :
    Tidy (exec s c w).1 ((exec s c w).2.toList ++ calls) := by
  cases c with
  | posting a p stage => exact tidy_post w h
  | running a stage =>
      cases w with
      | ok => exact tidy_distribute .ok h
      | fails exhausted => exact tidy_giveUp exhausted h
      | bounces => exact tidy_distribute .bounces h

/-! ### Calls that enter, and what else happens -/

theorem Tidy.more (h : Tidy s calls) {n : Option Call} (hsane : Sane s')
    (hgood : ∀ d ∈ calls, d.Good s') (hnext : ∀ d ∈ n, d.Good s')
    (hruns : ∀ d ∈ n, ∀ a, d.runs = some a → s.jobs a ≠ some .running)
    (hunadded : ∀ d ∈ n, ∀ p, d.unadded = some p → s.statuses p = none)
    (hclaimed : ∀ a, s'.jobs a = some .running → s.jobs a = some .running ∨
      ∃ d ∈ n, d.runs = some a) :
    Tidy s' (n.toList ++ calls) where
  sane := hsane
  good := by
    intro d hd
    rcases List.mem_append.1 hd with hd | hd
    · exact hnext d (Option.mem_toList.1 hd)
    · exact hgood d hd
  alone := by
    cases n with
    | none => exact h.alone
    | some d =>
        rw [Option.toList_some, List.singleton_append, List.filterMap_cons]
        cases hd : d.runs with
        | none => exact h.alone
        | some a =>
            refine List.nodup_cons.2 ⟨?_, h.alone⟩
            intro hmem
            obtain ⟨e, he, hea⟩ := List.mem_filterMap.1 hmem
            cases e with
            | posting b p stage => exact nomatch hea
            | running b stage =>
                cases hea
                exact hruns d rfl a hd (h.good _ he).1
  unadded := by
    cases n with
    | none => exact h.unadded
    | some d =>
        rw [Option.toList_some, List.singleton_append, List.filterMap_cons]
        cases hd : d.unadded with
        | none => exact h.unadded
        | some p =>
            refine List.nodup_cons.2 ⟨?_, h.unadded⟩
            intro hmem
            obtain ⟨e, he, hep⟩ := List.mem_filterMap.1 hmem
            cases e with
            | posting b q stage =>
                have hq : q = p := by
                  cases stage with
                  | schedule => exact nomatch hep
                  | _ => exact Option.some.inj hep
                have hknown := isSome_of_author (h.good _ he).1.author
                rw [hq, hunadded d rfl p hd] at hknown
                exact nomatch hknown
            | running b stage => exact nomatch hep
  claimed := by
    intro a ha
    rw [List.filterMap_append, List.mem_append]
    rcases hclaimed a ha with ha | ⟨d, hd, hda⟩
    · exact .inr (h.claimed a ha)
    · exact .inl (List.mem_filterMap.2 ⟨d, Option.mem_toList.2 hd, hda⟩)

/-- What is true of each post stays so, and only what is owed changes besides, or shrinks. -/
structure Beside (s s' : Store) : Prop where
  fine : ∀ a p, Fine s a p → Fine s' a p
  batch : s'.batch = s.batch
  added : s'.added = s.added
  jobs : s'.jobs = s.jobs
  mails : s'.mails = s.mails
  owed : ∀ c ∈ s'.owed, c ∈ s.owed

theorem Beside.apart (h : Beside s s') (a : ℕ) : Apart s s' a where
  fine := h.fine a
  added := fun _ hp => h.added ▸ hp
  kept := fun _ hp => h.batch ▸ hp
  joined := fun _ hp => .inl (h.batch ▸ hp)
  owed := fun c hc => .inl (h.owed c hc)
  mails := fun _ hm => .inl (h.mails ▸ hm)
  jobs := fun hrow => h.jobs ▸ hrow

theorem Beside.good (h : Beside s s') (hcalls : ∀ d ∈ calls, d.Good s) :
    ∀ d ∈ calls, d.Good s' := by
  intro d hd
  apply (hcalls d hd).apart (fun a _ => h.apart a) h.fine
  intro p _ hp
  exact h.added ▸ hp

theorem Beside.sane (h : Beside s s') (hs : Sane s)
    (hadded : ∀ p ∈ s.added, (s'.statuses p).isSome = true)
    (howed : ∀ c ∈ s'.owed, ∃ a, author s' c.status = some a ∧ c.email ∈ confirmedEmails s' a)
    (hsubscriptions : (s'.subscriptions.map fun sub => (sub.accountId, sub.email)).Nodup) :
    Sane s' where
  batch := by
    intro a p hp
    rw [h.batch] at hp
    rw [h.added]
    exact ⟨h.fine a p (hs.batch a p hp).1, (hs.batch a p hp).2⟩
  distinct := h.batch ▸ hs.distinct
  added := h.added ▸ hadded
  mailed := by
    rw [h.mails, h.added, h.batch]
    exact hs.mailed
  once := h.mails ▸ hs.once
  owed := fun c hc => ⟨h.added ▸ (hs.owed c (h.owed c hc)).1, howed c hc⟩
  subscriptions := hsubscriptions

theorem Tidy.beside (h : Tidy s calls) (hbeside : Beside s s') (hsane : Sane s') :
    Tidy s' calls :=
  h.more (n := none) hsane (hbeside.good h.good) (fun _ hd => nomatch hd)
    (fun _ hd => nomatch hd) (fun _ hd => nomatch hd) (fun _ ha => .inl (hbeside.jobs ▸ ha))

theorem fine_of_same (hsame : s'.statuses p = s.statuses p) (h : Fine s a p) : Fine s' a p := by
  constructor
  · rw [author, hsame]
    exact h.author
  · rw [isThere, distributed, hsame]
    exact h.found

theorem insertStatus_other {status : PostedStatus} (hnew : s.statuses status.id = none)
    (hp : (s.statuses p).isSome = true) :
    (insertStatus s status).statuses p = s.statuses p := by
  apply Function.update_of_ne
  rintro rfl
  rw [hnew] at hp
  exact nomatch hp

theorem beside_insertStatus {status : PostedStatus} (hnew : s.statuses status.id = none) :
    Beside s (insertStatus s status) where
  fine := fun _ _ h => fine_of_same (insertStatus_other hnew (isSome_of_author h.author)) h
  batch := rfl
  added := rfl
  jobs := rfl
  mails := rfl
  owed := fun _ h => h

theorem sane_insertStatus {status : PostedStatus} (h : Sane s)
    (hnew : s.statuses status.id = none) : Sane (insertStatus s status) := by
  apply (beside_insertStatus hnew).sane h
  · intro p hp
    rw [insertStatus_other hnew (h.added p hp)]
    exact h.added p hp
  · intro c hc
    obtain ⟨hadded, a, hauthor, hemail⟩ := h.owed c hc
    refine ⟨a, ?_, hemail⟩
    rw [author, insertStatus_other hnew (h.added c.status hadded)]
    exact hauthor
  · exact h.subscriptions

theorem fine_insertStatus {status : PostedStatus} (hjoins : status.joins = true) :
    Fine (insertStatus s status) status.accountId status.id := by
  have hrow : (insertStatus s status).statuses status.id = some status.row :=
    Function.update_self _ _ _
  constructor
  · rw [author, hrow]
    rfl
  · intro _
    rw [distributed, hrow, Option.any_some]
    obtain ⟨id, accountId, visibility, inReplyToId, inReplyToAccountId⟩ := status
    simp only [PostedStatus.joins, Bool.and_eq_true, decide_eq_true_eq, Bool.not_eq_true',
      Bool.and_eq_false_iff] at hjoins
    simp only [Status.distributed, PostedStatus.row, Bool.and_eq_true, Bool.not_false,
      Bool.or_eq_true, Bool.not_eq_true', Option.isNone_none, true_and, and_true]
    refine ⟨hjoins.2.imp_right fun hsame => decide_eq_true ?_, decide_eq_true hjoins.1⟩
    simpa using hsame

theorem author_deleteStatus (s : Store) (status p : ℕ) :
    author (deleteStatus s status) p = author s p := by
  unfold author deleteStatus
  dsimp only
  by_cases hp : p = status
  · subst hp
    rw [Function.update_self, Option.map_map]
    rfl
  · rw [Function.update_of_ne hp]

theorem isThere_deleteStatus {status : ℕ} (h : isThere (deleteStatus s status) p = true) :
    p ≠ status ∧ (deleteStatus s status).statuses p = s.statuses p := by
  have hne : p ≠ status := by
    rintro rfl
    unfold isThere deleteStatus at h
    dsimp only at h
    rw [Function.update_self] at h
    cases hp : s.statuses p with
    | none =>
        rw [hp] at h
        exact nomatch h
    | some st =>
        rw [hp] at h
        exact nomatch h
  exact ⟨hne, Function.update_of_ne hne _ _⟩

theorem beside_deleteStatus (s : Store) (status : ℕ) : Beside s (deleteStatus s status) where
  fine := by
    intro a p h
    refine ⟨(author_deleteStatus s status p).trans h.author, fun hthere => ?_⟩
    obtain ⟨-, hsame⟩ := isThere_deleteStatus hthere
    rw [isThere, hsame] at hthere
    rw [distributed, hsame]
    exact h.found hthere
  batch := rfl
  added := rfl
  jobs := rfl
  mails := rfl
  owed := fun _ h => h

theorem sane_deleteStatus (h : Sane s) (status : ℕ) : Sane (deleteStatus s status) := by
  apply (beside_deleteStatus s status).sane h
  · intro p hp
    have hknown := h.added p hp
    unfold deleteStatus
    dsimp only
    by_cases heq : p = status
    · subst heq
      rw [Function.update_self, Option.isSome_map]
      exact hknown
    · rw [Function.update_of_ne heq]
      exact hknown
  · intro c hc
    obtain ⟨-, a, hauthor, hemail⟩ := h.owed c hc
    exact ⟨a, (author_deleteStatus s status c.status).trans hauthor, hemail⟩
  · exact h.subscriptions

theorem mem_confirmedEmails {email : String} :
    email ∈ confirmedEmails s a ↔ ⟨a, email, true⟩ ∈ s.subscriptions := by
  rw [confirmedEmails, List.mem_map]
  constructor
  · rintro ⟨⟨b, address, isConfirmed⟩, hmem, rfl⟩
    rw [List.mem_filter, decide_eq_true_eq] at hmem
    obtain ⟨hmem, rfl, rfl⟩ := hmem
    exact hmem
  · intro hmem
    refine ⟨_, List.mem_filter.2 ⟨hmem, ?_⟩, rfl⟩
    rw [decide_eq_true_eq]
    exact ⟨rfl, rfl⟩

theorem beside_subscriptions {subscriptions : List Subscription} {owed : List Copy}
    (howed : ∀ c ∈ owed, c ∈ s.owed) :
    Beside s { s with subscriptions := subscriptions, owed := owed } where
  fine := fun _ _ h => ⟨h.author, h.found⟩
  batch := rfl
  added := rfl
  jobs := rfl
  mails := rfl
  owed := howed

theorem sane_subscribe (h : Sane s) {email : String}
    (hfree : s.subscriptions.any (isFor a email) = false) :
    Sane { s with subscriptions := s.subscriptions ++ [⟨a, email, false⟩] } := by
  have hbeside : Beside s { s with subscriptions := s.subscriptions ++ [⟨a, email, false⟩] } :=
    beside_subscriptions fun _ h => h
  apply hbeside.sane h h.added
  · intro c hc
    obtain ⟨-, b, hauthor, hemail⟩ := h.owed c hc
    refine ⟨b, hauthor, ?_⟩
    rw [mem_confirmedEmails] at hemail ⊢
    exact List.mem_append_left _ hemail
  · show ((s.subscriptions ++ [Subscription.mk a email false]).map fun sub : Subscription =>
      (sub.accountId, sub.email)).Nodup
    rw [List.map_append, List.nodup_append]
    refine ⟨h.subscriptions, List.nodup_singleton _, ?_⟩
    rintro x hx y hy rfl
    obtain ⟨sub, hsub, rfl⟩ := List.mem_map.1 hx
    rw [List.map_singleton, List.mem_singleton, Prod.mk.injEq] at hy
    rw [List.any_eq_false] at hfree
    exact hfree sub hsub (by rw [isFor, decide_eq_true_eq]; exact hy)

theorem pair_confirmed (a : ℕ) (email : String) (sub : Subscription) :
    ((confirmed a email sub).accountId, (confirmed a email sub).email) =
      (sub.accountId, sub.email) := by
  unfold confirmed
  split <;> rfl

theorem confirmed_of_confirmed {email address : String} {b : ℕ} :
    confirmed a email ⟨b, address, true⟩ = ⟨b, address, true⟩ := by
  unfold confirmed
  split <;> rfl

theorem sane_confirm (h : Sane s) (a : ℕ) (email : String) :
    Sane { s with subscriptions := s.subscriptions.map (confirmed a email) } := by
  have hbeside : Beside s { s with subscriptions := s.subscriptions.map (confirmed a email) } :=
    beside_subscriptions fun _ h => h
  apply hbeside.sane h h.added
  · intro c hc
    obtain ⟨-, b, hauthor, hemail⟩ := h.owed c hc
    refine ⟨b, hauthor, ?_⟩
    rw [mem_confirmedEmails] at hemail ⊢
    exact List.mem_map.2 ⟨_, hemail, confirmed_of_confirmed⟩
  · show ((s.subscriptions.map (confirmed a email)).map fun sub : Subscription =>
      (sub.accountId, sub.email)).Nodup
    rw [List.map_map]
    have hsame : ((fun sub : Subscription => (sub.accountId, sub.email)) ∘ confirmed a email) =
        fun sub => (sub.accountId, sub.email) := by
      funext sub
      exact pair_confirmed a email sub
    rw [hsame]
    exact h.subscriptions

theorem sane_unsubscribe (h : Sane s) (a : ℕ) (email : String) :
    Sane { s with
      subscriptions := s.subscriptions.filter fun sub => !isFor a email sub
      owed := s.owed.filter fun c => !(c.email = email ∧ author s c.status = some a) } := by
  apply (beside_subscriptions fun _ h => (List.mem_filter.1 h).1).sane h h.added
  · intro c hc
    obtain ⟨hc, hkept⟩ := List.mem_filter.1 hc
    obtain ⟨-, b, hauthor, hemail⟩ := h.owed c hc
    refine ⟨b, hauthor, ?_⟩
    rw [mem_confirmedEmails] at hemail ⊢
    refine List.mem_filter.2 ⟨hemail, ?_⟩
    rw [Bool.not_eq_true', isFor, decide_eq_false_iff_not]
    rintro ⟨hb, hsame⟩
    rw [Bool.not_eq_true', decide_eq_false_iff_not] at hkept
    exact hkept ⟨hsame, hauthor.trans (congrArg some hb)⟩
  · exact List.Nodup.sublist (List.filter_sublist.map _) h.subscriptions

theorem tidy_claim (h : Tidy s calls) (hrow : s.jobs a = some .queued) :
    Tidy { s with jobs := Function.update s.jobs a (some .running) }
      (.running a .enabled :: calls) := by
  apply h.more (n := some (.running a .enabled)) (h.sane.withJobs _)
  · intro d hd
    apply (h.good d hd).apart
    · intro b hb
      apply apart_jobs
      intro hrunning
      by_cases hba : b = a
      · rw [hba]
        exact Function.update_self _ _ _
      · rw [Function.update_of_ne hba]
        exact hrunning
    · exact fun _ _ h => ⟨h.author, h.found⟩
    · exact fun _ _ h => h
  · intro d hd
    cases hd
    exact ⟨Function.update_self _ _ _, trivial⟩
  · intro d hd b hb hrunning
    cases hd
    cases hb
    exact nomatch hrow.symm.trans hrunning
  · intro d hd b hb
    cases hd
    exact nomatch hb
  · intro b hb
    dsimp only at hb
    by_cases hba : b = a
    · exact .inr ⟨_, rfl, congrArg some hba.symm⟩
    · rw [Function.update_of_ne hba] at hb
      exact .inl hb

theorem tidy_posted {status : PostedStatus} (h : Tidy s calls)
    (hnew : s.statuses status.id = none) :
    Tidy (insertStatus s status)
      ((if status.joins then some (.posting status.accountId status.id .enabled) else
        none : Option Call).toList ++ calls) := by
  apply h.more (sane_insertStatus h.sane hnew) ((beside_insertStatus hnew).good h.good)
  · intro d hd
    split at hd
    · rename_i hjoins
      cases hd
      refine ⟨fine_insertStatus hjoins, fun _ hadded => ?_⟩
      have hknown := h.sane.added status.id hadded
      rw [hnew] at hknown
      exact nomatch hknown
    · exact nomatch hd
  · intro d hd b hb
    split at hd
    · cases hd
      exact nomatch hb
    · exact nomatch hd
  · intro d hd b hb
    split at hd
    · cases hd
      cases hb
      exact hnew
    · exact nomatch hd
  · exact fun b hb => .inl hb

theorem tidy_settings (h : Tidy s calls) (enabled : Bool) (offered known : ℕ → Bool) :
    Tidy { s with enabled := enabled, offered := offered, known := known } calls := by
  apply h.beside
  · exact ⟨fun _ _ h => ⟨h.author, h.found⟩, rfl, rfl, rfl, rfl, fun _ h => h⟩
  · refine ⟨?_, h.sane.distinct, h.sane.added, h.sane.mailed, h.sane.once, h.sane.owed,
      h.sane.subscriptions⟩
    intro a p hp
    obtain ⟨hfine, hadded⟩ := h.sane.batch a p hp
    exact ⟨⟨hfine.author, hfine.found⟩, hadded⟩

theorem tidy_enter (r : Request) (h : Tidy s calls) :
    Tidy (enter s r).1 ((enter s r).2.toList ++ calls) := by
  cases r with
  | posted status =>
      dsimp only [enter]
      cases hnew : s.statuses status.id with
      | some row => exact h
      | none => exact tidy_posted h hnew
  | claim accountId =>
      dsimp only [enter]
      split
      · rename_i hrow
        exact tidy_claim h hrow
      · exact h
  | delete status => exact h.beside (beside_deleteStatus s status) (sane_deleteStatus h.sane status)
  | setEnabled enabled => exact tidy_settings h enabled s.offered s.known
  | setOffered accountId offered =>
      exact tidy_settings h s.enabled (Function.update s.offered accountId offered) s.known
  | setKnown accountId known =>
      exact tidy_settings h s.enabled s.offered (Function.update s.known accountId known)
  | subscribe accountId email =>
      dsimp only [enter]
      split
      · exact h
      · rename_i hfree
        exact h.beside (beside_subscriptions fun _ h => h)
          (sane_subscribe h.sane (Bool.not_eq_true _ ▸ hfree))
  | confirm accountId email =>
      exact h.beside (beside_subscriptions fun _ h => h) (sane_confirm h.sane accountId email)
  | unsubscribe accountId email =>
      exact h.beside (beside_subscriptions fun _ h => (List.mem_filter.1 h).1)
        (sane_unsubscribe h.sane accountId email)

/-! ### What is due -/

def Covered (s : Store) (calls : List Call) (o : Copy) : Prop :=
  Batched s o.status ∨ o ∈ s.mails ∨ ∃ a stage, .running a stage ∈ calls ∧ stage.holds o

theorem Covered.more (h : Covered s calls o) (next : List Call) : Covered s (next ++ calls) o := by
  rcases h with hbatched | hmailed | ⟨a, stage, hrun, hholds⟩
  · exact .inl hbatched
  · exact .inr (.inl hmailed)
  · exact .inr (.inr ⟨a, stage, List.mem_append_right _ hrun, hholds⟩)

theorem Covered.uncons (h : Covered s (c :: calls) o) :
    (∃ a stage, c = .running a stage ∧ stage.holds o) ∨ Covered s calls o := by
  rcases h with hbatched | hmailed | ⟨a, stage, hrun, hholds⟩
  · exact .inr (.inl hbatched)
  · exact .inr (.inr (.inl hmailed))
  · rcases List.mem_cons.1 hrun with rfl | hrun
    · exact .inl ⟨a, stage, rfl, hholds⟩
    · exact .inr (.inr (.inr ⟨a, stage, hrun, hholds⟩))

theorem Scheduling.more (h : Scheduling calls a) (next : List Call) :
    Scheduling (next ++ calls) a := by
  obtain ⟨p, hp⟩ := h
  exact ⟨p, List.mem_append_right _ hp⟩

theorem Scheduling.uncons (h : Scheduling (c :: calls) a) :
    (∃ p, c = .posting a p .schedule) ∨ Scheduling calls a := by
  obtain ⟨p, hp⟩ := h
  rcases List.mem_cons.1 hp with rfl | hp
  · exact .inl ⟨p, rfl⟩
  · exact .inr ⟨p, hp⟩

theorem Owing.tail (h : Owing s (c :: calls)) (hc : ∀ p, c ≠ .posting a p .schedule)
    (hbatch : s.batch a ≠ []) (next : List Call) :
    s.jobs a ≠ none ∨ Scheduling (next ++ calls) a := by
  rcases h.pending a hbatch with hjob | hscheduling
  · exact .inl hjob
  · rcases hscheduling.uncons with ⟨p, hp⟩ | hother
    · exact absurd hp (hc p)
    · exact .inr (hother.more next)

theorem owing_posting {stage : PostStage} (h : Owing s (.posting a p stage :: calls))
    (hstage : stage ≠ .schedule) (next : Option Call) : Owing s (next.toList ++ calls) where
  pending := by
    intro b hb
    apply h.tail _ hb
    intro q hq
    exact hstage (Call.posting.inj hq).2.2
  due := by
    intro o ho
    rcases (show Covered s _ o from h.due o ho).uncons with ⟨b, stage', hrun, -⟩ | hcovered
    · exact nomatch hrun
    · exact hcovered.more _

theorem owing_add (h : Owing s (.posting a p .add :: calls)) :
    Owing (add s a p) (.posting a p .schedule :: calls) where
  pending := by
    intro b hb
    by_cases hba : b = a
    · exact .inr ⟨p, hba ▸ List.mem_cons_self⟩
    · have hsame : (add s a p).batch b = s.batch b := Function.update_of_ne hba _ _
      rw [hsame] at hb
      exact h.tail (fun q hq => nomatch (Call.posting.inj hq).2.2) hb
        [.posting a p .schedule]
  due := by
    rintro o ⟨ho, hthere⟩
    rcases mem_owed_add ho with ho | ⟨heq, -⟩
    · have hbefore : Covered s (.posting a p .add :: calls) o := h.due o ⟨ho, hthere⟩
      rcases hbefore.uncons with ⟨b, stage, hrun, -⟩ | hcovered
      · exact nomatch hrun
      · rcases hcovered.more [.posting a p .schedule] with ⟨b, hb⟩ | hmailed | hheld
        · exact .inl ⟨b, batch_add_subset hb⟩
        · exact .inr (.inl hmailed)
        · exact .inr (.inr hheld)
    · apply Or.inl
      refine ⟨a, ?_⟩
      show o.status ∈ Function.update s.batch a (sadd (s.batch a) p) a
      rw [Function.update_self, mem_sadd]
      exact .inr heq

theorem owing_scheduled (h : Owing s (.posting a p .schedule :: calls))
    {jobs : ℕ → Option JobRow} (hjobs : ∀ b, s.jobs b ≠ none → jobs b ≠ none)
    (hself : s.batch a ≠ [] → jobs a ≠ none ∨ Scheduling calls a) :
    Owing { s with jobs := jobs } calls where
  pending := by
    intro b hb
    by_cases hba : b = a
    · rw [hba] at hb ⊢
      exact hself hb
    · rcases h.pending b hb with hjob | hscheduling
      · exact .inl (hjobs b hjob)
      · rcases hscheduling.uncons with ⟨q, hq⟩ | hother
        · exact absurd (Call.posting.inj hq).1.symm hba
        · exact .inr hother
  due := by
    intro o ho
    rcases (show Covered s _ o from h.due o ho).uncons with ⟨b, stage, hrun, -⟩ | hcovered
    · exact nomatch hrun
    · exact hcovered

theorem owing_post {stage : PostStage} {w : Answer} (h : Owing s (.posting a p stage :: calls))
    (hsound : Sound s (.posting a p stage) calls w) :
    Owing (post s a p stage w).1 ((post s a p stage w).2.toList ++ calls) := by
  cases stage with
  | enabled => exact owing_posting h (fun heq => nomatch heq) _
  | offered => exact owing_posting h (fun heq => nomatch heq) _
  | add =>
      unfold post
      dsimp only
      split
      · exact owing_posting h (fun heq => nomatch heq) none
      · exact owing_add h
  | schedule =>
      unfold post
      dsimp only
      split
      · rename_i hfails
        exact owing_scheduled h (fun _ hjob => hjob)
          fun hbatch => (hsound hfails).resolve_left hbatch
      · unfold schedule
        cases hrow : s.jobs a with
        | some row =>
            refine owing_scheduled h (fun _ hjob => hjob) fun _ => .inl ?_
            rw [hrow]
            exact fun hnone => nomatch hnone
        | none =>
            apply owing_scheduled h
            · intro b hjob
              by_cases hba : b = a
              · rw [hba, Function.update_self]
                exact fun hnone => nomatch hnone
              · rw [Function.update_of_ne hba]
                exact hjob
            · intro _
              apply Or.inl
              rw [Function.update_self]
              exact fun hnone => nomatch hnone

theorem owing_run {stage stage' : RunStage} (h : Owing s (.running a stage :: calls))
    (hholds : ∀ o, Due s o → stage.holds o → stage'.holds o) :
    Owing s ((goOn a stage').toList ++ calls) where
  pending := by
    intro b hb
    apply h.tail _ hb
    exact fun _ hq => nomatch hq
  due := by
    intro o ho
    rcases (show Covered s _ o from h.due o ho).uncons with ⟨b, stage, hrun, hheld⟩ | hcovered
    · cases hrun
      exact .inr (.inr ⟨a, stage', List.mem_cons_self, hholds o ho hheld⟩)
    · exact hcovered.more _

theorem owing_remove {ids : List ℕ} (h : Owing s (.running a (.remove ids) :: calls)) :
    Owing (taking s a ids) (.running a (.subscribers ids) :: calls) where
  pending := by
    intro b hb
    apply h.tail (fun _ hq => nomatch hq) _ [.running a (.subscribers ids)]
    intro hempty
    apply hb
    rw [List.eq_nil_iff_forall_not_mem]
    intro x hx
    have hx := (mem_batch_taking hx).1
    rw [hempty] at hx
    exact nomatch hx
  due := by
    intro o ho
    rcases (show Covered s _ o from h.due o ho).uncons with ⟨b, stage, hrun, hheld⟩ | hcovered
    · cases hrun
      exact absurd hheld id
    · rcases hcovered with ⟨b, hb⟩ | hmailed | ⟨b, stage, hrun, hheld⟩
      · by_cases htaken : b = a ∧ o.status ∈ ids
        · exact .inr (.inr ⟨a, .subscribers ids, List.mem_cons_self, htaken.2⟩)
        · apply Or.inl
          refine ⟨b, ?_⟩
          show o.status ∈ Function.update s.batch a (srem (s.batch a) ids) b
          by_cases hba : b = a
          · subst hba
            rw [Function.update_self, mem_srem]
            exact ⟨hb, fun hids => htaken ⟨rfl, hids⟩⟩
          · rw [Function.update_of_ne hba]
            exact hb
      · exact .inr (.inl hmailed)
      · exact .inr (.inr ⟨b, stage, List.mem_cons_of_mem _ hrun, hheld⟩)

theorem owing_mail {ids : List ℕ} {email : String} {rest : List String}
    (h : Owing s (.running a (.mail ids (email :: rest)) :: calls)) :
    Owing (mailing s ids email) (.running a (.mail ids rest) :: calls) where
  pending := by
    intro b hb
    apply h.tail _ hb [.running a (.mail ids rest)]
    exact fun _ hq => nomatch hq
  due := by
    intro o ho
    rcases (show Covered s _ o from h.due o ho).uncons with ⟨b, stage, hrun, hheld⟩ | hcovered
    · cases hrun
      rcases List.mem_cons.1 hheld.2 with heq | hrest
      · apply Or.inr
        apply Or.inl
        apply List.mem_append_right
        exact List.mem_map.2 ⟨o.status, hheld.1, by rw [← heq]⟩
      · exact .inr (.inr ⟨a, .mail ids rest, List.mem_cons_self, hheld.1, hrest⟩)
    · rcases hcovered.more [.running a (.mail ids rest)] with hbatched | hmailed | hheld
      · exact .inl hbatched
      · exact .inr (.inl (List.mem_append_left _ hmailed))
      · exact .inr (.inr hheld)

theorem owing_over {stage : RunStage} {row : Option JobRow}
    (h : Owing s (.running a stage :: calls))
    (hends : row = none → s.batch a = [] ∨ Scheduling calls a)
    (hholds : ∀ o, Due s o → ¬ stage.holds o) :
    Owing { s with jobs := Function.update s.jobs a row } calls where
  pending := by
    intro b hb
    by_cases hba : b = a
    · subst hba
      dsimp only
      rw [Function.update_self]
      cases row with
      | none => exact .inr ((hends rfl).resolve_left hb)
      | some row => exact .inl fun hnone => nomatch hnone
    · dsimp only
      rw [Function.update_of_ne hba]
      exact h.tail (fun _ hq => nomatch hq) hb []
  due := by
    intro o ho
    rcases (show Covered s _ o from h.due o ho).uncons with ⟨b, stage, hrun, hheld⟩ | hcovered
    · cases hrun
      exact absurd hheld (hholds o ho)
    · exact hcovered

theorem owing_distribute {stage : RunStage} {w : Answer} (hw : w.failed = false)
    (htidy : Tidy s (.running a stage :: calls)) (h : Owing s (.running a stage :: calls))
    (hsound : Sound s (.running a stage) calls w) :
    Owing (distribute s a stage w).1 ((distribute s a stage w).2.toList ++ calls) := by
  have hgood := (htidy.good _ List.mem_cons_self).2
  cases stage with
  | enabled => exact owing_run h fun _ _ hheld => absurd hheld id
  | account => exact owing_run h fun _ _ hheld => absurd hheld id
  | offered => exact owing_run h fun _ _ hheld => absurd hheld id
  | members => exact owing_run h fun _ _ hheld => absurd hheld id
  | remove ids => exact owing_remove h
  | subscribers ids =>
      apply owing_run h
      rintro o ⟨ho, -⟩ hheld
      obtain ⟨-, b, hauthor, hemail⟩ := htidy.sane.owed o ho
      rw [(hgood.1.fine o.status hheld).author, Option.some.injEq] at hauthor
      rw [← hauthor] at hemail
      rw [if_neg]
      · exact ⟨hheld, hemail⟩
      · rintro (hnobody | hnone)
        · rw [hnobody] at hemail
          exact nomatch hemail
        · rw [RunStage.holds, hnone] at hheld
          exact nomatch hheld
  | statuses ids emails =>
      apply owing_run h
      rintro o ⟨-, hthere⟩ hheld
      have hmailable : o.status ∈ mailable s ids :=
        mem_mailable.2 ⟨hheld.1, (hgood.1.fine o.status hheld.1).found hthere⟩
      rw [if_neg]
      · exact ⟨hmailable, hheld.2⟩
      · intro hnone
        rw [hnone] at hmailable
        exact nomatch hmailable
  | mail ids emails =>
      cases emails with
      | nil => exact owing_run h fun _ _ hheld => nomatch hheld.2
      | cons email rest =>
          unfold distribute
          dsimp only
          split
          · rename_i hbounces
            apply owing_run h
            intro o ho hheld
            rcases List.mem_cons.1 hheld.2 with heq | hrest
            · exact absurd ⟨hheld.1, heq⟩ (hsound.2.2 hbounces o ho)
            · exact ⟨hheld.1, hrest⟩
          · exact owing_mail h
  | finish => exact owing_over h (fun _ => hsound.1 (.inl ⟨rfl, hw⟩)) fun _ _ hheld => hheld

theorem owing_giveUp {stage : RunStage} {exhausted : Bool}
    (h : Owing s (.running a stage :: calls))
    (hsound : Sound s (.running a stage) calls (.fails exhausted)) :
    Owing (giveUp s a stage exhausted).1 ((giveUp s a stage exhausted).2.toList ++ calls) := by
  have hover : stage ≠ .enabled → stage ≠ .offered → Owing (retry s a exhausted) calls := by
    intro henabled hoffered
    apply owing_over h
    · intro hrow
      apply hsound.1
      cases exhausted with
      | true => exact .inr ⟨henabled, hoffered, rfl⟩
      | false => exact nomatch hrow
    · exact hsound.2.1 rfl
  cases stage with
  | enabled => exact owing_run h fun _ _ hheld => absurd hheld id
  | offered => exact owing_run h fun _ _ hheld => absurd hheld id
  | _ => exact hover (fun heq => nomatch heq) (fun heq => nomatch heq)

theorem owing_exec (w : Answer) (htidy : Tidy s (c :: calls)) (h : Owing s (c :: calls))
    (hsound : Sound s c calls w) :
    Owing (exec s c w).1 ((exec s c w).2.toList ++ calls) := by
  cases c with
  | posting a p stage => exact owing_post h hsound
  | running a stage =>
      cases w with
      | ok => exact owing_distribute rfl htidy h hsound
      | fails exhausted => exact owing_giveUp h hsound
      | bounces => exact owing_distribute rfl htidy h hsound

theorem Owing.beside (h : Owing s calls) (hbeside : Beside s s')
    (hthere : ∀ o ∈ s'.owed, isThere s' o.status = true → isThere s o.status = true)
    (next : List Call) : Owing s' (next ++ calls) where
  pending := by
    intro b hb
    rw [hbeside.batch] at hb
    rw [hbeside.jobs]
    exact (h.pending b hb).imp_right (·.more next)
  due := by
    rintro o ⟨ho, hisThere⟩
    have hcovered : Covered s calls o := h.due o ⟨hbeside.owed o ho, hthere o ho hisThere⟩
    rcases hcovered.more next with ⟨b, hb⟩ | hmailed | hheld
    · exact .inl ⟨b, by rw [hbeside.batch]; exact hb⟩
    · exact .inr (.inl (by rw [hbeside.mails]; exact hmailed))
    · exact .inr (.inr hheld)

theorem owing_claim (h : Owing s calls) :
    Owing { s with jobs := Function.update s.jobs a (some .running) }
      (.running a .enabled :: calls) where
  pending := by
    intro b hb
    by_cases hba : b = a
    · apply Or.inl
      rw [hba]
      dsimp only
      rw [Function.update_self]
      exact fun hnone => nomatch hnone
    · dsimp only
      rw [Function.update_of_ne hba]
      exact (h.pending b hb).imp_right (·.more [.running a .enabled])
  due := fun o ho => Covered.more (h.due o ho) [.running a .enabled]

theorem owing_enter (r : Request) (htidy : Tidy s calls) (h : Owing s calls) :
    Owing (enter s r).1 ((enter s r).2.toList ++ calls) := by
  cases r with
  | posted status =>
      dsimp only [enter]
      cases hnew : s.statuses status.id with
      | some row => exact h
      | none =>
          apply h.beside (beside_insertStatus hnew)
          intro o ho hthere
          rw [isThere, insertStatus_other hnew (htidy.sane.added _ (htidy.sane.owed o ho).1)]
            at hthere
          exact hthere
  | claim accountId =>
      dsimp only [enter]
      split
      · exact owing_claim h
      · exact h
  | delete status =>
      apply h.beside (beside_deleteStatus s status) _ []
      intro o _ hthere
      rw [isThere, (isThere_deleteStatus hthere).2] at hthere
      exact hthere
  | setEnabled enabled => exact ⟨h.pending, h.due⟩
  | setOffered accountId offered => exact ⟨h.pending, h.due⟩
  | setKnown accountId known => exact ⟨h.pending, h.due⟩
  | subscribe accountId email =>
      dsimp only [enter]
      split
      · exact h
      · exact ⟨h.pending, h.due⟩
  | confirm accountId email => exact ⟨h.pending, h.due⟩
  | unsubscribe accountId email =>
      apply h.beside (beside_subscriptions fun _ ho => (List.mem_filter.1 ho).1) _ []
      exact fun _ _ hthere => hthere

theorem owing_batches :
    GuardedInvariant batches (fun s calls => Tidy s calls ∧ Owing s calls) guards where
  perm := fun hperm h => ⟨h.1.perm hperm, h.2.perm hperm⟩
  enter := fun r h _ => ⟨tidy_enter r h.1, owing_enter r h.1 h.2⟩
  exec := fun w h hsound => ⟨tidy_exec w h.1, owing_exec w h.1 h.2 hsound⟩

theorem tidy_start (enabled : Bool) (offered known : ℕ → Bool) :
    Tidy (start enabled offered known) [] where
  sane :=
    { batch := fun _ _ h => nomatch h
      distinct := fun _ => List.nodup_nil
      added := fun _ h => nomatch h
      mailed := fun _ h => nomatch h
      once := List.nodup_nil
      owed := fun _ h => nomatch h
      subscriptions := List.nodup_nil }
  good := fun _ h => nomatch h
  alone := List.nodup_nil
  unadded := List.nodup_nil
  claimed := fun _ h => nomatch h

theorem owing_start (enabled : Bool) (offered known : ℕ → Bool) :
    Owing (start enabled offered known) [] where
  pending := fun _ h => absurd rfl h
  due := fun _ h => nomatch h.1

theorem kept_of_owing (htidy : Tidy s []) (h : Owing s []) : Kept s where
  pending := by
    intro a ha
    rcases h.pending a ha with hjob | ⟨p, hp⟩
    · cases hrow : s.jobs a with
      | none => exact absurd hrow hjob
      | some row =>
          cases row with
          | queued => rfl
          | running => exact nomatch htidy.claimed a hrow
    · exact nomatch hp
  mailed := by
    intro o ho hthere
    rcases h.due o ⟨ho, hthere⟩ with hbatched | hmailed | ⟨a, stage, hrun, -⟩
    · exact .inl hbatched
    · exact .inr hmailed
    · exact nomatch hrun
  once := htidy.sane.once

/-- Whenever no call is in progress the batches are as they should be, if no job ends over a
batch that was added to since it was taken, and nothing fails that was to mail a post. -/
theorem batches_kept (enabled : Bool) (offered known : ℕ → Bool)
    (events : List (Event Request Answer))
    (hsound : Guarded batches.step guards.meets ⟨start enabled offered known, []⟩ events) :
    ∀ before, before <+: events →
      (run batches.step ⟨start enabled offered known, []⟩ before).Quiescent →
        Kept (run batches.step ⟨start enabled offered known, []⟩ before).store := by
  rintro before ⟨after, rfl⟩ hquiescent
  have hinv := owing_batches.run ⟨start enabled offered known, []⟩ before
    ⟨tidy_start enabled offered known, owing_start enabled offered known⟩
    ((guarded_append _ _ _).1 hsound).1
  rw [hquiescent] at hinv
  exact kept_of_owing hinv.1 hinv.2

/-- Whatever fails, nobody is mailed a post twice, a post that was mailed is in no batch again,
and a batch is of posts of its account. -/
theorem mailed_once (enabled : Bool) (offered known : ℕ → Bool)
    (events : List (Event Request Answer)) :
    let s := (run batches.step ⟨start enabled offered known, []⟩ events).store
    s.mails.Nodup ∧ (∀ m ∈ s.mails, ∀ a, m.status ∉ s.batch a) ∧
      ∀ a, (s.batch a).Nodup ∧ ∀ p ∈ s.batch a, author s p = some a := by
  have hinv : Invariant batches Tidy fun _ _ _ => True :=
    ⟨Tidy.perm, fun r h _ => tidy_enter r h, tidy_exec⟩
  have h := run_invariant (P := fun c : Config Store Call => Tidy c.store c.calls)
    (fun c e hc => hinv.step c e hc (by cases e <;> trivial)) ⟨start enabled offered known, []⟩
    events (tidy_start enabled offered known)
  exact ⟨h.sane.once, fun m hm => (h.sane.mailed m hm).2,
    fun a => ⟨h.sane.distinct a, fun p hp => (h.sane.batch a p hp).1.author⟩⟩

/-! ### A post added while the batch is mailed -/

theorem sound_post {stage : PostStage} : Sound s (.posting a p stage) calls .ok := by
  cases stage with
  | schedule => exact fun hfails => nomatch hfails
  | _ => trivial

theorem sound_run {stage : RunStage} (hends : stage = .finish → s.batch a = []) :
    Sound s (.running a stage) calls .ok := by
  refine ⟨?_, (fun hfails => nomatch hfails), fun hbounces => nomatch hbounces⟩
  rintro (⟨hfinish, -⟩ | ⟨-, -, hfails⟩)
  · exact .inl (hends hfinish)
  · exact nomatch hfails

def endsEmpty (s : Store) : Call → Bool
  | .running a .finish => (s.batch a).isEmpty
  | _ => true

theorem meets_ok {c : Config Store Call} {k : ℕ}
    (h : c.calls[k]?.all (endsEmpty c.store) = true) : guards.meets c (.advance k .ok) := by
  rw [Guards.meets]
  cases hcall : c.calls[k]? with
  | none => trivial
  | some call =>
      rw [hcall, Option.all_some] at h
      cases call with
      | posting a p stage => exact sound_post
      | running a stage =>
          apply sound_run
          rintro rfl
          exact List.isEmpty_iff.1 h

def everywhere : Store := start true (fun _ => true) (fun _ => true)

def postBy (accountId id : ℕ) : PostedStatus := ⟨id, accountId, .pub, none, none⟩

def onePost : List (Event Request Answer) :=
  [.request (.subscribe 1 "reader"), .request (.confirm 1 "reader"),
    .request (.posted (postBy 1 10)), .advance 0 .ok, .advance 0 .ok, .advance 0 .ok,
    .advance 0 .ok]

def oneMailed : List (Event Request Answer) :=
  onePost ++ .request (.claim 1) :: List.replicate 10 (.advance 0 .ok)

theorem kept_oneMailed : Kept (run batches.step ⟨everywhere, []⟩ oneMailed).store := by
  apply batches_kept true (fun _ => true) (fun _ => true) oneMailed _ oneMailed
    (List.prefix_refl _) (List.length_eq_zero_iff.1 (by decide +kernel))
  refine ⟨trivial, trivial, trivial, meets_ok ?_, meets_ok ?_, meets_ok ?_, meets_ok ?_, trivial,
    meets_ok ?_, meets_ok ?_, meets_ok ?_, meets_ok ?_, meets_ok ?_, meets_ok ?_, meets_ok ?_,
    meets_ok ?_, meets_ok ?_, meets_ok ?_, trivial⟩
  all_goals decide +kernel

/-- Another post is added once the job has taken the batch, and is refused a job of its own. -/
def addedMeanwhile : List (Event Request Answer) :=
  onePost ++ .request (.claim 1) :: List.replicate 5 (.advance 0 .ok) ++
    .request (.posted (postBy 1 11)) :: List.replicate 4 (.advance 1 .ok) ++
      List.replicate 5 (.advance 0 .ok)

/-- The post is left in the batch, and no job is there to mail it. -/
theorem post_left_behind :
    ¬ (∀ before, before <+: addedMeanwhile →
        (run batches.step ⟨everywhere, []⟩ before).Quiescent →
          Kept (run batches.step ⟨everywhere, []⟩ before).store) ∧
      (run batches.step ⟨everywhere, []⟩ addedMeanwhile).store.batch 1 = [11] ∧
      (run batches.step ⟨everywhere, []⟩ addedMeanwhile).store.jobs 1 = none := by
  have hbatch : (run batches.step ⟨everywhere, []⟩ addedMeanwhile).store.batch 1 = [11] := by
    decide +kernel
  have hjobs : (run batches.step ⟨everywhere, []⟩ addedMeanwhile).store.jobs 1 = none := by
    decide +kernel
  have hcalls : (run batches.step ⟨everywhere, []⟩ addedMeanwhile).calls.length = 0 := by
    decide +kernel
  refine ⟨?_, hbatch, hjobs⟩
  intro h
  have hkept := h addedMeanwhile (List.prefix_refl _) (List.length_eq_zero_iff.1 hcalls)
  have hpending := hkept.pending 1
  rw [hbatch, hjobs] at hpending
  exact nomatch hpending (fun hnil => nomatch hnil)

end Eunha.EmailBatches
