import Eunha.Interleaving
import Mathlib

/-!
# Archive takeout

A request inserts a row and a job for it. A worker leases a job that is due, builds the
archive, stores it under a new name, names it in the row, destroys the user's other archives
and deletes the job. The row, the job and the file change statement by statement, and any
statement may fail. A name overwritten in a row, or not written, leaves a file that no row
names; and the other archives are destroyed whether they were asked for before or after.
-/
namespace Eunha.Backups
open Interleaving Runs

/-! ### The tables and the storage -/

/-- A row of `backups`. -/
structure Backup where
  id : ℕ
  userId : Option ℕ
  createdAt : ℕ
  dumpFileName : Option ℕ
  processed : Bool
  deriving DecidableEq

/-- A row of `eunha.backup_jobs`. -/
structure Job where
  backupId : ℕ
  attempts : ℕ
  runAt : ℕ
  lockedAt : Option ℕ
  deriving DecidableEq

/-- The time is in seconds. A file is stored under the id of its archive and a random name,
which is never drawn twice. -/
structure Store where
  now : ℕ
  backups : List Backup
  jobs : List Job
  files : List (ℕ × ℕ)
  nextBackup : ℕ
  nextName : ℕ
  deriving DecidableEq

def Store.empty : Store := ⟨0, [], [], [], 0, 0⟩

def minAgeDays : ℕ := 6

def maxAttempts : ℕ := 6

def staleLease : ℕ := 60 * 60

def day : ℕ := 24 * 60 * 60

def Store.canCreate (s : Store) (user : ℕ) : Bool :=
  !s.backups.any fun b => b.userId = some user ∧ s.now ≤ b.createdAt + minAgeDays * day

/-- The row and the job, in one transaction. -/
def Store.insertBackup (s : Store) (user : ℕ) : Store :=
  { s with
    backups := s.backups ++ [⟨s.nextBackup, some user, s.now, none, false⟩]
    jobs := s.jobs ++ [⟨s.nextBackup, 0, s.now, none⟩]
    nextBackup := s.nextBackup + 1 }

def Store.due (s : Store) (j : Job) : Bool :=
  j.runAt ≤ s.now ∧ j.lockedAt.all (· + staleLease < s.now)

/-- `ORDER BY run_at, backup_id LIMIT 1` -/
def Store.picked (s : Store) : Option Job :=
  ((s.jobs.filter s.due).insertionSort fun i j =>
    i.runAt < j.runAt ∨ i.runAt = j.runAt ∧ i.backupId ≤ j.backupId).head?

def Store.updateJob (s : Store) (id : ℕ) (f : Job → Job) : Store :=
  { s with jobs := s.jobs.map fun j => if j.backupId = id then f j else j }

def Store.lease (s : Store) (id : ℕ) : Store :=
  s.updateJob id fun j => { j with lockedAt := some s.now, attempts := j.attempts + 1 }

/-- The job put off, by `30 << attempts.clamp(1, 8)` seconds. -/
def Store.retry (s : Store) (id attempts : ℕ) : Store :=
  s.updateJob id fun j =>
    { j with lockedAt := none, runAt := s.now + 30 * 2 ^ max 1 (min attempts 8) }

def Store.deleteJob (s : Store) (id : ℕ) : Store :=
  { s with jobs := s.jobs.filter (·.backupId ≠ id) }

def Store.deleteBackup (s : Store) (id : ℕ) : Store :=
  { s with
    backups := s.backups.filter (·.id ≠ id)
    jobs := s.jobs.filter (·.backupId ≠ id) }

def Store.find (s : Store) (id : ℕ) : Option Backup := s.backups.find? (·.id = id)

def Store.storeFile (s : Store) (id : ℕ) : Store :=
  { s with files := s.files ++ [(id, s.nextName)], nextName := s.nextName + 1 }

def Store.deleteFile (s : Store) (id name : ℕ) : Store :=
  { s with files := s.files.filter (· ≠ (id, name)) }

/-- The `UPDATE` that names the file in the row. -/
def Store.nameFile (s : Store) (id name : ℕ) : Store :=
  { s with
    backups := s.backups.map fun b =>
      if b.id = id then { b with dumpFileName := some name, processed := true } else b }

/-! ### The calls -/

/-- The statements of `create`. -/
inductive CreateStage where
  | lock
  | canCreate
  | insert
  deriving DecidableEq

/-- The statements of `work_once` once a job is leased, with the user read by `perform`. -/
inductive WorkStage where
  | backup
  | account (user : ℕ)
  | archive (user : ℕ)
  | storeFile (user : ℕ)
  | nameFile (user name : ℕ)
  | older (user : ℕ)
  | deleteJob
  | retry
  deriving DecidableEq

inductive Destroyer where
  | building (id attempts : ℕ)
  | givingUp (id : ℕ)
  | vacuum
  deriving DecidableEq

inductive Call where
  | create (user : ℕ) (stage : CreateStage)
  | lease
  | work (id attempts : ℕ) (stage : WorkStage)
  | destroyRow (who : Destroyer) (id : ℕ) (rest : List ℕ)
  | destroyFile (who : Destroyer) (id name : ℕ) (rest : List ℕ)
  | vacuum (days : ℕ)
  deriving DecidableEq

/-- `vacuum` comes with the setting it reads; `wait` lets the time pass. -/
inductive Request where
  | create (user : ℕ)
  | workOnce
  | vacuum (days : ℤ)
  | wait (seconds : ℕ)

def enter (s : Store) : Request → Store × Option Call
  | .create user => (s, some (.create user .lock))
  | .workOnce => (s, some .lease)
  | .vacuum days => (s, if 0 < days then some (.vacuum days.toNat) else none)
  | .wait seconds => ({ s with now := s.now + seconds }, none)

/-- How `work_once` goes on after a statement that failed. -/
def failed (id attempts : ℕ) : Call :=
  if maxAttempts ≤ attempts then .destroyRow (.givingUp id) id [] else .work id attempts .retry

def destroyNext (who : Destroyer) : List ℕ → Option Call
  | id :: rest => some (.destroyRow who id rest)
  | [] =>
      match who with
      | .building id attempts => some (.work id attempts .deleteJob)
      | .givingUp _ => none
      | .vacuum => none

/-- A statement of `work_once` that is carried out. -/
def execWork (s : Store) (id attempts : ℕ) : WorkStage → Store × Option Call
  | .backup =>
      match (s.find id).bind (·.userId) with
      | none => (s, some (.work id attempts .deleteJob))
      | some user => (s, some (.work id attempts (.account user)))
  | .account user => (s, some (.work id attempts (.archive user)))
  | .archive user => (s, some (.work id attempts (.storeFile user)))
  | .storeFile user => (s.storeFile id, some (.work id attempts (.nameFile user s.nextName)))
  | .nameFile user name => (s.nameFile id name, some (.work id attempts (.older user)))
  | .older user =>
      (s, destroyNext (.building id attempts)
        ((s.backups.filter fun b => b.userId = some user ∧ b.id ≠ id).map (·.id)))
  | .deleteJob => (s.deleteJob id, none)
  | .retry => (s.retry id attempts, none)

/-- How `work_once` goes on where a statement fails: the last ones are outside `perform`. -/
def failWork (id attempts : ℕ) : WorkStage → Option Call
  | .deleteJob => none
  | .retry => none
  | _ => some (failed id attempts)

def exec (s : Store) : Call → Bool → Store × Option Call
  | .create user .lock, ok => (s, if ok then some (.create user .canCreate) else none)
  | .create user .canCreate, ok =>
      (s, if ok && s.canCreate user then some (.create user .insert) else none)
  | .create user .insert, ok => (if ok then s.insertBackup user else s, none)
  | .lease, ok =>
      match (if ok then s.picked else none) with
      | none => (s, none)
      | some j => (s.lease j.backupId, some (.work j.backupId (j.attempts + 1) .backup))
  | .work id attempts stage, ok =>
      if ok then execWork s id attempts stage else (s, failWork id attempts stage)
  | .destroyRow who id rest, ok =>
      if ok then
        match (s.find id).bind (·.dumpFileName) with
        | none => (s.deleteBackup id, destroyNext who rest)
        | some name => (s.deleteBackup id, some (.destroyFile who id name rest))
      else
        match who with
        | .building built attempts => (s, some (failed built attempts))
        | .givingUp _ => (s, none)
        | .vacuum => (s, none)
  | .destroyFile who id name rest, ok =>
      -- A refused deletion is only logged.
      (if ok then s.deleteFile id name else s, destroyNext who rest)
  | .vacuum days, ok =>
      (s, if ok then
        destroyNext .vacuum ((s.backups.filter (·.createdAt + days * day < s.now)).map (·.id))
      else none)

def machine : Machine Store Call Request Bool := ⟨enter, exec⟩

def start : Config Store Call := ⟨.empty, []⟩

/-! ### What takeout should do -/

/-- Every request is processed, its file in the store, or has a job still. -/
def Store.Kept (s : Store) : Prop :=
  ∀ b ∈ s.backups,
    (b.processed = true ∧ ∃ name, b.dumpFileName = some name ∧ (b.id, name) ∈ s.files) ∨
      ∃ j ∈ s.jobs, j.backupId = b.id

/-- Every file is the one a row names. -/
def Store.Tidy (s : Store) : Prop :=
  ∀ f ∈ s.files, ∃ b ∈ s.backups, b.id = f.1 ∧ b.dumpFileName = some f.2

def Call.builds : Call → Option ℕ
  | .work id _ _ => some id
  | .destroyRow (.building id _) _ _ => some id
  | .destroyRow (.givingUp id) _ _ => some id
  | .destroyFile (.building id _) _ _ _ => some id
  | .destroyFile (.givingUp id) _ _ _ => some id
  | _ => none

structure TakesOut (c : Config Store Call) (e : Event Request Bool) : Prop where
  kept : (machine.step c e).Quiescent → (machine.step c e).store.Kept
  tidy : (machine.step c e).Quiescent → (machine.step c e).store.Tidy
  newer : ∀ k ok call id, e = .advance k ok → c.calls[k]? = some call → call.builds = some id →
    ∀ b ∈ c.store.backups, id < b.id →
      ∃ b' ∈ (machine.step c e).store.backups, b'.id = b.id

/-! ### Statements that leave nothing behind -/

def Call.Unharmed (s : Store) (ok : Bool) : Call → Prop
  | .work id _ (.nameFile _ _) => ok = true ∧ ∃ b ∈ s.backups, b.id = id ∧ b.dumpFileName = none
  | .work id _ (.older user) =>
      ok = true → ∀ b ∈ s.backups, b.userId = some user → b.id ≤ id
  | .destroyFile _ _ _ _ => ok = true
  | _ => True

def guards : Guards Store Call Request Bool :=
  ⟨fun _ _ _ => True, fun s c _ ok => c.Unharmed s ok⟩

/-! ### The invariant -/

/-- What holds of the tables and the storage between any two statements. -/
structure Rows (s : Store) : Prop where
  lt : ∀ b ∈ s.backups, b.id < s.nextBackup
  nodup : (s.backups.map (·.id)).Nodup
  owned : ∀ b ∈ s.backups, b.userId ≠ none
  named : ∀ b ∈ s.backups, b.processed = true →
    ∃ name, b.dumpFileName = some name ∧ (b.id, name) ∈ s.files
  queued : ∀ b ∈ s.backups, b.processed = false → ∃ j ∈ s.jobs, j.backupId = b.id
  jobs_lt : ∀ j ∈ s.jobs, j.backupId < s.nextBackup

/-- The archive is processed if it is there at all. -/
def Store.Done (s : Store) (id : ℕ) : Prop :=
  id < s.nextBackup ∧ ∀ b ∈ s.backups, b.id = id → b.processed = true

def Destroyer.Sound (s : Store) (ids : List ℕ) : Destroyer → Prop
  | .building id _ => s.Done id ∧ ∀ i ∈ ids, i < id
  | .givingUp id => ∀ i ∈ ids, i = id
  | .vacuum => True

def Call.Sound (s : Store) : Call → Prop
  | .work id _ (.nameFile _ name) =>
      id < s.nextBackup ∧ ∀ b ∈ s.backups, b.id = id → (id, name) ∈ s.files
  | .work id _ (.older _) => s.Done id
  | .work id _ .deleteJob => s.Done id
  | .work id _ _ => id < s.nextBackup
  | .destroyRow who id rest => who.Sound s (id :: rest)
  | .destroyFile who id _ rest =>
      id < s.nextBackup ∧ (∀ b ∈ s.backups, b.id ≠ id) ∧ who.Sound s rest
  | _ => True

def Call.Holds (f : ℕ × ℕ) : Call → Prop
  | .work id _ (.nameFile _ name) => f = (id, name)
  | .destroyFile _ id name _ => f = (id, name)
  | _ => False

def Store.Names (s : Store) (f : ℕ × ℕ) : Prop :=
  ∃ b ∈ s.backups, b.id = f.1 ∧ b.dumpFileName = some f.2

structure Inv (s : Store) (calls : List Call) : Prop where
  rows : Rows s
  sound : ∀ c ∈ calls, c.Sound s
  files : ∀ f ∈ s.files, s.Names f ∨ ∃ c ∈ calls, c.Holds f

/-- What a statement does to what the calls in progress rely on. -/
structure Later (s t : Store) : Prop where
  next : s.nextBackup ≤ t.nextBackup
  backups : ∀ b' ∈ t.backups, b'.id < s.nextBackup →
    ∃ b ∈ s.backups, b.id = b'.id ∧ (b.processed = true → b'.processed = true)
  files : ∀ f ∈ s.files, (∃ b ∈ t.backups, b.id = f.1) → f ∈ t.files

section Kept
variable {s t : Store} {calls : List Call} {c : Call} {id : ℕ}

theorem Later.refl (s : Store) : Later s s :=
  ⟨le_rfl, fun b hb _ => ⟨b, hb, rfl, fun h => h⟩, fun _ hf _ => hf⟩

theorem Store.Done.later (h : s.Done id) (hl : Later s t) : t.Done id := by
  refine ⟨h.1.trans_le hl.next, fun b' hb' hid => ?_⟩
  obtain ⟨b, hb, heq, hprocessed⟩ := hl.backups b' hb' (hid ▸ h.1)
  exact hprocessed (h.2 b hb (heq.trans hid))

theorem Destroyer.Sound.later {who : Destroyer} {ids : List ℕ} (h : who.Sound s ids)
    (hl : Later s t) : who.Sound t ids := by
  cases who with
  | building id attempts => exact ⟨h.1.later hl, h.2⟩
  | givingUp id => exact h
  | vacuum => trivial

theorem Call.Sound.later (h : c.Sound s) (hl : Later s t) : c.Sound t := by
  cases c with
  | work id attempts stage =>
      cases stage with
      | nameFile user name =>
          refine ⟨h.1.trans_le hl.next, fun b' hb' hid => ?_⟩
          obtain ⟨b, hb, heq, -⟩ := hl.backups b' hb' (hid ▸ h.1)
          exact hl.files _ (h.2 b hb (heq.trans hid)) ⟨b', hb', hid⟩
      | older user => exact Store.Done.later h hl
      | deleteJob => exact Store.Done.later h hl
      | backup => exact lt_of_lt_of_le h hl.next
      | account user => exact lt_of_lt_of_le h hl.next
      | archive user => exact lt_of_lt_of_le h hl.next
      | storeFile user => exact lt_of_lt_of_le h hl.next
      | retry => exact lt_of_lt_of_le h hl.next
  | destroyRow who id rest => exact Destroyer.Sound.later h hl
  | destroyFile who id name rest =>
      refine ⟨h.1.trans_le hl.next, fun b' hb' hid => ?_, h.2.2.later hl⟩
      obtain ⟨b, hb, heq, -⟩ := hl.backups b' hb' (hid ▸ h.1)
      exact h.2.1 b hb (heq.trans hid)
  | create user stage => trivial
  | lease => trivial
  | vacuum days => trivial

theorem Inv.goOn {n : Option Call} (h : Inv s (c :: calls)) (hrows : Rows t) (hl : Later s t)
    (hnext : ∀ c' ∈ n, c'.Sound t)
    (hfiles : ∀ f ∈ t.files, t.Names f ∨ ∃ c' ∈ n.toList ++ calls, c'.Holds f) :
    Inv t (n.toList ++ calls) := by
  refine ⟨hrows, fun c' hc' => ?_, hfiles⟩
  cases List.mem_append.mp hc' with
  | inl hnew => exact hnext c' (Option.mem_toList.mp hnew)
  | inr hold => exact (h.sound c' (List.mem_cons_of_mem _ hold)).later hl

theorem Inv.quiet {n : Option Call} (h : Inv s (c :: calls)) (hrows : Rows t) (hl : Later s t)
    (hnext : ∀ c' ∈ n, c'.Sound t) (hholds : ∀ f, ¬c.Holds f) (hfiles : t.files = s.files)
    (hnames : ∀ f, s.Names f → t.Names f) : Inv t (n.toList ++ calls) := by
  refine h.goOn hrows hl hnext fun f hf => ?_
  rw [hfiles] at hf
  cases h.files f hf with
  | inl hnamed => exact .inl (hnames f hnamed)
  | inr hheld =>
      obtain ⟨c', hc', hc'f⟩ := hheld
      cases List.mem_cons.mp hc' with
      | inl hhead => exact absurd (hhead ▸ hc'f) (hholds f)
      | inr htail => exact .inr ⟨c', List.mem_append_right _ htail, hc'f⟩

theorem Inv.read {n : Option Call} (h : Inv s (c :: calls)) (hnext : ∀ c' ∈ n, c'.Sound s)
    (hholds : ∀ f, ¬c.Holds f) : Inv s (n.toList ++ calls) :=
  h.quiet h.rows (Later.refl s) hnext hholds rfl fun _ hf => hf

end Kept

section Operations
variable {s : Store} {id : ℕ}

theorem Rows.eq_of_id (h : Rows s) {b b' : Backup} (hb : b ∈ s.backups) (hb' : b' ∈ s.backups)
    (hid : b.id = b'.id) : b = b' :=
  List.inj_on_of_nodup_map h.nodup hb hb' hid

theorem find_eq_none (h : s.find id = none) : ∀ b ∈ s.backups, b.id ≠ id := by
  intro b hb hid
  exact absurd hid (of_decide_eq_false (by simpa using List.find?_eq_none.mp h b hb))

theorem find_eq_some {b : Backup} (h : s.find id = some b) : b ∈ s.backups ∧ b.id = id := by
  rw [Store.find] at h
  exact ⟨List.mem_of_find?_eq_some h, by simpa using List.find?_some h⟩

theorem Rows.insertBackup (h : Rows s) (user : ℕ) : Rows (s.insertBackup user) where
  lt := by
    intro b hb
    cases List.mem_append.mp hb with
    | inl hold => exact Nat.lt_succ_of_lt (h.lt b hold)
    | inr hlast =>
        rw [List.mem_singleton.mp hlast]
        exact Nat.lt_succ_self _
  nodup := by
    rw [Store.insertBackup, List.map_append, List.nodup_append]
    refine ⟨h.nodup, List.nodup_singleton _, fun i hi j hj => ?_⟩
    obtain ⟨b, hb, rfl⟩ := List.mem_map.mp hi
    rw [List.mem_singleton.mp hj]
    exact (h.lt b hb).ne
  owned := by
    intro b hb
    cases List.mem_append.mp hb with
    | inl hold => exact h.owned b hold
    | inr hlast =>
        rw [List.mem_singleton.mp hlast]
        exact Option.some_ne_none _
  named := by
    intro b hb hprocessed
    cases List.mem_append.mp hb with
    | inl hold => exact h.named b hold hprocessed
    | inr hlast =>
        rw [List.mem_singleton.mp hlast] at hprocessed
        cases hprocessed
  queued := by
    intro b hb hprocessed
    cases List.mem_append.mp hb with
    | inl hold =>
        obtain ⟨j, hj, hid⟩ := h.queued b hold hprocessed
        exact ⟨j, List.mem_append_left _ hj, hid⟩
    | inr hlast =>
        refine ⟨⟨s.nextBackup, 0, s.now, none⟩, List.mem_append_right _ List.mem_cons_self, ?_⟩
        rw [List.mem_singleton.mp hlast]
  jobs_lt := by
    intro j hj
    cases List.mem_append.mp hj with
    | inl hold => exact Nat.lt_succ_of_lt (h.jobs_lt j hold)
    | inr hlast =>
        rw [List.mem_singleton.mp hlast]
        exact Nat.lt_succ_self _

theorem later_insertBackup (s : Store) (user : ℕ) : Later s (s.insertBackup user) where
  next := Nat.le_succ _
  backups := by
    intro b hb hlt
    cases List.mem_append.mp hb with
    | inl hold => exact ⟨b, hold, rfl, fun h => h⟩
    | inr hlast =>
        rw [List.mem_singleton.mp hlast] at hlt
        exact absurd hlt (lt_irrefl _)
  files := fun _ hf _ => hf

theorem Rows.updateJob (h : Rows s) (id : ℕ) {f : Job → Job}
    (hf : ∀ j, (f j).backupId = j.backupId) : Rows (s.updateJob id f) := by
  have hkeep : ∀ j, (if j.backupId = id then f j else j).backupId = j.backupId := by
    intro j
    split_ifs
    · exact hf j
    · rfl
  refine { h with queued := ?_, jobs_lt := ?_ }
  · intro b hb hprocessed
    obtain ⟨j, hj, hid⟩ := h.queued b hb hprocessed
    exact ⟨_, List.mem_map_of_mem hj, (hkeep j).trans hid⟩
  · intro j hj
    obtain ⟨j', hj', rfl⟩ := List.mem_map.mp hj
    rw [hkeep]
    exact h.jobs_lt j' hj'

theorem later_updateJob (s : Store) (id : ℕ) (f : Job → Job) : Later s (s.updateJob id f) :=
  ⟨le_rfl, fun b hb _ => ⟨b, hb, rfl, fun h => h⟩, fun _ hf _ => hf⟩

theorem Rows.deleteJob (h : Rows s) (hdone : s.Done id) : Rows (s.deleteJob id) := by
  refine { h with
    queued := ?_
    jobs_lt := fun j hj => h.jobs_lt j (List.mem_of_mem_filter hj) }
  intro b hb hprocessed
  obtain ⟨j, hj, hid⟩ := h.queued b hb hprocessed
  refine ⟨j, List.mem_filter.mpr ⟨hj, decide_eq_true fun heq => ?_⟩, hid⟩
  rw [hdone.2 b hb (hid.symm.trans heq)] at hprocessed
  cases hprocessed

theorem later_deleteJob (s : Store) (id : ℕ) : Later s (s.deleteJob id) :=
  ⟨le_rfl, fun b hb _ => ⟨b, hb, rfl, fun h => h⟩, fun _ hf _ => hf⟩

theorem mem_deleteBackup {b : Backup} :
    b ∈ (s.deleteBackup id).backups ↔ b ∈ s.backups ∧ b.id ≠ id := by
  simp [Store.deleteBackup, List.mem_filter]

theorem Rows.deleteBackup (h : Rows s) (id : ℕ) : Rows (s.deleteBackup id) where
  lt := fun b hb => h.lt b (mem_deleteBackup.mp hb).1
  nodup := h.nodup.sublist (List.filter_sublist.map _)
  owned := fun b hb => h.owned b (mem_deleteBackup.mp hb).1
  named := fun b hb => h.named b (mem_deleteBackup.mp hb).1
  queued := by
    intro b hb hprocessed
    obtain ⟨hold, hne⟩ := mem_deleteBackup.mp hb
    obtain ⟨j, hj, hid⟩ := h.queued b hold hprocessed
    exact ⟨j, List.mem_filter.mpr ⟨hj, decide_eq_true (hid ▸ hne)⟩, hid⟩
  jobs_lt := fun j hj => h.jobs_lt j (List.mem_of_mem_filter hj)

theorem later_deleteBackup (s : Store) (id : ℕ) : Later s (s.deleteBackup id) :=
  ⟨le_rfl, fun b hb _ => ⟨b, (mem_deleteBackup.mp hb).1, rfl, fun h => h⟩, fun _ hf _ => hf⟩

theorem Rows.storeFile (h : Rows s) (id : ℕ) : Rows (s.storeFile id) := by
  refine { h with named := fun b hb hprocessed => ?_ }
  obtain ⟨name, hname, hfile⟩ := h.named b hb hprocessed
  exact ⟨name, hname, List.mem_append_left _ hfile⟩

theorem later_storeFile (s : Store) (id : ℕ) : Later s (s.storeFile id) :=
  ⟨le_rfl, fun b hb _ => ⟨b, hb, rfl, fun h => h⟩, fun _ hf _ => List.mem_append_left _ hf⟩

theorem Rows.deleteFile (h : Rows s) (hgone : ∀ b ∈ s.backups, b.id ≠ id) (name : ℕ) :
    Rows (s.deleteFile id name) := by
  refine { h with named := fun b hb hprocessed => ?_ }
  obtain ⟨n, hname, hfile⟩ := h.named b hb hprocessed
  refine ⟨n, hname, List.mem_filter.mpr ⟨hfile, decide_eq_true fun heq => ?_⟩⟩
  exact hgone b hb (congrArg Prod.fst heq)

theorem later_deleteFile (hgone : ∀ b ∈ s.backups, b.id ≠ id) (name : ℕ) :
    Later s (s.deleteFile id name) where
  next := le_rfl
  backups := fun b hb _ => ⟨b, hb, rfl, fun h => h⟩
  files := by
    rintro f hf ⟨b, hb, hid⟩
    refine List.mem_filter.mpr ⟨hf, decide_eq_true fun heq => ?_⟩
    exact hgone b hb (hid.trans (congrArg Prod.fst heq))

theorem mem_nameFile {name : ℕ} {b' : Backup} (hb' : b' ∈ (s.nameFile id name).backups) :
    ∃ b ∈ s.backups, b.id = b'.id ∧ b.userId = b'.userId ∧
      ((b.id ≠ id ∧ b' = b) ∨
        b.id = id ∧ b'.dumpFileName = some name ∧ b'.processed = true) := by
  obtain ⟨b, hb, rfl⟩ := List.mem_map.mp hb'
  refine ⟨b, hb, ?_⟩
  split_ifs with hid
  · exact ⟨rfl, rfl, .inr ⟨hid, rfl, rfl⟩⟩
  · exact ⟨rfl, rfl, .inl ⟨hid, rfl⟩⟩

theorem Rows.nameFile (h : Rows s) {name : ℕ}
    (hfile : ∀ b ∈ s.backups, b.id = id → (id, name) ∈ s.files) :
    Rows (s.nameFile id name) where
  lt := by
    intro b' hb'
    obtain ⟨b, hb, hid, -⟩ := mem_nameFile hb'
    exact hid ▸ h.lt b hb
  nodup := by
    have hids : (s.nameFile id name).backups.map (·.id) = s.backups.map (·.id) := by
      rw [Store.nameFile, List.map_map]
      apply List.map_congr_left
      intro b _
      dsimp only [Function.comp]
      split_ifs <;> rfl
    rw [hids]
    exact h.nodup
  owned := by
    intro b' hb'
    obtain ⟨b, hb, -, huser, -⟩ := mem_nameFile hb'
    exact huser ▸ h.owned b hb
  named := by
    intro b' hb' hprocessed
    obtain ⟨b, hb, hid, -, hcase⟩ := mem_nameFile hb'
    cases hcase with
    | inl hother => exact h.named b' (hother.2 ▸ hb) hprocessed
    | inr hthis => exact ⟨name, hthis.2.1, by rw [← hid, hthis.1]; exact hfile b hb hthis.1⟩
  queued := by
    intro b' hb' hprocessed
    obtain ⟨b, hb, -, -, hcase⟩ := mem_nameFile hb'
    cases hcase with
    | inl hother => exact h.queued b' (hother.2 ▸ hb) hprocessed
    | inr hthis =>
        rw [hthis.2.2] at hprocessed
        cases hprocessed
  jobs_lt := h.jobs_lt

theorem later_nameFile (s : Store) (id name : ℕ) : Later s (s.nameFile id name) where
  next := le_rfl
  backups := by
    intro b' hb' _
    obtain ⟨b, hb, hid, -, hcase⟩ := mem_nameFile hb'
    refine ⟨b, hb, hid, fun hprocessed => ?_⟩
    cases hcase with
    | inl hother => exact hother.2 ▸ hprocessed
    | inr hthis => exact hthis.2.2
  files := fun _ hf _ => hf

end Operations

section Steps
variable {s : Store} {calls : List Call} {id attempts : ℕ}

theorem sound_failed (h : id < s.nextBackup) : (failed id attempts).Sound s := by
  rw [failed]
  split_ifs
  · intro i hi
    exact List.mem_singleton.mp hi
  · exact h

theorem sound_destroyNext {who : Destroyer} {ids : List ℕ} (h : who.Sound s ids) :
    ∀ c ∈ destroyNext who ids, c.Sound s := by
  intro c hc
  cases ids with
  | cons i rest =>
      obtain rfl : Call.destroyRow who i rest = c := Option.some.inj hc
      exact h
  | nil =>
      cases who with
      | building built n =>
          obtain rfl : Call.work built n .deleteJob = c := Option.some.inj hc
          exact h.1
      | givingUp built => cases hc
      | vacuum => cases hc

theorem Call.Sound.asked {stage : WorkStage} (h : (Call.work id attempts stage).Sound s) :
    id < s.nextBackup := by
  cases stage with
  | nameFile user name => exact h.1
  | older user => exact h.1
  | deleteJob => exact h.1
  | backup => exact h
  | account user => exact h
  | archive user => exact h
  | storeFile user => exact h
  | retry => exact h

theorem sound_failWork {stage : WorkStage} (h : (Call.work id attempts stage).Sound s) :
    ∀ c ∈ failWork id attempts stage, c.Sound s := by
  intro c hc
  have hfailed : (failed id attempts).Sound s := sound_failed h.asked
  cases stage with
  | deleteJob => cases hc
  | retry => cases hc
  | _ =>
      obtain rfl : failed id attempts = c := Option.some.inj hc
      exact hfailed

theorem mem_some {c c' : Call} (h : c' ∈ some c) : c' = c := (Option.some.inj h).symm

theorem names_deleteBackup {f : ℕ × ℕ} (h : s.Names f) (hne : f.1 ≠ id) :
    (s.deleteBackup id).Names f := by
  obtain ⟨b, hb, hid, hname⟩ := h
  exact ⟨b, mem_deleteBackup.mpr ⟨hb, hid ▸ hne⟩, hid, hname⟩

theorem Inv.work {stage : WorkStage} (h : Inv s (.work id attempts stage :: calls))
    (hg : (Call.work id attempts stage).Unharmed s true) :
    Inv (execWork s id attempts stage).1 ((execWork s id attempts stage).2.toList ++ calls) := by
  have hsound := h.sound _ List.mem_cons_self
  have hasked := hsound.asked
  cases stage with
  | backup =>
      dsimp only [execWork]
      cases hfind : (s.find id).bind (·.userId) with
      | some user => exact h.read (fun c hc => mem_some hc ▸ hasked) fun _ hf => hf
      | none =>
          refine h.read (fun c hc => ?_) fun _ hf => hf
          rw [mem_some hc]
          refine ⟨hasked, fun b hb hid => ?_⟩
          cases hrow : s.find id with
          | none => exact absurd hid (find_eq_none hrow b hb)
          | some b' =>
              rw [hrow] at hfind
              exact absurd hfind (h.rows.owned b' (find_eq_some hrow).1)
  | account user => exact h.read (fun c hc => mem_some hc ▸ hasked) fun _ hf => hf
  | archive user => exact h.read (fun c hc => mem_some hc ▸ hasked) fun _ hf => hf
  | storeFile user =>
      refine h.goOn (h.rows.storeFile id) (later_storeFile s id) (fun c hc => ?_) fun f hf => ?_
      · rw [mem_some hc]
        exact ⟨hasked, fun _ _ _ => List.mem_append_right _ List.mem_cons_self⟩
      · cases List.mem_append.mp hf with
        | inr hlast => exact .inr ⟨_, List.mem_cons_self, List.mem_singleton.mp hlast⟩
        | inl hold =>
            cases h.files f hold with
            | inl hnamed => exact .inl hnamed
            | inr hheld =>
                obtain ⟨c, hc, hcf⟩ := hheld
                cases List.mem_cons.mp hc with
                | inl hhead =>
                    rw [hhead] at hcf
                    cases hcf
                | inr htail => exact .inr ⟨c, List.mem_cons_of_mem _ htail, hcf⟩
  | nameFile user name =>
      obtain ⟨-, b, hb, hid, hnone⟩ := hg
      refine h.goOn (h.rows.nameFile hsound.2) (later_nameFile s id name) (fun c hc => ?_)
        fun f hf => ?_
      · rw [mem_some hc]
        refine ⟨hasked, fun b' hb' hid' => ?_⟩
        obtain ⟨b₀, -, heq, -, hcase⟩ := mem_nameFile hb'
        cases hcase with
        | inl hother => exact absurd (heq.trans hid') hother.1
        | inr hthis => exact hthis.2.2
      · have hnew : (s.nameFile id name).Names (id, name) := by
          refine ⟨_, List.mem_map_of_mem hb, ?_, ?_⟩
          all_goals rw [if_pos hid]
          exact hid
        cases h.files f hf with
        | inl hnamed =>
            obtain ⟨b', hb', hid', hname⟩ := hnamed
            have hne : b'.id ≠ id := by
              intro heq
              rw [h.rows.eq_of_id hb' hb (heq.trans hid.symm), hnone] at hname
              cases hname
            refine .inl ⟨_, List.mem_map_of_mem hb', ?_, ?_⟩
            all_goals rw [if_neg hne]
            · exact hid'
            · exact hname
        | inr hheld =>
            obtain ⟨c, hc, hcf⟩ := hheld
            cases List.mem_cons.mp hc with
            | inl hhead =>
                have hf' : f = (id, name) := by
                  rw [hhead] at hcf
                  exact hcf
                exact .inl (hf' ▸ hnew)
            | inr htail => exact .inr ⟨c, List.mem_cons_of_mem _ htail, hcf⟩
  | older user =>
      refine h.read (sound_destroyNext ⟨hsound, fun i hi => ?_⟩) fun _ hf => hf
      obtain ⟨b, hb, rfl⟩ := List.mem_map.mp hi
      obtain ⟨hin, hother⟩ := List.mem_filter.mp hb
      obtain ⟨huser, hne⟩ := of_decide_eq_true hother
      exact lt_of_le_of_ne (hg rfl b hin huser) hne
  | deleteJob =>
      exact h.quiet (h.rows.deleteJob hsound) (later_deleteJob s id) (fun c hc => by cases hc)
        (fun _ hf => hf) rfl fun _ hf => hf
  | retry =>
      exact h.quiet (h.rows.updateJob id fun _ => rfl) (later_updateJob s id _)
        (fun c hc => by cases hc) (fun _ hf => hf) rfl fun _ hf => hf

theorem Inv.lease {j : Job} (h : Inv s (.lease :: calls)) (hpicked : s.picked = some j) :
    Inv (s.lease j.backupId) (.work j.backupId (j.attempts + 1) .backup :: calls) := by
  have hj : j ∈ s.jobs :=
    List.mem_of_mem_filter ((List.mem_insertionSort _).mp (List.mem_of_mem_head? hpicked))
  exact h.quiet (n := some _) (h.rows.updateJob _ fun _ => rfl) (later_updateJob s _ _)
    (fun c hc => mem_some hc ▸ h.rows.jobs_lt j hj) (fun _ hf => hf) rfl fun _ hf => hf

theorem Destroyer.Sound.tail {who : Destroyer} {rest : List ℕ} (h : who.Sound s (id :: rest)) :
    who.Sound s rest := by
  cases who with
  | building built n => exact ⟨h.1, fun i hi => h.2 i (List.mem_cons_of_mem _ hi)⟩
  | givingUp built => exact fun i hi => h i (List.mem_cons_of_mem _ hi)
  | vacuum => trivial

theorem Inv.destroyRow {who : Destroyer} {rest : List ℕ} {ok : Bool}
    (h : Inv s (.destroyRow who id rest :: calls)) :
    Inv (exec s (.destroyRow who id rest) ok).1
      ((exec s (.destroyRow who id rest) ok).2.toList ++ calls) := by
  have hsound : who.Sound s (id :: rest) := h.sound _ List.mem_cons_self
  have hlater := later_deleteBackup s id
  have hrest : who.Sound (s.deleteBackup id) rest := hsound.tail.later hlater
  cases ok with
  | false =>
      cases who with
      | building built n =>
          exact h.read (fun c hc => mem_some hc ▸ sound_failed hsound.1.1) fun _ hf => hf
      | givingUp built => exact h.read (fun c hc => by cases hc) fun _ hf => hf
      | vacuum => exact h.read (fun c hc => by cases hc) fun _ hf => hf
  | true =>
      -- A file that the row named is the one about to be deleted.
      have hkept : ∀ f ∈ s.files,
          (∀ b ∈ s.backups, b.id = id → b.id = f.1 → b.dumpFileName ≠ some f.2) →
          (s.deleteBackup id).Names f ∨ ∃ c ∈ calls, c.Holds f := by
        intro f hf hother
        cases h.files f hf with
        | inl hnamed =>
            obtain ⟨b, hb, hid, hname⟩ := hnamed
            refine .inl (names_deleteBackup ⟨b, hb, hid, hname⟩ fun heq => ?_)
            exact hother b hb (hid.trans heq) hid hname
        | inr hheld =>
            obtain ⟨c, hc, hcf⟩ := hheld
            cases List.mem_cons.mp hc with
            | inl hhead =>
                rw [hhead] at hcf
                cases hcf
            | inr htail => exact .inr ⟨c, htail, hcf⟩
      dsimp only [exec]
      rw [if_pos rfl]
      cases hname : (s.find id).bind (·.dumpFileName) with
      | none =>
          refine h.goOn (h.rows.deleteBackup id) hlater (sound_destroyNext hrest) fun f hf => ?_
          refine (hkept f hf fun b hb hid _ hsome => ?_).imp_right ?_
          · cases hrow : s.find id with
            | none => exact find_eq_none hrow b hb hid
            | some b' =>
                obtain ⟨hb', hid'⟩ := find_eq_some hrow
                rw [h.rows.eq_of_id hb hb' (hid.trans hid'.symm)] at hsome
                rw [hrow] at hname
                exact absurd (hsome.symm.trans hname) (Option.some_ne_none _)
          · exact fun hheld => hheld.imp fun c hc => ⟨List.mem_append_right _ hc.1, hc.2⟩
      | some name =>
          obtain ⟨b, hfind, hb⟩ := Option.bind_eq_some_iff.mp hname
          obtain ⟨hin, hid⟩ := find_eq_some hfind
          refine h.goOn (h.rows.deleteBackup id) hlater (fun c hc => ?_) fun f hf => ?_
          · rw [mem_some hc]
            refine ⟨?_, fun b' hb' => (mem_deleteBackup.mp hb').2, hrest⟩
            exact hid ▸ h.rows.lt b hin
          · by_cases hthis : f = (id, name)
            · exact .inr ⟨_, List.mem_cons_self, hthis⟩
            · refine (hkept f hf fun b' hb' hid' hfid hsome => hthis ?_).imp_right ?_
              · rw [h.rows.eq_of_id hb' hin (hid'.trans hid.symm), hb] at hsome
                exact Prod.ext (hfid.symm.trans hid') (Option.some.inj hsome).symm
              · exact fun hheld => hheld.imp fun c hc => ⟨List.mem_cons_of_mem _ hc.1, hc.2⟩

theorem Inv.destroyFile {who : Destroyer} {name : ℕ} {rest : List ℕ}
    (h : Inv s (.destroyFile who id name rest :: calls)) :
    Inv (s.deleteFile id name) ((destroyNext who rest).toList ++ calls) := by
  obtain ⟨-, hgone, hrest⟩ := h.sound _ List.mem_cons_self
  have hlater : Later s (s.deleteFile id name) := later_deleteFile hgone name
  refine h.goOn (h.rows.deleteFile hgone name) hlater
    (sound_destroyNext (hrest.later hlater)) fun f hf => ?_
  obtain ⟨hold, hne⟩ := List.mem_filter.mp hf
  cases h.files f hold with
  | inl hnamed => exact .inl hnamed
  | inr hheld =>
      obtain ⟨c, hc, hcf⟩ := hheld
      cases List.mem_cons.mp hc with
      | inl hhead =>
          rw [hhead] at hcf
          exact absurd (show f = (id, name) from hcf) (of_decide_eq_true hne)
      | inr htail => exact .inr ⟨c, List.mem_append_right _ htail, hcf⟩

theorem Inv.insertBackup {user : ℕ} {stage : CreateStage}
    (h : Inv s (.create user stage :: calls)) : Inv (s.insertBackup user) calls := by
  refine h.quiet (n := none) (h.rows.insertBackup user) (later_insertBackup s user)
    (fun c hc => by cases hc) (fun _ hf => hf) rfl ?_
  rintro f ⟨b, hb, hid, hname⟩
  exact ⟨b, List.mem_append_left _ hb, hid, hname⟩

theorem inv_invariant : GuardedInvariant machine Inv guards where
  perm := fun hp h =>
    ⟨h.rows, fun c hc => h.sound c (hp.mem_iff.mpr hc), fun f hf =>
      (h.files f hf).imp_right fun hheld => hheld.imp fun _ hc => ⟨hp.mem_iff.mp hc.1, hc.2⟩⟩
  enter := by
    intro s calls r h _
    have hnew : ∀ c : Call, c.Sound s → Inv s (c :: calls) := fun c hc =>
      ⟨h.rows, List.forall_mem_cons.mpr ⟨hc, h.sound⟩, fun f hf =>
        (h.files f hf).imp_right fun hheld =>
          hheld.imp fun _ hc => ⟨List.mem_cons_of_mem _ hc.1, hc.2⟩⟩
    cases r with
    | create user => exact hnew _ trivial
    | workOnce => exact hnew _ trivial
    | vacuum days =>
        dsimp only [machine, enter]
        split_ifs
        · exact hnew _ trivial
        · exact h
    | wait seconds =>
        have hl : Later s { s with now := s.now + seconds } :=
          ⟨le_rfl, fun b hb _ => ⟨b, hb, rfl, fun hp => hp⟩, fun _ hf _ => hf⟩
        exact ⟨{ h.rows with }, fun c hc => (h.sound c hc).later hl, h.files⟩
  exec := by
    intro s call calls ok h hg
    cases call with
    | create user stage =>
        cases stage with
        | lock =>
            dsimp only [machine, exec]
            split_ifs
            · exact h.read (fun c hc => mem_some hc ▸ trivial) fun _ hf => hf
            · exact h.read (fun c hc => by cases hc) fun _ hf => hf
        | canCreate =>
            dsimp only [machine, exec]
            split_ifs
            · exact h.read (fun c hc => mem_some hc ▸ trivial) fun _ hf => hf
            · exact h.read (fun c hc => by cases hc) fun _ hf => hf
        | insert =>
            dsimp only [machine, exec]
            split_ifs
            · exact h.insertBackup
            · exact h.read (fun c hc => by cases hc) fun _ hf => hf
    | lease =>
        dsimp only [machine, exec]
        split
        · exact h.read (fun c hc => by cases hc) fun _ hf => hf
        · next j hj =>
            cases ok with
            | true => exact h.lease hj
            | false => cases hj
    | work id attempts stage =>
        cases ok with
        | true => exact h.work hg
        | false =>
            refine h.read (sound_failWork (h.sound _ List.mem_cons_self)) fun f hf => ?_
            cases stage with
            | nameFile user name => cases hg.1
            | _ => exact hf
    | destroyRow who id rest => exact h.destroyRow
    | destroyFile who id name rest =>
        obtain rfl : ok = true := hg
        exact h.destroyFile
    | vacuum days =>
        dsimp only [machine, exec]
        split_ifs
        · exact h.read (sound_destroyNext trivial) fun _ hf => hf
        · exact h.read (fun c hc => by cases hc) fun _ hf => hf

end Steps

theorem inv_start : Inv start.store start.calls where
  rows := by
    refine ⟨?_, List.nodup_nil, ?_, ?_, ?_, ?_⟩
    all_goals
      intro b hb
      cases hb
  sound := by
    intro c hc
    cases hc
  files := by
    intro f hf
    cases hf

theorem Inv.kept {s : Store} {calls : List Call} (h : Inv s calls) : s.Kept := by
  intro b hb
  cases hprocessed : b.processed with
  | true => exact .inl ⟨rfl, h.rows.named b hb hprocessed⟩
  | false => exact .inr (h.rows.queued b hb hprocessed)

theorem Inv.tidy {s : Store} (h : Inv s []) : s.Tidy := by
  intro f hf
  refine (h.files f hf).resolve_right fun hheld => ?_
  obtain ⟨c, hc, -⟩ := hheld
  cases hc

/-! ### Takeout -/

theorem exec_backups (s : Store) (c : Call) (ok : Bool) {b : Backup} (hb : b ∈ s.backups) :
    (∃ b' ∈ (exec s c ok).1.backups, b'.id = b.id) ∨ ∃ who rest, c = .destroyRow who b.id rest := by
  have hsame : ∃ b' ∈ s.backups, b'.id = b.id := ⟨b, hb, rfl⟩
  cases c with
  | create user stage =>
      cases stage with
      | lock => exact .inl hsame
      | canCreate => exact .inl hsame
      | insert =>
          dsimp only [exec]
          split_ifs
          · exact .inl ⟨b, List.mem_append_left _ hb, rfl⟩
          · exact .inl hsame
  | lease =>
      dsimp only [exec]
      split <;> exact .inl hsame
  | work id attempts stage =>
      refine .inl ?_
      dsimp only [exec]
      split_ifs
      · cases stage with
        | nameFile user name =>
            refine ⟨_, List.mem_map_of_mem hb, ?_⟩
            split_ifs <;> rfl
        | backup =>
            dsimp only [execWork]
            split <;> exact hsame
        | _ => exact hsame
      · exact hsame
  | destroyRow who id rest =>
      by_cases hid : b.id = id
      · exact .inr ⟨who, rest, by rw [hid]⟩
      · refine .inl ?_
        have hstays : ∃ b' ∈ (s.deleteBackup id).backups, b'.id = b.id :=
          ⟨b, mem_deleteBackup.mpr ⟨hb, hid⟩, rfl⟩
        dsimp only [exec]
        split_ifs
        · split <;> exact hstays
        · split <;> exact hsame
  | destroyFile who id name rest =>
      dsimp only [exec]
      split_ifs <;> exact .inl hsame
  | vacuum days => exact .inl hsame

theorem Inv.takesOut {c : Config Store Call} {e : Event Request Bool}
    (h : Inv c.store c.calls) (hg : guards.meets c e) : TakesOut c e where
  kept := fun _ => (inv_invariant.step c e h hg).kept
  tidy := by
    intro hquiet
    have hafter := inv_invariant.step c e h hg
    rw [show (machine.step c e).calls = [] from hquiet] at hafter
    exact hafter.tidy
  newer := by
    intro k ok call id he hcall hbuilds b hb hlt
    subst he
    have hstore : (machine.step c (.advance k ok)).store = (exec c.store call ok).1 := by
      rw [Machine.step, hcall]
      rfl
    rw [hstore]
    refine (exec_backups c.store call ok hb).resolve_right fun hdestroys => ?_
    obtain ⟨who, rest, rfl⟩ := hdestroys
    have hsound : who.Sound c.store (b.id :: rest) := h.sound _ (List.mem_of_getElem? hcall)
    cases who with
    | building built attempts =>
        obtain rfl : built = id := Option.some.inj hbuilds
        have hold := hsound.2 b.id List.mem_cons_self
        omega
    | givingUp built =>
        obtain rfl : built = id := Option.some.inj hbuilds
        have hself := hsound b.id List.mem_cons_self
        omega
    | vacuum => cases hbuilds

/-- In every interleaving whose statements leave nothing behind, no request is lost, no file
is stray, and no archive is destroyed by the building of one asked for before it. -/
theorem takeout_kept (es : List (Event Request Bool))
    (h : Guarded machine.step guards.meets start es) : Guarded machine.step TakesOut start es :=
  guarded_of_invariant (P := fun c => Inv c.store c.calls) inv_invariant.step
    (fun _ _ hinv hg => hinv.takesOut hg) start es inv_start h

/-! ### Two archives -/

instance (s : Store) (ok : Bool) : (c : Call) → Decidable (c.Unharmed s ok)
  | .work _ _ .backup => inferInstanceAs (Decidable True)
  | .work _ _ (.account _) => inferInstanceAs (Decidable True)
  | .work _ _ (.archive _) => inferInstanceAs (Decidable True)
  | .work _ _ (.storeFile _) => inferInstanceAs (Decidable True)
  | .work id _ (.nameFile _ _) =>
      inferInstanceAs (Decidable (ok = true ∧ ∃ b ∈ s.backups, b.id = id ∧ b.dumpFileName = none))
  | .work id _ (.older user) =>
      inferInstanceAs (Decidable (ok = true → ∀ b ∈ s.backups, b.userId = some user → b.id ≤ id))
  | .work _ _ .deleteJob => inferInstanceAs (Decidable True)
  | .work _ _ .retry => inferInstanceAs (Decidable True)
  | .create _ _ => inferInstanceAs (Decidable True)
  | .lease => inferInstanceAs (Decidable True)
  | .destroyRow _ _ _ => inferInstanceAs (Decidable True)
  | .destroyFile _ _ _ _ => inferInstanceAs (Decidable (ok = true))
  | .vacuum _ => inferInstanceAs (Decidable True)

instance (c : Config Store Call) : (e : Event Request Bool) → Decidable (guards.meets c e)
  | .request _ => inferInstanceAs (Decidable True)
  | .advance k ok =>
      match h : c.calls[k]? with
      | none => isTrue (by rw [Guards.meets, h]; trivial)
      | some call => decidable_of_iff (call.Unharmed c.store ok) (by rw [Guards.meets, h]; rfl)

/-- The next statement of the first call, as often as this, carried out. -/
def advances (times : ℕ) : List (Event Request Bool) := List.replicate times (.advance 0 true)

def requested (user : ℕ) : List (Event Request Bool) := .request (.create user) :: advances 3

example : (run machine.step start (requested 1)).store.backups.map (·.id) = [0] := by
  decide +kernel

/-- One archive after the other, a week apart: the second destroys the first. -/
def inTurn : List (Event Request Bool) :=
  requested 1 ++ .request .workOnce :: advances 8 ++ .request (.wait (7 * day)) ::
    requested 1 ++ .request .workOnce :: advances 10

theorem kept_inTurn :
    Guarded machine.step TakesOut start inTurn ∧ (run machine.step start inTurn).calls = [] ∧
      (run machine.step start inTurn).store.backups = [⟨1, some 1, 7 * day, some 1, true⟩] ∧
      (run machine.step start inTurn).store.files = [(1, 1)] :=
  ⟨takeout_kept inTurn (by decide +kernel), by decide +kernel, by decide +kernel,
    by decide +kernel⟩

/-- The statement that names the file fails, and the archive is built once more. -/
def namedTwice : List (Event Request Bool) :=
  requested 1 ++ .request .workOnce :: advances 5 ++ .advance 0 false :: advances 1 ++
    .request (.wait 60) :: .request .workOnce :: advances 7

/-- A second archive is asked for a week after the first, and then the first is built. -/
def builtLate : List (Event Request Bool) :=
  requested 1 ++ .request (.wait (7 * day)) :: requested 1 ++ .request .workOnce :: advances 7

theorem stray_and_lost :
    ((run machine.step start (namedTwice ++ advances 1)).calls = [] ∧
      (run machine.step start (namedTwice ++ advances 1)).store.files = [(0, 0), (0, 1)] ∧
      (run machine.step start (namedTwice ++ advances 1)).store.backups =
        [⟨0, some 1, 0, some 1, true⟩] ∧
      ¬Guarded machine.step TakesOut start (namedTwice ++ advances 1)) ∧
    (run machine.step start builtLate).calls = [.destroyRow (.building 0 1) 1 []] ∧
      (run machine.step start builtLate).store.backups.map (·.id) = [0, 1] ∧
      (run machine.step start (builtLate ++ advances 1)).store.backups.map (·.id) = [0] ∧
      ¬Guarded machine.step TakesOut start (builtLate ++ advances 1) := by
  have hcalls : (run machine.step start (namedTwice ++ advances 1)).calls = [] := by
    decide +kernel
  have hfiles : (run machine.step start (namedTwice ++ advances 1)).store.files =
      [(0, 0), (0, 1)] := by decide +kernel
  have hrow : (run machine.step start (namedTwice ++ advances 1)).store.backups =
      [⟨0, some 1, 0, some 1, true⟩] := by decide +kernel
  have hlast : (run machine.step start builtLate).calls =
      [.destroyRow (.building 0 1) 1 []] := by decide +kernel
  have hbefore : (run machine.step start builtLate).store.backups.map (·.id) = [0, 1] := by
    decide +kernel
  have hafter : (run machine.step start (builtLate ++ advances 1)).store.backups.map (·.id) =
      [0] := by decide +kernel
  refine ⟨⟨hcalls, hfiles, hrow, fun h => ?_⟩, hlast, hbefore, hafter, fun h => ?_⟩
  · have htidy := (((guarded_append _ _ _).mp h).2.1).tidy
    rw [run_append] at hcalls hfiles hrow
    obtain ⟨b, hb, -, hname⟩ := htidy hcalls (0, 0) (by
      change (0, 0) ∈ (run machine.step (run machine.step start namedTwice)
        (advances 1)).store.files
      rw [hfiles]
      exact List.mem_cons_self)
    change b ∈ (run machine.step (run machine.step start namedTwice)
      (advances 1)).store.backups at hb
    rw [hrow, List.mem_singleton] at hb
    rw [hb] at hname
    cases hname
  · have hnewer := (((guarded_append _ _ _).mp h).2.1).newer 0 true _ 0 rfl
      (by rw [hlast]; rfl) rfl
    obtain ⟨b, hb, hid⟩ := List.mem_map.mp (show 1 ∈ (run machine.step start
      builtLate).store.backups.map (·.id) by rw [hbefore]; simp)
    obtain ⟨b', hb', hid'⟩ := hnewer b hb (by omega)
    rw [run_append] at hafter
    have hmem : b'.id ∈ (run machine.step (run machine.step start builtLate)
        (advances 1)).store.backups.map (·.id) := List.mem_map_of_mem hb'
    rw [hafter, List.mem_singleton] at hmem
    omega

end Eunha.Backups
